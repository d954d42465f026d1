import GoSite.PluginLifecycle

/-!
# One version moves

A lifecycle operation works on the row of one version at a time. `Moves` names
that row and says that the rows of all other versions are as they were.
-/
namespace GoSite.Plugin

def World.stateOf (w : World) (key : Key) : Option PluginState :=
  (w.registry.find key.1 key.2).map PluginVersion.state

theorem Registry.find_zero (g : Registry) :
    g.find PluginVersion.zero.key.1 PluginVersion.zero.key.2 = none := by
  cases h : g.find PluginVersion.zero.key.1 PluginVersion.zero.key.2 with
  | none => rfl
  | some p =>
      have hkey := Registry.find_key h
      have hid : p.pluginID = "" := congrArg Prod.fst hkey
      exact absurd hid (g.identified p (Registry.find_mem h)).1

theorem Registry.otherEnabled_iff {g : Registry} {key : Key} :
    g.OtherEnabled key ↔
      ∃ k p, k.1 = key.1 ∧ k ≠ key ∧ g.find k.1 k.2 = some p ∧ p.state = .enabled := by
  constructor
  · rintro ⟨p, hp, hid, hver, hen⟩
    refine ⟨p.key, p, hid, ?_, Registry.find_of_mem hp, hen⟩
    intro hkey
    exact hver (congrArg Prod.snd hkey)
  · rintro ⟨k, p, hid, hne, hfind, hen⟩
    have hkey := Registry.find_key hfind
    refine ⟨p, Registry.find_mem hfind, ?_, ?_, hen⟩
    · exact (congrArg Prod.fst hkey).trans hid
    · intro hver
      exact hne (Prod.ext hid ((congrArg Prod.snd hkey).symm.trans hver))

theorem Registry.not_otherEnabled {g : Registry} {p : PluginVersion} (hp : p ∈ g.rows)
    (hen : p.state = .enabled) : ¬ g.OtherEnabled p.key := by
  rintro ⟨q, hq, hid, hver, hqen⟩
  exact hver (g.one_enabled q hq p hp hqen hen hid)

/-- The version `key` has the row `p`. Every other row is as it was in `w₀`. -/
structure World.Moves (w₀ w : World) (key : Key) (p : PluginVersion) : Prop where
  find_eq : w.registry.find key.1 key.2 = some p
  find_other : ∀ k ≠ key, w.registry.find k.1 k.2 = w₀.registry.find k.1 k.2

section
variable {w₀ w : World} {key : Key} {p : PluginVersion}

theorem World.Moves.key_eq (h : World.Moves w₀ w key p) : p.key = key :=
  Registry.find_key h.find_eq

theorem World.Moves.key_ne_zero (h : World.Moves w₀ w key p) :
    key ≠ PluginVersion.zero.key := by
  rintro rfl
  have hfind := h.find_eq
  rw [Registry.find_zero] at hfind
  exact absurd hfind (by simp)

theorem World.Moves.stateOf_eq (h : World.Moves w₀ w key p) :
    w.stateOf key = some p.state := by
  simp [World.stateOf, h.find_eq]

theorem World.Moves.stateOf_other (h : World.Moves w₀ w key p) {k : Key} (hk : k ≠ key) :
    w.stateOf k = w₀.stateOf k := by
  simp [World.stateOf, h.find_other k hk]

theorem World.Moves.otherEnabled_iff (h : World.Moves w₀ w key p) :
    w.registry.OtherEnabled key ↔ w₀.registry.OtherEnabled key := by
  simp only [Registry.otherEnabled_iff]
  constructor
  · rintro ⟨k, q, hid, hne, hfind, hen⟩
    exact ⟨k, q, hid, hne, h.find_other k hne ▸ hfind, hen⟩
  · rintro ⟨k, q, hid, hne, hfind, hen⟩
    exact ⟨k, q, hid, hne, (h.find_other k hne).symm ▸ hfind, hen⟩

/-- A write on the row that the unique index lets through. -/
theorem World.Moves.write (h : World.Moves w₀ w key p) (context : String)
    (state : PluginState) (fc fm : String)
    (hfree : state = .enabled → ¬ w₀.registry.OtherEnabled key) :
    ∃ g, w.write none context p.key state fc fm =
        ({ w with registry := g }, p.withState state fc fm, none) ∧
      World.Moves w₀ { w with registry := g } key (p.withState state fc fm) := by
  have hsome : (w.registry.update key state fc fm).isSome := by
    rw [Registry.update_isSome_iff h.find_eq, h.otherEnabled_iff]
    exact hfree
  obtain ⟨g, hg⟩ := Option.isSome_iff_exists.mp hsome
  have hfind : g.find key.1 key.2 = some (p.withState state fc fm) := by
    rw [Registry.find_update hg key, h.find_eq]
    simp
  refine ⟨g, ?_, hfind, ?_⟩
  · simp only [World.write, h.key_eq, hg, hfind]
  · intro k hk
    rw [← h.find_other k hk, Registry.find_update hg k]
    cases w.registry.find k.1 k.2 <;> simp [hk]

/-- A stop touches no row. -/
theorem World.Moves.stop (h : World.Moves w₀ w key p) (fault : Option String)
    (record : PluginVersion) :
    ∃ w', w.stop fault record = (w', fault) ∧ World.Moves w₀ w' key p := by
  cases fault with
  | some e => exact ⟨w, rfl, h⟩
  | none => exact ⟨_, rfl, h.find_eq, h.find_other⟩

/-- The write of `enabled` that fails, by itself or on the unique index. -/
theorem World.Moves.markEnabled_fails (h : World.Moves w₀ w key p) (fault : Option String)
    (hbad : fault ≠ none ∨ w₀.registry.OtherEnabled key) :
    ∃ e, w.setState fault p .enabled = (w, .zero, some e) := by
  cases hfault : fault with
  | some e => exact ⟨_, rfl⟩
  | none =>
      have hother : w.registry.OtherEnabled key := by
        rw [h.otherEnabled_iff]
        simpa [hfault] using hbad
      have hnone : w.registry.update key .enabled "" "" = none := by
        by_contra hsome
        rw [← ne_eq, ← Option.isSome_iff_ne_none, Registry.update_isSome_iff h.find_eq] at hsome
        exact hsome rfl hother
      refine ⟨"set plugin state: " ++ uniqueIndexError, ?_⟩
      simp only [World.setState, World.write, h.key_eq, hnone]
      rfl

end

/-- A write leaves a row alone or changes its state, and only where it has the
key written. -/
theorem write_find (w : World) (fault : Option String) (context : String) (key k : Key)
    (state : PluginState) (fc fm : String) :
    (w.write fault context key state fc fm).1.registry.find k.1 k.2 =
        w.registry.find k.1 k.2 ∨
      k = key ∧ ∃ p, w.registry.find k.1 k.2 = some p ∧
        (w.write fault context key state fc fm).1.registry.find k.1 k.2 =
          some (p.withState state fc fm) := by
  cases fault with
  | some e => exact .inl rfl
  | none =>
      cases hg : w.registry.update key state fc fm with
      | none => exact .inl (by simp only [World.write, hg])
      | some g =>
          have hreg : (w.write none context key state fc fm).1.registry = g := by
            simp only [World.write, hg]
            split <;> rfl
          rw [hreg, Registry.find_update hg k]
          by_cases hk : k = key
          · cases hrow : w.registry.find k.1 k.2 with
            | none => exact .inl rfl
            | some p => exact .inr ⟨hk, p, rfl, by simp [hk]⟩
          · left
            cases w.registry.find k.1 k.2 <;> simp [hk]

theorem write_find_other (w : World) (fault : Option String) (context : String) {key k : Key}
    (hk : k ≠ key) (state : PluginState) (fc fm : String) :
    (w.write fault context key state fc fm).1.registry.find k.1 k.2 =
      w.registry.find k.1 k.2 :=
  (write_find w fault context key k state fc fm).resolve_right fun h => hk h.1

/-- A write on the zero record reaches no row at all. -/
theorem write_find_zero (w : World) (fault : Option String) (context : String) (k : Key)
    (state : PluginState) (fc fm : String) :
    (w.write fault context PluginVersion.zero.key state fc fm).1.registry.find k.1 k.2 =
      w.registry.find k.1 k.2 := by
  refine (write_find w fault context _ k state fc fm).resolve_right ?_
  rintro ⟨rfl, p, hp, -⟩
  rw [Registry.find_zero] at hp
  cases hp

theorem write_stateOf (w : World) (fault : Option String) (context : String) (key k : Key)
    (state : PluginState) (fc fm : String) :
    (w.write fault context key state fc fm).1.stateOf k = w.stateOf k ∨
      k = key ∧ (w.write fault context key state fc fm).1.stateOf k = some state := by
  unfold World.stateOf
  rcases write_find w fault context key k state fc fm with h | ⟨hk, p, -, h⟩
  · exact .inl (by rw [h])
  · exact .inr ⟨hk, by rw [h]; rfl⟩

theorem write_targets (w : World) (fault : Option String) (context : String) (key : Key)
    (state : PluginState) (fc fm : String) :
    (w.write fault context key state fc fm).1.targets = w.targets := by
  unfold World.write
  cases fault with
  | some e => rfl
  | none =>
      cases w.registry.update key state fc fm with
      | none => rfl
      | some g => cases hrow : g.find key.1 key.2 <;> simp only [hrow]

/-- A failure recorded for the zero record reaches no row. -/
theorem setFailure_zero (w : World) (fault : Option String) (state : PluginState)
    (fc fm : String) :
    ∃ g failed, w.setFailure fault .zero state fc fm = ({ w with registry := g }, failed) ∧
      ∀ k : Key, g.find k.1 k.2 = w.registry.find k.1 k.2 := by
  have hfind := Registry.find_zero
  cases fault with
  | some e => exact ⟨w.registry, .zero, rfl, fun k => rfl⟩
  | none =>
      cases hg : w.registry.update PluginVersion.zero.key state fc fm with
      | none =>
          exact ⟨w.registry, .zero, by simp only [World.setFailure, World.write, hg],
            fun k => rfl⟩
      | some g =>
          refine ⟨g, .zero, by simp only [World.setFailure, World.write, hg, hfind], ?_⟩
          intro k
          rw [Registry.find_update hg k]
          by_cases hk : k = PluginVersion.zero.key
          · rw [hk, Registry.find_zero]
            rfl
          · simp [hk]

/-- A recorded failure only looks at the key of the record. -/
theorem setFailure_of_key {w : World} {a b : PluginVersion} (hkey : a.key = b.key)
    (fault : Option String) (state : PluginState) (fc fm : String) :
    w.setFailure fault a state fc fm = w.setFailure fault b state fc fm := by
  simp only [World.setFailure, hkey]

/-- What `Enable` finds is a row of the registry. -/
theorem findInstallable_find {g : Registry} {pluginID version : String} {p : PluginVersion}
    (h : findInstallable g pluginID version = some p) :
    g.find p.pluginID p.version = some p := by
  apply Registry.find_of_mem
  unfold findInstallable at h
  split_ifs at h with hblank
  · have hmem := List.mem_of_head? h
    simp only [List.mem_mergeSort, Registry.listInstallable, List.mem_filter] at hmem
    exact hmem.1
  · exact Registry.find_mem (k := (pluginID, version)) h

theorem findForEnable_eq_ok_iff {g : Registry} {pluginID version : String} {p : PluginVersion} :
    findForEnable g pluginID version = .ok p ↔ findInstallable g pluginID version = some p := by
  unfold findForEnable
  cases findInstallable g pluginID version <;> simp

theorem enableCheck_state {s : Service} {p : PluginVersion} (h : s.enableCheck p = none) :
    p.state = .installed ∨ p.state = .enableFailed := by
  by_contra hstate
  obtain ⟨hinst, hfailed⟩ := not_or.mp hstate
  unfold Service.enableCheck at h
  simp only [hinst, hfailed, ne_eq, not_false_eq_true, and_self, if_true, false_and,
    if_false] at h
  split_ifs at h

theorem switchCheck_state {s : Service} {p : PluginVersion} (h : s.switchCheck p = none) :
    p.state = .installed ∨ p.state = .enableFailed := by
  by_contra hstate
  obtain ⟨hinst, hfailed⟩ := not_or.mp hstate
  unfold Service.switchCheck at h
  split at h
  · cases h
  · simp [hinst, hfailed] at h

/-- Once the current version is installed again, the target of a switch is found
as it was and no version of the plugin is enabled. -/
theorem World.Moves.switch_target {w₀ w : World} {pluginID version : String}
    {current target q : PluginVersion}
    (hcurrent : w₀.registry.findEnabled pluginID = some current)
    (htarget : w₀.registry.find pluginID version = some target)
    (hver : current.version ≠ version) (h : World.Moves w₀ w current.key q)
    (hq : q.state = .installed) :
    findForEnable w.registry pluginID version = .ok target ∧
      ¬ w.registry.OtherEnabled target.key := by
  obtain ⟨hid, hcen, hcrow⟩ := Registry.findEnabled_spec hcurrent
  have hkey : target.key = (pluginID, version) :=
    Registry.find_key (k := (pluginID, version)) htarget
  refine ⟨?_, ?_⟩
  · have hfound : w.registry.find pluginID version = some target := by
      rw [← htarget]
      apply h.find_other (pluginID, version)
      intro he
      exact hver (congrArg Prod.snd he).symm
    have hblank : GoStrings.trimSpace version ≠ "" := by
      have hmem := Registry.find_mem (k := (pluginID, version)) htarget
      have hv : target.version = version := congrArg Prod.snd hkey
      exact hv ▸ (w₀.registry.identified target hmem).2
    rw [findForEnable_eq_ok_iff, findInstallable, if_neg hblank, hfound]
  · rw [Registry.otherEnabled_iff, hkey]
    rintro ⟨k, p, hkid, -, hfound, hen⟩
    by_cases hk : k = current.key
    · rw [hk, h.find_eq, Option.some.injEq] at hfound
      rw [← hfound, hq] at hen
      cases hen
    · rw [h.find_other k hk] at hfound
      have hpkey := Registry.find_key hfound
      have hcur := Registry.find_mem (k := current.key) hcrow
      have hpid : p.pluginID = current.pluginID :=
        ((congrArg Prod.fst hpkey).trans hkid).trans hid.symm
      have hsame := w₀.registry.one_enabled p (Registry.find_mem hfound) current hcur hen
        hcen hpid
      exact hk (hpkey.symm.trans (Prod.ext hpid hsame))

end GoSite.Plugin
