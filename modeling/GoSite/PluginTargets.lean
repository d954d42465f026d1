import GoSite.PluginSettled

/-!
# What the dispatcher knows

An operation works on one version at a time, whatever calls fail. `Follows` adds
to `Moves` what the dispatcher knows: the other versions are its targets exactly
when they are enabled.
-/
namespace GoSite.Plugin

/-- The versions the dispatcher calls. -/
def World.targetKeys (w : World) : List Key := w.targets.map PluginVersion.key

/-- The dispatcher's targets are the enabled rows. -/
def World.TargetsAgree (w : World) : Prop :=
  ∀ key, key ∈ w.targetKeys ↔ w.stateOf key = some .enabled

/-- A world that moves one version, which is a target when `on` says so. -/
structure World.Follows (w₀ w : World) (key : Key) (p : PluginVersion) (on : Prop) : Prop extends
    World.Moves w₀ w key p where
  target_iff : key ∈ w.targetKeys ↔ on
  target_other : ∀ k ≠ key, k ∈ w.targetKeys ↔ w₀.stateOf k = some .enabled

theorem World.TargetsAgree.follows {w : World} (hw : w.TargetsAgree) {k : Key}
    {p : PluginVersion} (hp : w.registry.find k.1 k.2 = some p) :
    World.Follows w w k p (p.state = .enabled) where
  find_eq := hp
  find_other _ _ := rfl
  target_iff := by simp [hw k, World.stateOf, hp]
  target_other k' _ := hw k'

section
variable {w₀ w : World} {key : Key} {p : PluginVersion} {on : Prop}

/-- The targets agree again exactly when they agree on the version that moved. -/
theorem World.Follows.agree_iff (h : World.Follows w₀ w key p on) :
    w.TargetsAgree ↔ (on ↔ p.state = .enabled) := by
  constructor
  · intro hw
    rw [← h.target_iff, hw key, h.stateOf_eq, Option.some.injEq]
  · intro hon k
    by_cases hk : k = key
    · subst hk
      rw [h.target_iff, hon, h.stateOf_eq, Option.some.injEq]
    · rw [h.target_other k hk, h.stateOf_other hk]

/-- A world with the same registry and the same targets follows as well. -/
theorem World.Follows.of_same (h : World.Follows w₀ w key p on) {w' : World}
    (hreg : w'.registry = w.registry) (htargets : w'.targets = w.targets) :
    World.Follows w₀ w' key p on where
  find_eq := by rw [hreg]; exact h.find_eq
  find_other k hk := by rw [hreg]; exact h.find_other k hk
  target_iff := by unfold World.targetKeys; rw [htargets]; exact h.target_iff
  target_other k hk := by unfold World.targetKeys; rw [htargets]; exact h.target_other k hk

/-- A write on the row that the unique index lets through. -/
theorem World.Follows.write (h : World.Follows w₀ w key p on) (context : String)
    (state : PluginState) (fc fm : String)
    (hfree : state = .enabled → ¬ w₀.registry.OtherEnabled key) :
    ∃ w', w.write none context p.key state fc fm = (w', p.withState state fc fm, none) ∧
      World.Follows w₀ w' key (p.withState state fc fm) on := by
  obtain ⟨g, hg, hm⟩ := h.toMoves.write context state fc fm hfree
  exact ⟨_, hg, hm, h.target_iff, h.target_other⟩

theorem World.Follows.setState (h : World.Follows w₀ w key p on) (state : PluginState)
    (hfree : state = .enabled → ¬ w₀.registry.OtherEnabled key) :
    ∃ w', w.setState none p state = (w', p.withState state "" "", none) ∧
      World.Follows w₀ w' key (p.withState state "" "") on :=
  h.write _ state "" "" hfree

/-- A recorded failure, or the row as it was when the record fails. -/
theorem World.Follows.setFailure (h : World.Follows w₀ w key p on) (fault : Option String)
    (state : PluginState) (fc fm : String)
    (hfree : state = .enabled → ¬ w₀.registry.OtherEnabled key) :
    ∃ w' failed, w.setFailure fault p state fc fm = (w', failed) ∧
      World.Follows w₀ w' key (if fault = none then p.withState state fc fm else p) on := by
  cases fault with
  | some e => exact ⟨w, .zero, rfl, h⟩
  | none =>
      obtain ⟨w', hw', hh⟩ := h.write "set plugin state" state fc fm hfree
      exact ⟨w', p.withState state fc fm, by simp only [World.setFailure, hw'], hh⟩

theorem World.Follows.setFailure_zero (h : World.Follows w₀ w key p on) (fault : Option String)
    (state : PluginState) (fc fm : String) :
    ∃ w' failed, w.setFailure fault .zero state fc fm = (w', failed) ∧
      World.Follows w₀ w' key p on := by
  obtain ⟨g, failed, hg, hsame⟩ := GoSite.Plugin.setFailure_zero w fault state fc fm
  refine ⟨_, failed, hg, ⟨(hsame key).trans h.find_eq, ?_⟩, h.target_iff, h.target_other⟩
  intro k hk
  exact (hsame k).trans (h.find_other k hk)

theorem World.Follows.start (h : World.Follows w₀ w key p on) (fault : Option String) :
    ∃ w', w.start fault p = (w', fault) ∧ World.Follows w₀ w' key p on := by
  cases fault with
  | some e => exact ⟨w, rfl, h⟩
  | none => exact ⟨_, rfl, h.of_same rfl rfl⟩

theorem World.Follows.stop (h : World.Follows w₀ w key p on) (fault : Option String) :
    ∃ w', w.stop fault p = (w', fault) ∧ World.Follows w₀ w' key p on := by
  cases fault with
  | some e => exact ⟨w, rfl, h⟩
  | none => exact ⟨_, rfl, h.of_same rfl rfl⟩

theorem World.Follows.stop_zero (h : World.Follows w₀ w key p on) (fault : Option String) :
    ∃ w', w.stop fault .zero = (w', fault) ∧ World.Follows w₀ w' key p on := by
  cases fault with
  | some e => exact ⟨w, rfl, h⟩
  | none => exact ⟨_, rfl, h.of_same rfl rfl⟩

theorem mem_targetKeys_refreshEnabled (w : World) (k : Key) :
    k ∈ (w.refreshEnabled none).1.targetKeys ↔ w.stateOf k = some .enabled := by
  simp only [World.targetKeys, World.refreshEnabled, List.mem_map, List.mem_mergeSort,
    Registry.listEnabled, List.mem_filter, decide_eq_true_eq]
  constructor
  · rintro ⟨q, ⟨hq, hen⟩, rfl⟩
    have hfind := Registry.find_of_mem hq
    simp [World.stateOf, PluginVersion.key, hfind, hen]
  · intro hstate
    obtain ⟨q, hq, hen⟩ := Option.map_eq_some_iff.mp hstate
    exact ⟨q, ⟨Registry.find_mem hq, hen⟩, Registry.find_key hq⟩

/-- After a refresh the version is a target when its row is enabled. -/
theorem World.Follows.refreshEnabled (h : World.Follows w₀ w key p on) (fault : Option String) :
    ∃ w', w.refreshEnabled fault = (w', fault) ∧
      World.Follows w₀ w' key p (if fault = none then p.state = .enabled else on) := by
  cases fault with
  | some e => exact ⟨w, rfl, h⟩
  | none =>
      refine ⟨(w.refreshEnabled none).1, rfl, ⟨h.find_eq, h.find_other⟩, ?_, ?_⟩
      · rw [mem_targetKeys_refreshEnabled]
        simp [World.stateOf, h.find_eq]
      · intro k hk
        rw [mem_targetKeys_refreshEnabled]
        simp [World.stateOf, h.find_other k hk]

/-- No other version of the plugin is enabled, so its hooks are those of the one
that moved. -/
theorem World.Follows.disableHooks (h : World.Follows w₀ w key p on)
    (hfree : ¬ w₀.registry.OtherEnabled key) :
    ∃ w', w.disableHooks none p = (w', none) ∧ World.Follows w₀ w' key p False := by
  have hmem : ∀ k, k ∈ (w.disableHooks none p).1.targetKeys ↔
      k ∈ w.targetKeys ∧ k.1 ≠ p.pluginID := by
    intro k
    simp only [World.disableHooks, World.targetKeys, List.mem_map, List.mem_filter,
      decide_eq_true_eq]
    constructor
    · rintro ⟨t, ⟨ht, hid⟩, rfl⟩
      exact ⟨⟨t, ht, rfl⟩, hid⟩
    · rintro ⟨⟨t, ht, rfl⟩, hid⟩
      exact ⟨t, ⟨ht, hid⟩, rfl⟩
  have hid : p.pluginID = key.1 := congrArg Prod.fst h.key_eq
  refine ⟨(w.disableHooks none p).1, rfl, ⟨h.find_eq, h.find_other⟩, ?_, ?_⟩
  · rw [hmem]
    simp [hid]
  · intro k hk
    rw [hmem, h.target_other k hk, and_iff_left_iff_imp]
    intro hstate hkid
    obtain ⟨q, hq, hen⟩ := Option.map_eq_some_iff.mp hstate
    exact hfree (Registry.otherEnabled_iff.mpr ⟨k, q, hkid.trans hid, hk, hq, hen⟩)

end

/-- The refresh after the write of `enabled` fails, and what undoes the write
fails too. -/
def RefreshMisses (F : Faults) : Prop :=
  F .markEnabling = none ∧ F .start = none ∧ F .markEnabled = none ∧ F .enableRefresh ≠ none ∧
    (F .enableStop = none ∧ F .recordEnableRefreshFailure ≠ none ∧
        F .enableRefreshAgain ≠ none ∨
      F .enableStop ≠ none ∧ F .recordEnableStopFailure ≠ none)

/-- The version stays enabled without being a target. -/
def EnableMisses (F : Faults) (g : Registry) (key : Key) : Prop :=
  ¬ g.OtherEnabled key ∧ RefreshMisses F

/-- The dispatcher keeps a version that is not enabled again, or the version is
enabled again and the dispatcher is not told. -/
def DisableMisses (F : Faults) : Prop :=
  F .markDisabling = none ∧
    (F .disableHooks ≠ none ∧ F .recordHookFailure ≠ none ∨
      F .disableHooks = none ∧ F .stop ≠ none ∧ F .restoreHooks ≠ none ∧
        (F .recordStopFailure = none ∨ F .recordRestoreFailure = none))

/-- What `Enable` moves, and whether the dispatcher follows. -/
theorem enableRecord_follows {F : Faults} {w₀ w : World} {key : Key} {p : PluginVersion}
    (h : World.Follows w₀ w key p False) (hp : p.state ≠ .enabled) :
    ∃ q on, World.Follows w₀ (enableRecord F w p).1 key q on ∧
      ((on ↔ q.state = .enabled) ↔ ¬ EnableMisses F w₀.registry key) := by
  unfold enableRecord EnableMisses RefreshMisses
  cases hmark : F .markEnabling with
  | some e =>
      simp only [World.setState, World.write]
      exact ⟨p, False, h, by simp [hp]⟩
  | none =>
  obtain ⟨w₁, hw₁, h₁⟩ := h.setState .enabling (by simp)
  simp only [hw₁]
  obtain ⟨w₂, hw₂, h₂⟩ := h₁.start (F .start)
  simp only [hw₂]
  cases hstart : F .start with
  | some e =>
      obtain ⟨w₃, failed, hw₃, h₃⟩ :=
        h₂.setFailure (F .recordStartFailure) .enableFailed failureStartFailed e (by simp)
      simp only [hw₃]
      refine ⟨_, _, h₃, ?_⟩
      split_ifs <;> simp
  | none =>
  by_cases hbad : F .markEnabled ≠ none ∨ w₀.registry.OtherEnabled key
  · -- from here on the record is zero, and so are the version stopped and the row written
    have hnot : ¬ (F .markEnabled = none ∧ ¬ w₀.registry.OtherEnabled key) := by
      rintro ⟨hm, ho⟩
      exact hbad.elim (fun h => h hm) ho
    obtain ⟨e, hw₃⟩ := h₂.toMoves.markEnabled_fails (F .markEnabled) hbad
    obtain ⟨w₄, hw₄, h₄⟩ := h₂.stop_zero (F .enableStop)
    simp only [hw₃, hw₄]
    cases F .enableStop with
    | some stopErr =>
        obtain ⟨w₅, failed, hw₅, h₅⟩ := h₄.setFailure_zero (F .recordEnableStopFailure)
          .enableFailed failureCompensationFailed stopErr
        simp only [hw₅]
        refine ⟨_, _, h₅, iff_of_true (by simp) ?_⟩
        rintro ⟨ho, -, -, hm, -⟩
        exact hnot ⟨hm, ho⟩
    | none =>
        obtain ⟨w₅, failed, hw₅, h₅⟩ := h₄.setFailure_zero (F .recordMarkEnabledFailure)
          .enableFailed failureDBFailed e
        simp only [hw₅]
        refine ⟨_, _, h₅, iff_of_true (by simp) ?_⟩
        rintro ⟨ho, -, -, hm, -⟩
        exact hnot ⟨hm, ho⟩
  · obtain ⟨hmarked, hfree⟩ := not_or.mp hbad
    rw [not_not] at hmarked
    obtain ⟨w₃, hw₃, h₃⟩ := h₂.setState .enabled (fun _ => hfree)
    obtain ⟨w₄, hw₄, h₄⟩ := h₃.refreshEnabled (F .enableRefresh)
    simp only [hmarked, hw₃, hw₄]
    cases hrefresh : F .enableRefresh with
    | none =>
        rw [hrefresh] at h₄
        exact ⟨_, _, h₄, by simp⟩
    | some e =>
        rw [hrefresh, if_neg (by simp)] at h₄
        obtain ⟨w₅, hw₅, h₅⟩ := h₄.stop (F .enableStop)
        simp only [hw₅]
        cases hstop : F .enableStop with
        | some stopErr =>
            obtain ⟨w₆, failed, hw₆, h₆⟩ := h₅.setFailure (F .recordEnableStopFailure)
              .enableFailed failureCompensationFailed stopErr (by simp)
            simp only [hw₆]
            refine ⟨_, _, h₆, ?_⟩
            cases F .recordEnableStopFailure <;> simp [hfree]
        | none =>
            obtain ⟨w₆, failed, hw₆, h₆⟩ := h₅.setFailure (F .recordEnableRefreshFailure)
              .enableFailed failureHookRefreshFailed e (by simp)
            obtain ⟨w₇, hw₇, h₇⟩ := h₆.refreshEnabled (F .enableRefreshAgain)
            simp only [hw₆, hw₇]
            refine ⟨_, _, h₇, ?_⟩
            cases F .recordEnableRefreshFailure <;> cases F .enableRefreshAgain <;> simp [hfree]

/-- What `Disable` moves, and whether the dispatcher follows. -/
theorem disableRecord_follows {F : Faults} {w₀ w : World} {key : Key} {p : PluginVersion}
    (h : World.Follows w₀ w key p True) (hp : p.state = .enabled)
    (hfree : ¬ w₀.registry.OtherEnabled key) :
    ∃ q on, World.Follows w₀ (disableRecord F w p).1 key q on ∧
      ((on ↔ q.state = .enabled) ↔ ¬ DisableMisses F) ∧
      ((disableRecord F w p).2.2 = none ↔ DisableCompletes F) ∧
      (DisableCompletes F → q.state = .installed) := by
  unfold disableRecord DisableMisses DisableCompletes
  cases hmark : F .markDisabling with
  | some e =>
      simp only [World.setState, World.write]
      exact ⟨p, True, h, by simp [hp]⟩
  | none =>
  obtain ⟨w₁, hw₁, h₁⟩ := h.setState .disabling (by simp)
  simp only [hw₁]
  cases hhooks : F .disableHooks with
  | some e =>
      obtain ⟨w₂, failed, hw₂, h₂⟩ := h₁.setFailure (F .recordHookFailure) .enabled
        failureHookRefreshFailed e (fun _ => hfree)
      simp only [World.disableHooks, hw₂]
      refine ⟨_, _, h₂, ?_⟩
      cases F .recordHookFailure <;> simp
  | none =>
  obtain ⟨w₂, hw₂, h₂⟩ := h₁.disableHooks hfree
  obtain ⟨w₃, hw₃, h₃⟩ := h₂.stop (F .stop)
  simp only [hw₂, hw₃]
  cases hstop : F .stop with
  | some e =>
      obtain ⟨w₄, failed, hw₄, h₄⟩ := h₃.setFailure (F .recordStopFailure) .enabled
        failureStopFailed e (fun _ => hfree)
      obtain ⟨w₅, hw₅, h₅⟩ := h₄.refreshEnabled (F .restoreHooks)
      simp only [hw₄, hw₅]
      cases hrestore : F .restoreHooks with
      | none =>
          rw [hrestore, if_pos rfl] at h₅
          exact ⟨_, _, h₅, by simp⟩
      | some r =>
          rw [hrestore, if_neg (Option.some_ne_none r)] at h₅
          obtain ⟨w₆, failed', hw₆, h₆⟩ := h₅.setFailure (F .recordRestoreFailure) .enabled
            failureCompensationFailed r (fun _ => hfree)
          -- the record passed is the disabling row, which has the key of the row written
          rw [setFailure_of_key (b := p.withState .disabling "" "")
            (by split_ifs <;> rfl)] at hw₆
          simp only [hw₆]
          refine ⟨_, _, h₆, ?_⟩
          cases F .recordStopFailure <;> cases F .recordRestoreFailure <;> simp
  | none =>
  cases hinst : F .markInstalled with
  | some e =>
      obtain ⟨w₄, failed, hw₄, h₄⟩ := h₃.setFailure_zero (F .recordMarkInstalledFailure)
        .installed failureDBFailed ("set plugin state" ++ ": " ++ e)
      simp only [World.setState, World.write, hw₄]
      exact ⟨_, _, h₄, by simp⟩
  | none =>
  obtain ⟨w₄, hw₄, h₄⟩ := h₃.setState .installed (by simp)
  obtain ⟨w₅, hw₅, h₅⟩ := h₄.refreshEnabled (F .disableRefresh)
  simp only [hw₄, hw₅]
  cases hrefresh : F .disableRefresh with
  | none =>
      rw [hrefresh, if_pos rfl] at h₅
      exact ⟨_, _, h₅, by simp⟩
  | some e =>
      rw [hrefresh, if_neg (by simp)] at h₅
      obtain ⟨w₆, failed, hw₆, h₆⟩ := h₅.setFailure (F .recordDisableRefreshFailure) .installed
        failureHookRefreshFailed e (by simp)
      simp only [hw₆]
      refine ⟨_, _, h₆, ?_⟩
      cases F .recordDisableRefreshFailure <;> simp

/-- What `Uninstall` moves. -/
theorem uninstallRecord_follows {F : Faults} {w₀ w : World} {key : Key} {p : PluginVersion}
    (h : World.Follows w₀ w key p False) (hp : p.state ≠ .enabled) :
    ∃ q, World.Follows w₀ (uninstallRecord F w p).1 key q False ∧ q.state ≠ .enabled := by
  unfold uninstallRecord
  cases hmark : F .markUninstalling with
  | some e =>
      simp only [World.setState, World.write]
      exact ⟨p, h, hp⟩
  | none =>
  obtain ⟨w₁, hw₁, h₁⟩ := h.setState .uninstalling (by simp)
  obtain ⟨w₂, hw₂, h₂⟩ := h₁.stop (F .ensureStopped)
  simp only [hw₁, hw₂]
  cases hstop : F .ensureStopped with
  | some e =>
      obtain ⟨w₃, failed, hw₃, h₃⟩ := h₂.setFailure (F .recordEnsureFailure) .installed
        failureStopFailed e (by simp)
      simp only [hw₃]
      refine ⟨_, h₃, ?_⟩
      cases F .recordEnsureFailure <;> simp
  | none =>
  cases hremove : F .removeArtifact with
  | some e =>
      obtain ⟨w₃, failed, hw₃, h₃⟩ := h₂.setFailure (F .recordRemoveFailure) .installed
        failureFSDeleteFailed e (by simp)
      simp only [hw₃]
      refine ⟨_, h₃, ?_⟩
      cases F .recordRemoveFailure <;> simp
  | none =>
  cases hdeleted : F .markConfigDeleted with
  | some e =>
      simp only [World.markConfigDeleted, World.write]
      exact ⟨_, h₂, by simp⟩
  | none =>
      obtain ⟨w₃, hw₃, h₃⟩ := h₂.write "mark plugin config deleted" .uninstalled "" "" (by simp)
      simp only [World.markConfigDeleted, hw₃]
      exact ⟨_, h₃, by simp⟩

/-- `Enable` gets to its writes and the dispatcher misses one. -/
def Service.EnableMissesAt (s : Service) (F : Faults) (w : World) (pluginID version : String) :
    Prop :=
  ∃ p, findForEnable w.registry pluginID version = .ok p ∧ s.enableCheck p = none ∧
    EnableMisses F w.registry p.key

theorem enableUnlocked_agree_iff {s : Service} {F : Faults} {w : World} (hw : w.TargetsAgree)
    (pluginID version : String) :
    (s.enableUnlocked F w pluginID version).1.TargetsAgree ↔
      ¬ s.EnableMissesAt F w pluginID version := by
  simp only [Service.enableUnlocked, Service.EnableMissesAt]
  cases hfind : findForEnable w.registry pluginID version with
  | error e => simp [hw]
  | ok p =>
      cases hcheck : s.enableCheck p with
      | some e => simp [hcheck, hw]
      | none =>
          have hne : p.state ≠ .enabled := by
            rcases enableCheck_state hcheck with hs | hs <;> simp [hs]
          have h : World.Follows w w p.key p False := by
            simpa [hne] using
              hw.follows (k := p.key) (findInstallable_find (findForEnable_eq_ok_iff.mp hfind))
          obtain ⟨q, on, hh, hiff⟩ := enableRecord_follows (F := F) h hne
          simp only [hcheck, hh.agree_iff, hiff, Except.ok.injEq]
          constructor
          · rintro hn ⟨p', rfl, -, hs⟩
            exact hn hs
          · intro hn hs
            exact hn ⟨p, rfl, hcheck, hs⟩

/-- How `Disable` leaves a world whose targets agree. -/
theorem disableUnlocked_follows {F : Faults} {w : World} (hw : w.TargetsAgree)
    {pluginID : String} {p : PluginVersion}
    (hfind : w.registry.findEnabled pluginID = some p) :
    ((disableUnlocked F w pluginID).1.TargetsAgree ↔ ¬ DisableMisses F) ∧
      ((disableUnlocked F w pluginID).2.2 = none ↔ DisableCompletes F) ∧
      ∃ q on, World.Follows w (disableUnlocked F w pluginID).1 p.key q on ∧
        (DisableCompletes F → q.state = .installed) := by
  obtain ⟨-, hen, hrow⟩ := Registry.findEnabled_spec hfind
  have hmem : p ∈ w.registry.rows := Registry.find_mem (k := p.key) hrow
  have h : World.Follows w w p.key p True := by
    simpa [hen] using hw.follows (k := p.key) hrow
  obtain ⟨q, on, hh, hiff, herr, hinst⟩ :=
    disableRecord_follows (F := F) h hen (Registry.not_otherEnabled hmem hen)
  simp only [disableUnlocked, hfind]
  exact ⟨hh.agree_iff.trans hiff, herr, q, on, hh, hinst⟩

theorem disableUnlocked_agree_iff {F : Faults} {w : World} (hw : w.TargetsAgree)
    (pluginID : String) :
    (disableUnlocked F w pluginID).1.TargetsAgree ↔
      ¬ ((w.registry.findEnabled pluginID).isSome ∧ DisableMisses F) := by
  cases hfind : w.registry.findEnabled pluginID with
  | none => simp [disableUnlocked, hfind, hw]
  | some p => simpa using (disableUnlocked_follows hw hfind).1

theorem stableUninstallState_iff (state : PluginState) :
    stableUninstallState state = true ↔
      state = .installed ∨ state = .installFailed ∨ state = .enableFailed := by
  simp [stableUninstallState]

/-- `Uninstall` works on a version that is no target. -/
theorem uninstallUnlocked_agree {F : Faults} {w : World} (hw : w.TargetsAgree)
    (pluginID version : String) : (uninstallUnlocked F w pluginID version).1.TargetsAgree := by
  unfold uninstallUnlocked
  cases hfind : w.registry.find pluginID version with
  | none => exact hw
  | some p =>
      by_cases hstate : stableUninstallState p.state = true
      · have hne : p.state ≠ .enabled := by
          rcases (stableUninstallState_iff p.state).mp hstate with hs | hs | hs <;> simp [hs]
        have h : World.Follows w w (pluginID, version) p False := by
          simpa [hne] using hw.follows (k := (pluginID, version)) hfind
        obtain ⟨q, hh, hq⟩ := uninstallRecord_follows (F := F) h hne
        simp only [hstate, not_true_eq_false, if_false, hh.agree_iff]
        simpa using hq
      · simp [hstate, hw]

/-- A switch between two versions misses one of them: the current one while it
is disabled, or the target after it. -/
def Service.SwitchMisses (s : Service) (F : Faults) (target : PluginVersion) : Prop :=
  DisableMisses F ∨
    (DisableCompletes F ∧ s.enableCheck target = none ∧ RefreshMisses F)

/-- `SwitchEnabledVersion` gets that far. -/
def Service.SwitchMissesAt (s : Service) (F : Faults) (w : World) (pluginID version : String) :
    Prop :=
  match w.registry.findEnabled pluginID, w.registry.find pluginID version with
  | none, _ => s.EnableMissesAt F w pluginID version
  | some _, none => False
  | some current, some target =>
      current.version ≠ version ∧ s.switchCheck target = none ∧
        s.MigrationPasses F w current target ∧ s.SwitchMisses F target

theorem agree_of_same {w w' : World} (hr : w'.registry = w.registry)
    (ht : w'.targets = w.targets) : w'.TargetsAgree ↔ w.TargetsAgree := by
  simp only [World.TargetsAgree, World.targetKeys, World.stateOf, hr, ht]

/-- A failure recorded on a version that is not enabled. -/
theorem setFailure_agree {w : World} (hw : w.TargetsAgree) {k : Key} {p : PluginVersion}
    (hp : w.registry.find k.1 k.2 = some p) (hne : p.state ≠ .enabled)
    (fault : Option String) (fc fm : String) :
    (w.setFailure fault p .installed fc fm).1.TargetsAgree := by
  have h : World.Follows w w k p False := by simpa [hne] using hw.follows hp
  obtain ⟨w', failed, hw', hh⟩ := h.setFailure fault .installed fc fm (by simp)
  rw [hw', hh.agree_iff]
  split_ifs <;> simp [hne]

theorem disableThenEnable_agree_iff {s : Service} {F : Faults} {w : World}
    (hw : w.TargetsAgree) {pluginID version : String} {current target : PluginVersion}
    (hcurrent : w.registry.findEnabled pluginID = some current)
    (htarget : w.registry.find pluginID version = some target)
    (hver : current.version ≠ version) :
    (s.disableThenEnable F w pluginID version).1.TargetsAgree ↔ ¬ s.SwitchMisses F target := by
  obtain ⟨hiff, herr, q, on, hh, hinst⟩ := disableUnlocked_follows (F := F) hw hcurrent
  unfold Service.disableThenEnable Service.SwitchMisses
  by_cases hdone : DisableCompletes F
  · have hok := herr.mpr hdone
    have hnot : ¬ DisableMisses F := by
      rintro ⟨-, ⟨hhooks, -⟩ | ⟨-, hstop, -⟩⟩
      · exact hhooks hdone.2.1
      · exact hstop hdone.2.2.1
    obtain ⟨hfind, hfree⟩ := hh.toMoves.switch_target hcurrent htarget hver (hinst hdone)
    simp only [hok, hnot, hdone, false_or, true_and]
    rw [enableUnlocked_agree_iff (hiff.mpr hnot)]
    simp [Service.EnableMissesAt, hfind, EnableMisses, hfree]
  · obtain ⟨e, he⟩ := Option.ne_none_iff_exists'.mp (mt herr.mp hdone)
    simp only [he, hiff, hdone, false_and, or_false]

theorem switchRecord_agree_iff {s : Service} {F : Faults} {w : World} (hw : w.TargetsAgree)
    {pluginID version : String} {current target : PluginVersion}
    (hcurrent : w.registry.findEnabled pluginID = some current)
    (htarget : w.registry.find pluginID version = some target)
    (hver : current.version ≠ version) (hcheck : s.switchCheck target = none) :
    (s.switchRecord F w pluginID version current target).1.TargetsAgree ↔
      ¬ (s.MigrationPasses F w current target ∧ s.SwitchMisses F target) := by
  have hne : target.state ≠ .enabled := by
    rcases switchCheck_state hcheck with hs | hs <;> simp [hs]
  have hfailure := setFailure_agree hw (k := (pluginID, version)) htarget hne
    (F .recordMigrationFailure) failureConfigMigration
  unfold Service.switchRecord Service.MigrationPasses
  cases hmigrate : s.migrate current (s.currentConfig w current) target with
  | error e => simpa using hfailure e
  | ok result =>
  by_cases hok : result.ok = true
  · by_cases hconfig : result.migratedConfig ≠ "" ∧ s.hasConfigRepo = true
    · simp only [hok, hconfig, not_true_eq_false, if_false, if_true, and_self, ne_eq,
        not_false_eq_true]
      cases hupsert : F .upsertConfig with
      | some e =>
          simp only [World.upsertConfig]
          simpa [hok, hconfig] using hw
      | none =>
          obtain ⟨w', hw', hreg, -, htargets⟩ := upsertConfig_ok w ⟨target.pluginID,
            target.version, target.configVersion, result.migratedConfig⟩
          have hagree := (agree_of_same hreg htargets).mpr hw
          simp only [hw']
          rw [disableThenEnable_agree_iff hagree (hreg ▸ hcurrent) (hreg ▸ htarget) hver]
          simp [hok]
    · simp only [hok, hconfig, not_true_eq_false, if_false]
      rw [disableThenEnable_agree_iff hw hcurrent htarget hver]
      have hpass : ¬ result.migratedConfig = "" → s.hasConfigRepo = true →
          F .upsertConfig = none := fun h₁ h₂ => absurd ⟨h₁, h₂⟩ hconfig
      simp only [Except.ok.injEq, ne_eq]
      constructor
      · rintro hn ⟨-, hs⟩
        exact hn hs
      · intro hn hs
        exact hn ⟨⟨result, rfl, hok, hpass⟩, hs⟩
  · simpa [hok] using hfailure (rejectionMessage result)

theorem switchUnlocked_agree_iff {s : Service} {F : Faults} {w : World} (hw : w.TargetsAgree)
    (pluginID version : String) :
    (s.switchUnlocked F w pluginID version).1.TargetsAgree ↔
      ¬ s.SwitchMissesAt F w pluginID version := by
  unfold Service.switchUnlocked Service.SwitchMissesAt
  cases hcurrent : w.registry.findEnabled pluginID with
  | none => exact enableUnlocked_agree_iff hw pluginID version
  | some current =>
  cases htarget : w.registry.find pluginID version with
  | none =>
      by_cases hver : current.version = version <;> simp [hver, hw]
  | some target =>
  by_cases hver : current.version = version
  · simp [hver, hw]
  cases hcheck : s.switchCheck target with
  | some e => simp [hver, hcheck, hw]
  | none =>
      simp only [hver, hcheck, if_false, ne_eq, not_false_eq_true, true_and]
      exact switchRecord_agree_iff hw hcurrent htarget hver hcheck

/-- The dispatcher misses a write of the operation: a refresh fails, and so does
what should undo the write or repeat the refresh. -/
def Service.MissesAt (s : Service) (F : Faults) (w : World) : Operation → Prop
  | .enable pluginID version => s.EnableMissesAt F w pluginID version
  | .disable pluginID => (w.registry.findEnabled pluginID).isSome ∧ DisableMisses F
  | .switchEnabledVersion pluginID version => s.SwitchMissesAt F w pluginID version
  | .uninstall _ _ => False

theorem unlocked_agree_iff {s : Service} {F : Faults} {w : World} (hw : w.TargetsAgree)
    (op : Operation) : (s.unlocked F w op).1.TargetsAgree ↔ ¬ s.MissesAt F w op := by
  cases op with
  | enable pluginID version => exact enableUnlocked_agree_iff hw pluginID version
  | disable pluginID => exact disableUnlocked_agree_iff hw pluginID
  | switchEnabledVersion pluginID version => exact switchUnlocked_agree_iff hw pluginID version
  | uninstall pluginID version =>
      exact iff_of_true (uninstallUnlocked_agree hw pluginID version) id

/-- Lifecycle operations keep the dispatcher's targets, whatever calls fail,
except where the dispatcher misses a write. -/
theorem perform_agree_iff (s : Service) (F : Faults) (w : World) (op : Operation)
    (hw : w.TargetsAgree) :
    (s.perform F w op).1.TargetsAgree ↔ op.pluginID ∈ w.locks ∨ ¬ s.MissesAt F w op := by
  unfold Service.perform
  split_ifs with hlock
  · simp [hlock, hw]
  · have h := unlocked_agree_iff (s := s) (F := F)
      (w := { w with locks := op.pluginID :: w.locks }) ((agree_of_same rfl rfl).mpr hw) op
    have hlocks : s.MissesAt F { w with locks := op.pluginID :: w.locks } op ↔
        s.MissesAt F w op := by cases op <;> rfl
    rw [hlocks] at h
    simp only [hlock, false_or]
    rw [← h]
    exact agree_of_same rfl rfl

end GoSite.Plugin
