import GoSite.Semver

/-!
# The plugin registry

One row per plugin version. The table keys rows by plugin id and version, and a
partial unique index allows one enabled row per plugin id. Both are fields of
the registry, so an update that would break the index has no result.
-/
namespace GoSite.Plugin
open GoStrings

/-- `unset` is the empty state of Go's zero record, which the table's `CHECK`
keeps out of the registry. -/
inductive PluginState where
  | unset
  | installing
  | installed
  | installFailed
  | enabling
  | enabled
  | enableFailed
  | disabling
  | uninstalling
  | uninstalled
  deriving Repr, DecidableEq

structure PluginVersion where
  id : ℕ
  pluginID : String
  version : String
  configVersion : String
  manifestJSON : String
  artifactDigest : String
  artifactPath : String
  state : PluginState
  failureClass : String
  failureMessage : String
  sourceType : String
  permissionsAckAt : Option ℕ
  createdAt : ℕ
  deriving Repr, DecidableEq

/-- `PluginVersion{}`. -/
def PluginVersion.zero : PluginVersion :=
  ⟨0, "", "", "", "", "", "", .unset, "", "", "", none, 0⟩

/-- What identifies a version, in the registry and in the runtime. -/
abbrev Key := String × String

def PluginVersion.key (p : PluginVersion) : Key := (p.pluginID, p.version)

/-- The columns `setState` and `MarkConfigDeleted` write. -/
def PluginVersion.withState (p : PluginVersion) (state : PluginState)
    (failureClass failureMessage : String) : PluginVersion :=
  { p with state := state, failureClass := failureClass, failureMessage := failureMessage }

/-- `idx_plugin_versions_one_enabled`: two enabled rows of a plugin are one row. -/
def OneEnabled (rows : List PluginVersion) : Prop :=
  ∀ a ∈ rows, ∀ b ∈ rows, a.state = .enabled → b.state = .enabled → a.pluginID = b.pluginID →
    a.version = b.version

instance (rows : List PluginVersion) : Decidable (OneEnabled rows) :=
  inferInstanceAs (Decidable (∀ a ∈ rows, _))

/-- The table. Installing checks that a row has an id and a version that is not
blank. -/
structure Registry where
  rows : List PluginVersion
  keys_nodup : (rows.map PluginVersion.key).Nodup
  one_enabled : OneEnabled rows
  identified : ∀ p ∈ rows, p.pluginID ≠ "" ∧ trimSpace p.version ≠ ""

theorem keys_nodup_nil : (([] : List PluginVersion).map PluginVersion.key).Nodup := List.nodup_nil

theorem oneEnabled_nil : OneEnabled [] := by simp [OneEnabled]

theorem identified_nil :
    ∀ p ∈ ([] : List PluginVersion), p.pluginID ≠ "" ∧ trimSpace p.version ≠ "" := by simp

/-- `Find`. -/
def Registry.find (g : Registry) (pluginID version : String) : Option PluginVersion :=
  g.rows.find? fun p => p.key = (pluginID, version)

/-- `FindEnabled`. -/
def Registry.findEnabled (g : Registry) (pluginID : String) : Option PluginVersion :=
  g.rows.find? fun p => p.pluginID = pluginID ∧ p.state = .enabled

/-- `ListEnabled`. -/
def Registry.listEnabled (g : Registry) : List PluginVersion :=
  (g.rows.filter fun p => p.state = .enabled).mergeSort fun a b =>
    a.pluginID < b.pluginID ∨ (a.pluginID = b.pluginID ∧ b.version ≤ a.version)

/-- `ListInstallable`: newest first. -/
def Registry.listInstallable (g : Registry) (pluginID : String) : List PluginVersion :=
  (g.rows.filter fun p =>
      p.pluginID = pluginID ∧ (p.state = .installed ∨ p.state = .enableFailed)).mergeSort
    fun a b => b.createdAt < a.createdAt ∨ (a.createdAt = b.createdAt ∧ b.id ≤ a.id)

def updateRows (rows : List PluginVersion) (key : Key) (state : PluginState)
    (failureClass failureMessage : String) : List PluginVersion :=
  rows.map fun p => if p.key = key then p.withState state failureClass failureMessage else p

@[simp] theorem withState_key (p : PluginVersion) (state : PluginState) (fc fm : String) :
    (p.withState state fc fm).key = p.key := rfl

@[simp] theorem withState_pluginID (p : PluginVersion) (state : PluginState) (fc fm : String) :
    (p.withState state fc fm).pluginID = p.pluginID := rfl

@[simp] theorem withState_version (p : PluginVersion) (state : PluginState) (fc fm : String) :
    (p.withState state fc fm).version = p.version := rfl

@[simp] theorem withState_state (p : PluginVersion) (state : PluginState) (fc fm : String) :
    (p.withState state fc fm).state = state := rfl

theorem updateRows_keys (rows : List PluginVersion) (key : Key) (state : PluginState)
    (fc fm : String) :
    (updateRows rows key state fc fm).map PluginVersion.key = rows.map PluginVersion.key := by
  unfold updateRows
  rw [List.map_map]
  apply List.map_congr_left
  intro p _
  simp only [Function.comp_apply]
  split_ifs <;> rfl

theorem updateRows_identified {rows : List PluginVersion} (key : Key) (state : PluginState)
    (fc fm : String) (h : ∀ p ∈ rows, p.pluginID ≠ "" ∧ trimSpace p.version ≠ "") :
    ∀ p ∈ updateRows rows key state fc fm, p.pluginID ≠ "" ∧ trimSpace p.version ≠ "" := by
  intro p hp
  obtain ⟨q, hq, rfl⟩ := List.mem_map.mp hp
  have hpq := h q hq
  split_ifs
  · exact hpq
  · exact hpq

/-- The `UPDATE` of one row: no result when the unique index forbids it. -/
def Registry.update (g : Registry) (key : Key) (state : PluginState)
    (failureClass failureMessage : String) : Option Registry :=
  if h : OneEnabled (updateRows g.rows key state failureClass failureMessage) then
    some {
      rows := updateRows g.rows key state failureClass failureMessage
      keys_nodup := by rw [updateRows_keys]; exact g.keys_nodup
      one_enabled := h
      identified := updateRows_identified key state failureClass failureMessage g.identified }
  else none

/-- Another version of the plugin has the enabled row. -/
def Registry.OtherEnabled (g : Registry) (key : Key) : Prop :=
  ∃ p ∈ g.rows, p.pluginID = key.1 ∧ p.version ≠ key.2 ∧ p.state = .enabled

instance (g : Registry) (key : Key) : Decidable (g.OtherEnabled key) :=
  inferInstanceAs (Decidable (∃ p ∈ g.rows, _))

theorem Registry.find_key {g : Registry} {k : Key} {p : PluginVersion}
    (h : g.find k.1 k.2 = some p) : p.key = k := by
  simpa using List.find?_some h

theorem Registry.find_mem {g : Registry} {k : Key} {p : PluginVersion}
    (h : g.find k.1 k.2 = some p) : p ∈ g.rows :=
  List.mem_of_find?_eq_some h

/-- A row is what `Find` returns for its key. -/
theorem Registry.find_of_mem {g : Registry} {p : PluginVersion} (hp : p ∈ g.rows) :
    g.find p.pluginID p.version = some p := by
  have hs : (g.find p.pluginID p.version).isSome := by
    unfold Registry.find
    rw [List.find?_isSome]
    exact ⟨p, hp, by simp [PluginVersion.key]⟩
  obtain ⟨q, hq⟩ := Option.isSome_iff_exists.mp hs
  have hkey : q.key = p.key := Registry.find_key (k := p.key) hq
  have hmem : q ∈ g.rows := Registry.find_mem (k := p.key) hq
  rw [hq, List.inj_on_of_nodup_map g.keys_nodup hmem hp hkey]

theorem Registry.findEnabled_spec {g : Registry} {pluginID : String} {p : PluginVersion}
    (h : g.findEnabled pluginID = some p) :
    p.pluginID = pluginID ∧ p.state = .enabled ∧ g.find p.pluginID p.version = some p := by
  have hp := List.find?_some h
  simp only [decide_eq_true_eq] at hp
  exact ⟨hp.1, hp.2, Registry.find_of_mem (List.mem_of_find?_eq_some h)⟩

theorem Registry.update_rows {g g' : Registry} {key : Key} {state : PluginState}
    {fc fm : String} (h : g.update key state fc fm = some g') :
    g'.rows = updateRows g.rows key state fc fm := by
  unfold Registry.update at h
  split_ifs at h
  simp only [Option.some.injEq] at h
  rw [← h]

theorem find?_updateRows (rows : List PluginVersion) (key key' : Key) (state : PluginState)
    (fc fm : String) :
    (updateRows rows key state fc fm).find? (fun p => p.key = key') =
      (rows.find? fun p => p.key = key').map
        fun p => if key' = key then p.withState state fc fm else p := by
  induction rows with
  | nil => rfl
  | cons p rows ih =>
      have hkey : (if p.key = key then p.withState state fc fm else p).key = p.key := by
        split_ifs <;> rfl
      simp only [updateRows, List.map_cons, List.find?_cons, hkey] at ih ⊢
      by_cases hp : p.key = key'
      · simp [hp]
      · simp [hp, ih]

theorem Registry.find_update {g g' : Registry} {key : Key} {state : PluginState}
    {fc fm : String} (h : g.update key state fc fm = some g') (key' : Key) :
    g'.find key'.1 key'.2 = (g.find key'.1 key'.2).map
      fun p => if key' = key then p.withState state fc fm else p := by
  unfold Registry.find
  rw [Registry.update_rows h]
  exact find?_updateRows g.rows key key' state fc fm

/-- The unique index only looks at updates that enable a row. -/
theorem Registry.update_isSome_iff {g : Registry} {key : Key} {p : PluginVersion}
    (hp : g.find key.1 key.2 = some p) (state : PluginState) (fc fm : String) :
    (g.update key state fc fm).isSome ↔ (state = .enabled → ¬ g.OtherEnabled key) := by
  have hmem := Registry.find_mem hp
  have hkey := Registry.find_key hp
  have hsome : (g.update key state fc fm).isSome ↔
      OneEnabled (updateRows g.rows key state fc fm) := by
    unfold Registry.update
    split_ifs with h
    · simpa using h
    · simpa using h
  rw [hsome]
  constructor
  · rintro hone rfl ⟨q, hq, hid, hver, hen⟩
    have hqk : q.key ≠ key := fun hqk => hver (congrArg Prod.snd hqk)
    have hpm : p.withState .enabled fc fm ∈ updateRows g.rows key .enabled fc fm :=
      List.mem_map.mpr ⟨p, hmem, by simp [hkey]⟩
    have hqm : q ∈ updateRows g.rows key .enabled fc fm :=
      List.mem_map.mpr ⟨q, hq, by simp [hqk]⟩
    have hpid : p.pluginID = key.1 := congrArg Prod.fst hkey
    have hpver : p.version = key.2 := congrArg Prod.snd hkey
    exact hver ((hone q hqm _ hpm hen rfl (hid.trans hpid.symm)).trans hpver)
  · intro hfree a ha b hb hea heb hid
    obtain ⟨a₀, ha₀, rfl⟩ := List.mem_map.mp ha
    obtain ⟨b₀, hb₀, rfl⟩ := List.mem_map.mp hb
    have hfresh : ∀ r ∈ g.rows, r.key ≠ key → r.pluginID = key.1 → r.state = .enabled →
        state ≠ .enabled := by
      intro r hr hrk hid hen hstate
      refine hfree hstate ⟨r, hr, hid, ?_, hen⟩
      intro hver
      exact hrk (Prod.ext hid hver)
    by_cases hak : a₀.key = key <;> by_cases hbk : b₀.key = key
    · simp only [hak, hbk, if_true, withState_version]
      exact congrArg Prod.snd (hak.trans hbk.symm)
    · simp only [hak, hbk, if_true, if_false, withState_state, withState_pluginID] at hea heb hid
      have hidk : b₀.pluginID = key.1 := hid.symm.trans (congrArg Prod.fst hak)
      exact absurd hea (hfresh b₀ hb₀ hbk hidk heb)
    · simp only [hak, hbk, if_true, if_false, withState_state, withState_pluginID] at hea heb hid
      have hidk : a₀.pluginID = key.1 := hid.trans (congrArg Prod.fst hbk)
      exact absurd heb (hfresh a₀ ha₀ hak hidk hea)
    · simp only [hak, hbk, if_false] at hea heb hid ⊢
      exact g.one_enabled a₀ ha₀ b₀ hb₀ hea heb hid

end GoSite.Plugin
