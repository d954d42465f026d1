import GoSite.PluginCalls
import GoSite.GuardedRuns

/-!
# Secrets across version switches

A configuration row holds the plugin's values and its encrypted secrets. A
switch stores the migrated values of its target through the upsert that `Put`
uses, and hands it no secrets. The upsert replaces the whole row, so a target
that was configured before loses its secrets.
-/
namespace GoSite.Plugin
open GoStrings GuardedRuns

/-! ## What an operation writes to the configurations -/

section
variable {w : World}

@[simp] theorem write_configs (fault : Option String) (context : String) (key : Key)
    (state : PluginState) (fc fm : String) :
    (w.write fault context key state fc fm).1.configs = w.configs := by
  cases fault with
  | some e => rfl
  | none =>
      simp only [World.write]
      split
      · rfl
      · split <;> rfl

@[simp] theorem setState_configs (fault : Option String) (record : PluginVersion)
    (state : PluginState) : (w.setState fault record state).1.configs = w.configs :=
  write_configs fault "set plugin state" record.key state "" ""

@[simp] theorem setFailure_configs (fault : Option String) (record : PluginVersion)
    (state : PluginState) (fc fm : String) :
    (w.setFailure fault record state fc fm).1.configs = w.configs :=
  write_configs fault "set plugin state" record.key state fc fm

@[simp] theorem markConfigDeleted_configs (fault : Option String) (record : PluginVersion) :
    (w.markConfigDeleted fault record).1.configs = w.configs :=
  write_configs fault "mark plugin config deleted" record.key .uninstalled "" ""

@[simp] theorem start_configs (fault : Option String) (record : PluginVersion) :
    (w.start fault record).1.configs = w.configs := by
  cases fault <;> rfl

@[simp] theorem stop_configs (fault : Option String) (record : PluginVersion) :
    (w.stop fault record).1.configs = w.configs := by
  cases fault <;> rfl

@[simp] theorem refreshEnabled_configs (fault : Option String) :
    (w.refreshEnabled fault).1.configs = w.configs := by
  cases fault <;> rfl

@[simp] theorem disableHooks_configs (fault : Option String) (record : PluginVersion) :
    (w.disableHooks fault record).1.configs = w.configs := by
  cases fault <;> rfl

@[simp] theorem enableRecord_configs (F : Faults) (record : PluginVersion) :
    (enableRecord F w record).1.configs = w.configs := by
  unfold enableRecord
  dsimp only
  split
  · simp
  split
  · simp
  split
  · split <;> simp
  split
  · split <;> simp
  · simp

@[simp] theorem disableRecord_configs (F : Faults) (record : PluginVersion) :
    (disableRecord F w record).1.configs = w.configs := by
  unfold disableRecord
  dsimp only
  split
  · simp
  split
  · simp
  split
  · split <;> simp
  split
  · simp
  · split <;> simp

@[simp] theorem uninstallRecord_configs (F : Faults) (record : PluginVersion) :
    (uninstallRecord F w record).1.configs = w.configs := by
  unfold uninstallRecord
  dsimp only
  split
  · simp
  split
  · simp
  split
  · simp
  · split <;> simp

@[simp] theorem enableUnlocked_configs (s : Service) (F : Faults) (pluginID version : String) :
    (s.enableUnlocked F w pluginID version).1.configs = w.configs := by
  unfold Service.enableUnlocked
  split
  · rfl
  · split <;> simp

@[simp] theorem disableUnlocked_configs (F : Faults) (pluginID : String) :
    (disableUnlocked F w pluginID).1.configs = w.configs := by
  unfold disableUnlocked
  split <;> simp

@[simp] theorem uninstallUnlocked_configs (F : Faults) (pluginID version : String) :
    (uninstallUnlocked F w pluginID version).1.configs = w.configs := by
  unfold uninstallUnlocked
  split
  · rfl
  · split <;> simp

@[simp] theorem disableThenEnable_configs (s : Service) (F : Faults)
    (pluginID version : String) :
    (s.disableThenEnable F w pluginID version).1.configs = w.configs := by
  unfold Service.disableThenEnable
  dsimp only
  split <;> simp

end

/-- The configuration a switch stores: the migrated values of its target, when it
gets as far as the upsert. -/
def Service.migratedRow (s : Service) (F : Faults) (w : World) (pluginID version : String) :
    Option PluginConfig :=
  match w.registry.findEnabled pluginID, w.registry.find pluginID version with
  | some current, some target =>
      if current.version = version ∨ s.switchCheck target ≠ none then none
      else
        match s.migrate current (s.currentConfig w current) target with
        | .error _ => none
        | .ok result =>
            if result.ok ∧ result.migratedConfig ≠ "" ∧ s.hasConfigRepo ∧
                F .upsertConfig = none then
              some ⟨target.pluginID, target.version, target.configVersion,
                result.migratedConfig⟩
            else none
  | _, _ => none

/-- The configuration an operation stores. -/
def Service.written (s : Service) (F : Faults) (w : World) : Operation → Option PluginConfig
  | .switchEnabledVersion pluginID version =>
      if pluginID ∈ w.locks then none else s.migratedRow F w pluginID version
  | _ => none

/-- The configurations with one stored or replaced. -/
def withConfig (configs : List PluginConfig) (cfg : PluginConfig) : List PluginConfig :=
  cfg :: configs.filter fun c => (c.pluginID, c.version) ≠ (cfg.pluginID, cfg.version)

section
variable {w : World}

theorem switchRecord_configs (s : Service) (F : Faults) (pluginID version : String)
    (current target : PluginVersion) :
    (s.switchRecord F w pluginID version current target).1.configs =
      match s.migrate current (s.currentConfig w current) target with
      | .error _ => w.configs
      | .ok result =>
          if result.ok ∧ result.migratedConfig ≠ "" ∧ s.hasConfigRepo ∧
              F .upsertConfig = none then
            withConfig w.configs ⟨target.pluginID, target.version, target.configVersion,
              result.migratedConfig⟩
          else w.configs := by
  unfold Service.switchRecord
  cases s.migrate current (s.currentConfig w current) target with
  | error e => simp
  | ok result =>
      by_cases hok : result.ok = true
      · by_cases hconfig : result.migratedConfig ≠ "" ∧ s.hasConfigRepo = true
        · cases F .upsertConfig with
          | some e => simp [hok, hconfig, World.upsertConfig]
          | none => simp [hok, hconfig, World.upsertConfig, withConfig]
        · simp only [hok, hconfig, not_true_eq_false, if_false, true_and,
            disableThenEnable_configs]
          rw [if_neg]
          exact fun h => hconfig ⟨h.1, h.2.1⟩
      · simp [hok]

theorem switchUnlocked_configs (s : Service) (F : Faults) (pluginID version : String) :
    (s.switchUnlocked F w pluginID version).1.configs =
      match s.migratedRow F w pluginID version with
      | none => w.configs
      | some cfg => withConfig w.configs cfg := by
  unfold Service.switchUnlocked Service.migratedRow
  cases w.registry.findEnabled pluginID with
  | none => simp
  | some current =>
  cases w.registry.find pluginID version with
  | none => by_cases hver : current.version = version <;> simp [hver]
  | some target =>
  by_cases hver : current.version = version
  · simp [hver]
  cases hcheck : s.switchCheck target with
  | some e => simp [hver, hcheck]
  | none =>
      simp only [hver, hcheck, if_false, ne_eq, not_true_eq_false, or_self]
      rw [switchRecord_configs]
      cases s.migrate current (s.currentConfig w current) target with
      | error e => rfl
      | ok result => dsimp only; split_ifs <;> rfl

/-- An operation changes the configurations only by what it stores. -/
theorem perform_configs (s : Service) (F : Faults) (op : Operation) :
    (s.perform F w op).1.configs =
      match s.written F w op with
      | none => w.configs
      | some cfg => withConfig w.configs cfg := by
  unfold Service.perform
  by_cases hlock : op.pluginID ∈ w.locks
  · rw [if_pos hlock]
    cases op with
    | switchEnabledVersion pluginID version =>
        have hlock : pluginID ∈ w.locks := hlock
        simp [Service.written, hlock]
    | _ => rfl
  · rw [if_neg hlock]
    cases op with
    | enable pluginID version => simp [Service.unlocked, Service.written]
    | disable pluginID => simp [Service.unlocked, Service.written]
    | uninstall pluginID version => simp [Service.unlocked, Service.written]
    | switchEnabledVersion pluginID version =>
        have hfree : pluginID ∉ w.locks := hlock
        simp only [Service.unlocked, Service.written, hfree, if_false]
        exact switchUnlocked_configs (w := { w with locks := pluginID :: w.locks }) s F
          pluginID version

end

/-- A switch stores a migrated configuration for the version `key`. -/
structure Service.SavesFor (s : Service) (F : Faults) (w : World) (op : Operation) (key : Key) :
    Prop where
  op_eq : op = .switchEnabledVersion key.1 key.2
  free : key.1 ∉ w.locks
  migrates : ∃ current target result, w.registry.findEnabled key.1 = some current ∧
    current.version ≠ key.2 ∧ w.registry.find key.1 key.2 = some target ∧
    s.switchCheck target = none ∧
    s.migrate current (s.currentConfig w current) target = .ok result ∧ result.ok = true ∧
    result.migratedConfig ≠ ""
  saves : s.hasConfigRepo = true ∧ F .upsertConfig = none

section
variable {w : World} {s : Service} {F : Faults} {op : Operation}

theorem written_savesFor {cfg : PluginConfig} (h : s.written F w op = some cfg) :
    s.SavesFor F w op (cfg.pluginID, cfg.version) := by
  cases op with
  | switchEnabledVersion pluginID version =>
      simp only [Service.written, Option.ite_none_left_eq_some] at h
      obtain ⟨hfree, hrow⟩ := h
      unfold Service.migratedRow at hrow
      split at hrow
      · rename_i current target hcurrent htarget
        obtain ⟨hdiffers, hrow⟩ := Option.ite_none_left_eq_some.mp hrow
        push Not at hdiffers
        split at hrow
        · cases hrow
        · rename_i result hresult
          obtain ⟨⟨hok, hne, hrepo, hfault⟩, hcfg⟩ := Option.ite_none_right_eq_some.mp hrow
          have hkey := Registry.find_key (k := (pluginID, version)) htarget
          obtain ⟨hid, hversion⟩ := Prod.ext_iff.mp hkey
          have hid : target.pluginID = pluginID := hid
          have hversion : target.version = version := hversion
          cases hcfg
          subst hid hversion
          exact ⟨rfl, hfree, ⟨current, target, result, hcurrent, hdiffers.1, htarget,
            hdiffers.2, hresult, hok, hne⟩, hrepo, hfault⟩
      · cases hrow
  | _ => cases h

theorem Service.SavesFor.written {key : Key} (h : s.SavesFor F w op key) :
    ∃ cfg, s.written F w op = some cfg ∧ (cfg.pluginID, cfg.version) = key := by
  obtain ⟨rfl, hfree, ⟨current, target, result, hcurrent, hversion, htarget, hcheck, hresult,
    hok, hne⟩, hsaves⟩ := h
  refine ⟨⟨target.pluginID, target.version, target.configVersion, result.migratedConfig⟩, ?_,
    Registry.find_key htarget⟩
  simp [Service.written, hfree, Service.migratedRow, hcurrent, htarget, hversion, hcheck, hresult,
    hok, hne, hsaves]

end

/-! ## The rows -/

/-- A row of `plugin_configs`. No secrets stand for `NULL`. -/
structure ConfigRow where
  config : PluginConfig
  secretsEncrypted : List UInt8
  deriving Repr, DecidableEq

def ConfigRow.key (row : ConfigRow) : Key := (row.config.pluginID, row.config.version)

/-- `PluginConfigRepository.Upsert`: a conflict takes every column of the new row. -/
def upsertRow (rows : List ConfigRow) (row : ConfigRow) : List ConfigRow :=
  row :: rows.filter fun r => r.key ≠ row.key

/-- `PluginConfigRepository.Get`. -/
def getRow (rows : List ConfigRow) (key : Key) : Option ConfigRow :=
  rows.find? fun r => r.key = key

theorem getRow_upsertRow (rows : List ConfigRow) (row : ConfigRow) (key : Key) :
    getRow (upsertRow rows row) key = if row.key = key then some row else getRow rows key := by
  unfold getRow upsertRow
  split_ifs with h
  · simp [h]
  · rw [List.find?_cons_of_neg (by simpa using h), List.find?_filter]
    congr 1
    funext r
    by_cases hr : r.key = key
    · have hne : r.key ≠ row.key := by
        rw [hr]
        exact Ne.symm h
      simp [hr, Ne.symm h]
    · simp [hr]

/-- The world of the lifecycle with the rows its configurations are columns of. -/
structure ConfigStore where
  world : World
  rows : List ConfigRow
  configs_eq : world.configs = rows.map ConfigRow.config

/-- A call of a lifecycle operation. The service carries what the migrator
answers in this call. -/
structure LifecycleRequest where
  service : Service
  faults : Faults
  operation : Operation

/-- The rows after an operation. What a switch stores has no secrets. -/
def LifecycleRequest.rowsAfter (c : LifecycleRequest) (st : ConfigStore) : List ConfigRow :=
  match c.service.written c.faults st.world c.operation with
  | none => st.rows
  | some cfg => upsertRow st.rows ⟨cfg, []⟩

theorem configs_rowsAfter (c : LifecycleRequest) (st : ConfigStore) :
    (c.service.perform c.faults st.world c.operation).1.configs =
      (c.rowsAfter st).map ConfigRow.config := by
  rw [perform_configs, LifecycleRequest.rowsAfter]
  cases c.service.written c.faults st.world c.operation with
  | none => exact st.configs_eq
  | some cfg =>
      simp only [withConfig, upsertRow, List.map_cons, st.configs_eq, List.filter_map]
      rfl

def ConfigStore.call (st : ConfigStore) (c : LifecycleRequest) : ConfigStore :=
  ⟨(c.service.perform c.faults st.world c.operation).1, c.rowsAfter st, configs_rowsAfter c st⟩

/-! ## Revealing -/

/-- The cipher and the decoder of `ConfigService`. The cipher may be missing. -/
structure SecretReader (Values : Type) where
  cipher : Option (List UInt8 → Except String String)
  unmarshal : String → Except String (Option Values)
  emptyValues : Values

inductive RevealError where
  | app (e : AppError)
  | decode (message : String)
  deriving Repr, DecidableEq

section
variable {Values : Type} (reader : SecretReader Values)

/-- `decodeValues`. JSON `null` leaves the map nil. -/
def SecretReader.decodeValues (raw : String) : Except RevealError (Option Values) :=
  if trimSpace raw = "" then .ok (some reader.emptyValues)
  else
    match reader.unmarshal raw with
    | .error e => .error (.decode ("decode values: " ++ e))
    | .ok values => .ok values

/-- `ConfigService.RevealSecrets`. -/
def SecretReader.revealSecrets (rows : List ConfigRow) (pluginID version : String) :
    Except RevealError (Option Values) :=
  match getRow rows (pluginID, version) with
  | none => .ok none
  | some cfg =>
      if cfg.secretsEncrypted = [] then .ok none
      else
        match reader.cipher with
        | none => .error (.app (.new .config "plugin secret cipher is not configured"))
        | some decrypt =>
            match decrypt cfg.secretsEncrypted with
            | .error e => .error (.app (.wrap .config "decrypt secrets failed" e))
            | .ok plaintext => reader.decodeValues plaintext

/-- The secrets of a version. -/
def ConfigStore.Secrets (st : ConfigStore) (key : Key) (values : Values) : Prop :=
  reader.revealSecrets st.rows key.1 key.2 = .ok (some values)

/-- What a switch stores has no secrets to reveal, and other versions keep
theirs. -/
theorem secrets_call (st : ConfigStore) (c : LifecycleRequest) (key : Key) (values : Values) :
    (st.call c).Secrets reader key values ↔
      st.Secrets reader key values ∧
        ¬ c.service.SavesFor c.faults st.world c.operation key := by
  show reader.revealSecrets (c.rowsAfter st) key.1 key.2 = .ok (some values) ↔
    reader.revealSecrets st.rows key.1 key.2 = .ok (some values) ∧ _
  unfold SecretReader.revealSecrets LifecycleRequest.rowsAfter
  cases hw : c.service.written c.faults st.world c.operation with
  | none =>
      have hno : ¬ c.service.SavesFor c.faults st.world c.operation key := by
        intro h
        obtain ⟨cfg, hcfg, -⟩ := h.written
        rw [hw] at hcfg
        cases hcfg
      simp only [hno, not_false_eq_true, and_true]
  | some cfg =>
      simp only [Prod.mk.eta, getRow_upsertRow]
      by_cases hkey : (cfg.pluginID, cfg.version) = key
      · have hsaves := written_savesFor hw
        rw [hkey] at hsaves
        simp [ConfigRow.key, hkey, hsaves]
      · have hno : ¬ c.service.SavesFor c.faults st.world c.operation key := by
          intro h
          obtain ⟨cfg', hcfg, hkey'⟩ := h.written
          rw [hw, Option.some.injEq] at hcfg
          subst hcfg
          exact hkey hkey'
        simp only [ConfigRow.key, hkey, if_false, hno, not_false_eq_true, and_true]

/-- Every version keeps its secrets through a run exactly when no switch of it
stores a migrated configuration for a version that has some. -/
theorem switching_keeps_secrets_iff (st : ConfigStore) (calls : List LifecycleRequest) :
    Along (fun t c => some (t.call c))
        (fun t => ∀ key values, st.Secrets reader key values → t.Secrets reader key values)
        st calls ↔
      Guarded (fun t c => some (t.call c))
        (fun t c => ∀ key values, t.Secrets reader key values →
          ¬ c.service.SavesFor c.faults t.world c.operation key)
        st calls := by
  refine along_iff_guarded
    (I := fun t => ∀ key values, st.Secrets reader key values ↔ t.Secrets reader key values)
    ?_ ?_ ?_ (fun _ _ => Iff.rfl)
  · intro t ht key values
    exact (ht key values).mp
  · rintro t c u ht hspares hu key values
    cases hu
    rw [secrets_call, ht key values]
    exact ⟨fun h => ⟨h, hspares key values h⟩, And.left⟩
  · rintro t c u ht hsaves hu hkeeps
    cases hu
    apply hsaves
    intro key values hsecrets
    exact ((secrets_call reader t c key values).mp
      (hkeeps key values ((ht key values).mpr hsecrets))).2

end

/-! ## A switch back -/

/-- A version of a plugin without hooks and permissions. -/
def plainVersion (version : String) (state : PluginState) : PluginVersion :=
  { PluginVersion.zero with pluginID := "acme/logger", version := version, state := state }

theorem plain_keys_nodup :
    ([plainVersion "1.0.0" .installed, plainVersion "1.1.0" .enabled].map
      PluginVersion.key).Nodup := by decide

theorem plain_one_enabled :
    OneEnabled [plainVersion "1.0.0" .installed, plainVersion "1.1.0" .enabled] := by decide

theorem plain_identified :
    ∀ p ∈ [plainVersion "1.0.0" .installed, plainVersion "1.1.0" .enabled],
      p.pluginID ≠ "" ∧ trimSpace p.version ≠ "" := by decide

/-- Both versions are configured, the newer one is enabled. -/
def upgradedStore : ConfigStore where
  world := ⟨⟨[plainVersion "1.0.0" .installed, plainVersion "1.1.0" .enabled],
    plain_keys_nodup, plain_one_enabled, plain_identified⟩, [], [],
    [⟨"acme/logger", "1.0.0", "", "[]"⟩, ⟨"acme/logger", "1.1.0", "", "[]"⟩], []⟩
  rows := [⟨⟨"acme/logger", "1.0.0", "", "[]"⟩, [1]⟩, ⟨⟨"acme/logger", "1.1.0", "", "[]"⟩, [2]⟩]
  configs_eq := rfl

/-- Manifests of plugins this host runs, and the migrator that accepts every
migration and changes nothing. -/
def noopService : Service where
  manifestFromJSON _ := ⟨0, hostAPIVersion, "", "", [], []⟩
  migrate _ currentConfig _ := .ok ⟨true, currentConfig, ""⟩
  hasConfigRepo := true
  hostVersion := "1.0.0"

def byteReader : SecretReader ℕ where
  cipher := some fun bytes => .ok (String.ofList (bytes.map fun b => Char.ofNat (48 + b.toNat)))
  unmarshal plaintext := .ok (some (plaintext.length))
  emptyValues := 0

/-- Switching back to a version that was configured before loses its secrets. -/
theorem switch_back_loses_secrets :
    ¬ Along (fun t c => some (t.call c))
        (fun t => ∀ key values, upgradedStore.Secrets byteReader key values →
          t.Secrets byteReader key values)
        upgradedStore
        [⟨noopService, fun _ => none, .switchEnabledVersion "acme/logger" "1.0.0"⟩] := by
  intro h
  have hkept := (h.2 _ rfl) ("acme/logger", "1.0.0") 1 rfl
  cases hkept

end GoSite.Plugin
