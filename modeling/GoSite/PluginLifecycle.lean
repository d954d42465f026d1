import GoSite.PluginRegistry

/-!
# Enable, Disable, Switch and Uninstall

Each operation is a chain of registry writes, runtime calls and dispatcher
refreshes, with a compensation written by hand after each step. A schedule says
which calls fail. A failing call leaves everything as it was and a failing write
returns the zero record, which the compensation after it then works on.
-/
namespace GoSite.Plugin
open GoStrings

inductive ErrorCode where
  | invalidInput
  | notFound
  | conflict
  | config
  | database
  | pluginInvalid
  | pluginOperation
  deriving Repr, DecidableEq

/-- `apperror.Error` with the text of its cause. -/
structure AppError where
  code : ErrorCode
  message : String
  cause : Option String
  deriving Repr, DecidableEq

/-- `apperror.New`. -/
def AppError.new (code : ErrorCode) (message : String) : AppError := ⟨code, message, none⟩

/-- `apperror.Wrap`. -/
def AppError.wrap (code : ErrorCode) (message cause : String) : AppError :=
  ⟨code, message, some cause⟩

def hostAPIVersion : String := "gosite-plugin/1"
def hostRPCVersion : String := "1"
def failureStartFailed : String := "start_failed"
def failureHookRefreshFailed : String := "hook_refresh_failed"
def failureDBFailed : String := "db_failed"
def failureCompensationFailed : String := "compensation_failed"
def failureStopFailed : String := "stop_failed"
def failureFSDeleteFailed : String := "fs_delete_failed"
def failureConfigMigration : String := "config_migration_failed"
def failureOperationProgress : String := "operation_in_progress"
def bundledSourceType : String := "bundled"

/-- The part of a manifest that the lifecycle looks at. -/
structure Manifest where
  tier : ℤ
  apiVersion : String
  minGoSiteVersion : String
  rpcVersion : String
  permissions : List String
  hooks : List String
  deriving Repr, DecidableEq

structure MigrateResult where
  ok : Bool
  migratedConfig : String
  error : String
  deriving Repr, DecidableEq

structure PluginConfig where
  pluginID : String
  version : String
  configVersion : String
  configJSON : String
  deriving Repr, DecidableEq

/-- What the service is built from. `manifestFromJSON` is `json.Unmarshal` with
its error dropped and `migrate` the plugin's own migration. -/
structure Service where
  manifestFromJSON : String → Manifest
  migrate : PluginVersion → String → PluginVersion → Except String MigrateResult
  hasConfigRepo : Bool
  hostVersion : String

/-- Everything the operations change. `running` holds the versions whose runtime
runs and `targets` the set the dispatcher was last given. -/
structure World where
  registry : Registry
  running : List Key
  targets : List PluginVersion
  configs : List PluginConfig
  locks : List String

/-- The calls that can fail. An operation makes each of them at most once. -/
inductive Call where
  | markEnabling
  | start
  | recordStartFailure
  | markEnabled
  | enableStop
  | recordEnableStopFailure
  | recordMarkEnabledFailure
  | enableRefresh
  | recordEnableRefreshFailure
  | enableRefreshAgain
  | markDisabling
  | disableHooks
  | recordHookFailure
  | stop
  | recordStopFailure
  | restoreHooks
  | recordRestoreFailure
  | markInstalled
  | recordMarkInstalledFailure
  | disableRefresh
  | recordDisableRefreshFailure
  | recordMigrationFailure
  | upsertConfig
  | markUninstalling
  | ensureStopped
  | recordEnsureFailure
  | removeArtifact
  | recordRemoveFailure
  | markConfigDeleted
  deriving Repr, DecidableEq

/-- The calls that undo what was done or record that a call failed. -/
def Call.compensating : Call → Bool
  | .recordStartFailure | .enableStop | .recordEnableStopFailure | .recordMarkEnabledFailure
  | .recordEnableRefreshFailure | .enableRefreshAgain | .recordHookFailure | .recordStopFailure
  | .restoreHooks | .recordRestoreFailure | .recordMarkInstalledFailure
  | .recordMigrationFailure | .recordEnsureFailure | .recordRemoveFailure => true
  | _ => false

/-- The error text of each call that fails. -/
abbrev Faults := Call → Option String

/-- The driver's text for the unique index. -/
def uniqueIndexError : String := "UNIQUE constraint failed: plugin_versions.plugin_id"

/-- `sql.ErrNoRows`. -/
def noRowsError : String := "sql: no rows in result set"

/-- The write shared by `SetState`, `SetFailure` and `MarkConfigDeleted`, and
the `Find` that follows it. -/
def World.write (w : World) (fault : Option String) (context : String) (key : Key)
    (state : PluginState) (failureClass failureMessage : String) :
    World × PluginVersion × Option String :=
  match fault with
  | some e => (w, .zero, some (context ++ ": " ++ e))
  | none =>
      match w.registry.update key state failureClass failureMessage with
      | none => (w, .zero, some (context ++ ": " ++ uniqueIndexError))
      | some g =>
          match g.find key.1 key.2 with
          | none => ({ w with registry := g }, .zero, some noRowsError)
          | some p => ({ w with registry := g }, p, none)

/-- `SetState` clears the failure columns. -/
def World.setState (w : World) (fault : Option String) (record : PluginVersion)
    (state : PluginState) : World × PluginVersion × Option String :=
  w.write fault "set plugin state" record.key state "" ""

/-- `SetFailure`. Every caller drops its error. -/
def World.setFailure (w : World) (fault : Option String) (record : PluginVersion)
    (state : PluginState) (failureClass failureMessage : String) : World × PluginVersion :=
  let (w, failed, _) :=
    w.write fault "set plugin state" record.key state failureClass failureMessage
  (w, failed)

/-- `MarkConfigDeleted`. -/
def World.markConfigDeleted (w : World) (fault : Option String) (record : PluginVersion) :
    World × PluginVersion × Option String :=
  w.write fault "mark plugin config deleted" record.key .uninstalled "" ""

/-- `RuntimeManager.Start`. -/
def World.start (w : World) (fault : Option String) (record : PluginVersion) :
    World × Option String :=
  match fault with
  | some e => (w, some e)
  | none => ({ w with running := record.key :: w.running }, none)

/-- `RuntimeManager.Stop` and `EnsureStopped`. -/
def World.stop (w : World) (fault : Option String) (record : PluginVersion) :
    World × Option String :=
  match fault with
  | some e => (w, some e)
  | none => ({ w with running := w.running.filter (· ≠ record.key) }, none)

/-- The order `refreshEnabled` sorts the enabled versions in. -/
def refreshOrder (a b : PluginVersion) : Bool :=
  if a.pluginID = b.pluginID then compareSemver a.version b.version ≥ 0
  else a.pluginID < b.pluginID

/-- `refreshEnabled`. -/
def World.refreshEnabled (w : World) (fault : Option String) : World × Option String :=
  match fault with
  | some e => (w, some e)
  | none => ({ w with targets := w.registry.listEnabled.mergeSort refreshOrder }, none)

/-- `HookDispatcher.Disable`. -/
def World.disableHooks (w : World) (fault : Option String) (record : PluginVersion) :
    World × Option String :=
  match fault with
  | some e => (w, some e)
  | none => ({ w with targets := w.targets.filter (·.pluginID ≠ record.pluginID) }, none)

/-- What a caller of the service gets back. -/
abbrev Answer := World × PluginVersion × Option AppError

def Service.manifestFromRecord (s : Service) (record : PluginVersion) : Manifest :=
  s.manifestFromJSON record.manifestJSON

def isBundledRecord (record : PluginVersion) : Bool :=
  trimSpace record.sourceType = bundledSourceType

def needsPermissionAck (m : Manifest) : Bool :=
  if m.permissions.length > 0 then true else m.hooks.length > 0

def stableUninstallState (state : PluginState) : Bool :=
  state = .installed ∨ state = .installFailed ∨ state = .enableFailed

def Service.compatibilityCheck (s : Service) (manifest : Manifest) (bundledTrust : Bool) :
    Option AppError :=
  if manifest.apiVersion ≠ hostAPIVersion then
    some (.new .pluginInvalid "unsupported plugin apiVersion")
  else if manifest.tier = 1 ∧ manifest.rpcVersion ≠ hostRPCVersion then
    some (.new .pluginInvalid "unsupported plugin rpcVersion")
  else if ¬ bundledTrust ∧ manifest.minGoSiteVersion ≠ "" ∧
      compareSemver manifest.minGoSiteVersion s.hostVersion > 0 then
    some (.new .pluginInvalid "plugin requires a newer GoSite version")
  else none

/-- A blank version means the highest installable one. -/
def findInstallable (g : Registry) (pluginID version : String) : Option PluginVersion :=
  if trimSpace version = "" then
    ((g.listInstallable pluginID).mergeSort
      fun a b => compareSemver a.version b.version ≥ 0).head?
  else g.find pluginID version

def findForEnable (g : Registry) (pluginID version : String) : Except AppError PluginVersion :=
  match findInstallable g pluginID version with
  | none => .error (.new .notFound "plugin version not found")
  | some record => .ok record

/-- The checks `enableUnlocked` makes before its first write. -/
def Service.enableCheck (s : Service) (record : PluginVersion) : Option AppError :=
  if record.sourceType ≠ "" ∧ record.sourceType ≠ "upload" ∧
      needsPermissionAck (s.manifestFromRecord record) ∧ record.permissionsAckAt = none then
    some (.new .invalidInput "permissions must be acknowledged before enable")
  else if record.state = .enableFailed ∧ record.failureClass = failureCompensationFailed then
    some (.new .conflict "plugin needs manual recovery before retry")
  else if record.state ≠ .installed ∧ record.state ≠ .enableFailed then
    some (.new .conflict "plugin is not installable")
  else s.compatibilityCheck (s.manifestFromRecord record) (isBundledRecord record)

/-- `enableUnlocked` from its first write on. After the write of `enabled`
failed, `record` is the zero record. -/
def enableRecord (F : Faults) (w : World) (record : PluginVersion) : Answer :=
  let (w, record, err) := w.setState (F .markEnabling) record .enabling
  match err with
  | some e => (w, .zero, some (.wrap .database "mark plugin enabling failed" e))
  | none =>
  let (w, err) := w.start (F .start) record
  match err with
  | some e =>
      let (w, failed) :=
        w.setFailure (F .recordStartFailure) record .enableFailed failureStartFailed e
      (w, failed, some (.wrap .pluginOperation "start plugin runtime failed" e))
  | none =>
  let (w, record, err) := w.setState (F .markEnabled) record .enabled
  match err with
  | some e =>
      let (w, stopErr) := w.stop (F .enableStop) record
      match stopErr with
      | some stopErr =>
          let (w, failed) := w.setFailure (F .recordEnableStopFailure) record .enableFailed
            failureCompensationFailed stopErr
          (w, failed, some (.wrap .pluginOperation "plugin enable compensation failed" stopErr))
      | none =>
          let (w, failed) :=
            w.setFailure (F .recordMarkEnabledFailure) record .enableFailed failureDBFailed e
          (w, failed, some (.wrap .database "mark plugin enabled failed" e))
  | none =>
  let (w, err) := w.refreshEnabled (F .enableRefresh)
  match err with
  | some e =>
      let (w, stopErr) := w.stop (F .enableStop) record
      match stopErr with
      | some stopErr =>
          let (w, failed) := w.setFailure (F .recordEnableStopFailure) record .enableFailed
            failureCompensationFailed stopErr
          (w, failed, some (.wrap .pluginOperation "plugin enable compensation failed" stopErr))
      | none =>
          let (w, failed) := w.setFailure (F .recordEnableRefreshFailure) record .enableFailed
            failureHookRefreshFailed e
          let (w, _) := w.refreshEnabled (F .enableRefreshAgain)
          (w, failed, some (.wrap .pluginOperation "refresh plugin hooks failed" e))
  | none => (w, record, none)

def Service.enableUnlocked (s : Service) (F : Faults) (w : World) (pluginID version : String) :
    Answer :=
  match findForEnable w.registry pluginID version with
  | .error e => (w, .zero, some e)
  | .ok record =>
      match s.enableCheck record with
      | some e => (w, .zero, some e)
      | none => enableRecord F w record

/-- `disableUnlocked` from its first write on. After the write of `installed`
failed, `record` is the zero record. -/
def disableRecord (F : Faults) (w : World) (record : PluginVersion) : Answer :=
  let (w, record, err) := w.setState (F .markDisabling) record .disabling
  match err with
  | some e => (w, .zero, some (.wrap .database "mark plugin disabling failed" e))
  | none =>
  let (w, err) := w.disableHooks (F .disableHooks) record
  match err with
  | some e =>
      let (w, failed) :=
        w.setFailure (F .recordHookFailure) record .enabled failureHookRefreshFailed e
      (w, failed, some (.wrap .pluginOperation "disable plugin hooks failed" e))
  | none =>
  let (w, err) := w.stop (F .stop) record
  match err with
  | some e =>
      let (w, failed) := w.setFailure (F .recordStopFailure) record .enabled failureStopFailed e
      let (w, refreshErr) := w.refreshEnabled (F .restoreHooks)
      let (w, failed) :=
        match refreshErr with
        | some r =>
            w.setFailure (F .recordRestoreFailure) record .enabled failureCompensationFailed r
        | none => (w, failed)
      (w, failed, some (.wrap .pluginOperation "stop plugin runtime failed" e))
  | none =>
  let (w, record, err) := w.setState (F .markInstalled) record .installed
  match err with
  | some e =>
      let (w, failed) :=
        w.setFailure (F .recordMarkInstalledFailure) record .installed failureDBFailed e
      (w, failed, some (.wrap .database "mark plugin disabled failed" e))
  | none =>
  let (w, err) := w.refreshEnabled (F .disableRefresh)
  match err with
  | some e =>
      let (w, failed) := w.setFailure (F .recordDisableRefreshFailure) record .installed
        failureHookRefreshFailed e
      (w, failed, some (.wrap .pluginOperation "refresh plugin hooks failed" e))
  | none => (w, record, none)

def disableUnlocked (F : Faults) (w : World) (pluginID : String) : Answer :=
  match w.registry.findEnabled pluginID with
  | none => (w, .zero, some (.new .notFound "enabled plugin not found"))
  | some record => disableRecord F w record

/-- The checks a switch makes on its target. -/
def Service.switchCheck (s : Service) (target : PluginVersion) : Option AppError :=
  match s.compatibilityCheck (s.manifestFromRecord target) (isBundledRecord target) with
  | some e => some e
  | none =>
      if target.state = .enableFailed ∧ target.failureClass = failureCompensationFailed then
        some (.new .conflict "plugin needs manual recovery before retry")
      else if target.state ≠ .installed ∧ target.state ≠ .enableFailed then
        some (.new .conflict "plugin is not installable")
      else none

/-- The config handed to the migration. -/
def Service.currentConfig (s : Service) (w : World) (current : PluginVersion) : String :=
  if s.hasConfigRepo then
    match w.configs.find? fun c => (c.pluginID, c.version) = current.key with
    | some cfg => cfg.configJSON
    | none => ""
  else ""

/-- `PluginConfigRepository.Upsert`. -/
def World.upsertConfig (w : World) (fault : Option String) (cfg : PluginConfig) :
    World × Option String :=
  match fault with
  | some e => (w, some e)
  | none =>
      let others := w.configs.filter fun c =>
        (c.pluginID, c.version) ≠ (cfg.pluginID, cfg.version)
      ({ w with configs := cfg :: others }, none)

/-- The text of a migration that the plugin rejects. -/
def rejectionMessage (result : MigrateResult) : String :=
  if result.error = "" then "config migration rejected" else result.error

/-- The second half of a switch. -/
def Service.disableThenEnable (s : Service) (F : Faults) (w : World)
    (pluginID version : String) : Answer :=
  let (w, _, err) := disableUnlocked F w pluginID
  match err with
  | some e => (w, .zero, some e)
  | none => s.enableUnlocked F w pluginID version

/-- The switch between two versions: migrate the config, disable, enable. -/
def Service.switchRecord (s : Service) (F : Faults) (w : World) (pluginID version : String)
    (current target : PluginVersion) : Answer :=
  match s.migrate current (s.currentConfig w current) target with
  | .error e =>
      let (w, failed) := w.setFailure (F .recordMigrationFailure) target .installed
        failureConfigMigration e
      (w, failed, some (.wrap .pluginOperation "migrate plugin config failed" e))
  | .ok result =>
      if ¬ result.ok then
        let msg := rejectionMessage result
        let (w, failed) := w.setFailure (F .recordMigrationFailure) target .installed
          failureConfigMigration msg
        (w, failed, some (.new .pluginOperation ("migrate plugin config failed: " ++ msg)))
      else
        let (w, err) :=
          if result.migratedConfig ≠ "" ∧ s.hasConfigRepo then
            w.upsertConfig (F .upsertConfig) ⟨target.pluginID, target.version,
              target.configVersion, result.migratedConfig⟩
          else (w, none)
        match err with
        | some e => (w, .zero, some (.wrap .database "save migrated config failed" e))
        | none => s.disableThenEnable F w pluginID version

def Service.switchUnlocked (s : Service) (F : Faults) (w : World) (pluginID version : String) :
    Answer :=
  match w.registry.findEnabled pluginID with
  | none => s.enableUnlocked F w pluginID version
  | some current =>
      if current.version = version then (w, current, none)
      else
        match w.registry.find pluginID version with
        | none => (w, .zero, some (.new .notFound "plugin version not found"))
        | some target =>
            match s.switchCheck target with
            | some e => (w, .zero, some e)
            | none => s.switchRecord F w pluginID version current target

/-- `Uninstall` from its first write on. -/
def uninstallRecord (F : Faults) (w : World) (record : PluginVersion) : Answer :=
  let (w, record, err) := w.setState (F .markUninstalling) record .uninstalling
  match err with
  | some e => (w, .zero, some (.wrap .database "mark plugin uninstalling failed" e))
  | none =>
  let (w, err) := w.stop (F .ensureStopped) record
  match err with
  | some e =>
      let (w, failed) :=
        w.setFailure (F .recordEnsureFailure) record .installed failureStopFailed e
      (w, failed, some (.wrap .pluginOperation "ensure plugin stopped failed" e))
  | none =>
  match F .removeArtifact with
  | some e =>
      let (w, failed) :=
        w.setFailure (F .recordRemoveFailure) record .installed failureFSDeleteFailed e
      (w, failed, some (.wrap .pluginOperation "delete plugin artifact failed" e))
  | none =>
  let (w, record, err) := w.markConfigDeleted (F .markConfigDeleted) record
  match err with
  | some e => (w, .zero, some (.wrap .database "mark plugin uninstalled failed" e))
  | none => (w, record, none)

def uninstallUnlocked (F : Faults) (w : World) (pluginID version : String) : Answer :=
  match w.registry.find pluginID version with
  | none => (w, .zero, some (.new .notFound "plugin version not found"))
  | some record =>
      if ¬ stableUninstallState record.state then
        (w, .zero, some (.new .conflict "plugin must be disabled and stable before uninstall"))
      else uninstallRecord F w record

inductive Operation where
  | enable (pluginID version : String)
  | disable (pluginID : String)
  | switchEnabledVersion (pluginID version : String)
  | uninstall (pluginID version : String)
  deriving Repr, DecidableEq

def Operation.pluginID : Operation → String
  | .enable pluginID _ => pluginID
  | .disable pluginID => pluginID
  | .switchEnabledVersion pluginID _ => pluginID
  | .uninstall pluginID _ => pluginID

/-- The body of an operation, under the plugin's lock. -/
def Service.unlocked (s : Service) (F : Faults) (w : World) : Operation → Answer
  | .enable pluginID version => s.enableUnlocked F w pluginID version
  | .disable pluginID => disableUnlocked F w pluginID
  | .switchEnabledVersion pluginID version => s.switchUnlocked F w pluginID version
  | .uninstall pluginID version => uninstallUnlocked F w pluginID version

/-- `TryAcquire`, the body and the deferred `Release`. -/
def Service.perform (s : Service) (F : Faults) (w : World) (op : Operation) : Answer :=
  if op.pluginID ∈ w.locks then
    (w, .zero, some (.new .conflict failureOperationProgress))
  else
    let (w, record, err) := s.unlocked F { w with locks := op.pluginID :: w.locks } op
    ({ w with locks := w.locks.erase op.pluginID }, record, err)

end GoSite.Plugin
