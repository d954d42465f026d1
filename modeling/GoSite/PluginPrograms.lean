import GoSite.BundledPlugins
import GoSite.Interleaving
import GoSite.VersionDirectories

/-!
# The operations call by call

The lifecycle operations once more, as programs whose calls of the repositories, the
runtime, the dispatcher and the token service are one step each. A call carries the
name it has in the model of whole operations, and run alone the programs are those
operations.
-/
namespace GoSite.Plugin
open GoStrings Interleaving
open GoSite.Terminal (joinPath)

/-- A call of a repository, of the lock, of the runtime, of the dispatcher or of the token
service. -/
inductive ServiceCall where
  | tryAcquire (pluginID : String)
  | release (pluginID : String)
  | find (key : Key)
  | findEnabled (pluginID : String)
  | listInstallable (pluginID : String)
  | listEnabled
  | list
  | write (context : String) (key : Key) (state : PluginState)
      (failureClass failureMessage : String)
  | createOrRetryInstall (r : Registration)
  | setInstallLog (key : Key)
  | start (record : PluginVersion)
  | stop (record : PluginVersion)
  | refresh (plugins : List PluginVersion)
  | disableHooks (record : PluginVersion)
  | removeArtifact
  | getConfig (key : Key)
  | upsertConfig (cfg : PluginConfig)
  | deleteConfig (key : Key)
  | deleteUninstalled (key : Key)
  | tokens

/-- What a call returns. A row that is not there is no failure. -/
@[reducible] def ServiceCall.Reply : ServiceCall → Type
  | .tryAcquire _ => Bool
  | .release _ | .refresh _ => Unit
  | .find _ | .findEnabled _ => Except String (Option PluginVersion)
  | .listInstallable _ | .listEnabled | .list => Except String (List PluginVersion)
  | .write _ _ _ _ _ => PluginVersion × Option String
  | .createOrRetryInstall _ => Option AppError
  | .setInstallLog _ => PluginVersion
  | .getConfig _ => Except String (Option PluginConfig)
  | .deleteUninstalled _ => Except String Bool
  | .start _ | .stop _ | .disableHooks _ | .removeArtifact | .upsertConfig _ | .deleteConfig _
  | .tokens => Option String

/-- The name of a call in the model of whole operations, if it has one. -/
inductive CallSite where
  | other
  | operation (call : Call)
  | install (call : InstallCall)
  deriving Repr, DecidableEq

structure NamedCall where
  site : CallSite
  call : ServiceCall

@[reducible] def NamedCall.Reply (c : NamedCall) : Type := c.call.Reply

/-- A read fails or returns what is there. -/
def readReply {α : Type} (fault : Option String) (a : α) : Except String α :=
  match fault with
  | some e => .error e
  | none => .ok a

/-- `PluginConfigRepository.Delete`. -/
def World.deleteConfig (w : World) (fault : Option String) (key : Key) : World × Option String :=
  match fault with
  | some e => (w, some e)
  | none => ({ w with configs := w.configs.filter fun c => (c.pluginID, c.version) ≠ key }, none)

/-- `DeleteUninstalled`, and whether there was a row to delete. -/
def World.deleteUninstalled (w : World) (fault : Option String) (key : Key) :
    World × Except String Bool :=
  match fault with
  | some e => (w, .error e)
  | none =>
      ({ w with registry := w.registry.deleteUninstalled key },
        .ok (w.registry.rows.any fun p => p.key = key ∧ p.state = .uninstalled))

/-- The world after a call, and what the call returns. A call that fails does so with the
error it is given. -/
def World.answer (w : World) (fault : Option String) : (c : NamedCall) → World × c.Reply
  | ⟨_, .tryAcquire pluginID⟩ =>
      if pluginID ∈ w.locks then (w, false)
      else ({ w with locks := pluginID :: w.locks }, true)
  | ⟨_, .release pluginID⟩ => ({ w with locks := w.locks.erase pluginID }, ())
  | ⟨_, .find key⟩ => (w, readReply fault (w.registry.find key.1 key.2))
  | ⟨_, .findEnabled pluginID⟩ => (w, readReply fault (w.registry.findEnabled pluginID))
  | ⟨_, .listInstallable pluginID⟩ => (w, readReply fault (w.registry.listInstallable pluginID))
  | ⟨_, .listEnabled⟩ => (w, readReply fault w.registry.listEnabled)
  | ⟨_, .list⟩ => (w, readReply fault w.registry.rows)
  | ⟨_, .write context key state failureClass failureMessage⟩ =>
      w.write fault context key state failureClass failureMessage
  | ⟨_, .createOrRetryInstall r⟩ => w.createOrRetryInstall fault r
  | ⟨_, .setInstallLog key⟩ => (w, w.setInstallLog fault key)
  | ⟨_, .start record⟩ => w.start fault record
  | ⟨_, .stop record⟩ => w.stop fault record
  | ⟨_, .refresh plugins⟩ => ({ w with targets := plugins }, ())
  | ⟨_, .disableHooks record⟩ => w.disableHooks fault record
  | ⟨_, .removeArtifact⟩ => (w, fault)
  | ⟨_, .getConfig key⟩ =>
      (w, readReply fault (w.configs.find? fun c => (c.pluginID, c.version) = key))
  | ⟨_, .upsertConfig cfg⟩ => w.upsertConfig fault cfg
  | ⟨_, .deleteConfig key⟩ => w.deleteConfig fault key
  | ⟨_, .deleteUninstalled key⟩ => w.deleteUninstalled fault key
  | ⟨_, .tokens⟩ => (w, fault)

/-- A program of the plugin service. -/
abbrev Steps (α : Type) := Program NamedCall NamedCall.Reply α

/-- A call without a name. -/
abbrev call (c : ServiceCall) : Steps c.Reply := request (NamedCall.mk .other c)

/-- A call of the lifecycle model. -/
abbrev callAs (site : Call) (c : ServiceCall) : Steps c.Reply :=
  request (NamedCall.mk (.operation site) c)

/-- A call of the installation model. -/
abbrev callIn (site : InstallCall) (c : ServiceCall) : Steps c.Reply :=
  request (NamedCall.mk (.install site) c)

namespace Steps

/-- `SetState`. -/
def setState (site : Call) (record : PluginVersion) (state : PluginState) :
    Steps (PluginVersion × Option String) :=
  callAs site (.write "set plugin state" record.key state "" "")

/-- `SetFailure`, with its error dropped. -/
def setFailure (site : Call) (record : PluginVersion) (state : PluginState)
    (failureClass failureMessage : String) : Steps PluginVersion := do
  let (failed, _) ← callAs site
    (.write "set plugin state" record.key state failureClass failureMessage)
  return failed

/-- `refreshEnabled`. -/
def refreshEnabled (site : Call) : Steps (Option String) := do
  match ← callAs site .listEnabled with
  | .error e => return some e
  | .ok enabled =>
      call (.refresh (enabled.mergeSort refreshOrder))
      return none

section
variable (s : Service)

/-- `findForEnable`. -/
def findForEnable (pluginID version : String) : Steps (Except AppError PluginVersion) := do
  if trimSpace version = "" then
    match ← call (.listInstallable pluginID) with
    | .error e => return .error (.wrap .database "find plugin failed" e)
    | .ok records =>
        match (records.mergeSort fun a b => compareSemver a.version b.version ≥ 0).head? with
        | none => return .error (.new .notFound "plugin version not found")
        | some record => return .ok record
  else
    match ← call (.find (pluginID, version)) with
    | .error e => return .error (.wrap .database "find plugin failed" e)
    | .ok none => return .error (.new .notFound "plugin version not found")
    | .ok (some record) => return .ok record

/-- What `enableUnlocked` does when the runtime has to be stopped again. -/
def enableStop (record : PluginVersion) (after : Steps (PluginVersion × Option AppError)) :
    Steps (PluginVersion × Option AppError) := do
  match ← callAs .enableStop (.stop record) with
  | some stopErr =>
      let failed ← setFailure .recordEnableStopFailure record .enableFailed
        failureCompensationFailed stopErr
      return (failed, some (.wrap .pluginOperation "plugin enable compensation failed" stopErr))
  | none => after

/-- `enableUnlocked` from its first write on. -/
def enableRecord (record : PluginVersion) : Steps (PluginVersion × Option AppError) := do
  let (record, err) ← setState .markEnabling record .enabling
  match err with
  | some e => return (.zero, some (.wrap .database "mark plugin enabling failed" e))
  | none =>
  match ← callAs .start (.start record) with
  | some e =>
      let failed ← setFailure .recordStartFailure record .enableFailed failureStartFailed e
      return (failed, some (.wrap .pluginOperation "start plugin runtime failed" e))
  | none =>
  let (record, err) ← setState .markEnabled record .enabled
  match err with
  | some e =>
      enableStop record do
        let failed ← setFailure .recordMarkEnabledFailure record .enableFailed failureDBFailed e
        return (failed, some (.wrap .database "mark plugin enabled failed" e))
  | none =>
  match ← refreshEnabled .enableRefresh with
  | some e =>
      enableStop record do
        let failed ← setFailure .recordEnableRefreshFailure record .enableFailed
          failureHookRefreshFailed e
        let _ ← refreshEnabled .enableRefreshAgain
        return (failed, some (.wrap .pluginOperation "refresh plugin hooks failed" e))
  | none =>
      let _ ← call .tokens
      return (record, none)

/-- `enableUnlocked`. -/
def enableUnlocked (pluginID version : String) : Steps (PluginVersion × Option AppError) := do
  match ← findForEnable pluginID version with
  | .error e => return (.zero, some e)
  | .ok record =>
      match s.enableCheck record with
      | some e => return (.zero, some e)
      | none => enableRecord record

/-- `disableUnlocked` from its first write on. -/
def disableRecord (record : PluginVersion) : Steps (PluginVersion × Option AppError) := do
  let (record, err) ← setState .markDisabling record .disabling
  match err with
  | some e => return (.zero, some (.wrap .database "mark plugin disabling failed" e))
  | none =>
  match ← callAs .disableHooks (.disableHooks record) with
  | some e =>
      let failed ← setFailure .recordHookFailure record .enabled failureHookRefreshFailed e
      return (failed, some (.wrap .pluginOperation "disable plugin hooks failed" e))
  | none =>
  match ← callAs .stop (.stop record) with
  | some e =>
      let failed ← setFailure .recordStopFailure record .enabled failureStopFailed e
      match ← refreshEnabled .restoreHooks with
      | some r =>
          let failed ← setFailure .recordRestoreFailure record .enabled
            failureCompensationFailed r
          return (failed, some (.wrap .pluginOperation "stop plugin runtime failed" e))
      | none => return (failed, some (.wrap .pluginOperation "stop plugin runtime failed" e))
  | none =>
  let (record, err) ← setState .markInstalled record .installed
  match err with
  | some e =>
      let failed ← setFailure .recordMarkInstalledFailure record .installed failureDBFailed e
      return (failed, some (.wrap .database "mark plugin disabled failed" e))
  | none =>
  match ← refreshEnabled .disableRefresh with
  | some e =>
      let failed ← setFailure .recordDisableRefreshFailure record .installed
        failureHookRefreshFailed e
      return (failed, some (.wrap .pluginOperation "refresh plugin hooks failed" e))
  | none => return (record, none)

/-- `disableUnlocked`. -/
def disableUnlocked (pluginID : String) : Steps (PluginVersion × Option AppError) := do
  match ← call (.findEnabled pluginID) with
  | .error e => return (.zero, some (.wrap .database "find enabled plugin failed" e))
  | .ok none => return (.zero, some (.new .notFound "enabled plugin not found"))
  | .ok (some record) => disableRecord record

/-- The config handed to the migration. -/
def currentConfig (current : PluginVersion) : Steps (Except String String) := do
  if s.hasConfigRepo then
    match ← call (.getConfig current.key) with
    | .error e => return .error e
    | .ok none => return .ok ""
    | .ok (some cfg) => return .ok cfg.configJSON
  else return .ok ""

/-- The second half of a switch. -/
def disableThenEnable (pluginID version : String) : Steps (PluginVersion × Option AppError) := do
  let (_, err) ← disableUnlocked pluginID
  match err with
  | some e => return (.zero, some e)
  | none => enableUnlocked s pluginID version

/-- The switch between two versions: migrate the config, disable, enable. -/
def switchRecord (pluginID version : String) (current target : PluginVersion) :
    Steps (PluginVersion × Option AppError) := do
  match ← currentConfig s current with
  | .error e => return (.zero, some (.wrap .database "load plugin config failed" e))
  | .ok config =>
  match s.migrate current config target with
  | .error e =>
      let failed ← setFailure .recordMigrationFailure target .installed failureConfigMigration e
      return (failed, some (.wrap .pluginOperation "migrate plugin config failed" e))
  | .ok result =>
      if ¬ result.ok then
        let msg := rejectionMessage result
        let failed ← setFailure .recordMigrationFailure target .installed
          failureConfigMigration msg
        return (failed, some (.new .pluginOperation ("migrate plugin config failed: " ++ msg)))
      else if result.migratedConfig ≠ "" ∧ s.hasConfigRepo then
        match ← callAs .upsertConfig (.upsertConfig ⟨target.pluginID, target.version,
          target.configVersion, result.migratedConfig⟩) with
        | some e => return (.zero, some (.wrap .database "save migrated config failed" e))
        | none => disableThenEnable s pluginID version
      else disableThenEnable s pluginID version

/-- `SwitchEnabledVersion` under the lock. -/
def switchUnlocked (pluginID version : String) : Steps (PluginVersion × Option AppError) := do
  match ← call (.findEnabled pluginID) with
  | .error e => return (.zero, some (.wrap .database "find enabled plugin failed" e))
  | .ok none => enableUnlocked s pluginID version
  | .ok (some current) =>
  if current.version = version then return (current, none)
  else
    match ← call (.find (pluginID, version)) with
    | .error e => return (.zero, some (.wrap .database "find switch target failed" e))
    | .ok none => return (.zero, some (.new .notFound "plugin version not found"))
    | .ok (some target) =>
        match s.switchCheck target with
        | some e => return (.zero, some e)
        | none => switchRecord s pluginID version current target

/-- `pluginHasRemainingVersions`. -/
def pluginHasRemainingVersions (pluginID : String) : Steps Bool := do
  match ← call .list with
  | .error _ => return true
  | .ok rows => return rows.any fun row => row.pluginID = pluginID ∧ row.state ≠ .uninstalled

/-- `Uninstall` from its first write on. -/
def uninstallRecord (pluginID : String) (record : PluginVersion) :
    Steps (PluginVersion × Option AppError) := do
  let (record, err) ← setState .markUninstalling record .uninstalling
  match err with
  | some e => return (.zero, some (.wrap .database "mark plugin uninstalling failed" e))
  | none =>
  match ← callAs .ensureStopped (.stop record) with
  | some e =>
      let failed ← setFailure .recordEnsureFailure record .installed failureStopFailed e
      return (failed, some (.wrap .pluginOperation "ensure plugin stopped failed" e))
  | none =>
  match ← callAs .removeArtifact .removeArtifact with
  | some e =>
      let failed ← setFailure .recordRemoveFailure record .installed failureFSDeleteFailed e
      return (failed, some (.wrap .pluginOperation "delete plugin artifact failed" e))
  | none =>
  let (record, err) ← callAs .markConfigDeleted
    (.write "mark plugin config deleted" record.key .uninstalled "" "")
  match err with
  | some e => return (.zero, some (.wrap .database "mark plugin uninstalled failed" e))
  | none =>
  if ¬ (← pluginHasRemainingVersions pluginID) then
    let _ ← call .tokens
    return (record, none)
  else return (record, none)

/-- `Uninstall` under the lock. -/
def uninstallUnlocked (pluginID version : String) : Steps (PluginVersion × Option AppError) := do
  match ← call (.find (pluginID, version)) with
  | .error e => return (.zero, some (.wrap .database "find plugin failed" e))
  | .ok none => return (.zero, some (.new .notFound "plugin version not found"))
  | .ok (some record) =>
      if ¬ stableUninstallState record.state then
        return (.zero,
          some (.new .conflict "plugin must be disabled and stable before uninstall"))
      else uninstallRecord pluginID record

/-- The body of an operation, under the plugin's lock. -/
def unlocked : Operation → Steps (PluginVersion × Option AppError)
  | .enable pluginID version => enableUnlocked s pluginID version
  | .disable pluginID => disableUnlocked pluginID
  | .switchEnabledVersion pluginID version => switchUnlocked s pluginID version
  | .uninstall pluginID version => uninstallUnlocked pluginID version

/-- `TryAcquire`, the body and the deferred `Release`. -/
def perform (op : Operation) : Steps (PluginVersion × Option AppError) := do
  if ← call (.tryAcquire op.pluginID) then
    let result ← unlocked s op
    call (.release op.pluginID)
    return result
  else return (.zero, some (.new .conflict failureOperationProgress))

end

/-- The state an earlier attempt left the version in. -/
def existingConflict (existing : Option PluginVersion) (bundled : Bool) : Option AppError :=
  match existing with
  | none => none
  | some existing =>
      match existing.state with
      | .installFailed => none
      | .uninstalled =>
          if bundled then none else some (.new .conflict "plugin version already exists")
      | _ => some (.new .conflict "plugin version already exists")

section
variable (I : Installer) (e : InstallWeather)

/-- `Install` from the registration on. -/
def finishInstall (m : InstallManifest) (bundled : Bool) (r : Registration) :
    Steps (PluginVersion × Option InstallError) := do
  match runValidate m bundled e.validate with
  | some err =>
      let _ ← callIn .recordInstallFailure (.write "set plugin state" r.record.key .installFailed
        (classifyValidationError err) err.error)
      let record ← callIn .setInstallLog (.setInstallLog r.record.key)
      return (record, some err)
  | none =>
      let (_, err) ← callIn .markInstalled
        (.write "set plugin state" r.record.key .installed "" "")
      match err with
      | some err => return (.zero, some (.app (.wrap .database "mark plugin installed failed" err)))
      | none =>
          let record ← callIn .setInstallLog (.setInstallLog r.record.key)
          return (record, none)

/-- `Install` under the plugin's lock. What the file system and the validation answer is in
`e`. -/
def installUnlocked (input : InstallInput) (c : Checked) :
    Steps (PluginVersion × Option InstallError) := do
  match safePluginDir I.storageDir c.manifest.id c.manifest.version with
  | .error err => return (.zero, some (.app err))
  | .ok dir =>
  match ← callIn .findExisting (.find (c.manifest.id, c.manifest.version)) with
  | .error err => return (.zero, some (.app (.wrap .database "find existing plugin failed" err)))
  | .ok existing =>
  match existingConflict existing (isBundledInstall input) with
  | some err => return (.zero, some (.app err))
  | none =>
  match storeArtifact e with
  | some err => return (.zero, some (.app err))
  | none =>
  let digest := I.digest input.content
  let artifactPath := joinPath dir (digest ++ ".artifact").toList
  let r := c.registration digest artifactPath input e.now
  match ← callIn .createOrRetryInstall (.createOrRetryInstall r) with
  | some err => return (.zero, some (.app err))
  | none => finishInstall e c.manifest (isBundledInstall input) r

/-- `Install`. -/
def install (input : InstallInput) : Steps (PluginVersion × Option InstallError) := do
  match I.check input with
  | .error err => return (.zero, some (.app err))
  | .ok c =>
      if ← call (.tryAcquire c.manifest.id) then
        let result ← installUnlocked I e input c
        call (.release c.manifest.id)
        return result
      else return (.zero, some (.app (.new .conflict failureOperationProgress)))

end

/-- `Purge`. -/
def purge (s : Service) (pluginID version : String) : Steps (Option AppError) := do
  match ← call (.deleteUninstalled (pluginID, version)) with
  | .error e => return some (.wrap .database "purge plugin failed" e)
  | .ok false => return some (.new .conflict "plugin version must be uninstalled before purge")
  | .ok true =>
      if s.hasConfigRepo then
        let _ ← call (.deleteConfig (pluginID, version))
        return none
      else return none

/-! ## Start-up -/

/-- `bundledNeedsRestore`. -/
def bundledNeedsRestore (entry : BundledEntry) (pluginID : String) : Steps Bool := do
  if ¬ entry.restorable then return false
  else
    match ← call (.listInstallable pluginID) with
    | .error _ => return false
    | .ok rows => return rows.length = 0

/-- `shouldSeedBundled`. -/
def shouldSeedBundled (entry : BundledEntry) (existing : Option PluginVersion) (digest : String)
    (force : Bool) : Steps Bool :=
  if force then return true
  else
    match existing with
    | none => return true
    | some existing =>
        if existing.artifactDigest ≠ digest then return true
        else if existing.state = .installFailed then return true
        else if existing.state = .uninstalled ∧ entry.restorable then return true
        else bundledNeedsRestore entry existing.pluginID

section
variable (H : PluginHost) (files : BundledFiles)

/-- `installBundled`. -/
def installBundled (e : InstallWeather) (entry : BundledEntry) (content : List UInt8) :
    Steps (PluginVersion × Option SeedError) := do
  let (record, err) ← install H.installer e (bundledInput entry content)
  match err with
  | some err => return (.zero, some (.install err))
  | none => return (record, none)

/-- `seedBundledEntry`. -/
def seedBundledEntry (e : InstallWeather) (entry : BundledEntry) (force : Bool) :
    Steps (PluginVersion × Option SeedError) := do
  match files.loadArtifact entry with
  | .error err => return (.zero, some (.files err))
  | .ok content =>
  match H.installer.parseManifest content with
  | .error err => return (.zero, some (.install (.app err)))
  | .ok (manifest, _) =>
  let existing := (← call (.find (manifest.id, manifest.version))).toOption.join
  if ← shouldSeedBundled entry existing (H.installer.digest content) force then
    installBundled H e entry content
  else return (existing.getD .zero, none)

/-- The first loop of `SeedBundled`. -/
def seedEntries (seed : ℕ → InstallWeather) : ℕ → List BundledEntry → Steps Unit
  | _, [] => return ()
  | n, entry :: entries => do
      let _ ← seedBundledEntry H files (seed n) entry false
      seedEntries seed (n + 1) entries

/-- One turn of the second loop of `SeedBundled`. -/
def autoEnable (entry : BundledEntry) : Steps Unit := do
  match ← call (.listInstallable entry.pluginID) with
  | .error _ | .ok [] => return ()
  | .ok (first :: rest) =>
      let latest := PluginHost.latestVersion first rest
      if latest.state ≠ .installed then return ()
      else
        let _ ← perform H.installer.service (.enable entry.pluginID latest.version)
        return ()

/-- The second loop of `SeedBundled`. -/
def autoEnableEntries : List BundledEntry → Steps Unit
  | [] => return ()
  | entry :: entries => do
      autoEnable H entry
      autoEnableEntries entries

/-- `SeedBundled`. -/
def seedBundled (seed : ℕ → InstallWeather) : Steps (Option AppError) :=
  if ¬ H.bundledEnabled ∨ ¬ H.configured then return none
  else
    match files.loadIndex with
    | .error err => return some (.wrap .config "load bundled plugin index failed" err)
    | .ok index => do
        seedEntries H files seed 0 index
        if H.bundledAutoEnable ∧ H.appEnv ≠ "production" then autoEnableEntries H index
        return none

/-- `RestoreBundled`. -/
def restoreBundled (e : InstallWeather) (pluginID : String) :
    Steps (PluginVersion × Option SeedError) :=
  if ¬ H.configured then
    return (.zero, some (.install (.app (.new .invalidInput "bundled plugins are not configured"))))
  else
    match files.loadIndex with
    | .error err =>
        return (.zero, some (.install (.app (.wrap .config "lookup bundled plugin failed" err))))
    | .ok index =>
        match index.find? fun entry => entry.pluginID = pluginID with
        | none =>
            return (.zero, some (.install (.app
              (.new .notFound "plugin is not a bundled official plugin"))))
        | some entry =>
            if ¬ entry.restorable then
              return (.zero, some (.install (.app
                (.new .invalidInput "bundled plugin is not restorable"))))
            else seedBundledEntry H files e entry true

/-- What `Reconcile` does about an artifact that could not be deleted. -/
def deleteAgain (record : PluginVersion) : Steps Unit := do
  if record.state = .installed ∧ record.failureClass = failureFSDeleteFailed then
    match ← call .removeArtifact with
    | some _ => return ()
    | none =>
        let _ ← call (.write "mark plugin config deleted" record.key .uninstalled "" "")
        return ()
  else return ()

/-- One turn of the loop of `Reconcile`. -/
def reconcileRecord (record : PluginVersion) : Steps Unit := do
  if record.state ≠ .enabled then
    let _ ← call (.stop record)
    deleteAgain record
  else deleteAgain record

/-- The loop of `Reconcile`. -/
def reconcileRecords : List PluginVersion → Steps Unit
  | [] => return ()
  | record :: records => do
      reconcileRecord record
      reconcileRecords records

/-- `Reconcile`. Its last call is the refresh, whose error it hands on as it is. -/
def reconcile (seed : ℕ → InstallWeather) : Steps (Option (AppError ⊕ String)) := do
  match ← seedBundled H files seed with
  | some err => return some (.inl err)
  | none =>
  match ← call .list with
  | .error e => return some (.inl (.wrap .database "list plugins failed" e))
  | .ok records =>
      reconcileRecords records
      match ← call .listEnabled with
      | .error e => return some (.inr e)
      | .ok enabled =>
          call (.refresh (enabled.mergeSort refreshOrder))
          return none

end

end Steps

/-! ## Requests -/

/-- What an operation returns. -/
inductive Outcome where
  | idle
  | operation (record : PluginVersion) (err : Option AppError)
  | installed (record : PluginVersion) (err : Option InstallError)
  | restored (record : PluginVersion) (err : Option SeedError)
  | purged (err : Option AppError)
  | reconciled (err : Option (AppError ⊕ String))

/-- What a client asks of the service. -/
inductive OperationRequest where
  | operate (op : Operation)
  | install (e : InstallWeather) (input : InstallInput)

def OperationRequest.program (I : Installer) : OperationRequest → Steps Outcome
  | .operate op => do
      let (record, err) ← Steps.perform I.service op
      return .operation record err
  | .install e input => do
      let (record, err) ← Steps.install I e input
      return .installed record err

end GoSite.Plugin
