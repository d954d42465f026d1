import GoSite.PluginPrograms

/-!
# The operations, alone

A program that runs alone does what the operation does in the model of whole operations,
when the calls of that model fail in the same places and no other call fails.
-/
namespace GoSite.Plugin
open GoStrings Interleaving

/-- What fails while an operation runs alone. -/
def CallSite.fault (F : Faults) (e : InstallWeather) : CallSite → Option String
  | .other => none
  | .operation call => F call
  | .install call => e.fault call

/-- The answers to a program that runs alone. -/
def World.answerAlone (F : Faults) (e : InstallWeather) (w : World) (c : NamedCall) :
    World × c.Reply :=
  w.answer (c.site.fault F e) c

/-- A program alone. -/
def Steps.run {α : Type} (p : Steps α) (F : Faults) (e : InstallWeather) (w : World) :
    World × α :=
  p.alone (World.answerAlone F e) w

section
variable {F : Faults} {e : InstallWeather} {w : World} {α β : Type}

theorem run_bind (p : Steps α) (f : α → Steps β) :
    (p >>= f).run F e w = (f (p.run F e w).2).run F e (p.run F e w).1 :=
  alone_bind _ p f w

@[simp] theorem run_pure (a : α) : (pure a : Steps α).run F e w = (w, a) := rfl

@[simp] theorem run_setState (site : Call) (record : PluginVersion) (state : PluginState) :
    (Steps.setState site record state).run F e w = w.setState (F site) record state := rfl

@[simp] theorem run_setFailure (site : Call) (record : PluginVersion) (state : PluginState)
    (failureClass failureMessage : String) :
    (Steps.setFailure site record state failureClass failureMessage).run F e w =
      w.setFailure (F site) record state failureClass failureMessage := rfl

@[simp] theorem run_callAs (site : Call) (c : ServiceCall) :
    (callAs site c).run F e w = w.answer (F site) ⟨.operation site, c⟩ := rfl

@[simp] theorem run_callIn (site : InstallCall) (c : ServiceCall) :
    (callIn site c).run F e w = w.answer (e.fault site) ⟨.install site, c⟩ := rfl

@[simp] theorem run_call (c : ServiceCall) :
    (call c).run F e w = w.answer none ⟨.other, c⟩ := rfl

@[simp] theorem run_refreshEnabled (site : Call) :
    (Steps.refreshEnabled site).run F e w = w.refreshEnabled (F site) := by
  rw [Steps.refreshEnabled, run_bind, run_callAs]
  dsimp only [World.answer]
  cases F site with
  | some err => rfl
  | none => rfl

/-- What is left of `enableUnlocked` when the runtime has to be stopped again. -/
theorem run_enableStop (record : PluginVersion)
    (after : Steps (PluginVersion × Option AppError)) :
    (Steps.enableStop record after).run F e w =
      match w.stop (F .enableStop) record with
      | (w, some stopErr) =>
          let (w, failed) := w.setFailure (F .recordEnableStopFailure) record .enableFailed
            failureCompensationFailed stopErr
          (w, failed, some (.wrap .pluginOperation "plugin enable compensation failed" stopErr))
      | (w, none) => after.run F e w := by
  rw [Steps.enableStop, run_bind, run_callAs]
  dsimp only [World.answer]
  rcases w.stop (F .enableStop) record with ⟨w, _ | stopErr⟩
  · rfl
  · rfl

theorem run_enableRecord (record : PluginVersion) :
    (Steps.enableRecord record).run F e w = enableRecord F w record := by
  unfold Steps.enableRecord enableRecord
  rw [run_bind, run_setState]
  rcases w.setState (F .markEnabling) record .enabling with ⟨w, record, _ | err⟩
  case some => rfl
  dsimp only
  rw [run_bind, run_callAs]
  dsimp only [World.answer]
  rcases w.start (F .start) record with ⟨w, _ | err⟩
  case some => rfl
  dsimp only
  rw [run_bind, run_setState]
  rcases w.setState (F .markEnabled) record .enabled with ⟨w, record, _ | err⟩
  case some =>
    dsimp only
    rw [run_enableStop]
    rcases w.stop (F .enableStop) record with ⟨w, _ | stopErr⟩
    · rfl
    · rfl
  dsimp only
  rw [run_bind, run_refreshEnabled]
  rcases w.refreshEnabled (F .enableRefresh) with ⟨w, _ | err⟩
  · rfl
  · dsimp only
    rw [run_enableStop]
    rcases w.stop (F .enableStop) record with ⟨w, _ | stopErr⟩
    · dsimp only
      rw [run_bind, run_setFailure, run_bind, run_refreshEnabled]
      rfl
    · rfl

theorem run_findForEnable (pluginID version : String) :
    (Steps.findForEnable pluginID version).run F e w =
      (w, findForEnable w.registry pluginID version) := by
  unfold Steps.findForEnable findForEnable findInstallable
  split_ifs with hblank
  · rw [run_bind, run_call]
    dsimp only [World.answer, readReply]
    cases ((w.registry.listInstallable pluginID).mergeSort
      fun a b => compareSemver a.version b.version ≥ 0).head? <;> rfl
  · rw [run_bind, run_call]
    dsimp only [World.answer, readReply]
    cases w.registry.find pluginID version <;> rfl

theorem run_enableUnlocked (s : Service) (pluginID version : String) :
    (Steps.enableUnlocked s pluginID version).run F e w =
      s.enableUnlocked F w pluginID version := by
  unfold Steps.enableUnlocked Service.enableUnlocked
  rw [run_bind, run_findForEnable]
  cases findForEnable w.registry pluginID version with
  | error err => rfl
  | ok record =>
      dsimp only
      cases s.enableCheck record with
      | some err => rfl
      | none => exact run_enableRecord record

theorem run_disableRecord (record : PluginVersion) :
    (Steps.disableRecord record).run F e w = disableRecord F w record := by
  unfold Steps.disableRecord disableRecord
  rw [run_bind, run_setState]
  rcases w.setState (F .markDisabling) record .disabling with ⟨w, record, _ | err⟩
  case some => rfl
  dsimp only
  rw [run_bind, run_callAs]
  dsimp only [World.answer]
  rcases w.disableHooks (F .disableHooks) record with ⟨w, _ | err⟩
  case some => rfl
  dsimp only
  rw [run_bind, run_callAs]
  dsimp only [World.answer]
  rcases w.stop (F .stop) record with ⟨w, _ | err⟩
  case some =>
    dsimp only
    rw [run_bind, run_setFailure, run_bind, run_refreshEnabled]
    rcases World.refreshEnabled _ (F .restoreHooks) with ⟨w, _ | r⟩
    · rfl
    · rfl
  dsimp only
  rw [run_bind, run_setState]
  rcases w.setState (F .markInstalled) record .installed with ⟨w, record, _ | err⟩
  case some => rfl
  dsimp only
  rw [run_bind, run_refreshEnabled]
  rcases w.refreshEnabled (F .disableRefresh) with ⟨w, _ | err⟩
  · rfl
  · rfl

theorem run_disableUnlocked (pluginID : String) :
    (Steps.disableUnlocked pluginID).run F e w = disableUnlocked F w pluginID := by
  unfold Steps.disableUnlocked disableUnlocked
  rw [run_bind, run_call]
  dsimp only [World.answer, readReply]
  cases w.registry.findEnabled pluginID with
  | none => rfl
  | some record => exact run_disableRecord record

theorem run_currentConfig (s : Service) (current : PluginVersion) :
    (Steps.currentConfig s current).run F e w = (w, .ok (s.currentConfig w current)) := by
  unfold Steps.currentConfig Service.currentConfig
  split_ifs with hrepo
  · rw [run_bind, run_call]
    dsimp only [World.answer, readReply]
    cases w.configs.find? fun c => (c.pluginID, c.version) = current.key <;> rfl
  · rfl

theorem run_disableThenEnable (s : Service) (pluginID version : String) :
    (Steps.disableThenEnable s pluginID version).run F e w =
      s.disableThenEnable F w pluginID version := by
  unfold Steps.disableThenEnable Service.disableThenEnable
  rw [run_bind, run_disableUnlocked]
  rcases disableUnlocked F w pluginID with ⟨w, record, _ | err⟩
  · exact run_enableUnlocked s pluginID version
  · rfl

theorem run_switchRecord (s : Service) (pluginID version : String)
    (current target : PluginVersion) :
    (Steps.switchRecord s pluginID version current target).run F e w =
      s.switchRecord F w pluginID version current target := by
  unfold Steps.switchRecord Service.switchRecord
  rw [run_bind, run_currentConfig]
  dsimp only
  cases s.migrate current (s.currentConfig w current) target with
  | error err => rfl
  | ok result =>
      dsimp only
      split_ifs with hok hconfig
      · rw [run_bind, run_callAs]
        dsimp only [World.answer]
        rcases w.upsertConfig (F .upsertConfig) _ with ⟨w, _ | err⟩
        · exact run_disableThenEnable s pluginID version
        · rfl
      · exact run_disableThenEnable s pluginID version
      · rfl

theorem run_switchUnlocked (s : Service) (pluginID version : String) :
    (Steps.switchUnlocked s pluginID version).run F e w =
      s.switchUnlocked F w pluginID version := by
  unfold Steps.switchUnlocked Service.switchUnlocked
  rw [run_bind, run_call]
  dsimp only [World.answer, readReply]
  cases w.registry.findEnabled pluginID with
  | none => exact run_enableUnlocked s pluginID version
  | some current =>
      dsimp only
      split_ifs with hversion
      · rfl
      · rw [run_bind, run_call]
        dsimp only [World.answer, readReply]
        cases w.registry.find pluginID version with
        | none => rfl
        | some target =>
            dsimp only
            cases s.switchCheck target with
            | some err => rfl
            | none => exact run_switchRecord s pluginID version current target

theorem run_uninstallRecord (pluginID : String) (record : PluginVersion) :
    (Steps.uninstallRecord pluginID record).run F e w = uninstallRecord F w record := by
  unfold Steps.uninstallRecord uninstallRecord
  rw [run_bind, run_setState]
  rcases w.setState (F .markUninstalling) record .uninstalling with ⟨w, record, _ | err⟩
  case some => rfl
  dsimp only
  rw [run_bind, run_callAs]
  dsimp only [World.answer]
  rcases w.stop (F .ensureStopped) record with ⟨w, _ | err⟩
  case some => rfl
  dsimp only
  rw [run_bind, run_callAs]
  dsimp only [World.answer]
  cases F .removeArtifact with
  | some err => rfl
  | none =>
      dsimp only
      rw [run_bind, run_callAs]
      dsimp only [World.answer, World.markConfigDeleted]
      rcases w.write (F .markConfigDeleted) _ _ _ _ _ with ⟨w, record, _ | err⟩
      · -- whether tokens are revoked makes no difference to the world
        have hlast : ∀ remaining : Bool, (if ¬ remaining then do
              let _ ← call .tokens
              return (record, none)
            else return (record, none) : Steps (PluginVersion × Option AppError)).run F e w =
              (w, record, none) := by
          intro remaining
          cases remaining <;> rfl
        exact hlast _
      · rfl

theorem run_uninstallUnlocked (pluginID version : String) :
    (Steps.uninstallUnlocked pluginID version).run F e w =
      uninstallUnlocked F w pluginID version := by
  unfold Steps.uninstallUnlocked uninstallUnlocked
  rw [run_bind, run_call]
  dsimp only [World.answer, readReply]
  cases w.registry.find pluginID version with
  | none => rfl
  | some record =>
      dsimp only
      split_ifs with hstable
      · exact run_uninstallRecord pluginID record
      · rfl

theorem run_unlocked (s : Service) (op : Operation) :
    (Steps.unlocked s op).run F e w = s.unlocked F w op := by
  cases op with
  | enable pluginID version => exact run_enableUnlocked s pluginID version
  | disable pluginID => exact run_disableUnlocked pluginID
  | switchEnabledVersion pluginID version => exact run_switchUnlocked s pluginID version
  | uninstall pluginID version => exact run_uninstallUnlocked pluginID version

theorem answer_taken {pluginID : String} (h : pluginID ∈ w.locks) :
    w.answer none ⟨.other, .tryAcquire pluginID⟩ = (w, false) :=
  if_pos h

theorem answer_free {pluginID : String} (h : pluginID ∉ w.locks) :
    w.answer none ⟨.other, .tryAcquire pluginID⟩ =
      ({ w with locks := pluginID :: w.locks }, true) :=
  if_neg h

/-- Alone, an operation call by call is the whole operation. -/
theorem run_perform (s : Service) (op : Operation) :
    (Steps.perform s op).run F e w = s.perform F w op := by
  unfold Steps.perform Service.perform
  rw [run_bind, run_call]
  by_cases hlock : op.pluginID ∈ w.locks
  · simp only [answer_taken hlock, if_pos hlock]
    rfl
  · simp only [answer_free hlock, if_neg hlock, if_true]
    rw [run_bind, run_unlocked]
    rfl

theorem run_finishInstall (m : InstallManifest) (bundled : Bool) (r : Registration)
    (log : List LogStep) :
    (Steps.finishInstall e m bundled r).run F e w =
      ((finishInstall e w m bundled r log).world, (finishInstall e w m bundled r log).record,
        (finishInstall e w m bundled r log).error) := by
  unfold Steps.finishInstall finishInstall
  cases runValidate m bundled e.validate with
  | some err => rfl
  | none =>
      dsimp only
      rw [run_bind, run_callIn]
      dsimp only [World.answer, World.setState]
      rcases w.write (e.fault .markInstalled) _ _ _ _ _ with ⟨w, record, _ | err⟩
      · rfl
      · rfl

theorem existingCheck_none (g : Registry) (key : Key) (bundled : Bool) :
    existingCheck none g key bundled = Steps.existingConflict (g.find key.1 key.2) bundled := by
  unfold existingCheck Steps.existingConflict
  cases g.find key.1 key.2 with
  | none => rfl
  | some existing => cases hstate : existing.state <;> simp only [hstate]

theorem run_installUnlocked (I : Installer) (input : InstallInput) (c : Checked) :
    (Steps.installUnlocked I e input c).run F e w =
      ((I.installUnlocked e w input c).world, (I.installUnlocked e w input c).record,
        (I.installUnlocked e w input c).error) := by
  unfold Steps.installUnlocked Installer.installUnlocked
  cases safePluginDir I.storageDir c.manifest.id c.manifest.version with
  | error err => rfl
  | ok dir =>
  dsimp only
  rw [run_bind, run_callIn]
  dsimp only [World.answer]
  cases e.fault .findExisting with
  | some err => rfl
  | none =>
  dsimp only [readReply]
  rw [existingCheck_none]
  dsimp only
  cases Steps.existingConflict (w.registry.find c.manifest.id c.manifest.version)
      (isBundledInstall input) with
  | some err => rfl
  | none =>
  dsimp only
  cases storeArtifact e with
  | some err => rfl
  | none =>
  dsimp only
  rw [run_bind, run_callIn]
  dsimp only [World.answer]
  rcases w.createOrRetryInstall (e.fault .createOrRetryInstall) _ with ⟨w, _ | err⟩
  · exact run_finishInstall _ _ _ _
  · rfl

/-- Alone, an install call by call is the whole install, but for the log that it keeps. -/
theorem run_install (I : Installer) (input : InstallInput) :
    (Steps.install I e input).run F e w =
      ((I.install e w input).world, (I.install e w input).record, (I.install e w input).error) := by
  unfold Steps.install Installer.install
  cases I.check input with
  | error err => rfl
  | ok c =>
      dsimp only
      rw [run_bind, run_call]
      by_cases hlock : c.manifest.id ∈ w.locks
      · simp only [answer_taken hlock, if_pos hlock]
        rfl
      · simp only [answer_free hlock, if_neg hlock, if_true]
        rw [run_bind, run_installUnlocked]
        rfl

end

end GoSite.Plugin
