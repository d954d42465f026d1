import GoSite.PluginMoves

/-!
# The calls of a lifecycle operation

An operation is a sequence of calls, each a step of its own. `Calls` says that
calls on the versions of a set lead from one world to another, and every
operation is a sequence of calls on versions of its plugin.
-/
namespace GoSite.Plugin

/-- A call of a lifecycle operation that succeeds. One that fails changes
nothing. -/
inductive LifecycleCall where
  | acquire (pluginID : String)
  | release (pluginID : String)
  | write (record : PluginVersion) (state : PluginState) (failureClass failureMessage : String)
  | start (record : PluginVersion)
  | stop (record : PluginVersion)
  | refreshEnabled
  | disableHooks (record : PluginVersion)
  | upsertConfig (cfg : PluginConfig)
  deriving Repr, DecidableEq

def LifecycleCall.apply (w : World) : LifecycleCall → World
  | .acquire pluginID => { w with locks := pluginID :: w.locks }
  | .release pluginID => { w with locks := w.locks.erase pluginID }
  | .write record state fc fm => (w.write none "set plugin state" record.key state fc fm).1
  | .start record => (w.start none record).1
  | .stop record => (w.stop none record).1
  | .refreshEnabled => (w.refreshEnabled none).1
  | .disableHooks record => (w.disableHooks none record).1
  | .upsertConfig cfg => (w.upsertConfig none cfg).1

/-- The record of a version in `K`, or the zero record of a failed write. -/
def Within (K : Set Key) (record : PluginVersion) : Prop :=
  record.key ∈ K ∨ record.key = PluginVersion.zero.key

theorem within_zero (K : Set Key) : Within K .zero := .inr rfl

/-- The rows and runtimes a call touches are those of versions in `K`. -/
def LifecycleCall.On (K : Set Key) : LifecycleCall → Prop
  | .write record _ _ _ | .start record | .stop record | .disableHooks record => Within K record
  | .acquire _ | .release _ | .refreshEnabled | .upsertConfig _ => True

/-- Calls on versions in `K` lead from `w` to `w'`. -/
def World.Calls (K : Set Key) (w w' : World) : Prop :=
  ∃ calls : List LifecycleCall, (∀ c ∈ calls, c.On K) ∧ calls.foldl LifecycleCall.apply w = w'

/-- The record a write returns has the key it wrote, or is zero. -/
theorem write_within {K : Set Key} (w : World) (fault : Option String) (context : String)
    {record : PluginVersion} (hr : Within K record) (state : PluginState) (fc fm : String) :
    Within K (w.write fault context record.key state fc fm).2.1 := by
  cases fault with
  | some e => exact within_zero K
  | none =>
      unfold World.write
      cases w.registry.update record.key state fc fm with
      | none => exact within_zero K
      | some g =>
          cases hrow : g.find record.key.1 record.key.2 with
          | none => simpa only [hrow] using within_zero K
          | some p =>
              simp only [hrow]
              unfold Within
              rw [Registry.find_key hrow]
              exact hr

/-- Calls on versions in `K` leave the rows of all others alone. -/
theorem World.Calls.find_eq {K : Set Key} {w w' : World} (h : World.Calls K w w') {k : Key}
    (hk : k ∉ K) : w'.registry.find k.1 k.2 = w.registry.find k.1 k.2 := by
  obtain ⟨calls, hon, rfl⟩ := h
  induction calls generalizing w with
  | nil => rfl
  | cons c calls ih =>
      obtain ⟨hc, hcalls⟩ := List.forall_mem_cons.mp hon
      rw [List.foldl_cons, ih hcalls]
      cases c with
      | write record state fc fm =>
          rcases hc with hin | hz
          · have hne : k ≠ record.key := by
              rintro rfl
              exact hk hin
            exact write_find_other w none _ hne state fc fm
          · show (w.write none _ record.key state fc fm).1.registry.find k.1 k.2 = _
            rw [hz]
            exact write_find_zero w none _ k state fc fm
      | _ => rfl

section
variable {K : Set Key} {w₀ w w₁ : World} {record : PluginVersion}

theorem World.Calls.refl (w : World) : World.Calls K w w := ⟨[], by simp, rfl⟩

theorem World.Calls.trans (h : World.Calls K w₀ w) (h₁ : World.Calls K w w₁) :
    World.Calls K w₀ w₁ := by
  obtain ⟨cs, hcs, rfl⟩ := h
  obtain ⟨ds, hds, rfl⟩ := h₁
  refine ⟨cs ++ ds, ?_, by rw [List.foldl_append]⟩
  intro c hc
  rcases List.mem_append.mp hc with hc | hc
  · exact hcs c hc
  · exact hds c hc

theorem World.Calls.call (h : World.Calls K w₀ w) (c : LifecycleCall) (hc : c.On K) :
    World.Calls K w₀ (c.apply w) :=
  h.trans ⟨[c], by simpa using hc, rfl⟩

theorem World.Calls.write (h : World.Calls K w₀ w) (fault : Option String) (context : String)
    (hr : Within K record) (state : PluginState) (fc fm : String) :
    ∃ w' r err, w.write fault context record.key state fc fm = (w', r, err) ∧
      World.Calls K w₀ w' ∧ Within K r := by
  refine ⟨(w.write fault context record.key state fc fm).1,
    (w.write fault context record.key state fc fm).2.1,
    (w.write fault context record.key state fc fm).2.2, rfl, ?_,
    write_within w fault context hr state fc fm⟩
  cases fault with
  | some e => exact h
  | none =>
      have hsame : (w.write none context record.key state fc fm).1 =
          (LifecycleCall.write record state fc fm).apply w := by
        simp only [World.write, LifecycleCall.apply]
        split
        · rfl
        · split <;> rfl
      rw [hsame]
      exact h.call _ hr

theorem World.Calls.setState (h : World.Calls K w₀ w) (fault : Option String)
    (hr : Within K record) (state : PluginState) :
    ∃ w' r err, w.setState fault record state = (w', r, err) ∧ World.Calls K w₀ w' ∧
      Within K r :=
  h.write fault "set plugin state" hr state "" ""

theorem World.Calls.setFailure (h : World.Calls K w₀ w) (fault : Option String)
    (hr : Within K record) (state : PluginState) (fc fm : String) :
    ∃ w' r, w.setFailure fault record state fc fm = (w', r) ∧ World.Calls K w₀ w' := by
  obtain ⟨w', r, err, hw, hcalls, -⟩ := h.write fault "set plugin state" hr state fc fm
  exact ⟨w', r, by simp only [World.setFailure, hw], hcalls⟩

theorem World.Calls.start (h : World.Calls K w₀ w) (fault : Option String)
    (hr : Within K record) :
    ∃ w' err, w.start fault record = (w', err) ∧ World.Calls K w₀ w' := by
  cases fault with
  | some e => exact ⟨_, _, rfl, h⟩
  | none => exact ⟨_, _, rfl, h.call (.start record) hr⟩

theorem World.Calls.stop (h : World.Calls K w₀ w) (fault : Option String)
    (hr : Within K record) :
    ∃ w' err, w.stop fault record = (w', err) ∧ World.Calls K w₀ w' := by
  cases fault with
  | some e => exact ⟨_, _, rfl, h⟩
  | none => exact ⟨_, _, rfl, h.call (.stop record) hr⟩

theorem World.Calls.refreshEnabled (h : World.Calls K w₀ w) (fault : Option String) :
    ∃ w' err, w.refreshEnabled fault = (w', err) ∧ World.Calls K w₀ w' := by
  cases fault with
  | some e => exact ⟨_, _, rfl, h⟩
  | none => exact ⟨_, _, rfl, h.call .refreshEnabled trivial⟩

theorem World.Calls.disableHooks (h : World.Calls K w₀ w) (fault : Option String)
    (hr : Within K record) :
    ∃ w' err, w.disableHooks fault record = (w', err) ∧ World.Calls K w₀ w' := by
  cases fault with
  | some e => exact ⟨_, _, rfl, h⟩
  | none => exact ⟨_, _, rfl, h.call (.disableHooks record) hr⟩

theorem World.Calls.upsertConfig (h : World.Calls K w₀ w) (fault : Option String)
    (cfg : PluginConfig) :
    ∃ w' err, w.upsertConfig fault cfg = (w', err) ∧ World.Calls K w₀ w' := by
  cases fault with
  | some e => exact ⟨_, _, rfl, h⟩
  | none => exact ⟨_, _, rfl, h.call (.upsertConfig cfg) trivial⟩

theorem enableRecord_calls (F : Faults) (h : World.Calls K w₀ w) (hr : Within K record) :
    World.Calls K w₀ (enableRecord F w record).1 := by
  unfold enableRecord
  obtain ⟨w₁, r₁, err₁, hw₁, h₁, hr₁⟩ := h.setState (F .markEnabling) hr .enabling
  simp only [hw₁]
  cases err₁ with
  | some e => exact h₁
  | none =>
  obtain ⟨w₂, err₂, hw₂, h₂⟩ := h₁.start (F .start) hr₁
  simp only [hw₂]
  cases err₂ with
  | some e =>
      obtain ⟨w₃, r₃, hw₃, h₃⟩ :=
        h₂.setFailure (F .recordStartFailure) hr₁ .enableFailed failureStartFailed e
      simp only [hw₃]
      exact h₃
  | none =>
  obtain ⟨w₃, r₃, err₃, hw₃, h₃, hr₃⟩ := h₂.setState (F .markEnabled) hr₁ .enabled
  simp only [hw₃]
  cases err₃ with
  | some e =>
      obtain ⟨w₄, err₄, hw₄, h₄⟩ := h₃.stop (F .enableStop) hr₃
      simp only [hw₄]
      cases err₄ with
      | some stopErr =>
          obtain ⟨w₅, r₅, hw₅, h₅⟩ := h₄.setFailure (F .recordEnableStopFailure) hr₃
            .enableFailed failureCompensationFailed stopErr
          simp only [hw₅]
          exact h₅
      | none =>
          obtain ⟨w₅, r₅, hw₅, h₅⟩ := h₄.setFailure (F .recordMarkEnabledFailure) hr₃
            .enableFailed failureDBFailed e
          simp only [hw₅]
          exact h₅
  | none =>
  obtain ⟨w₄, err₄, hw₄, h₄⟩ := h₃.refreshEnabled (F .enableRefresh)
  simp only [hw₄]
  cases err₄ with
  | none => exact h₄
  | some e =>
      obtain ⟨w₅, err₅, hw₅, h₅⟩ := h₄.stop (F .enableStop) hr₃
      simp only [hw₅]
      cases err₅ with
      | some stopErr =>
          obtain ⟨w₆, r₆, hw₆, h₆⟩ := h₅.setFailure (F .recordEnableStopFailure) hr₃
            .enableFailed failureCompensationFailed stopErr
          simp only [hw₆]
          exact h₆
      | none =>
          obtain ⟨w₆, r₆, hw₆, h₆⟩ := h₅.setFailure (F .recordEnableRefreshFailure) hr₃
            .enableFailed failureHookRefreshFailed e
          obtain ⟨w₇, err₇, hw₇, h₇⟩ := h₆.refreshEnabled (F .enableRefreshAgain)
          simp only [hw₆, hw₇]
          exact h₇

theorem disableRecord_calls (F : Faults) (h : World.Calls K w₀ w) (hr : Within K record) :
    World.Calls K w₀ (disableRecord F w record).1 := by
  unfold disableRecord
  obtain ⟨w₁, r₁, err₁, hw₁, h₁, hr₁⟩ := h.setState (F .markDisabling) hr .disabling
  simp only [hw₁]
  cases err₁ with
  | some e => exact h₁
  | none =>
  obtain ⟨w₂, err₂, hw₂, h₂⟩ := h₁.disableHooks (F .disableHooks) hr₁
  simp only [hw₂]
  cases err₂ with
  | some e =>
      obtain ⟨w₃, r₃, hw₃, h₃⟩ :=
        h₂.setFailure (F .recordHookFailure) hr₁ .enabled failureHookRefreshFailed e
      simp only [hw₃]
      exact h₃
  | none =>
  obtain ⟨w₃, err₃, hw₃, h₃⟩ := h₂.stop (F .stop) hr₁
  simp only [hw₃]
  cases err₃ with
  | some e =>
      obtain ⟨w₄, r₄, hw₄, h₄⟩ :=
        h₃.setFailure (F .recordStopFailure) hr₁ .enabled failureStopFailed e
      obtain ⟨w₅, err₅, hw₅, h₅⟩ := h₄.refreshEnabled (F .restoreHooks)
      simp only [hw₄, hw₅]
      cases err₅ with
      | none => exact h₅
      | some r =>
          obtain ⟨w₆, r₆, hw₆, h₆⟩ := h₅.setFailure (F .recordRestoreFailure) hr₁ .enabled
            failureCompensationFailed r
          simp only [hw₆]
          exact h₆
  | none =>
  obtain ⟨w₄, r₄, err₄, hw₄, h₄, hr₄⟩ := h₃.setState (F .markInstalled) hr₁ .installed
  simp only [hw₄]
  cases err₄ with
  | some e =>
      obtain ⟨w₅, r₅, hw₅, h₅⟩ :=
        h₄.setFailure (F .recordMarkInstalledFailure) hr₄ .installed failureDBFailed e
      simp only [hw₅]
      exact h₅
  | none =>
  obtain ⟨w₅, err₅, hw₅, h₅⟩ := h₄.refreshEnabled (F .disableRefresh)
  simp only [hw₅]
  cases err₅ with
  | none => exact h₅
  | some e =>
      obtain ⟨w₆, r₆, hw₆, h₆⟩ := h₅.setFailure (F .recordDisableRefreshFailure) hr₄ .installed
        failureHookRefreshFailed e
      simp only [hw₆]
      exact h₆

theorem uninstallRecord_calls (F : Faults) (h : World.Calls K w₀ w) (hr : Within K record) :
    World.Calls K w₀ (uninstallRecord F w record).1 := by
  unfold uninstallRecord
  obtain ⟨w₁, r₁, err₁, hw₁, h₁, hr₁⟩ := h.setState (F .markUninstalling) hr .uninstalling
  simp only [hw₁]
  cases err₁ with
  | some e => exact h₁
  | none =>
  obtain ⟨w₂, err₂, hw₂, h₂⟩ := h₁.stop (F .ensureStopped) hr₁
  simp only [hw₂]
  cases err₂ with
  | some e =>
      obtain ⟨w₃, r₃, hw₃, h₃⟩ :=
        h₂.setFailure (F .recordEnsureFailure) hr₁ .installed failureStopFailed e
      simp only [hw₃]
      exact h₃
  | none =>
  cases F .removeArtifact with
  | some e =>
      obtain ⟨w₃, r₃, hw₃, h₃⟩ :=
        h₂.setFailure (F .recordRemoveFailure) hr₁ .installed failureFSDeleteFailed e
      simp only [hw₃]
      exact h₃
  | none =>
      obtain ⟨w₃, r₃, err₃, hw₃, h₃, -⟩ := h₂.write (F .markConfigDeleted)
        "mark plugin config deleted" hr₁ .uninstalled "" ""
      simp only [World.markConfigDeleted, hw₃]
      cases err₃ with
      | some e => exact h₃
      | none => exact h₃

/-- The versions of a plugin that `Enable`, `Disable` and `Switch` work on are
in `K`. -/
def World.WorksOn (w : World) (K : Set Key) (pluginID : String) : Prop :=
  ∀ k p, w.registry.find k.1 k.2 = some p → k.1 = pluginID →
    p.state = .installed ∨ p.state = .enableFailed ∨ p.state = .enabled → k ∈ K

/-- Calls on versions in `K` move no other version there. -/
theorem World.Calls.worksOn {pluginID : String} (h : World.Calls K w₀ w)
    (hK : w₀.WorksOn K pluginID) : w.WorksOn K pluginID := by
  intro k p hfind hid hstate
  by_contra hk
  rw [h.find_eq hk] at hfind
  exact hk (hK k p hfind hid hstate)

theorem findInstallable_pluginID {g : Registry} {pluginID version : String}
    {p : PluginVersion} (h : findInstallable g pluginID version = some p) :
    p.pluginID = pluginID := by
  unfold findInstallable at h
  split_ifs at h with hblank
  · have hmem := List.mem_of_head? h
    simp only [List.mem_mergeSort, Registry.listInstallable, List.mem_filter,
      decide_eq_true_eq] at hmem
    exact hmem.2.1
  · exact congrArg Prod.fst (Registry.find_key (k := (pluginID, version)) h)

variable {s : Service} {F : Faults} {pluginID version : String}

theorem enableUnlocked_calls (h : World.Calls K w₀ w) (hK : w.WorksOn K pluginID) :
    World.Calls K w₀ (s.enableUnlocked F w pluginID version).1 := by
  unfold Service.enableUnlocked
  cases hfind : findForEnable w.registry pluginID version with
  | error e => exact h
  | ok p =>
      cases hcheck : s.enableCheck p with
      | some e => simpa only [hcheck] using h
      | none =>
          have hfound := findForEnable_eq_ok_iff.mp hfind
          have hmem : p.key ∈ K := by
            apply hK p.key p (findInstallable_find hfound) (findInstallable_pluginID hfound)
            exact (enableCheck_state hcheck).imp_right .inl
          simp only [hcheck]
          exact enableRecord_calls F h (.inl hmem)

theorem disableUnlocked_calls (h : World.Calls K w₀ w) (hK : w.WorksOn K pluginID) :
    World.Calls K w₀ (disableUnlocked F w pluginID).1 := by
  unfold disableUnlocked
  cases hfind : w.registry.findEnabled pluginID with
  | none => exact h
  | some p =>
      obtain ⟨hid, hen, hrow⟩ := Registry.findEnabled_spec hfind
      exact disableRecord_calls F h (.inl (hK p.key p hrow hid (.inr (.inr hen))))

theorem disableThenEnable_calls (h : World.Calls K w₀ w) (hK : w.WorksOn K pluginID) :
    World.Calls K w₀ (s.disableThenEnable F w pluginID version).1 := by
  have h₁ := disableUnlocked_calls (F := F) (.refl w) hK
  have hK₁ := h₁.worksOn hK
  unfold Service.disableThenEnable
  rcases hdis : disableUnlocked F w pluginID with ⟨w₁, r₁, err₁⟩
  rw [hdis] at h₁ hK₁
  cases err₁ with
  | some e => exact h.trans h₁
  | none => exact enableUnlocked_calls (h.trans h₁) hK₁

theorem switchRecord_calls {current target : PluginVersion} (h : World.Calls K w₀ w)
    (hK : w.WorksOn K pluginID) (htarget : Within K target) :
    World.Calls K w₀ (s.switchRecord F w pluginID version current target).1 := by
  unfold Service.switchRecord
  cases s.migrate current (s.currentConfig w current) target with
  | error e =>
      obtain ⟨w₁, r₁, hw₁, h₁⟩ := h.setFailure (F .recordMigrationFailure) htarget .installed
        failureConfigMigration e
      simp only [hw₁]
      exact h₁
  | ok result =>
  by_cases hok : result.ok = true
  · by_cases hconfig : result.migratedConfig ≠ "" ∧ s.hasConfigRepo = true
    · have h₁ := World.Calls.upsertConfig (.refl w) (F .upsertConfig) ⟨target.pluginID,
        target.version, target.configVersion, result.migratedConfig⟩ (K := K)
      obtain ⟨w₁, err₁, hw₁, h₁⟩ := h₁
      simp only [hok, not_true_eq_false, if_false, hconfig, ne_eq, not_false_eq_true, and_self,
        if_true, hw₁]
      cases err₁ with
      | some e => exact h.trans h₁
      | none => exact disableThenEnable_calls (h.trans h₁) (h₁.worksOn hK)
    · simp only [hok, not_true_eq_false, if_false, hconfig]
      exact disableThenEnable_calls h hK
  · obtain ⟨w₁, r₁, hw₁, h₁⟩ := h.setFailure (F .recordMigrationFailure) htarget .installed
      failureConfigMigration (rejectionMessage result)
    simp only [hok, hw₁]
    exact h₁

theorem switchUnlocked_calls (h : World.Calls K w₀ w) (hK : w.WorksOn K pluginID) :
    World.Calls K w₀ (s.switchUnlocked F w pluginID version).1 := by
  unfold Service.switchUnlocked
  cases w.registry.findEnabled pluginID with
  | none => exact enableUnlocked_calls h hK
  | some current =>
  by_cases hver : current.version = version
  · simpa only [hver, if_true] using h
  cases htarget : w.registry.find pluginID version with
  | none => simpa only [hver, if_false] using h
  | some target =>
  cases hcheck : s.switchCheck target with
  | some e => simpa only [hver, if_false, hcheck] using h
  | none =>
      have hmem : target.key ∈ K := by
        rw [Registry.find_key (k := (pluginID, version)) htarget]
        exact hK (pluginID, version) target htarget rfl
          ((switchCheck_state hcheck).imp_right .inl)
      simp only [hver, if_false, hcheck]
      exact switchRecord_calls h hK (.inl hmem)

theorem uninstallUnlocked_calls (h : World.Calls K w₀ w) (hK : (pluginID, version) ∈ K) :
    World.Calls K w₀ (uninstallUnlocked F w pluginID version).1 := by
  unfold uninstallUnlocked
  cases hfind : w.registry.find pluginID version with
  | none => exact h
  | some p =>
      have hkey := Registry.find_key (k := (pluginID, version)) hfind
      by_cases hstate : stableUninstallState p.state = true
      · simp only [hstate, not_true_eq_false, if_false]
        exact uninstallRecord_calls F h (.inl (hkey.symm ▸ hK))
      · simpa [hstate] using h

end

/-- The versions of a plugin. -/
def versionsOf (pluginID : String) : Set Key := { k | k.1 = pluginID }

/-- Every operation is a sequence of calls on versions of its plugin. -/
theorem perform_calls (s : Service) (F : Faults) (w : World) (op : Operation) :
    World.Calls (versionsOf op.pluginID) w (s.perform F w op).1 := by
  unfold Service.perform
  split_ifs with hlock
  · exact .refl w
  · have hK : ∀ w' : World, w'.WorksOn (versionsOf op.pluginID) op.pluginID :=
      fun _ _ _ _ hid _ => hid
    have h : World.Calls (versionsOf op.pluginID) w { w with locks := op.pluginID :: w.locks } :=
      (World.Calls.refl w).call (.acquire op.pluginID) trivial
    have hbody : World.Calls (versionsOf op.pluginID) w
        (s.unlocked F { w with locks := op.pluginID :: w.locks } op).1 := by
      cases op with
      | enable pluginID version => exact enableUnlocked_calls h (hK _)
      | disable pluginID => exact disableUnlocked_calls h (hK _)
      | switchEnabledVersion pluginID version => exact switchUnlocked_calls h (hK _)
      | uninstall pluginID version => exact uninstallUnlocked_calls h rfl
    exact hbody.call (.release op.pluginID) trivial

end GoSite.Plugin
