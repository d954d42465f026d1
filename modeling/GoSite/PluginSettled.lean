import GoSite.PluginMoves

/-!
# No half-enabled plugin

A settled world has no row in a transitional state, and a runtime runs exactly
for the enabled rows. Each operation touches the row and the runtime of one
version at a time; `Holds` says how that version stands and that nothing else
moved.
-/
namespace GoSite.Plugin

/-- The states of an operation under way. -/
def PluginState.transitional : PluginState → Bool
  | .enabling | .disabling | .uninstalling => true
  | _ => false

structure World.Settled (w : World) : Prop where
  stable : ∀ key state, w.stateOf key = some state → state.transitional = false
  runs_iff : ∀ key, key ∈ w.running ↔ w.stateOf key = some .enabled

/-- The version `key` has the row `p` and its runtime runs when `run` says so.
Every other version is as it was in `w₀`. -/
structure World.Holds (w₀ w : World) (key : Key) (p : PluginVersion) (run : Prop) : Prop where
  find_eq : w.registry.find key.1 key.2 = some p
  runs_iff : key ∈ w.running ↔ run
  find_other : ∀ k ≠ key, w.registry.find k.1 k.2 = w₀.registry.find k.1 k.2
  runs_other : ∀ k ≠ key, k ∈ w.running ↔ k ∈ w₀.running
  zero_idle : PluginVersion.zero.key ∉ w.running

theorem World.Settled.zero_idle {w : World} (hw : w.Settled) :
    PluginVersion.zero.key ∉ w.running := by
  rw [hw.runs_iff]
  simp [World.stateOf, Registry.find_zero]

theorem World.Settled.holds {w : World} (hw : w.Settled) {k : Key} {p : PluginVersion}
    (hp : w.registry.find k.1 k.2 = some p) :
    World.Holds w w k p (p.state = .enabled) where
  find_eq := hp
  runs_iff := by simp [hw.runs_iff, World.stateOf, hp]
  find_other _ _ := rfl
  runs_other _ _ := Iff.rfl
  zero_idle := hw.zero_idle

section
variable {w₀ w : World} {key : Key} {p : PluginVersion} {run : Prop}

theorem World.Holds.moves (h : World.Holds w₀ w key p run) : World.Moves w₀ w key p :=
  ⟨h.find_eq, h.find_other⟩

/-- Runtimes stand as they did before a write. -/
theorem World.Moves.holds {g : Registry} {q : PluginVersion}
    (hm : World.Moves w₀ { w with registry := g } key q) (h : World.Holds w₀ w key p run) :
    World.Holds w₀ { w with registry := g } key q run :=
  ⟨hm.find_eq, h.runs_iff, hm.find_other, h.runs_other, h.zero_idle⟩

/-- A world is settled again exactly when the version that moved is. -/
theorem World.Holds.settled_iff (h : World.Holds w₀ w key p run) (hw : w₀.Settled) :
    w.Settled ↔ p.state.transitional = false ∧ (run ↔ p.state = .enabled) := by
  have hstate : w.stateOf key = some p.state := by simp [World.stateOf, h.find_eq]
  have hother : ∀ k ≠ key, w.stateOf k = w₀.stateOf k := by
    intro k hk
    simp [World.stateOf, h.find_other k hk]
  constructor
  · intro hs
    refine ⟨hs.stable key _ hstate, ?_⟩
    rw [← h.runs_iff, hs.runs_iff, hstate, Option.some.injEq]
  · rintro ⟨hstable, hrun⟩
    refine ⟨?_, ?_⟩
    · intro k state hk
      by_cases hkey : k = key
      · subst hkey
        rw [hstate, Option.some.injEq] at hk
        exact hk ▸ hstable
      · exact hw.stable k state (hother k hkey ▸ hk)
    · intro k
      by_cases hkey : k = key
      · subst hkey
        rw [h.runs_iff, hrun, hstate, Option.some.injEq]
      · rw [h.runs_other k hkey, hother k hkey, hw.runs_iff]

/-- A write on the row that the unique index lets through. -/
theorem World.Holds.write (h : World.Holds w₀ w key p run) (context : String)
    (state : PluginState) (fc fm : String)
    (hfree : state = .enabled → ¬ w₀.registry.OtherEnabled key) :
    ∃ w', w.write none context p.key state fc fm = (w', p.withState state fc fm, none) ∧
      World.Holds w₀ w' key (p.withState state fc fm) run := by
  obtain ⟨g, hg, hm⟩ := h.moves.write context state fc fm hfree
  exact ⟨{ w with registry := g }, hg, hm.holds h⟩

theorem World.Holds.setState (h : World.Holds w₀ w key p run) (state : PluginState)
    (hfree : state = .enabled → ¬ w₀.registry.OtherEnabled key) :
    ∃ w', w.setState none p state = (w', p.withState state "" "", none) ∧
      World.Holds w₀ w' key (p.withState state "" "") run :=
  h.write _ state "" "" hfree

theorem World.Holds.setFailure (h : World.Holds w₀ w key p run) (state : PluginState)
    (fc fm : String) (hfree : state = .enabled → ¬ w₀.registry.OtherEnabled key) :
    ∃ w', w.setFailure none p state fc fm = (w', p.withState state fc fm) ∧
      World.Holds w₀ w' key (p.withState state fc fm) run := by
  obtain ⟨w', hw', hh⟩ := h.write "set plugin state" state fc fm hfree
  exact ⟨w', by simp only [World.setFailure, hw'], hh⟩

/-- A failure recorded for the zero record reaches no row. -/
theorem World.Holds.setFailure_zero (h : World.Holds w₀ w key p run) (fault : Option String)
    (state : PluginState) (fc fm : String) :
    World.Holds w₀ (w.setFailure fault .zero state fc fm).1 key p run := by
  obtain ⟨g, failed, hg, hsame⟩ := GoSite.Plugin.setFailure_zero w fault state fc fm
  rw [hg]
  refine World.Moves.holds ⟨?_, ?_⟩ h
  · exact (hsame key).trans h.find_eq
  · intro k hk
    exact (hsame k).trans (h.find_other k hk)

theorem World.Holds.start (h : World.Holds w₀ w key p run) :
    ∃ w', w.start none p = (w', none) ∧ World.Holds w₀ w' key p True := by
  refine ⟨{ w with running := p.key :: w.running }, rfl, h.find_eq, ?_, h.find_other, ?_, ?_⟩
  · simp [h.moves.key_eq]
  · intro k hk
    simp [h.moves.key_eq, hk, h.runs_other k hk]
  · simp [h.moves.key_eq, h.moves.key_ne_zero.symm, h.zero_idle]

theorem World.Holds.stop (h : World.Holds w₀ w key p run) :
    ∃ w', w.stop none p = (w', none) ∧ World.Holds w₀ w' key p False := by
  refine ⟨{ w with running := w.running.filter (· ≠ p.key) }, rfl, h.find_eq, ?_, h.find_other,
    ?_, ?_⟩
  · simp [h.moves.key_eq]
  · intro k hk
    simp [h.moves.key_eq, hk, h.runs_other k hk]
  · simp [h.zero_idle]

/-- Stopping the zero record stops nothing. -/
theorem World.Holds.stop_zero (h : World.Holds w₀ w key p run) :
    ∃ w', w.stop none .zero = (w', none) ∧ World.Holds w₀ w' key p run := by
  have hsame : w.running.filter (· ≠ PluginVersion.zero.key) = w.running := by
    rw [List.filter_eq_self]
    intro k hk
    simp only [decide_eq_true_eq]
    rintro rfl
    exact h.zero_idle hk
  refine ⟨w, ?_, h⟩
  simp only [World.stop, hsame]

theorem World.Holds.refreshEnabled (h : World.Holds w₀ w key p run) (fault : Option String) :
    World.Holds w₀ (w.refreshEnabled fault).1 key p run := by
  cases fault with
  | some e => exact h
  | none => exact ⟨h.find_eq, h.runs_iff, h.find_other, h.runs_other, h.zero_idle⟩

theorem World.Holds.disableHooks (h : World.Holds w₀ w key p run) (fault : Option String)
    (record : PluginVersion) :
    World.Holds w₀ (w.disableHooks fault record).1 key p run := by
  cases fault with
  | some e => exact h
  | none => exact ⟨h.find_eq, h.runs_iff, h.find_other, h.runs_other, h.zero_idle⟩

end

/-- Nothing compensating fails. -/
def Faults.CompensationWorks (F : Faults) : Prop := ∀ c, c.compensating = true → F c = none

/-- The write of `enabled` fails after the runtime was started. -/
def EnableStrands (F : Faults) (g : Registry) (key : Key) : Prop :=
  F .markEnabling = none ∧ F .start = none ∧ (F .markEnabled ≠ none ∨ g.OtherEnabled key)

/-- The write of `installed` fails after the runtime was stopped. -/
def DisableStrands (F : Faults) : Prop :=
  F .markDisabling = none ∧ F .disableHooks = none ∧ F .stop = none ∧ F .markInstalled ≠ none

/-- The last write fails after the runtime was stopped and the artifact removed. -/
def UninstallStrands (F : Faults) : Prop :=
  F .markUninstalling = none ∧ F .ensureStopped = none ∧ F .removeArtifact = none ∧
    F .markConfigDeleted ≠ none

/-- How `Enable` leaves the version it works on. -/
theorem enableRecord_holds {F : Faults} {w₀ w : World} {key : Key} {p : PluginVersion}
    (hF : F.CompensationWorks) (h : World.Holds w₀ w key p False) (hp : p.state ≠ .enabled)
    (hstable : p.state.transitional = false) :
    ∃ q run, World.Holds w₀ (enableRecord F w p).1 key q run ∧
      ((q.state.transitional = false ∧ (run ↔ q.state = .enabled)) ↔
        ¬ EnableStrands F w₀.registry key) := by
  unfold enableRecord EnableStrands
  cases hmark : F .markEnabling with
  | some e =>
      simp only [World.setState, World.write]
      exact ⟨p, False, h, by simp [hstable, hp]⟩
  | none =>
  obtain ⟨w₁, hw₁, h₁⟩ := h.setState .enabling (by simp)
  simp only [hw₁]
  cases hstart : F .start with
  | some e =>
      obtain ⟨w₂, hw₂, h₂⟩ := h₁.setFailure .enableFailed failureStartFailed e (by simp)
      simp only [World.start, hF .recordStartFailure rfl, hw₂]
      exact ⟨_, _, h₂, by simp [PluginState.transitional]⟩
  | none =>
  obtain ⟨w₂, hw₂, h₂⟩ := h₁.start
  simp only [hw₂]
  by_cases hbad : F .markEnabled ≠ none ∨ w₀.registry.OtherEnabled key
  · -- from here on the record is zero, and so are the version stopped and the row written
    obtain ⟨e, hw₃⟩ := h₂.moves.markEnabled_fails (F .markEnabled) hbad
    obtain ⟨w₄, hw₄, h₄⟩ := h₂.stop_zero
    simp only [hw₃, hF .enableStop rfl, hw₄]
    have h₅ := h₄.setFailure_zero (F .recordMarkEnabledFailure) .enableFailed failureDBFailed e
    exact ⟨_, _, h₅, by simp [hbad, PluginState.transitional]⟩
  · obtain ⟨hmarked, hfree⟩ := not_or.mp hbad
    rw [not_not] at hmarked
    obtain ⟨w₃, hw₃, h₃⟩ := h₂.setState .enabled (fun _ => hfree)
    simp only [hmarked, hw₃]
    cases hrefresh : F .enableRefresh with
    | none =>
        have h₄ := h₃.refreshEnabled none
        exact ⟨_, _, h₄, by simp [hfree, PluginState.transitional]⟩
    | some e =>
        obtain ⟨w₄, hw₄, h₄⟩ := h₃.stop
        obtain ⟨w₅, hw₅, h₅⟩ := h₄.setFailure .enableFailed failureHookRefreshFailed e (by simp)
        simp only [World.refreshEnabled, hF .enableStop rfl, hw₄,
          hF .recordEnableRefreshFailure rfl, hw₅]
        have h₆ := h₅.refreshEnabled (F .enableRefreshAgain)
        simp only [World.refreshEnabled] at h₆
        exact ⟨_, _, h₆, by simp [hfree, PluginState.transitional]⟩

/-- Nothing fails on the way from `enabled` to `installed`. -/
def DisableCompletes (F : Faults) : Prop :=
  F .markDisabling = none ∧ F .disableHooks = none ∧ F .stop = none ∧ F .markInstalled = none ∧
    F .disableRefresh = none

/-- How `Disable` leaves the version it works on. -/
theorem disableRecord_holds {F : Faults} {w₀ w : World} {key : Key} {p : PluginVersion}
    (hF : F.CompensationWorks) (h : World.Holds w₀ w key p True) (hp : p.state = .enabled)
    (hfree : ¬ w₀.registry.OtherEnabled key) :
    ∃ q run, World.Holds w₀ (disableRecord F w p).1 key q run ∧
      ((q.state.transitional = false ∧ (run ↔ q.state = .enabled)) ↔ ¬ DisableStrands F) ∧
      ((disableRecord F w p).2.2 = none ↔ DisableCompletes F) ∧
      (DisableCompletes F → q.state = .installed) := by
  unfold disableRecord DisableStrands DisableCompletes
  cases hmark : F .markDisabling with
  | some e =>
      simp only [World.setState, World.write]
      exact ⟨p, True, h, by simp [hp, PluginState.transitional]⟩
  | none =>
  obtain ⟨w₁, hw₁, h₁⟩ := h.setState .disabling (by simp)
  simp only [hw₁]
  cases hhooks : F .disableHooks with
  | some e =>
      obtain ⟨w₂, hw₂, h₂⟩ :=
        h₁.setFailure .enabled failureHookRefreshFailed e (fun _ => hfree)
      simp only [World.disableHooks, hF .recordHookFailure rfl, hw₂]
      exact ⟨_, _, h₂, by simp [PluginState.transitional]⟩
  | none =>
  have h₂ := h₁.disableHooks none (p.withState .disabling "" "")
  simp only [World.disableHooks] at h₂ ⊢
  cases hstop : F .stop with
  | some e =>
      obtain ⟨w₃, hw₃, h₃⟩ := h₂.setFailure .enabled failureStopFailed e (fun _ => hfree)
      simp only [World.stop, hF .recordStopFailure rfl, hF .restoreHooks rfl, hw₃]
      have h₄ := h₃.refreshEnabled none
      simp only [World.refreshEnabled] at h₄ ⊢
      exact ⟨_, _, h₄, by simp [PluginState.transitional]⟩
  | none =>
  obtain ⟨w₃, hw₃, h₃⟩ := h₂.stop
  simp only [hw₃]
  cases hinst : F .markInstalled with
  | some e =>
      have h₄ := h₃.setFailure_zero (F .recordMarkInstalledFailure) .installed failureDBFailed
        ("set plugin state: " ++ e)
      simp only [World.setState, World.write]
      exact ⟨_, _, h₄, by simp [PluginState.transitional]⟩
  | none =>
  obtain ⟨w₄, hw₄, h₄⟩ := h₃.setState .installed (by simp)
  simp only [hw₄]
  cases hrefresh : F .disableRefresh with
  | none =>
      have h₅ := h₄.refreshEnabled none
      exact ⟨_, _, h₅, by simp [PluginState.transitional, World.refreshEnabled]⟩
  | some e =>
      simp only [World.refreshEnabled]
      cases hrecord : F .recordDisableRefreshFailure with
      | none =>
          obtain ⟨w₅, hw₅, h₅⟩ :=
            h₄.setFailure .installed failureHookRefreshFailed e (by simp)
          simp only [hw₅]
          exact ⟨_, _, h₅, by simp [PluginState.transitional]⟩
      | some e' =>
          simp only [World.setFailure, World.write]
          exact ⟨_, _, h₄, by simp [PluginState.transitional]⟩

/-- How `Uninstall` leaves the version it works on. -/
theorem uninstallRecord_holds {F : Faults} {w₀ w : World} {key : Key} {p : PluginVersion}
    (hF : F.CompensationWorks) (h : World.Holds w₀ w key p False) (hp : p.state ≠ .enabled)
    (hstable : p.state.transitional = false) :
    ∃ q, World.Holds w₀ (uninstallRecord F w p).1 key q False ∧
      ((q.state.transitional = false ∧ (False ↔ q.state = .enabled)) ↔
        ¬ UninstallStrands F) := by
  unfold uninstallRecord UninstallStrands
  cases hmark : F .markUninstalling with
  | some e =>
      simp only [World.setState, World.write]
      exact ⟨p, h, by simp [hp, hstable]⟩
  | none =>
  obtain ⟨w₁, hw₁, h₁⟩ := h.setState .uninstalling (by simp)
  simp only [hw₁]
  cases hstop : F .ensureStopped with
  | some e =>
      obtain ⟨w₂, hw₂, h₂⟩ := h₁.setFailure .installed failureStopFailed e (by simp)
      simp only [World.stop, hF .recordEnsureFailure rfl, hw₂]
      exact ⟨_, h₂, by simp [PluginState.transitional]⟩
  | none =>
  obtain ⟨w₂, hw₂, h₂⟩ := h₁.stop
  simp only [hw₂]
  cases hremove : F .removeArtifact with
  | some e =>
      obtain ⟨w₃, hw₃, h₃⟩ := h₂.setFailure .installed failureFSDeleteFailed e (by simp)
      simp only [hF .recordRemoveFailure rfl, hw₃]
      exact ⟨_, h₃, by simp [PluginState.transitional]⟩
  | none =>
  cases hdeleted : F .markConfigDeleted with
  | some e =>
      simp only [World.markConfigDeleted, World.write]
      exact ⟨_, h₂, by simp [PluginState.transitional]⟩
  | none =>
      obtain ⟨w₃, hw₃, h₃⟩ :=
        h₂.write "mark plugin config deleted" .uninstalled "" "" (by simp)
      simp only [World.markConfigDeleted, hw₃]
      exact ⟨_, h₃, by simp [PluginState.transitional]⟩

/-- `Enable` gets to its writes and leaves a version half enabled. -/
def Service.EnableStrandsAt (s : Service) (F : Faults) (w : World) (pluginID version : String) :
    Prop :=
  ∃ p, findForEnable w.registry pluginID version = .ok p ∧ s.enableCheck p = none ∧
    EnableStrands F w.registry p.key

theorem enableUnlocked_settled_iff {s : Service} {F : Faults} {w : World}
    (hF : F.CompensationWorks) (hw : w.Settled) (pluginID version : String) :
    (s.enableUnlocked F w pluginID version).1.Settled ↔
      ¬ s.EnableStrandsAt F w pluginID version := by
  simp only [Service.enableUnlocked, Service.EnableStrandsAt]
  cases hfind : findForEnable w.registry pluginID version with
  | error e => simp [hw]
  | ok p =>
      cases hcheck : s.enableCheck p with
      | some e => simp [hcheck, hw]
      | none =>
          have hstate := enableCheck_state hcheck
          have hne : p.state ≠ .enabled := by
            rcases hstate with hs | hs <;> simp [hs]
          have hstable : p.state.transitional = false := by
            rcases hstate with hs | hs <;> simp [hs, PluginState.transitional]
          have h : World.Holds w w p.key p False := by
            simpa [hne] using
              hw.holds (k := p.key) (findInstallable_find (findForEnable_eq_ok_iff.mp hfind))
          obtain ⟨q, run, hh, hiff⟩ := enableRecord_holds hF h hne hstable
          simp only [hcheck, hh.settled_iff hw, hiff, Except.ok.injEq]
          constructor
          · rintro hn ⟨p', rfl, -, hs⟩
            exact hn hs
          · intro hn hs
            exact hn ⟨p, rfl, hcheck, hs⟩

/-- How `Disable` leaves a settled world. -/
theorem disableUnlocked_spec {F : Faults} {w : World} (hF : F.CompensationWorks)
    (hw : w.Settled) {pluginID : String} {p : PluginVersion}
    (hfind : w.registry.findEnabled pluginID = some p) :
    ((disableUnlocked F w pluginID).1.Settled ↔ ¬ DisableStrands F) ∧
      ((disableUnlocked F w pluginID).2.2 = none ↔ DisableCompletes F) ∧
      ∃ q run, World.Holds w (disableUnlocked F w pluginID).1 p.key q run ∧
        (DisableCompletes F → q.state = .installed) := by
  obtain ⟨-, hen, hrow⟩ := Registry.findEnabled_spec hfind
  have hmem : p ∈ w.registry.rows := Registry.find_mem (k := p.key) hrow
  have h : World.Holds w w p.key p True := by
    simpa [hen] using hw.holds (k := p.key) hrow
  obtain ⟨q, run, hh, hiff, herr, hinst⟩ :=
    disableRecord_holds hF h hen (Registry.not_otherEnabled hmem hen)
  simp only [disableUnlocked, hfind]
  exact ⟨(hh.settled_iff hw).trans hiff, herr, q, run, hh, hinst⟩

theorem disableUnlocked_settled_iff {F : Faults} {w : World} (hF : F.CompensationWorks)
    (hw : w.Settled) (pluginID : String) :
    (disableUnlocked F w pluginID).1.Settled ↔
      ¬ ((w.registry.findEnabled pluginID).isSome ∧ DisableStrands F) := by
  cases hfind : w.registry.findEnabled pluginID with
  | none => simp [disableUnlocked, hfind, hw]
  | some p => simpa using (disableUnlocked_spec hF hw hfind).1

theorem uninstallUnlocked_settled_iff {F : Faults} {w : World} (hF : F.CompensationWorks)
    (hw : w.Settled) (pluginID version : String) :
    (uninstallUnlocked F w pluginID version).1.Settled ↔
      ¬ ((∃ p, w.registry.find pluginID version = some p ∧ stableUninstallState p.state) ∧
        UninstallStrands F) := by
  unfold uninstallUnlocked
  cases hfind : w.registry.find pluginID version with
  | none => simp [hw]
  | some p =>
      by_cases hstate : stableUninstallState p.state = true
      · have hcases : p.state = .installed ∨ p.state = .installFailed ∨
            p.state = .enableFailed := by
          simpa [stableUninstallState] using hstate
        have hne : p.state ≠ .enabled := by
          rcases hcases with hs | hs | hs <;> simp [hs]
        have hstable : p.state.transitional = false := by
          rcases hcases with hs | hs | hs <;> simp [hs, PluginState.transitional]
        have h : World.Holds w w (pluginID, version) p False := by
          simpa [hne] using hw.holds (k := (pluginID, version)) hfind
        obtain ⟨q, hh, hiff⟩ := uninstallRecord_holds hF h hne hstable
        simp only [hstate, not_true_eq_false, if_false, hh.settled_iff hw, hiff]
        simp [hstate]
      · simp [hstate, hw]

/-- The migration lets the switch go on. -/
def Service.MigrationPasses (s : Service) (F : Faults) (w : World)
    (current target : PluginVersion) : Prop :=
  ∃ result, s.migrate current (s.currentConfig w current) target = .ok result ∧
    result.ok = true ∧
    (result.migratedConfig ≠ "" → s.hasConfigRepo = true → F .upsertConfig = none)

/-- A switch between two versions strands one of them: the current one while it
is disabled, or the target after it. -/
def Service.SwitchStrands (s : Service) (F : Faults) (target : PluginVersion) : Prop :=
  DisableStrands F ∨
    (DisableCompletes F ∧ s.enableCheck target = none ∧
      F .markEnabling = none ∧ F .start = none ∧ F .markEnabled ≠ none)

/-- `SwitchEnabledVersion` gets that far. -/
def Service.SwitchStrandsAt (s : Service) (F : Faults) (w : World) (pluginID version : String) :
    Prop :=
  match w.registry.findEnabled pluginID, w.registry.find pluginID version with
  | none, _ => s.EnableStrandsAt F w pluginID version
  | some _, none => False
  | some current, some target =>
      current.version ≠ version ∧ s.switchCheck target = none ∧
        s.MigrationPasses F w current target ∧ s.SwitchStrands F target

/-- Recording a failure on a row that is not enabled settles it. -/
theorem setFailure_settled {w : World} (hw : w.Settled) {k : Key} {p : PluginVersion}
    (hp : w.registry.find k.1 k.2 = some p) (hne : p.state ≠ .enabled)
    (fault : Option String) (fc fm : String) :
    (w.setFailure fault p .installed fc fm).1.Settled := by
  cases fault with
  | some e => exact hw
  | none =>
      have h : World.Holds w w k p False := by simpa [hne] using hw.holds hp
      obtain ⟨w', hw', hh⟩ := h.setFailure .installed fc fm (by simp)
      rw [hw', hh.settled_iff hw]
      simp [PluginState.transitional]

theorem settled_of_same {w w' : World} (hr : w'.registry = w.registry)
    (hrun : w'.running = w.running) : w'.Settled ↔ w.Settled := by
  constructor
  · rintro ⟨h₁, h₂⟩
    exact ⟨fun k => by simpa [World.stateOf, hr] using h₁ k,
      fun k => by simpa [World.stateOf, hr, hrun] using h₂ k⟩
  · rintro ⟨h₁, h₂⟩
    exact ⟨fun k => by simpa [World.stateOf, hr] using h₁ k,
      fun k => by simpa [World.stateOf, hr, hrun] using h₂ k⟩

/-- A config write touches neither registry nor runtimes nor targets. -/
theorem upsertConfig_ok (w : World) (cfg : PluginConfig) :
    ∃ w', w.upsertConfig none cfg = (w', none) ∧ w'.registry = w.registry ∧
      w'.running = w.running ∧ w'.targets = w.targets :=
  ⟨_, rfl, rfl, rfl, rfl⟩

theorem disableThenEnable_settled_iff {s : Service} {F : Faults} {w : World}
    (hF : F.CompensationWorks) (hw : w.Settled) {pluginID version : String}
    {current target : PluginVersion}
    (hcurrent : w.registry.findEnabled pluginID = some current)
    (htarget : w.registry.find pluginID version = some target)
    (hver : current.version ≠ version) :
    (s.disableThenEnable F w pluginID version).1.Settled ↔ ¬ s.SwitchStrands F target := by
  obtain ⟨hiff, herr, q, run, hh, hinst⟩ := disableUnlocked_spec hF hw hcurrent
  unfold Service.disableThenEnable Service.SwitchStrands
  by_cases hdone : DisableCompletes F
  · -- the world after the disable is settled, with the target as it was
    have hok := herr.mpr hdone
    have hnot : ¬ DisableStrands F := fun hbad => hbad.2.2.2 hdone.2.2.2.1
    have hsettled := hiff.mpr hnot
    obtain ⟨hfind, hfree⟩ := hh.moves.switch_target hcurrent htarget hver (hinst hdone)
    simp only [hok, hnot, hdone, false_or, true_and]
    rw [enableUnlocked_settled_iff hF hsettled]
    simp [Service.EnableStrandsAt, hfind, EnableStrands, hfree]
  · obtain ⟨e, he⟩ := Option.ne_none_iff_exists'.mp (mt herr.mp hdone)
    simp only [he, hiff, hdone, false_and, or_false]

theorem switchRecord_settled_iff {s : Service} {F : Faults} {w : World}
    (hF : F.CompensationWorks) (hw : w.Settled) {pluginID version : String}
    {current target : PluginVersion}
    (hcurrent : w.registry.findEnabled pluginID = some current)
    (htarget : w.registry.find pluginID version = some target)
    (hver : current.version ≠ version) (hcheck : s.switchCheck target = none) :
    (s.switchRecord F w pluginID version current target).1.Settled ↔
      ¬ (s.MigrationPasses F w current target ∧ s.SwitchStrands F target) := by
  have hne : target.state ≠ .enabled := by
    rcases switchCheck_state hcheck with hs | hs <;> simp [hs]
  have hfailure := setFailure_settled hw (k := (pluginID, version)) htarget hne
    (F .recordMigrationFailure) failureConfigMigration
  unfold Service.switchRecord Service.MigrationPasses
  cases hmigrate : s.migrate current (s.currentConfig w current) target with
  | error e => simpa using hfailure e
  | ok result =>
  by_cases hok : result.ok = true
  · by_cases hconfig : result.migratedConfig ≠ "" ∧ s.hasConfigRepo = true
    · simp only [hok, hconfig, not_true_eq_false, if_false, if_true, and_self, ne_eq,
        not_false_eq_true]
      cases hupsert : F .upsertConfig with
      | some e =>
          simp only [World.upsertConfig]
          simpa [hok, hconfig] using hw
      | none =>
          obtain ⟨w', hw', hreg, hrun, -⟩ := upsertConfig_ok w ⟨target.pluginID, target.version,
            target.configVersion, result.migratedConfig⟩
          have hsettled := (settled_of_same hreg hrun).mpr hw
          simp only [hw']
          rw [disableThenEnable_settled_iff hF hsettled (hreg ▸ hcurrent) (hreg ▸ htarget) hver]
          simp [hok]
    · simp only [hok, hconfig, not_true_eq_false, if_false]
      rw [disableThenEnable_settled_iff hF hw hcurrent htarget hver]
      have hpass : ¬ result.migratedConfig = "" → s.hasConfigRepo = true →
          F .upsertConfig = none := fun h₁ h₂ => absurd ⟨h₁, h₂⟩ hconfig
      simp only [Except.ok.injEq, ne_eq]
      constructor
      · rintro hn ⟨-, hs⟩
        exact hn hs
      · intro hn hs
        exact hn ⟨⟨result, rfl, hok, hpass⟩, hs⟩
  · simpa [hok] using hfailure (rejectionMessage result)

theorem switchUnlocked_settled_iff {s : Service} {F : Faults} {w : World}
    (hF : F.CompensationWorks) (hw : w.Settled) (pluginID version : String) :
    (s.switchUnlocked F w pluginID version).1.Settled ↔
      ¬ s.SwitchStrandsAt F w pluginID version := by
  unfold Service.switchUnlocked Service.SwitchStrandsAt
  cases hcurrent : w.registry.findEnabled pluginID with
  | none => exact enableUnlocked_settled_iff hF hw pluginID version
  | some current =>
  cases htarget : w.registry.find pluginID version with
  | none =>
      by_cases hver : current.version = version <;> simp [hver, hw]
  | some target =>
  by_cases hver : current.version = version
  · simp [hver, hw]
  cases hcheck : s.switchCheck target with
  | some e => simp [hver, hcheck, hw]
  | none =>
      simp only [hver, hcheck, if_false, ne_eq, not_false_eq_true, true_and]
      exact switchRecord_settled_iff hF hw hcurrent htarget hver hcheck

/-- The write after which an operation can no longer be undone fails: `enabled`
once the runtime was started, `installed` once it was stopped, `uninstalled`
once the artifact was removed. -/
def Service.StrandsAt (s : Service) (F : Faults) (w : World) : Operation → Prop
  | .enable pluginID version => s.EnableStrandsAt F w pluginID version
  | .disable pluginID => (w.registry.findEnabled pluginID).isSome ∧ DisableStrands F
  | .switchEnabledVersion pluginID version => s.SwitchStrandsAt F w pluginID version
  | .uninstall pluginID version =>
      (∃ p, w.registry.find pluginID version = some p ∧ stableUninstallState p.state) ∧
        UninstallStrands F

theorem unlocked_settled_iff {s : Service} {F : Faults} {w : World}
    (hF : F.CompensationWorks) (hw : w.Settled) (op : Operation) :
    (s.unlocked F w op).1.Settled ↔ ¬ s.StrandsAt F w op := by
  cases op with
  | enable pluginID version => exact enableUnlocked_settled_iff hF hw pluginID version
  | disable pluginID => exact disableUnlocked_settled_iff hF hw pluginID
  | switchEnabledVersion pluginID version =>
      exact switchUnlocked_settled_iff hF hw pluginID version
  | uninstall pluginID version => exact uninstallUnlocked_settled_iff hF hw pluginID version

/-- What an operation does is the same under every set of locks. -/
theorem strandsAt_locks (s : Service) (F : Faults) (w : World) (locks : List String)
    (op : Operation) : s.StrandsAt F { w with locks := locks } op ↔ s.StrandsAt F w op := by
  cases op <;> rfl

/-- One installed version of one plugin. -/
def demoRow : PluginVersion :=
  ⟨1, "acme/demo", "1.0.0", "1", "", "6e340b9c", "/plugins/acme/demo/1.0.0/artifact.zip",
    .installed, "", "", "upload", none, 0⟩

def demoWorld : World where
  registry := ⟨[demoRow], by decide, by decide, by decide⟩
  running := []
  targets := []
  configs := []
  locks := []

def demoService : Service where
  manifestFromJSON _ := ⟨0, hostAPIVersion, "", "", [], []⟩
  migrate _ config _ := .ok ⟨true, config, ""⟩
  hasConfigRepo := true
  hostVersion := "1.0.0"

/-- Only the write of `enabled` fails. -/
def demoFaults : Faults
  | .markEnabled => some "database is locked"
  | _ => none

theorem demoFaults_compensationWorks : demoFaults.CompensationWorks := by
  intro c hc
  cases c <;> first | rfl | cases hc

theorem demoWorld_settled : demoWorld.Settled := by
  have hstate : ∀ key state, demoWorld.stateOf key = some state → state = .installed := by
    intro key state h
    obtain ⟨p, hp, rfl⟩ := Option.map_eq_some_iff.mp h
    have hmem : p ∈ [demoRow] := Registry.find_mem hp
    rw [List.mem_singleton.mp hmem]
    rfl
  refine ⟨?_, ?_⟩
  · intro key state h
    rw [hstate key state h]
    rfl
  · intro key
    have hne : demoWorld.stateOf key ≠ some .enabled := by
      intro h
      cases hstate key _ h
    have hidle : demoWorld.running = [] := rfl
    simp [hidle, hne]

end GoSite.Plugin
