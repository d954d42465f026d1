import GoSite.GuardedRuns
import GoSite.PluginCalls
import GoSite.PluginInstall

/-!
# Only validated artifacts run

A version can be enabled from `installed` and from `enable_failed`. `Install`
enters `installed` after the validation only; the other way in is a failure that
`Uninstall` undoes.
-/
namespace GoSite.Plugin
open GuardedRuns

/-- The world, and the versions whose present artifact passed the validation of
the install that stored it. -/
structure Vetting where
  world : World
  validated : List Key

/-- What an install says about the artifact of its version. -/
def Installer.vet (I : Installer) (input : InstallInput) (a : InstallAnswer)
    (validated : List Key) : List Key :=
  match I.check input with
  | .error _ => validated
  | .ok c =>
      let key := (c.manifest.id, c.manifest.version)
      if .ok "registry" ∈ a.log then
        if .ok "validate" ∈ a.log then key :: validated else validated.filter (· ≠ key)
      else validated

inductive VettingAction where
  | operation (F : Faults) (op : Operation)
  | install (e : InstallWeather) (input : InstallInput)

def vettingStep (I : Installer) (s : Vetting) : VettingAction → Option Vetting
  | .operation F op => some { s with world := (I.service.perform F s.world op).1 }
  | .install e input =>
      let a := I.install e s.world input
      some ⟨a.world, I.vet input a s.validated⟩

/-- The versions that are being enabled or are enabled were validated. -/
def Vetting.OnlyValidated (s : Vetting) : Prop :=
  ∀ key, s.world.stateOf key = some .enabling ∨ s.world.stateOf key = some .enabled →
    key ∈ s.validated

/-- The states a version can be enabled from, and those it passes through. -/
def PluginState.runnable : PluginState → Bool
  | .installed | .enabling | .enabled | .enableFailed | .disabling => true
  | _ => false

/-- The versions that can be enabled were validated. -/
def Vetting.Vetted (s : Vetting) : Prop :=
  ∀ key state, s.world.stateOf key = some state → state.runnable = true → key ∈ s.validated

/-- A compensation of `Uninstall` marks the version installed. -/
def UninstallRevives (F : Faults) : Prop :=
  F .markUninstalling = none ∧
    (F .ensureStopped ≠ none ∧ F .recordEnsureFailure = none ∨
      F .ensureStopped = none ∧ F .removeArtifact ≠ none ∧ F .recordRemoveFailure = none)

/-- No version whose install failed is marked installed by its uninstall. -/
def NoRevival (s : Vetting) : VettingAction → Prop
  | .operation F (.uninstall pluginID version) =>
      pluginID ∈ s.world.locks ∨
        ¬ (s.world.stateOf (pluginID, version) = some .installFailed ∧ UninstallRevives F)
  | .operation _ _ | .install _ _ => True

theorem Vetting.Vetted.onlyValidated {s : Vetting} (hs : s.Vetted) : s.OnlyValidated := by
  rintro key (h | h)
  · exact hs key _ h rfl
  · exact hs key _ h rfl

/-- Calls on validated versions. -/
theorem Vetting.Vetted.calls {s : Vetting} (hs : s.Vetted) {w : World}
    (h : World.Calls {k | k ∈ s.validated} s.world w) : Vetting.Vetted { s with world := w } := by
  intro key state hstate hrun
  by_contra hkey
  have hsame : w.stateOf key = s.world.stateOf key := by
    simp only [World.stateOf, h.find_eq (k := key) hkey]
  exact hkey (hs key state (hsame ▸ hstate) hrun)

theorem Vetting.Vetted.worksOn {s : Vetting} (hs : s.Vetted) (pluginID : String) :
    s.world.WorksOn {k | k ∈ s.validated} pluginID := by
  intro k p hfind _ hstate
  refine hs k p.state (by simp [World.stateOf, hfind]) ?_
  rcases hstate with h | h | h <;> simp [h, PluginState.runnable]

theorem vetted_of_same {w w' : World} {validated : List Key}
    (h : Vetting.Vetted ⟨w, validated⟩) (hreg : w'.registry = w.registry) :
    Vetting.Vetted ⟨w', validated⟩ := by
  intro key state hstate
  refine h key state ?_
  simpa only [World.stateOf, hreg] using hstate

/-- Where `Uninstall` leaves a version. -/
theorem uninstallRecord_moves {F : Faults} {w₀ w : World} {key : Key} {p : PluginVersion}
    (h : World.Moves w₀ w key p) :
    ∃ q, World.Moves w₀ (uninstallRecord F w p).1 key q ∧
      (q.state = p.state ∨ q.state = .uninstalling ∨ q.state = .uninstalled ∨
        q.state = .installed ∧ UninstallRevives F) := by
  unfold uninstallRecord UninstallRevives
  cases hmark : F .markUninstalling with
  | some e =>
      simp only [World.setState, World.write]
      exact ⟨p, h, .inl rfl⟩
  | none =>
  obtain ⟨g₁, hg₁, h₁⟩ := h.write "set plugin state" .uninstalling "" "" (by simp)
  obtain ⟨w₂, hw₂, h₂⟩ := h₁.stop (F .ensureStopped) (p.withState .uninstalling "" "")
  simp only [World.setState, hg₁, hw₂]
  cases hstop : F .ensureStopped with
  | some e =>
      simp only [World.setFailure]
      cases hrecord : F .recordEnsureFailure with
      | some e' =>
          simp only [World.write]
          exact ⟨_, h₂, .inr (.inl rfl)⟩
      | none =>
          obtain ⟨g₃, hg₃, h₃⟩ := h₂.write "set plugin state" .installed failureStopFailed e
            (by simp)
          simp only [hg₃]
          exact ⟨_, h₃, by simp⟩
  | none =>
  cases hremove : F .removeArtifact with
  | some e =>
      simp only [World.setFailure]
      cases hrecord : F .recordRemoveFailure with
      | some e' =>
          simp only [World.write]
          exact ⟨_, h₂, .inr (.inl rfl)⟩
      | none =>
          obtain ⟨g₃, hg₃, h₃⟩ := h₂.write "set plugin state" .installed failureFSDeleteFailed e
            (by simp)
          simp only [hg₃]
          exact ⟨_, h₃, by simp⟩
  | none =>
  cases hdeleted : F .markConfigDeleted with
  | some e =>
      simp only [World.markConfigDeleted, World.write]
      exact ⟨_, h₂, .inr (.inl rfl)⟩
  | none =>
      obtain ⟨g₃, hg₃, h₃⟩ := h₂.write "mark plugin config deleted" .uninstalled "" "" (by simp)
      simp only [World.markConfigDeleted, hg₃]
      exact ⟨_, h₃, .inr (.inr (.inl rfl))⟩

theorem uninstall_vetted {F : Faults} {s : Vetting} (hs : s.Vetted) (pluginID version : String)
    (hgood : ¬ (s.world.stateOf (pluginID, version) = some .installFailed ∧
      UninstallRevives F)) :
    Vetting.Vetted { s with world := (uninstallUnlocked F s.world pluginID version).1 } := by
  by_cases hkey : (pluginID, version) ∈ s.validated
  · exact hs.calls (uninstallUnlocked_calls (.refl s.world) hkey)
  unfold uninstallUnlocked
  cases hfind : s.world.registry.find pluginID version with
  | none => exact hs
  | some p =>
  have hm : World.Moves s.world s.world (pluginID, version) p := ⟨hfind, fun _ _ => rfl⟩
  by_cases hstable : stableUninstallState p.state = true
  · -- a version that was not validated is stable only after its install failed
    have hnot : p.state.runnable ≠ true := fun hrun => hkey (hs _ _ hm.stateOf_eq hrun)
    have hfailed : p.state = .installFailed := by
      cases hstate : p.state <;> rw [hstate] at hstable hnot <;>
        first | rfl | exact absurd rfl hnot | cases hstable
    have hcalm : ¬ UninstallRevives F := fun hr => hgood ⟨hfailed ▸ hm.stateOf_eq, hr⟩
    obtain ⟨q, hq, hcases⟩ := uninstallRecord_moves (F := F) hm
    simp only [hstable, not_true_eq_false, if_false]
    intro key state hstate hrun
    by_cases hk : key = (pluginID, version)
    · subst hk
      obtain rfl : q.state = state := Option.some.inj (hq.stateOf_eq.symm.trans hstate)
      rcases hcases with h | h | h | h
      · rw [h] at hrun
        exact absurd hrun hnot
      · rw [h] at hrun
        cases hrun
      · rw [h] at hrun
        cases hrun
      · exact absurd h.2 hcalm
    · exact hs key state ((hq.stateOf_other hk).symm.trans hstate) hrun
  · simpa [hstable] using hs

theorem perform_vetted (svc : Service) (F : Faults) {s : Vetting} (hs : s.Vetted)
    (op : Operation) (hgood : NoRevival s (.operation F op)) :
    Vetting.Vetted { s with world := (svc.perform F s.world op).1 } := by
  unfold Service.perform
  split_ifs with hlock
  · exact hs
  have hs' : Vetting.Vetted
      { s with world := { s.world with locks := op.pluginID :: s.world.locks } } :=
    vetted_of_same (w := s.world) hs rfl
  have hbody : Vetting.Vetted { s with world :=
      (svc.unlocked F { s.world with locks := op.pluginID :: s.world.locks } op).1 } := by
    cases op with
    | enable pluginID version =>
        exact hs'.calls (enableUnlocked_calls (.refl _) (hs'.worksOn pluginID))
    | disable pluginID =>
        exact hs'.calls (disableUnlocked_calls (.refl _) (hs'.worksOn pluginID))
    | switchEnabledVersion pluginID version =>
        exact hs'.calls (switchUnlocked_calls (.refl _) (hs'.worksOn pluginID))
    | uninstall pluginID version =>
        exact uninstall_vetted hs' pluginID version (hgood.resolve_left hlock)
  exact vetted_of_same hbody rfl

theorem install_vetted (I : Installer) (e : InstallWeather) {s : Vetting} (hs : s.Vetted)
    (input : InstallInput) :
    Vetting.Vetted ⟨(I.install e s.world input).world,
      I.vet input (I.install e s.world input) s.validated⟩ := by
  rcases install_cases I e s.world input with ⟨hreg, -, hlog⟩ |
    ⟨c, hcheck, q, hm, -, hlog, -, hafter⟩
  · have hsame : I.vet input (I.install e s.world input) s.validated = s.validated := by
      unfold Installer.vet
      cases I.check input with
      | error _ => rfl
      | ok c => simp only [hlog, if_false]
    rw [hsame]
    exact vetted_of_same hs hreg
  · intro key state hstate hrun
    simp only [Installer.vet, hcheck, hlog, if_true]
    by_cases hk : key = (c.manifest.id, c.manifest.version)
    · subst hk
      obtain rfl : q.state = state := Option.some.inj (hm.stateOf_eq.symm.trans hstate)
      rcases hafter with h | h | ⟨-, hval⟩
      · rw [h] at hrun
        cases hrun
      · rw [h] at hrun
        cases hrun
      · rw [if_pos hval]
        exact List.mem_cons_self
    · have hmem := hs key state ((hm.stateOf_other hk).symm.trans hstate) hrun
      split_ifs
      · exact List.mem_cons_of_mem _ hmem
      · simpa [hk] using hmem

/-- In every run in which no failed uninstall revives a version whose install
failed, only validated artifacts are enabled. -/
theorem only_validated_artifacts_run (I : Installer) (s : Vetting) (hs : s.Vetted)
    (actions : List VettingAction) (h : Guarded (vettingStep I) NoRevival s actions) :
    Along (vettingStep I) Vetting.OnlyValidated s actions := by
  have hstep : ∀ s a t, Vetting.Vetted s → NoRevival s a → vettingStep I s a = some t →
      t.Vetted := by
    intro s a t hs hgood ht
    cases a with
    | operation F op =>
        obtain rfl := Option.some.inj ht
        exact perform_vetted I.service F hs op hgood
    | install e input =>
        obtain rfl := Option.some.inj ht
        exact install_vetted I e hs input
  exact (along_of_guarded hstep hs h).mono fun _ hv => hv.onlyValidated

/-- Nothing fails but the validation command, and that only where `exit` says so. -/
def demoInstallWeather (exit : Option String) : InstallWeather where
  fault _ := none
  extract := none
  validate := ⟨none, none, false, "", exit⟩
  now := 0

/-- Nothing is installed. -/
def emptyVetting : Vetting where
  world :=
    { registry := ⟨[], keys_nodup_nil, oneEnabled_nil, identified_nil⟩
      running := []
      targets := []
      configs := []
      locks := [] }
  validated := []

theorem emptyVetting_vetted : emptyVetting.Vetted := by
  intro key state hstate
  cases hstate

/-- A run of the theorem above: install, enable and disable. -/
theorem only_validated_artifacts_demo :
    Along (vettingStep demoInstaller) Vetting.OnlyValidated emptyVetting
      [.install (demoInstallWeather none) demoUpload,
        .operation (fun _ => none) (.enable "acme/demo" "1.0.0"),
        .operation (fun _ => none) (.disable "acme/demo")] :=
  only_validated_artifacts_run demoInstaller emptyVetting emptyVetting_vetted _
    fun _ _ => ⟨trivial, fun _ _ => ⟨trivial, fun _ _ => ⟨trivial, trivial⟩⟩⟩

/-- The files of the artifact cannot be removed. -/
def stuckFiles : Faults
  | .removeArtifact => some "directory not empty"
  | _ => none

/-- The validation fails, the uninstall fails as well and marks the version
installed, and it can be enabled. -/
theorem unvalidated_artifact_enabled :
    emptyVetting.Vetted ∧
      ¬ Along (vettingStep demoInstaller) Vetting.OnlyValidated emptyVetting
        [.install (demoInstallWeather (some "exit status 1")) demoUpload,
          .operation stuckFiles (.uninstall "acme/demo" "1.0.0"),
          .operation (fun _ => none) (.enable "acme/demo" "1.0.0")] := by
  refine ⟨emptyVetting_vetted, ?_⟩
  intro h
  have hlast := (((h.2 _ rfl).2 _ rfl).2 _ rfl).head
  have hmem := hlast ("acme/demo", "1.0.0") (.inr (by decide))
  exact absurd hmem (by decide)

end GoSite.Plugin
