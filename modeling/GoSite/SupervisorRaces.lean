import GoSite.GuardedRuns
import GoSite.HealthSupervisor
import GoSite.PluginCalls
import GoSite.PluginSettled

/-!
# The supervisor beside the lifecycle operations

The supervisor takes no plugin lock, so its steps come between the calls of the
lifecycle operations in any order. It works from the list it has read, and what
it writes is right as long as nothing takes the version whose check failed out
of `enabled` while it waits, restarts or records.
-/
namespace GoSite.Plugin
open GuardedRuns

/-- What happens next: an answer to the supervisor, a whole lifecycle operation,
or one call of an operation under way. -/
inductive RaceAction where
  | supervisor (input : SupervisorInput)
  | operation (F : Faults) (op : Operation)
  | call (c : LifecycleCall)

def raceStep (svc : Service) (cfg : SupervisorConfig) (s : Supervised) :
    RaceAction → Option Supervised
  | .supervisor input => supervisorStep cfg s input
  | .operation F op => some { s with world := (svc.perform F s.world op).1 }
  | .call c => some { s with world := c.apply s.world }

/-- What a step of the supervisor may do. It changes the state of enabled
versions only, and when it is done with a version that failed, the runtime runs
only if the row is enabled. -/
structure Respects (s t : Supervised) : Prop where
  writes : ∀ key, t.world.stateOf key ≠ s.world.stateOf key →
    s.world.stateOf key = some .enabled
  leaves : ∀ p rest, s.phase.handling = some (p, rest) → t.phase = .next rest →
    p.key ∈ t.world.running → t.world.stateOf p.key = some .enabled

def RespectsAt (cfg : SupervisorConfig) (s : Supervised) : RaceAction → Prop
  | .supervisor input => ∀ t, supervisorStep cfg s input = some t → Respects s t
  | .operation _ _ | .call _ => True

/-- The version whose check failed is still enabled in `w`, and its runtime was
not started. -/
def Supervised.Spares (s : Supervised) (w : World) : Prop :=
  ∀ p, s.phase.failing = some p →
    w.stateOf p.key = some .enabled ∧ (p.key ∈ w.running → p.key ∈ s.world.running)

/-- A check that fails is that of an enabled version, no lifecycle step disables
that version before the supervisor is done with it, and no runtime survives the
supervisor's own stop. -/
def Undisturbed (svc : Service) (s : Supervised) : RaceAction → Prop
  | .supervisor (.health (some _) _) =>
      ∀ p rest, s.phase = .checking p rest → s.world.stateOf p.key = some .enabled
  | .supervisor (.stop (some _)) =>
      ∀ p rest, s.phase.handling = some (p, rest) → p.key ∉ s.world.running
  | .supervisor _ => True
  | .operation F op => s.Spares (svc.perform F s.world op).1
  | .call c => s.Spares (c.apply s.world)

/-- The version whose check failed is enabled, and from its stop to its next
start its runtime does not run. On a context that ended it may. -/
structure Supervised.Sound (s : Supervised) : Prop where
  enabled : ∀ p, s.phase.failing = some p → s.world.stateOf p.key = some .enabled
  restarting : ∀ p rest, s.phase = .restarting p rest → p.key ∉ s.world.running
  marking : ∀ p err rest, s.phase = .marking p err rest →
    s.done = true ∨ p.key ∉ s.world.running

/-- A write that takes a version out of `enabled`. -/
theorem write_of_enabled {w : World} {key : Key} (h : w.stateOf key = some .enabled)
    (context : String) (state : PluginState) (hstate : state ≠ .enabled) (fc fm : String) :
    ∃ w' r, w.write none context key state fc fm = (w', r, none) ∧
      w'.stateOf key = some state ∧ (∀ k ≠ key, w'.stateOf k = w.stateOf k) ∧
      w'.running = w.running ∧ w'.targets = w.targets := by
  obtain ⟨p, hp, -⟩ := Option.map_eq_some_iff.mp h
  have hm : World.Moves w w key p := ⟨hp, fun k _ => rfl⟩
  obtain ⟨g, hg, hm'⟩ := hm.write context state fc fm (fun he => absurd he hstate)
  rw [hm.key_eq] at hg
  exact ⟨_, _, hg, hm'.stateOf_eq, fun k hk => hm'.stateOf_other hk, rfl, rfl⟩

theorem stop_stateOf (w : World) (fault : Option String) (p : PluginVersion) (k : Key) :
    (w.stop fault p).1.stateOf k = w.stateOf k := by
  cases fault <;> rfl

theorem handling_ne_next {phase : Phase} (p : PluginVersion) (rest : List PluginVersion)
    {rest' : List PluginVersion} (h : phase.handling = some (p, rest)) :
    phase ≠ .next rest' := by
  rintro rfl
  cases rest' <;> cases h

/-- A step that leaves the world alone and is not done with a failed version. -/
theorem Respects.of_world {s t : Supervised} (hw : t.world = s.world)
    (hnext : ∀ p rest, s.phase.handling = some (p, rest) → t.phase ≠ .next rest) :
    Respects s t where
  writes key hne := by rw [hw] at hne; exact absurd rfl hne
  leaves p rest hp ht := absurd ht (hnext p rest hp)

/-- A step that is done with a failed version, which is enabled or stopped. -/
theorem Respects.of_done {s t : Supervised} {p : PluginVersion} {rest : List PluginVersion}
    (hp : s.phase.handling = some (p, rest))
    (hwrites : ∀ key, t.world.stateOf key ≠ s.world.stateOf key →
      s.world.stateOf key = some .enabled)
    (hrun : p.key ∈ t.world.running → t.world.stateOf p.key = some .enabled) :
    Respects s t where
  writes := hwrites
  leaves q rest' hq _ := by
    rw [hp, Option.some.injEq, Prod.mk.injEq] at hq
    exact hq.1 ▸ hrun

/-- With nothing to restart or to record. -/
theorem Supervised.Sound.of_next {s : Supervised} (rest : List PluginVersion)
    (h : s.phase = .next rest) : s.Sound := by
  obtain ⟨w, phase, failures, done⟩ := s
  obtain rfl : phase = .next rest := h
  cases rest with
  | nil => exact ⟨by simp [Phase.next, Phase.failing], by simp [Phase.next], by simp [Phase.next]⟩
  | cons q rest =>
      exact ⟨by simp [Phase.next, Phase.failing], by simp [Phase.next], by simp [Phase.next]⟩

section
variable {cfg : SupervisorConfig} {s t : Supervised}

theorem sound_health (hs : s.Sound) {answer : Option String} {now : ℤ}
    (hgood : answer ≠ none → ∀ p rest, s.phase = .checking p rest →
      s.world.stateOf p.key = some .enabled)
    (h : supervisorStep cfg s (.health answer now) = some t) : t.Sound ∧ Respects s t := by
  obtain ⟨w, phase, failures, done⟩ := s
  cases phase with
  | checking p rest =>
      obtain rfl := Option.some.inj h
      have hrespects : Respects ⟨w, .checking p rest, failures, done⟩
          (Supervised.check cfg ⟨w, .checking p rest, failures, done⟩ p rest answer now) := by
        apply Respects.of_world (check_world ..)
        intro q rest' hq
        cases hq
      refine ⟨?_, hrespects⟩
      cases answer with
      | none => exact .of_next _ rfl
      | some cause =>
          have hen := hgood (by simp) p rest rfl
          unfold Supervised.check
          dsimp only
          split_ifs
          · exact ⟨by simpa [Phase.failing] using hen, by simp, by simp⟩
          · exact ⟨by simpa [Phase.failing] using hen, by simp, by simp⟩
  | _ => cases h

theorem sound_wait (hs : s.Sound) {fault : Option String}
    (h : supervisorStep cfg s (.wait fault) = some t) : t.Sound ∧ Respects s t := by
  obtain ⟨w, phase, failures, done⟩ := s
  cases phase with
  | waiting p delay rest =>
      have hen := hs.enabled p rfl
      cases fault with
      | none =>
          obtain rfl := Option.some.inj h
          refine ⟨⟨by simpa [Phase.failing] using hen, by simp, by simp⟩, .of_world rfl ?_⟩
          intro q rest' _ hnext
          exact handling_ne_next p rest rfl hnext
      | some e =>
          simp only [supervisorStep] at h
          split_ifs at h with hdone
          obtain rfl := Option.some.inj h
          refine ⟨⟨by simpa [Phase.failing] using hen, by simp, fun _ _ _ _ => .inl hdone⟩,
            .of_world rfl ?_⟩
          intro q rest' _ hnext
          exact handling_ne_next p rest rfl hnext
  | _ => cases h

theorem sound_start (hs : s.Sound) {fault : Option String}
    (h : supervisorStep cfg s (.start fault) = some t) : t.Sound ∧ Respects s t := by
  obtain ⟨w, phase, failures, done⟩ := s
  cases phase with
  | restarting p rest =>
      have hen := hs.enabled p rfl
      have hidle := hs.restarting p rest rfl
      cases fault with
      | none =>
          obtain rfl := Option.some.inj h
          exact ⟨.of_next _ rfl, .of_done rfl (fun _ hne => absurd rfl hne) (fun _ => hen)⟩
      | some e =>
          obtain rfl := Option.some.inj h
          refine ⟨⟨by simpa [Phase.failing] using hen, by simp, ?_⟩, .of_world rfl ?_⟩
          · rintro q err rest' ⟨⟩
            exact .inr hidle
          · intro q rest' _ hnext
            exact handling_ne_next p rest rfl hnext
  | _ => cases h

theorem not_running_stop (w : World) (fault : Option String) (p : PluginVersion)
    (hgood : fault ≠ none → p.key ∉ w.running) : p.key ∉ (w.stop fault p).1.running := by
  cases fault with
  | none => simp [World.stop]
  | some e => exact hgood (by simp)

theorem sound_stop (hs : s.Sound) {fault : Option String}
    (hgood : fault ≠ none → ∀ p rest, s.phase.handling = some (p, rest) →
      p.key ∉ s.world.running)
    (h : supervisorStep cfg s (.stop fault) = some t) : t.Sound ∧ Respects s t := by
  obtain ⟨w, phase, failures, done⟩ := s
  cases phase with
  | stopping p rest =>
      have hidle := not_running_stop w fault p (fun hf => hgood hf p rest rfl)
      obtain rfl := Option.some.inj h
      refine ⟨.of_next _ rfl, .of_done rfl ?_ ?_⟩
      · intro key hne
        exact absurd (stop_stateOf w fault p key) hne
      · intro hrun
        exact absurd hrun hidle
  | restopping p rest =>
      have hen := hs.enabled p rfl
      have hidle := not_running_stop w fault p (fun hf => hgood hf p rest rfl)
      cases fault with
      | none =>
          obtain rfl := Option.some.inj h
          refine ⟨⟨?_, ?_, by simp⟩, ?_⟩
          · rintro q ⟨⟩
            exact (stop_stateOf w none p p.key).trans hen
          · rintro q rest' ⟨⟩
            exact hidle
          · refine ⟨fun _ hne => absurd rfl hne, ?_⟩
            intro q rest' _ hnext
            exact absurd hnext (handling_ne_next p rest rfl)
      | some e =>
          obtain rfl := Option.some.inj h
          refine ⟨⟨by simpa [Phase.failing] using hen, by simp, ?_⟩, .of_world rfl ?_⟩
          · rintro q err rest' ⟨⟩
            exact .inr hidle
          · intro q rest' _ hnext
            exact handling_ne_next p rest rfl hnext
  | _ => cases h

theorem sound_write (hs : s.Sound) {fault : Option String}
    (h : supervisorStep cfg s (.write fault) = some t) : t.Sound ∧ Respects s t := by
  obtain ⟨w, phase, failures, done⟩ := s
  simp only [supervisorStep] at h
  split_ifs at h with hallows
  cases phase with
  | disabling p cause rest =>
      have hen := hs.enabled p rfl
      cases fault with
      | some e =>
          obtain rfl := Option.some.inj h
          exact ⟨.of_next _ rfl, .of_done rfl (fun _ hne => absurd rfl hne) (fun _ => hen)⟩
      | none =>
          obtain ⟨w', r, hw, hrow, hother, -, -⟩ := write_of_enabled hen "set plugin state"
            .installed (by simp) failureHookRefreshFailed (disableMessage cfg cause)
          simp only [hw] at h
          obtain rfl := Option.some.inj h
          refine ⟨⟨by simp [Phase.failing], by simp, by simp⟩, ?_, ?_⟩
          · intro key hne
            by_cases hkey : key = p.key
            · exact hkey ▸ hen
            · exact absurd (hother key hkey) hne
          · intro q rest' _ hnext
            exact absurd hnext (handling_ne_next p rest rfl)
  | marking p err rest =>
      have hen := hs.enabled p rfl
      cases fault with
      | some e =>
          obtain rfl := Option.some.inj h
          exact ⟨.of_next _ rfl, .of_done rfl (fun _ hne => absurd rfl hne) (fun _ => hen)⟩
      | none =>
          obtain ⟨w', r, hw, hrow, hother, hrun, -⟩ := write_of_enabled hen "set plugin state"
            .enableFailed (by simp) failureStartFailed err
          simp only [hw] at h
          obtain rfl := Option.some.inj h
          refine ⟨.of_next _ rfl, .of_done rfl ?_ ?_⟩
          · intro key hne
            by_cases hkey : key = p.key
            · exact hkey ▸ hen
            · exact absurd (hother key hkey) hne
          · -- the write went through, so the context has not ended and the runtime is stopped
            intro hin
            rcases hs.marking p err rest rfl with hdone | hidle
            · exact absurd rfl (hallows hdone)
            · exact absurd (hrun ▸ hin) hidle
  | _ => cases h

theorem sound_list (hs : s.Sound) {fault : Option String}
    (h : supervisorStep cfg s (.list fault) = some t) : t.Sound ∧ Respects s t := by
  obtain ⟨w, phase, failures, done⟩ := s
  cases phase with
  | idle =>
      simp only [supervisorStep] at h
      split_ifs at h with hallows
      have hquiet : ∀ u : Supervised, u.world = w → Respects ⟨w, .idle, failures, done⟩ u := by
        intro u hu
        refine .of_world hu ?_
        intro q rest hq
        cases hq
      cases fault with
      | some e =>
          obtain rfl := Option.some.inj h
          exact ⟨hs, hquiet _ rfl⟩
      | none =>
          obtain rfl := Option.some.inj h
          exact ⟨.of_next _ rfl, hquiet _ rfl⟩
  | _ => cases h

theorem sound_cancel (hs : s.Sound) (h : supervisorStep cfg s .cancel = some t) :
    t.Sound ∧ Respects s t := by
  obtain rfl := Option.some.inj h
  refine ⟨⟨hs.enabled, hs.restarting, fun _ _ _ _ => .inl rfl⟩, .of_world rfl ?_⟩
  intro q rest hq
  exact handling_ne_next q rest hq

theorem sound_supervisor (svc : Service) (hs : s.Sound) {input : SupervisorInput}
    (hgood : Undisturbed svc s (.supervisor input))
    (h : supervisorStep cfg s input = some t) : t.Sound ∧ Respects s t := by
  cases input with
  | list fault => exact sound_list hs h
  | health answer now =>
      refine sound_health hs ?_ h
      intro hne
      obtain ⟨cause, rfl⟩ := Option.ne_none_iff_exists'.mp hne
      exact hgood
  | wait fault => exact sound_wait hs h
  | write fault => exact sound_write hs h
  | stop fault =>
      refine sound_stop hs ?_ h
      intro hne
      obtain ⟨e, rfl⟩ := Option.ne_none_iff_exists'.mp hne
      exact hgood
  | start fault => exact sound_start hs h
  | cancel => exact sound_cancel hs h

/-- A lifecycle step that spares the version whose check failed. -/
theorem sound_lifecycle (hs : s.Sound) {w : World} (hw : s.Spares w) :
    Supervised.Sound { s with world := w } where
  enabled p hp := (hw p hp).1
  restarting p rest hp hrun := hs.restarting p rest hp
    ((hw p (by rw [show s.phase = _ from hp]; rfl)).2 hrun)
  marking p err rest hp := by
    refine (hs.marking p err rest hp).imp_right ?_
    intro hidle hrun
    exact hidle ((hw p (by rw [show s.phase = _ from hp]; rfl)).2 hrun)

end

/-- A failing check, the backoff and a restart. -/
def demoRestart : List RaceAction :=
  [.supervisor (.wait none), .supervisor (.stop none), .supervisor (.start none)]

end GoSite.Plugin
