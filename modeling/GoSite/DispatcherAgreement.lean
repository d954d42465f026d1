import GoSite.GuardedRuns
import GoSite.HealthSupervisor
import GoSite.PluginInstall
import GoSite.PluginTargets

/-!
# Operations and ticks in any order

The dispatcher is given the enabled versions after a lifecycle operation. The
supervisor writes to the registry as well and tells the dispatcher nothing.
-/
namespace GoSite.Plugin
open GuardedRuns

/-- A completed lifecycle operation, or a completed tick with all the answers it
got. -/
inductive ControlAction where
  | operation (F : Faults) (op : Operation)
  | install (e : InstallWeather) (input : InstallInput)
  | tick (inputs : List SupervisorInput)

/-- A run of the supervisor that ends where the next tick begins. -/
def completedTick (cfg : SupervisorConfig) (s : Supervised) (inputs : List SupervisorInput) :
    Option Supervised :=
  (run (supervisorStep cfg) s inputs).bind fun t => if t.phase = .idle then some t else none

def controlStep (I : Installer) (cfg : SupervisorConfig) (s : Supervised) :
    ControlAction → Option Supervised
  | .operation F op => some { s with world := (I.service.perform F s.world op).1 }
  | .install e input => some { s with world := (I.install e s.world input).world }
  | .tick inputs => completedTick cfg s inputs

/-- The dispatcher misses no write of the operation, and no write of the tick
succeeds. -/
def TargetsFollow (I : Installer) (s : Supervised) : ControlAction → Prop
  | .operation F op => op.pluginID ∈ s.world.locks ∨ ¬ I.service.MissesAt F s.world op
  | .install _ _ => True
  | .tick inputs => .write none ∉ inputs

/-- Before a write the targets agree and every version on the list is enabled. -/
def Supervised.Tracked (s : Supervised) : Prop := s.world.TargetsAgree ∧ s.HeldEnabled

/-- Some target is no longer enabled. -/
def Supervised.Stale (s : Supervised) : Prop :=
  ∃ key ∈ s.world.targetKeys, s.world.stateOf key ≠ some .enabled

section
variable {cfg : SupervisorConfig} {s t : Supervised} {input : SupervisorInput}

theorem Supervised.HeldEnabled.of_same (hs : s.HeldEnabled)
    (hreg : t.world.registry = s.world.registry)
    (hheld : t.phase.held <:+ s.phase.held ∨ t.phase.held = s.world.registry.listEnabled) :
    t.HeldEnabled := by
  intro p hp
  have hstate : t.world.stateOf p.key = s.world.stateOf p.key := by
    simp only [World.stateOf, hreg]
  rw [hstate]
  rcases hheld with hsuffix | hlist
  · exact hs p (hsuffix.subset hp)
  · exact listEnabled_stateOf (hlist ▸ hp)

theorem tracked_step (hs : s.Tracked) (hquiet : input ≠ .write none)
    (h : supervisorStep cfg s input = some t) : t.Tracked := by
  obtain ⟨hheld, ⟨fault, rfl, p, state, fc, fm, -, -, hworld⟩ | ⟨-, hreg, htargets⟩⟩ :=
    supervisorStep_effect h
  · have hne : fault ≠ none := fun hf => hquiet (by rw [hf])
    obtain ⟨e, rfl⟩ := Option.ne_none_iff_exists'.mp hne
    have hsame : t.world = s.world := hworld
    exact ⟨hsame ▸ hs.1, hs.2.of_same (by rw [hsame]) hheld⟩
  · exact ⟨(agree_of_same hreg htargets).mpr hs.1, hs.2.of_same hreg hheld⟩

theorem stale_write (hs : s.Tracked) (h : supervisorStep cfg s (.write none) = some t) :
    t.Stale := by
  obtain ⟨-, ⟨fault, hfault, p, state, fc, fm, hp, hstate, hworld⟩ | ⟨hne, -⟩⟩ :=
    supervisorStep_effect h
  · obtain rfl : none = fault := SupervisorInput.write.inj hfault
    have hen := hs.2 p hp
    obtain ⟨q, hq, -⟩ := Option.map_eq_some_iff.mp hen
    have hm : World.Moves s.world s.world p.key q := ⟨hq, fun _ _ => rfl⟩
    obtain ⟨g, hg, hm'⟩ := hm.write "set plugin state" state fc fm (fun he => absurd he hstate)
    rw [hm.key_eq] at hg
    rw [hg] at hworld
    refine ⟨p.key, ?_, ?_⟩
    · rw [hworld]
      exact (hs.1 p.key).mpr hen
    · rw [hworld, hm'.stateOf_eq, withState_state]
      simpa using hstate
  · exact absurd rfl (hne none)

theorem stale_step (hs : s.Stale) (h : supervisorStep cfg s input = some t) : t.Stale := by
  obtain ⟨key, htarget, hstate⟩ := hs
  obtain ⟨-, ⟨fault, -, p, state, fc, fm, -, hne, hworld⟩ | ⟨-, hreg, htargets⟩⟩ :=
    supervisorStep_effect h
  · refine ⟨key, ?_, ?_⟩
    · rw [World.targetKeys, hworld, write_targets]
      exact htarget
    · rw [hworld]
      rcases write_stateOf s.world fault "set plugin state" p.key key state fc fm with
        hsame | ⟨-, hnew⟩
      · rw [hsame]
        exact hstate
      · rw [hnew]
        simpa using hne
  · refine ⟨key, ?_, ?_⟩
    · rw [World.targetKeys, htargets]
      exact htarget
    · rw [World.stateOf, hreg]
      exact hstate

/-- A run of the supervisor loses a target with its first write. -/
theorem supervisor_run {inputs : List SupervisorInput}
    (h : run (supervisorStep cfg) s inputs = some t) :
    (s.Stale → t.Stale) ∧
      (s.Tracked → (.write none ∉ inputs → t.Tracked) ∧ (.write none ∈ inputs → t.Stale)) := by
  induction inputs generalizing s with
  | nil =>
      obtain rfl := Option.some.inj h
      exact ⟨id, fun hs => ⟨fun _ => hs, fun hin => absurd hin (by simp)⟩⟩
  | cons input inputs ih =>
      obtain ⟨u, hu, hrun⟩ := Option.bind_eq_some_iff.mp h
      obtain ⟨hstale, htracked⟩ := ih hrun
      refine ⟨fun hs => hstale (stale_step hs hu), ?_⟩
      intro hs
      by_cases hwrite : input = .write none
      · subst hwrite
        exact ⟨by simp, fun _ => hstale (stale_write hs hu)⟩
      · have hu' := htracked (tracked_step hs hwrite hu)
        refine ⟨?_, ?_⟩
        · intro hin
          exact hu'.1 fun hmem => hin (List.mem_cons_of_mem _ hmem)
        · intro hin
          exact hu'.2 ((List.mem_cons.mp hin).resolve_left fun he => hwrite he.symm)

theorem Supervised.Stale.not_agree (hs : s.Stale) : ¬ s.world.TargetsAgree := by
  obtain ⟨key, htarget, hstate⟩ := hs
  intro hagree
  exact hstate ((hagree key).mp htarget)

/-- A completed tick keeps the targets exactly when none of its writes succeeds. -/
theorem tick_agree_iff {inputs : List SupervisorInput} (hs : s.world.TargetsAgree)
    (hidle : s.phase = .idle) (h : completedTick cfg s inputs = some t) :
    t.phase = .idle ∧ (t.world.TargetsAgree ↔ .write none ∉ inputs) := by
  obtain ⟨u, hu, hdone⟩ := Option.bind_eq_some_iff.mp h
  split_ifs at hdone with hphase
  obtain rfl := Option.some.inj hdone
  have htracked : s.Tracked := by
    refine ⟨hs, ?_⟩
    intro p hp
    rw [hidle] at hp
    cases hp
  obtain ⟨hquiet, hwrite⟩ := (supervisor_run hu).2 htracked
  refine ⟨hphase, ?_, fun hin => (hquiet hin).1⟩
  intro hagree hin
  exact (hwrite hin).not_agree hagree

end

/-- `Install` works on a version that is not enabled before or after it. -/
theorem install_agree (I : Installer) (e : InstallWeather) {w : World} (hw : w.TargetsAgree)
    (input : InstallInput) : (I.install e w input).world.TargetsAgree := by
  rcases install_cases I e w input with ⟨hreg, htargets, -⟩ |
    ⟨c, -, q, hm, htargets, -, hbefore, hafter⟩
  · exact (agree_of_same hreg htargets).mpr hw
  · intro k
    rw [World.targetKeys, htargets]
    by_cases hk : k = (c.manifest.id, c.manifest.version)
    · subst hk
      have hnot : w.stateOf (c.manifest.id, c.manifest.version) ≠ some .enabled := by
        intro hen
        rcases hbefore _ hen with hs | hs <;> cases hs
      have hq : q.state ≠ .enabled := by
        rcases hafter with hs | hs | ⟨hs, -⟩ <;> simp [hs]
      rw [hm.stateOf_eq]
      refine iff_of_false (fun hin => hnot ((hw _).mp hin)) ?_
      simpa using hq
    · rw [hm.stateOf_other hk]
      exact hw k

theorem enabledWorld_agree : enabledWorld.TargetsAgree := by
  intro key
  have htarget : key ∈ enabledWorld.targetKeys ↔ key = demoEnabled.key := List.mem_singleton
  rw [htarget]
  constructor
  · rintro rfl
    decide
  · intro hstate
    obtain ⟨p, hp, -⟩ := Option.map_eq_some_iff.mp hstate
    have hmem : p ∈ [demoEnabled] := Registry.find_mem hp
    rw [← Registry.find_key hp, List.mem_singleton.mp hmem]

/-- A failing check and a restart that fails as well. -/
def demoTick : List SupervisorInput :=
  [.list none, .health (some "connection refused") 0, .wait none, .stop none,
    .start (some "exec: not found"), .write none]

end GoSite.Plugin
