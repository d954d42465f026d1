import GoSite.PluginInstall
import GoSite.SupervisorRaces

/-!
# Which failures make the supervisor write

The supervisor counts failing checks in a map beside the registry, keyed by
`id@version`. A success deletes the entry, and a failure outside the window of the
first one starts it anew. A log of all checks and failed restarts says what the
entry stands for. The supervisor writes a row for two reasons only: after as many
failures as configured in one window, or after a failed check whose restart failed.
-/
namespace GoSite.Plugin
open GuardedRuns

/-- What the supervisor has seen of a version. -/
inductive CheckEvent where
  | checked (key : Key) (failed : Bool) (now : ℤ)
  | restartFailed (key : Key)
  deriving Repr, DecidableEq

/-- The supervisor and its log, the newest event first. -/
structure Watched where
  sup : Supervised
  log : List CheckEvent

/-- The events of an answer. A restart fails in its wait, its stop or its start. -/
def SupervisorInput.events (phase : Phase) : SupervisorInput → List CheckEvent
  | .health answer now =>
      match phase with
      | .checking p _ => [.checked p.key answer.isSome now]
      | _ => []
  | .wait (some _) | .stop (some _) | .start (some _) =>
      match phase with
      | .waiting p _ _ | .restopping p _ | .restarting p _ => [.restartFailed p.key]
      | _ => []
  | _ => []

/-- Every id in the registry has passed the check of an install. -/
def World.ValidIDs (w : World) : Prop :=
  ∀ p ∈ w.registry.rows, matchesPluginID p.pluginID = true

instance (w : World) : Decidable w.ValidIDs :=
  inferInstanceAs (Decidable (∀ p ∈ w.registry.rows, _))

/-- What happens next. Everything that is not a step of the supervisor or of a lifecycle
operation, such as an install, may leave any world with valid ids. -/
inductive WatchAction where
  | race (a : RaceAction)
  | other (w : World)

def Watched.step (svc : Service) (cfg : SupervisorConfig) (s : Watched) :
    WatchAction → Option Watched
  | .race (.supervisor input) =>
      (supervisorStep cfg s.sup input).map fun t => ⟨t, input.events s.sup.phase ++ s.log⟩
  | .race a => (raceStep svc cfg s.sup a).map fun t => ⟨t, s.log⟩
  | .other w => if w.ValidIDs then some ⟨{ s.sup with world := w }, s.log⟩ else none

/-- The times of the checks of a version that failed since it was last healthy, the newest
first. -/
@[grind] def failuresSince (key : Key) : List CheckEvent → List ℤ
  | [] => []
  | .checked k failed now :: log =>
      if k = key then if failed then now :: failuresSince key log else []
      else failuresSince key log
  | .restartFailed _ :: log => failuresSince key log

/-- Enough checks in a row failed, none of them later than the window of the first. -/
def FailedOften (cfg : SupervisorConfig) (key : Key) (log : List CheckEvent) : Prop :=
  ∃ times first, times ++ [first] <+: failuresSince key log ∧
    cfg.maxAttempts ≤ times.length + 1 ∧ ∀ now ∈ times, now - first ≤ cfg.window

/-- The last that was seen is a failed check of the version, and then a failed restart. -/
def RestartFailed (key : Key) (log : List CheckEvent) : Prop :=
  ∃ now older, log = .restartFailed key :: .checked key true now :: older

/-- Where a step of the supervisor changes a row, it disables a version after enough
failures, or marks a version whose restart has failed. -/
def MarksRightly (cfg : SupervisorConfig) (s : Watched) : WatchAction → Prop
  | .race (.supervisor input) => ∀ t, supervisorStep cfg s.sup input = some t → ∀ key : Key,
      t.world.registry.find key.1 key.2 ≠ s.sup.world.registry.find key.1 key.2 →
      t.world.stateOf key = some .installed ∧ FailedOften cfg key s.log ∨
        t.world.stateOf key = some .enableFailed ∧ RestartFailed key s.log
  | _ => True

theorem at_not_mem_of_isPluginName {name : List Char} (h : isPluginName name = true) :
    '@' ∉ name := by
  cases name with
  | nil => simp
  | cons c cs =>
      simp only [isPluginName, Bool.and_eq_true, List.all_eq_true] at h
      obtain ⟨hc, hcs⟩ := h
      intro hmem
      rcases List.mem_cons.mp hmem with rfl | hmem
      · exact absurd hc (by decide)
      · exact absurd (hcs _ hmem) (by decide)

theorem at_not_mem_of_matchesPluginID {id : String} (h : matchesPluginID id = true) :
    '@' ∉ id.toList := by
  unfold matchesPluginID at h
  split at h
  · rename_i vendor name hsplit
    rw [Bool.and_eq_true] at h
    have htext : ['/'].intercalate (id.toList.splitOn '/') = id.toList :=
      List.intercalate_splitOn '/'
    rw [← htext, hsplit]
    have hv := at_not_mem_of_isPluginName h.1
    have hn := at_not_mem_of_isPluginName h.2
    simp [List.intercalate_cons_cons, hv, hn]
  · cases h

/-- A valid id ends at the first `@` of the key. -/
theorem failureKey_injective {p q : PluginVersion} (hp : matchesPluginID p.pluginID = true)
    (hq : matchesPluginID q.pluginID = true) (h : failureKey p = failureKey q) : p.key = q.key := by
  have hsplit : ∀ {r : PluginVersion}, matchesPluginID r.pluginID = true →
      (failureKey r).toList.takeWhile (· ≠ '@') = r.pluginID.toList := by
    intro r hr
    have hid := at_not_mem_of_matchesPluginID hr
    rw [failureKey, String.toList_append, String.toList_append, List.append_assoc,
      List.takeWhile_append_of_pos]
    · simp
    · intro c hc
      have hne : c ≠ '@' := fun heq => hid (heq ▸ hc)
      simpa using hne
  have hid : p.pluginID = q.pluginID := by
    rw [← String.toList_inj, ← hsplit hp, ← hsplit hq, h]
  have hversion : p.version = q.version := by
    have htext := congrArg String.toList h
    simpa [failureKey, hid, String.toList_inj] using htext
  exact Prod.ext hid hversion

theorem validIDs_of_keys {w w' : World} (hw : w.ValidIDs)
    (h : w'.registry.rows.map PluginVersion.key = w.registry.rows.map PluginVersion.key) :
    w'.ValidIDs := by
  intro p hp
  obtain ⟨q, hq, hkey⟩ := List.mem_map.mp (h ▸ List.mem_map_of_mem (f := PluginVersion.key) hp)
  have hid : q.pluginID = p.pluginID := congrArg Prod.fst hkey
  exact hid ▸ hw q hq

theorem write_keys (w : World) (fault : Option String) (context : String) (key : Key)
    (state : PluginState) (fc fm : String) :
    (w.write fault context key state fc fm).1.registry.rows.map PluginVersion.key =
      w.registry.rows.map PluginVersion.key := by
  cases fault with
  | some e => rfl
  | none =>
      cases hg : w.registry.update key state fc fm with
      | none => simp only [World.write, hg]
      | some g =>
          have hreg : (w.write none context key state fc fm).1.registry = g := by
            simp only [World.write, hg]
            split <;> rfl
          rw [hreg, Registry.update_rows hg, updateRows_keys]

theorem World.ValidIDs.call {w : World} (hw : w.ValidIDs) (c : LifecycleCall) :
    (c.apply w).ValidIDs := by
  cases c with
  | write record state fc fm => exact validIDs_of_keys hw (write_keys ..)
  | _ => exact hw

theorem World.ValidIDs.calls {K : Set Key} {w w' : World} (hw : w.ValidIDs)
    (h : World.Calls K w w') : w'.ValidIDs := by
  obtain ⟨calls, -, rfl⟩ := h
  induction calls generalizing w with
  | nil => exact hw
  | cons c calls ih => exact ih (hw.call c)

/-- A window stands for failures in a row that are no later than its length after the first. -/
def CountsIn (cfg : SupervisorConfig) (key : Key) (log : List CheckEvent) (f : FailureWindow) :
    Prop :=
  ∃ times, times ++ [f.firstAt] <+: failuresSince key log ∧ times.length + 1 = f.count ∧
    ∀ now ∈ times, now - f.firstAt ≤ cfg.window

/-- What the log says of the version at hand. -/
def Phase.Explained (cfg : SupervisorConfig) (log : List CheckEvent) : Phase → Prop
  | .idle | .checking _ _ | .stopping _ _ => True
  | .disabling p _ _ => FailedOften cfg p.key log
  | .waiting p _ _ | .restopping p _ | .restarting p _ =>
      ∃ now older, log = .checked p.key true now :: older
  | .marking p _ _ => RestartFailed p.key log

/-- The log explains the map and the phase, and all ids are valid. -/
structure Watched.Explained (cfg : SupervisorConfig) (s : Watched) : Prop where
  valid : s.sup.world.ValidIDs
  held : ∀ p ∈ s.sup.phase.held, matchesPluginID p.pluginID = true
  counts : ∀ p : PluginVersion, matchesPluginID p.pluginID = true → ∀ f,
    s.sup.failures (failureKey p) = some f → CountsIn cfg p.key s.log f
  phase : s.sup.phase.Explained cfg s.log

section
variable {cfg : SupervisorConfig} {s t : Watched} {key : Key} {log : List CheckEvent}

theorem countsIn_countFailure {state : Option FailureWindow}
    (h : ∀ f, state = some f → CountsIn cfg key log f) (now : ℤ) :
    CountsIn cfg key (.checked key true now :: log) (countFailure cfg now state) := by
  have hfailures : failuresSince key (.checked key true now :: log) =
      now :: failuresSince key log := by
    simp [failuresSince]
  have hfirst : CountsIn cfg key (.checked key true now :: log) ⟨now, 1, 1⟩ := by
    refine ⟨[], ?_, rfl, by simp⟩
    rw [hfailures]
    exact List.prefix_append [now] _
  cases state with
  | none => exact hfirst
  | some f =>
      by_cases hlate : now - f.firstAt > cfg.window
      · rw [countFailure, if_pos hlate]
        exact hfirst
      · rw [countFailure, if_neg hlate]
        obtain ⟨times, hpre, hcount, hin⟩ := h f rfl
        refine ⟨now :: times, ?_, by simpa using hcount, ?_⟩
        · rw [hfailures]
          exact (List.prefix_cons_inj now).mpr hpre
        · exact List.forall_mem_cons.mpr ⟨Int.not_lt.mp hlate, hin⟩

theorem CountsIn.failedOften {f : FailureWindow} (h : CountsIn cfg key log f)
    (hcount : f.count ≥ cfg.maxAttempts) : FailedOften cfg key log := by
  obtain ⟨times, hpre, hlen, hin⟩ := h
  exact ⟨times, f.firstAt, hpre, by omega, hin⟩

theorem CountsIn.restartFailed {k : Key} {f : FailureWindow} (h : CountsIn cfg key log f) :
    CountsIn cfg key (.restartFailed k :: log) f := h

/-- The check of another version does not count. -/
theorem CountsIn.checked_other {k : Key} (hk : k ≠ key) {f : FailureWindow}
    (h : CountsIn cfg key log f) (failed : Bool) (now : ℤ) :
    CountsIn cfg key (.checked k failed now :: log) f := by
  unfold CountsIn at h ⊢
  rwa [failuresSince, if_neg hk]

theorem explained_next (rest : List PluginVersion) : (Phase.next rest).Explained cfg log := by
  cases rest <;> trivial

theorem failureKey_of_key {p q : PluginVersion} (h : p.key = q.key) :
    failureKey p = failureKey q := by
  obtain ⟨hid, hversion⟩ := Prod.mk.inj h
  rw [failureKey, failureKey, hid, hversion]

/-- After a check the map and the phase are explained by the log with the check. -/
theorem explained_check {s : Supervised} {p : PluginVersion} {rest : List PluginVersion}
    (hp : matchesPluginID p.pluginID = true)
    (hcounts : ∀ q : PluginVersion, matchesPluginID q.pluginID = true → ∀ f,
      s.failures (failureKey q) = some f → CountsIn cfg q.key log f)
    (answer : Option String) (now : ℤ) :
    let t := s.check cfg p rest answer now
    let newer := CheckEvent.checked p.key answer.isSome now :: log
    (∀ q : PluginVersion, matchesPluginID q.pluginID = true → ∀ f,
      t.failures (failureKey q) = some f → CountsIn cfg q.key newer f) ∧
      t.phase.Explained cfg newer := by
  have hother : ∀ q : PluginVersion, matchesPluginID q.pluginID = true →
      failureKey q ≠ failureKey p → ∀ f, s.failures (failureKey q) = some f →
      CountsIn cfg q.key (.checked p.key answer.isSome now :: log) f := by
    intro q hq hne f hf
    have hkey : p.key ≠ q.key := fun h => hne (failureKey_of_key h).symm
    exact (hcounts q hq f hf).checked_other hkey _ _
  cases answer with
  | none =>
      refine ⟨fun q hq f hf => ?_, explained_next rest⟩
      simp only [Supervised.check] at hf
      split_ifs at hf with hkey
      exact hother q hq hkey f hf
  | some cause =>
      have hwindow := countsIn_countFailure (hcounts p hp) now
      refine ⟨fun q hq f hf => ?_, ?_⟩
      · simp only [Supervised.check] at hf
        split_ifs at hf with hkey
        · obtain rfl := Option.some.inj hf
          rw [failureKey_injective hq hp hkey]
          exact hwindow
        · exact hother q hq hkey f hf
      · simp only [Supervised.check]
        split_ifs with hcount
        · exact hwindow.failedOften hcount
        · exact ⟨now, log, rfl⟩

/-- A step of the supervisor reads valid ids and writes no new ones. -/
theorem valid_supervisor {s t : Supervised} {input : SupervisorInput} (hw : s.world.ValidIDs)
    (hheld : ∀ p ∈ s.phase.held, matchesPluginID p.pluginID = true)
    (h : supervisorStep cfg s input = some t) :
    t.world.ValidIDs ∧ ∀ p ∈ t.phase.held, matchesPluginID p.pluginID = true := by
  obtain ⟨hlist, hrows⟩ := supervisorStep_effect h
  refine ⟨?_, ?_⟩
  · rcases hrows with ⟨fault, -, p, state, fc, fm, -, -, hwrite⟩ | ⟨-, hkeeps, -⟩
    · rw [hwrite]
      exact validIDs_of_keys hw (write_keys ..)
    · exact validIDs_of_keys hw (by rw [hkeeps])
  · intro p hp
    rcases hlist with hsuffix | hlist
    · exact hheld p (hsuffix.mem hp)
    · rw [hlist] at hp
      exact hw p (mem_listEnabled.mp hp).1

/-- What a step leaves the supervisor doing is explained by the log with its events. -/
theorem explained_phase {s t : Supervised} {input : SupervisorInput}
    (hheld : ∀ p ∈ s.phase.held, matchesPluginID p.pluginID = true)
    (hcounts : ∀ q : PluginVersion, matchesPluginID q.pluginID = true → ∀ f,
      s.failures (failureKey q) = some f → CountsIn cfg q.key log f)
    (hphase : s.phase.Explained cfg log) (h : supervisorStep cfg s input = some t) :
    (∀ q : PluginVersion, matchesPluginID q.pluginID = true → ∀ f,
      t.failures (failureKey q) = some f →
        CountsIn cfg q.key (input.events s.phase ++ log) f) ∧
      t.phase.Explained cfg (input.events s.phase ++ log) := by
  obtain ⟨w, phase, failures, done⟩ := s
  cases input with
  | cancel =>
      obtain rfl := Option.some.inj h
      exact ⟨hcounts, hphase⟩
  | list fault =>
      cases phase with
      | idle =>
          simp only [supervisorStep] at h
          split_ifs at h
          cases fault with
          | some e =>
              obtain rfl := Option.some.inj h
              exact ⟨hcounts, hphase⟩
          | none =>
              obtain rfl := Option.some.inj h
              exact ⟨hcounts, explained_next _⟩
      | _ => cases h
  | health answer now =>
      cases phase with
      | checking p rest =>
          obtain rfl := Option.some.inj h
          exact explained_check (hheld p List.mem_cons_self) hcounts answer now
      | _ => cases h
  | wait fault =>
      cases phase with
      | waiting p delay rest =>
          cases fault with
          | none =>
              obtain rfl := Option.some.inj h
              exact ⟨hcounts, hphase⟩
          | some e =>
              simp only [supervisorStep] at h
              split_ifs at h
              obtain rfl := Option.some.inj h
              obtain ⟨now, older, rfl⟩ := hphase
              exact ⟨hcounts, now, older, rfl⟩
      | _ => cases h
  | write fault =>
      simp only [supervisorStep] at h
      split_ifs at h
      cases phase with
      | disabling p cause rest =>
          rcases hw : w.write fault "set plugin state" p.key .installed failureHookRefreshFailed
            (disableMessage cfg cause) with ⟨w', r, err⟩
          simp only [hw] at h
          cases err with
          | some e =>
              obtain rfl := Option.some.inj h
              exact ⟨hcounts, explained_next rest⟩
          | none =>
              obtain rfl := Option.some.inj h
              exact ⟨hcounts, trivial⟩
      | marking p err rest =>
          obtain rfl := Option.some.inj h
          exact ⟨hcounts, explained_next rest⟩
      | _ => cases h
  | stop fault =>
      cases phase with
      | stopping p rest =>
          obtain rfl := Option.some.inj h
          cases fault <;> exact ⟨hcounts, explained_next rest⟩
      | restopping p rest =>
          cases fault with
          | none =>
              obtain rfl := Option.some.inj h
              exact ⟨hcounts, hphase⟩
          | some e =>
              obtain rfl := Option.some.inj h
              obtain ⟨now, older, rfl⟩ := hphase
              exact ⟨hcounts, now, older, rfl⟩
      | _ => cases h
  | start fault =>
      cases phase with
      | restarting p rest =>
          cases fault with
          | none =>
              obtain rfl := Option.some.inj h
              exact ⟨hcounts, explained_next rest⟩
          | some e =>
              obtain rfl := Option.some.inj h
              obtain ⟨now, older, rfl⟩ := hphase
              exact ⟨hcounts, now, older, rfl⟩
      | _ => cases h

/-- A row that a write changes has the key and the state that were written. -/
theorem write_changed {w : World} {fault : Option String} {context : String} {key k : Key}
    {state : PluginState} {fc fm : String}
    (h : (w.write fault context key state fc fm).1.registry.find k.1 k.2 ≠
      w.registry.find k.1 k.2) :
    k = key ∧ (w.write fault context key state fc fm).1.stateOf k = some state := by
  obtain ⟨hk, p, -, hfind⟩ := (write_find w fault context key k state fc fm).resolve_left h
  exact ⟨hk, by rw [World.stateOf, hfind]; rfl⟩

theorem marksRightly_of_explained (hs : s.Explained cfg) (a : WatchAction) :
    MarksRightly cfg s a := by
  cases a with
  | other w => trivial
  | race a =>
      cases a with
      | operation F op => trivial
      | call c => trivial
      | supervisor input =>
          intro u hu k hchanged
          obtain ⟨-, ⟨fault, rfl, -⟩ | ⟨-, hkeeps, -⟩⟩ := supervisorStep_effect hu
          · obtain ⟨⟨w, phase, failures, done⟩, log⟩ := s
            have hphase := hs.phase
            simp only [supervisorStep] at hu
            split_ifs at hu
            cases phase with
            | disabling p cause rest =>
                have hworld : u.world = (w.write fault "set plugin state" p.key .installed
                    failureHookRefreshFailed (disableMessage cfg cause)).1 := by
                  rcases hw : w.write fault "set plugin state" p.key .installed
                    failureHookRefreshFailed (disableMessage cfg cause) with ⟨w', r, err⟩
                  simp only [hw] at hu
                  cases err <;> exact (Option.some.inj hu) ▸ rfl
                rw [hworld] at hchanged ⊢
                obtain ⟨rfl, hstate⟩ := write_changed hchanged
                exact .inl ⟨hstate, hphase⟩
            | marking p err rest =>
                obtain rfl := Option.some.inj hu
                obtain ⟨rfl, hstate⟩ := write_changed hchanged
                exact .inr ⟨hstate, hphase⟩
            | _ => cases hu
          · exact absurd (by rw [hkeeps]) hchanged

theorem Watched.Explained.step {svc : Service} {a : WatchAction} (hs : s.Explained cfg)
    (h : s.step svc cfg a = some t) : t.Explained cfg := by
  cases a with
  | other w =>
      simp only [Watched.step, Option.ite_none_right_eq_some, Option.some.injEq] at h
      obtain ⟨hw, rfl⟩ := h
      exact ⟨hw, hs.held, hs.counts, hs.phase⟩
  | race a =>
      cases a with
      | operation F op =>
          obtain rfl := Option.some.inj h
          have hvalid := hs.valid.calls (perform_calls svc F s.sup.world op)
          exact ⟨hvalid, hs.held, hs.counts, hs.phase⟩
      | call c =>
          obtain rfl := Option.some.inj h
          exact ⟨hs.valid.call c, hs.held, hs.counts, hs.phase⟩
      | supervisor input =>
          obtain ⟨u, hu, rfl⟩ := Option.map_eq_some_iff.mp h
          obtain ⟨hvalid, hheld⟩ := valid_supervisor hs.valid hs.held hu
          obtain ⟨hcounts, hphase⟩ := explained_phase hs.held hs.counts hs.phase hu
          exact ⟨hvalid, hheld, hcounts, hphase⟩

end

/-- A supervisor before its first tick, with nothing seen. -/
def Watched.init (w : World) : Watched := ⟨.init w, []⟩

theorem explained_init (cfg : SupervisorConfig) {w : World} (hw : w.ValidIDs) :
    (Watched.init w).Explained cfg where
  valid := hw
  held := by simp [Watched.init, Supervised.init, Phase.held]
  counts := by simp [Watched.init, Supervised.init]
  phase := trivial

/-- In every run of the supervisor beside lifecycle operations and installs, every row that the
supervisor changes is that of a version disabled after enough failures in a row within one
window, or marked after a failed check and a failed restart. -/
theorem supervisor_marks_rightly (svc : Service) (cfg : SupervisorConfig) (w : World)
    (hw : w.ValidIDs) (actions : List WatchAction) :
    Guarded (Watched.step svc cfg) (MarksRightly cfg) (.init w) actions := by
  have halong : Along (Watched.step svc cfg) (Watched.Explained cfg) (.init w) actions :=
    along_of_invariant (fun s a t hs h => hs.step h) actions (explained_init cfg hw)
  exact halong.guarded fun s a hs => marksRightly_of_explained hs a

/-- A tick over one enabled version. -/
theorem list_single {svc : Service} {cfg : SupervisorConfig} {s : Watched} {p : PluginVersion}
    (hphase : s.sup.phase = .idle) (hrows : s.sup.world.registry.rows = [p])
    (hen : p.state = .enabled) (hdone : s.sup.done = false) :
    s.step svc cfg (.race (.supervisor (.list none))) =
      some ⟨{ s.sup with phase := .checking p [] }, s.log⟩ := by
  have hlist : s.sup.world.registry.listEnabled = [p] := by
    rw [Registry.listEnabled, hrows, List.filter_cons_of_pos (by simpa using hen), List.filter_nil]
    exact List.mergeSort_singleton p
  have hallows : s.sup.Allows none := fun h => absurd h (by simp [hdone])
  simp only [Watched.step, supervisorStep, hphase, if_pos hallows, hlist, Option.map_some]
  rfl

/-- The supervisor's answers as actions. -/
def answers (inputs : List SupervisorInput) : List WatchAction :=
  inputs.map fun input => .race (.supervisor input)

/-- One check fails, and then the restart. -/
def failedRestart : List SupervisorInput :=
  [.health (some "connection refused") 0, .wait none, .stop none,
    .start (some "fork/exec: permission denied"), .write none]

theorem run_list {svc : Service} {cfg : SupervisorConfig} (actions : List WatchAction) :
    run (Watched.step svc cfg) (.init enabledWorld)
        (.race (.supervisor (.list none)) :: actions) =
      run (Watched.step svc cfg)
        ⟨⟨enabledWorld, .checking demoEnabled [], fun _ => none, false⟩, []⟩ actions := by
  rw [run_cons, list_single rfl rfl rfl rfl]
  rfl

theorem supervisor_marks_rightly_demo :
    enabledWorld.ValidIDs ∧ Guarded (Watched.step demoService defaultSupervisor)
      (MarksRightly defaultSupervisor) (.init enabledWorld)
      (answers (.list none :: failedRestart)) := by
  have hvalid : enabledWorld.ValidIDs := by decide
  exact ⟨hvalid, supervisor_marks_rightly demoService defaultSupervisor enabledWorld hvalid _⟩

/-- A failed check whose restart succeeds. The version is then disabled and enabled again. -/
def reenabled : List WatchAction :=
  answers [.health (some "connection refused") 0, .wait none, .stop none, .start none] ++
    [.race (.operation (fun _ => none) (.disable "acme/demo")),
      .race (.operation (fun _ => none) (.enable "acme/demo" "1.0.0"))]

/-- With five attempts, one failed check and a failed restart mark a version. With two, the
failure from before a disable still counts: the first failed check after the version was
enabled again disables it. -/
theorem marked_before_enough_failures :
    (∃ t, run (Watched.step demoService defaultSupervisor) (.init enabledWorld)
        (answers (.list none :: failedRestart)) = some t ∧
      t.sup.world.stateOf demoEnabled.key = some .enableFailed ∧
      failuresSince demoEnabled.key t.log = [0]) ∧
    ∃ u, run (Watched.step demoService { defaultSupervisor with maxAttempts := 2 })
        (.init enabledWorld) (.race (.supervisor (.list none)) :: reenabled) = some u ∧
      u.sup.world.stateOf demoEnabled.key = some .enabled ∧
      ∃ t, run (Watched.step demoService { defaultSupervisor with maxAttempts := 2 }) u
          (answers [.list none, .health (some "connection refused") 30000000000, .write none]) =
          some t ∧
        t.log = .checked demoEnabled.key true 30000000000 :: u.log ∧
        t.sup.world.stateOf demoEnabled.key = some .installed := by
  refine ⟨⟨_, (run_list _).trans rfl, by decide, by decide⟩, _, (run_list _).trans rfl,
    by decide, ?_⟩
  rw [answers, List.map_cons, run_cons, list_single rfl rfl rfl rfl]
  exact ⟨_, rfl, rfl, by decide⟩

end GoSite.Plugin
