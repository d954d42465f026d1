import GoSite.PluginMoves

/-!
# The health supervisor

A tick reads the list of enabled versions and works through it: one health
check for each version, then a restart after a backoff, or a disable after too
many failures. The supervisor takes no plugin lock, so its calls are steps of
their own, each with the answer of the outside world as its input.
-/
namespace GoSite.Plugin

/-- The options of `NewHealthSupervisor` that a tick looks at, with durations in
nanoseconds. -/
structure SupervisorConfig where
  maxAttempts : ℕ
  window : ℤ
  backoffMin : ℤ
  backoffMax : ℤ
  deriving Repr, DecidableEq

/-- The defaults of `NewHealthSupervisor`. -/
def defaultSupervisor : SupervisorConfig := ⟨5, 600000000000, 1000000000, 120000000000⟩

/-- `failureWindow`. -/
structure FailureWindow where
  firstAt : ℤ
  count : ℕ
  attempts : ℕ
  deriving Repr, DecidableEq

/-- What the supervisor does next. The version it works on comes first, then the
rest of the list it has read. -/
inductive Phase where
  | idle
  | checking (p : PluginVersion) (rest : List PluginVersion)
  | disabling (p : PluginVersion) (cause : String) (rest : List PluginVersion)
  | stopping (p : PluginVersion) (rest : List PluginVersion)
  | waiting (p : PluginVersion) (delay : ℤ) (rest : List PluginVersion)
  | restopping (p : PluginVersion) (rest : List PluginVersion)
  | restarting (p : PluginVersion) (rest : List PluginVersion)
  | marking (p : PluginVersion) (err : String) (rest : List PluginVersion)
  deriving Repr, DecidableEq

/-- The loop of `tick` goes on with the rest of the list. -/
def Phase.next : List PluginVersion → Phase
  | [] => .idle
  | p :: rest => .checking p rest

/-- The answers the supervisor waits for: a missing text is a success. `cancel`
ends the context. -/
inductive SupervisorInput where
  | list (fault : Option String)
  | health (answer : Option String) (now : ℤ)
  | wait (fault : Option String)
  | write (fault : Option String)
  | stop (fault : Option String)
  | start (fault : Option String)
  | cancel
  deriving Repr, DecidableEq

/-- The supervisor and the world it shares with the lifecycle operations.
`failures` is keyed by id and version, and `done` says that the context ended. -/
structure Supervised where
  world : World
  phase : Phase
  failures : String → Option FailureWindow
  done : Bool

/-- A supervisor before its first tick. -/
def Supervised.init (w : World) : Supervised := ⟨w, .idle, fun _ => none, false⟩

/-- The key of `failures`. -/
def failureKey (p : PluginVersion) : String := p.pluginID ++ "@" ++ p.version

/-- The window a failing check at `now` counts in. -/
def countFailure (cfg : SupervisorConfig) (now : ℤ) (state : Option FailureWindow) :
    FailureWindow :=
  match state with
  | none => ⟨now, 1, 1⟩
  | some f =>
      if now - f.firstAt > cfg.window then ⟨now, 1, 1⟩
      else { f with count := f.count + 1, attempts := f.attempts + 1 }

/-- The delay of `restartWithBackoff`. Durations are 64-bit numbers, and a shift
by 64 or more leaves nothing. -/
def restartDelay (cfg : SupervisorConfig) (attempt : ℕ) : ℤ :=
  let delay :=
    if attempt > 1 then
      (cfg.backoffMin * Int.bmod (2 ^ (attempt - 1)) (2 ^ 64)).bmod (2 ^ 64)
    else cfg.backoffMin
  if delay > cfg.backoffMax then cfg.backoffMax else delay

/-- The message of an automatic disable. -/
def disableMessage (cfg : SupervisorConfig) (cause : String) : String :=
  "auto-disabled after " ++ toString cfg.maxAttempts ++ " health failures: " ++ cause

/-- A database call on a context that ended fails. -/
def Supervised.Allows (s : Supervised) (fault : Option String) : Prop :=
  s.done = true → fault ≠ none

instance (s : Supervised) (fault : Option String) : Decidable (s.Allows fault) :=
  inferInstanceAs (Decidable (_ → _))

/-- `recordSuccess`, or `recordFailure` up to its first call. -/
def Supervised.check (cfg : SupervisorConfig) (s : Supervised) (p : PluginVersion)
    (rest : List PluginVersion) (answer : Option String) (now : ℤ) : Supervised :=
  match answer with
  | none =>
      { s with
        phase := .next rest
        failures := fun k => if k = failureKey p then none else s.failures k }
  | some cause =>
      let window := countFailure cfg now (s.failures (failureKey p))
      { s with
        phase :=
          if window.count ≥ cfg.maxAttempts then .disabling p cause rest
          else .waiting p (restartDelay cfg window.attempts) rest
        failures := fun k => if k = failureKey p then some window else s.failures k }

/-- One answer, and what the supervisor does with it until it waits again. -/
def supervisorStep (cfg : SupervisorConfig) (s : Supervised) : SupervisorInput → Option Supervised
  | .cancel => some { s with done := true }
  | .list fault =>
      match s.phase with
      | .idle =>
          if s.Allows fault then
            match fault with
            | some _ => some s
            | none => some { s with phase := .next s.world.registry.listEnabled }
          else none
      | _ => none
  | .health answer now =>
      match s.phase with
      | .checking p rest => some (s.check cfg p rest answer now)
      | _ => none
  | .wait fault =>
      match s.phase, fault with
      | .waiting p _ rest, none => some { s with phase := .restopping p rest }
      | .waiting p _ rest, some e =>
          if s.done then some { s with phase := .marking p e rest } else none
      | _, _ => none
  | .write fault =>
      if s.Allows fault then
        match s.phase with
        | .disabling p cause rest =>
            let (w, _, err) := s.world.write fault "set plugin state" p.key .installed
              failureHookRefreshFailed (disableMessage cfg cause)
            match err with
            | some _ => some { s with world := w, phase := .next rest }
            | none => some { s with world := w, phase := .stopping p rest }
        | .marking p err rest =>
            let (w, _, _) := s.world.write fault "set plugin state" p.key .enableFailed
              failureStartFailed err
            some { s with world := w, phase := .next rest }
        | _ => none
      else none
  | .stop fault =>
      match s.phase with
      | .stopping p rest =>
          let (w, _) := s.world.stop fault p
          some { s with world := w, phase := .next rest }
      | .restopping p rest =>
          let (w, err) := s.world.stop fault p
          match err with
          | some e => some { s with world := w, phase := .marking p e rest }
          | none => some { s with world := w, phase := .restarting p rest }
      | _ => none
  | .start fault =>
      match s.phase with
      | .restarting p rest =>
          let (w, err) := s.world.start fault p
          match err with
          | some e => some { s with world := w, phase := .marking p e rest }
          | none => some { s with world := w, phase := .next rest }
      | _ => none

/-- The version whose check failed, until it is restarted or its row written. -/
def Phase.failing : Phase → Option PluginVersion
  | .idle | .checking _ _ | .stopping _ _ => none
  | .disabling p _ _ | .waiting p _ _ | .restopping p _ | .restarting p _ | .marking p _ _ =>
      some p

/-- The version whose check failed, until the supervisor goes on with the rest. -/
def Phase.handling : Phase → Option (PluginVersion × List PluginVersion)
  | .idle | .checking _ _ => none
  | .stopping p rest | .disabling p _ rest | .waiting p _ rest | .restopping p rest
  | .restarting p rest | .marking p _ rest => some (p, rest)

/-- The versions the supervisor takes for enabled: those it has still to work
through, and the one it works on until it has disabled it. -/
def Phase.held : Phase → List PluginVersion
  | .idle => []
  | .stopping _ rest => rest
  | .checking p rest | .disabling p _ rest | .waiting p _ rest | .restopping p rest
  | .restarting p rest | .marking p _ rest => p :: rest

@[simp] theorem held_next (rest : List PluginVersion) : (Phase.next rest).held = rest := by
  cases rest <;> rfl

/-- Every held version is enabled. -/
def Supervised.HeldEnabled (s : Supervised) : Prop :=
  ∀ p ∈ s.phase.held, s.world.stateOf p.key = some .enabled

theorem mem_listEnabled {g : Registry} {p : PluginVersion} :
    p ∈ g.listEnabled ↔ p ∈ g.rows ∧ p.state = .enabled := by
  simp [Registry.listEnabled]

theorem listEnabled_stateOf {w : World} {p : PluginVersion} (hp : p ∈ w.registry.listEnabled) :
    w.stateOf p.key = some .enabled := by
  obtain ⟨hmem, hen⟩ := mem_listEnabled.mp hp
  have hfind := Registry.find_of_mem hmem
  simp [World.stateOf, PluginVersion.key, hfind, hen]

theorem check_world (cfg : SupervisorConfig) (s : Supervised) (p : PluginVersion)
    (rest : List PluginVersion) (answer : Option String) (now : ℤ) :
    (s.check cfg p rest answer now).world = s.world := by
  cases answer <;> rfl

/-- A check drops the version or keeps all of the list. -/
theorem check_held (cfg : SupervisorConfig) (s : Supervised) (p : PluginVersion)
    (rest : List PluginVersion) (answer : Option String) (now : ℤ) :
    (s.check cfg p rest answer now).phase.held <:+ p :: rest := by
  cases answer with
  | none =>
      show (Phase.next rest).held <:+ p :: rest
      rw [held_next]
      exact List.suffix_cons p rest
  | some cause =>
      simp only [Supervised.check]
      split_ifs
      · exact List.suffix_rfl
      · exact List.suffix_rfl

/-- The write of a step: a held version leaves `enabled`. -/
def Supervised.WritesTo (s t : Supervised) (fault : Option String) : Prop :=
  ∃ p state fc fm, p ∈ s.phase.held ∧ state ≠ .enabled ∧
    t.world = (s.world.write fault "set plugin state" p.key state fc fm).1

/-- A step without a write leaves the registry and the targets alone. -/
def Supervised.KeepsRows (s t : Supervised) : Prop :=
  t.world.registry = s.world.registry ∧ t.world.targets = s.world.targets

/-- What one step may do to the list, the registry and the targets. -/
theorem supervisorStep_effect {cfg : SupervisorConfig} {s t : Supervised}
    {input : SupervisorInput} (h : supervisorStep cfg s input = some t) :
    (t.phase.held <:+ s.phase.held ∨ t.phase.held = s.world.registry.listEnabled) ∧
      ((∃ fault, input = .write fault ∧ s.WritesTo t fault) ∨
        (∀ fault, input ≠ .write fault) ∧ s.KeepsRows t) := by
  obtain ⟨w, phase, failures, done⟩ := s
  cases input with
  | cancel =>
      obtain rfl := Option.some.inj h
      exact ⟨.inl List.suffix_rfl, .inr ⟨by simp, rfl, rfl⟩⟩
  | list fault =>
      cases phase with
      | idle =>
          simp only [supervisorStep] at h
          split_ifs at h
          cases fault with
          | some e =>
              obtain rfl := Option.some.inj h
              exact ⟨.inl List.suffix_rfl, .inr ⟨by simp, rfl, rfl⟩⟩
          | none =>
              obtain rfl := Option.some.inj h
              exact ⟨.inr (held_next _), .inr ⟨by simp, rfl, rfl⟩⟩
      | _ => cases h
  | health answer now =>
      cases phase with
      | checking p rest =>
          obtain rfl := Option.some.inj h
          have hw := check_world cfg ⟨w, .checking p rest, failures, done⟩ p rest answer now
          exact ⟨.inl (check_held ..), .inr ⟨by simp, by rw [hw], by rw [hw]⟩⟩
      | _ => cases h
  | wait fault =>
      cases phase with
      | waiting p delay rest =>
          cases fault with
          | none =>
              obtain rfl := Option.some.inj h
              exact ⟨.inl List.suffix_rfl, .inr ⟨by simp, rfl, rfl⟩⟩
          | some e =>
              simp only [supervisorStep] at h
              split_ifs at h
              obtain rfl := Option.some.inj h
              exact ⟨.inl List.suffix_rfl, .inr ⟨by simp, rfl, rfl⟩⟩
      | _ => cases h
  | write fault =>
      simp only [supervisorStep] at h
      split_ifs at h
      cases phase with
      | disabling p cause rest =>
          have hwrite : ∀ phase', Supervised.WritesTo ⟨w, .disabling p cause rest, failures, done⟩
              ⟨(w.write fault "set plugin state" p.key .installed failureHookRefreshFailed
                (disableMessage cfg cause)).1, phase', failures, done⟩ fault :=
            fun _ => ⟨p, _, _, _, List.mem_cons_self, by simp, rfl⟩
          rcases hw : w.write fault "set plugin state" p.key .installed failureHookRefreshFailed
            (disableMessage cfg cause) with ⟨w', r, err⟩
          rw [hw] at hwrite
          simp only [hw] at h
          cases err with
          | some e =>
              obtain rfl := Option.some.inj h
              refine ⟨.inl ?_, .inl ⟨fault, rfl, hwrite _⟩⟩
              rw [held_next]
              exact List.suffix_cons p rest
          | none =>
              obtain rfl := Option.some.inj h
              exact ⟨.inl (List.suffix_cons p rest), .inl ⟨fault, rfl, hwrite _⟩⟩
      | marking p err rest =>
          obtain rfl := Option.some.inj h
          refine ⟨.inl ?_, .inl ⟨fault, rfl, p, _, _, _, List.mem_cons_self, by simp, rfl⟩⟩
          rw [held_next]
          exact List.suffix_cons p rest
      | _ => cases h
  | stop fault =>
      cases phase with
      | stopping p rest =>
          obtain rfl := Option.some.inj h
          refine ⟨.inl ?_, .inr ⟨by simp, ?_⟩⟩
          · rw [held_next]
            exact List.suffix_rfl
          · cases fault <;> exact ⟨rfl, rfl⟩
      | restopping p rest =>
          cases fault with
          | none =>
              obtain rfl := Option.some.inj h
              exact ⟨.inl List.suffix_rfl, .inr ⟨by simp, rfl, rfl⟩⟩
          | some e =>
              obtain rfl := Option.some.inj h
              exact ⟨.inl List.suffix_rfl, .inr ⟨by simp, rfl, rfl⟩⟩
      | _ => cases h
  | start fault =>
      cases phase with
      | restarting p rest =>
          cases fault with
          | none =>
              obtain rfl := Option.some.inj h
              refine ⟨.inl ?_, .inr ⟨by simp, rfl, rfl⟩⟩
              rw [held_next]
              exact List.suffix_cons p rest
          | some e =>
              obtain rfl := Option.some.inj h
              exact ⟨.inl List.suffix_rfl, .inr ⟨by simp, rfl, rfl⟩⟩
      | _ => cases h

/-- One enabled version that runs and is a target. -/
def demoEnabled : PluginVersion :=
  ⟨1, "acme/demo", "1.0.0", "1", "", "6e340b9c", "/plugins/acme/demo/1.0.0/artifact.zip",
    .enabled, "", "", "upload", none, 0⟩

def enabledWorld : World where
  registry := ⟨[demoEnabled], by decide, by decide, by decide⟩
  running := [demoEnabled.key]
  targets := [demoEnabled]
  configs := []
  locks := []

theorem list_enabledWorld (cfg : SupervisorConfig) :
    supervisorStep cfg (.init enabledWorld) (.list none) =
      some ⟨enabledWorld, .checking demoEnabled [], fun _ => none, false⟩ := by
  have hlist : enabledWorld.registry.listEnabled = [demoEnabled] := by
    rw [Registry.listEnabled]
    exact List.mergeSort_singleton demoEnabled
  have hallows : (Supervised.init enabledWorld).Allows none := by decide
  show (if (Supervised.init enabledWorld).Allows none then
    some { Supervised.init enabledWorld with
      phase := .next enabledWorld.registry.listEnabled } else none) = _
  rw [if_pos hallows, hlist]
  rfl

end GoSite.Plugin
