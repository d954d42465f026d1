import GoSite.GuardedRuns
import GoSite.HookVersions
import GoSite.StableSorts

/-!
# The hook bus

The bus calls the enabled plugins that declare an event. A breaker for each version
counts failed calls, and a version with too many of them is passed over for a while.
On a strict event the first error stops the calls, and the host does not go on.
-/
namespace GoSite.Hookbus
open GoStrings GuardedRuns

/-! ## Targets -/

structure Target where
  pluginID : String
  version : String
  tier : ℤ
  manifestJSON : String
  deriving Repr, DecidableEq

/-- What `manifestSnapshot` has of the capabilities. -/
structure Capabilities where
  hooks : List String
  hookIsolation : String
  deriving Repr, DecidableEq

/-- The map `enabled`. `Refresh` stores rows under their plugin ids, and no id has a
sign that stands between id and version. -/
structure Enabled where
  targets : List Target
  nodup : (targets.map Target.pluginID).Nodup
  plain : ∀ t ∈ targets, '@' ∉ t.pluginID.toList

/-! ## Configuration and state -/

/-- `Config`, with times in nanoseconds. -/
structure Config where
  maxConcurrentHooks : ℤ
  hookTimeout : ℤ
  strictEvents : List (String × Bool)
  breakerThreshold : ℤ
  breakerWindow : ℤ
  deriving Repr, DecidableEq

/-- The defaults of `New`. -/
def Config.withDefaults (cfg : Config) : Config where
  maxConcurrentHooks := if cfg.maxConcurrentHooks ≤ 0 then 10 else cfg.maxConcurrentHooks
  hookTimeout := if cfg.hookTimeout ≤ 0 then 5 * 10 ^ 9 else cfg.hookTimeout
  strictEvents := cfg.strictEvents
  breakerThreshold := if cfg.breakerThreshold ≤ 0 then 3 else cfg.breakerThreshold
  breakerWindow := if cfg.breakerWindow ≤ 0 then 5 * 60 * 10 ^ 9 else cfg.breakerWindow

/-- `breakerState`, where the zero time is none. -/
structure BreakerState where
  failures : ℤ
  firstAt : Option ℤ
  deriving Repr, DecidableEq

/-- What the map `breakers` gives for a version without a breaker. -/
def BreakerState.zero : BreakerState := ⟨0, none⟩

structure Dispatcher where
  cfg : Config
  enabled : Enabled
  /-- `json.Unmarshal` of a manifest. -/
  unmarshal : String → Option Capabilities

/-- The breakers, and the calls that were made with their errors. -/
structure Bus where
  breakers : String → BreakerState
  asked : List (Target × Option String)

inductive CallStatus where
  | ok
  | error
  | skipped
  deriving Repr, DecidableEq

/-- `HookCallResult`. -/
structure HookCallResult where
  pluginID : String
  version : String
  status : CallStatus
  error : String
  duration : ℤ
  deriving Repr, DecidableEq

/-- `HookResult`. -/
structure HookResult where
  eventName : String
  strict : Bool
  calls : List HookCallResult
  warnings : List String
  deriving Repr, DecidableEq

/-- What a call of a target meets: the clock, the answer of `CallHook` and whether
its deadline has passed. -/
structure CallWeather where
  checkedAt : ℤ
  answer : Option String
  timedOut : Bool
  failedAt : ℤ
  duration : ℤ
  deriving Repr, DecidableEq

/-! ## One call -/

def Target.key (t : Target) : String := t.pluginID ++ "@" ++ t.version

/-- The breaker of a target is open at a time. -/
def BreakerState.OpenAt (cfg : Config) (state : BreakerState) (now : ℤ) : Prop :=
  cfg.breakerThreshold ≤ state.failures ∧
    ∃ first ∈ state.firstAt, now - first ≤ cfg.breakerWindow

instance (cfg : Config) (state : BreakerState) (now : ℤ) : Decidable (state.OpenAt cfg now) := by
  unfold BreakerState.OpenAt
  infer_instance

section
variable (cfg : Config) (b : Bus) (t : Target)

/-- `delete` of a breaker. -/
def Bus.forget : Bus :=
  { b with breakers := Function.update b.breakers t.key .zero }

/-- `breakerOpen`, which forgets a breaker whose window is over. -/
def Bus.breakerOpen (now : ℤ) : Bus × Bool :=
  let state := b.breakers t.key
  if state.failures < cfg.breakerThreshold then (b, false)
  else if state.OpenAt cfg now then (b, true)
  else (b.forget t, false)

/-- The state a failure leaves. -/
def BreakerState.failed (state : BreakerState) (now : ℤ) : BreakerState :=
  let state : BreakerState :=
    match state.firstAt with
    | none => ⟨0, some now⟩
    | some first => if now - first > cfg.breakerWindow then ⟨0, some now⟩ else state
  { state with failures := state.failures + 1 }

def Bus.recordFailure (now : ℤ) : Bus :=
  { b with breakers := Function.update b.breakers t.key ((b.breakers t.key).failed cfg now) }

def Bus.recordSuccess : Bus := b.forget t

def skippedCall (w : CallWeather) : HookCallResult :=
  ⟨t.pluginID, t.version, .skipped, "circuit breaker open", w.duration⟩

/-- The result of a call that was made. -/
def madeCall (w : CallWeather) : HookCallResult :=
  match w.answer with
  | none => ⟨t.pluginID, t.version, .ok, "", w.duration⟩
  | some err =>
      ⟨t.pluginID, t.version, .error, if w.timedOut then "hook timeout" else err, w.duration⟩

/-- The bus after the answer of a call. -/
def Bus.answered (w : CallWeather) : Bus :=
  let b := { b with asked := b.asked ++ [(t, w.answer)] }
  match w.answer with
  | none => b.recordSuccess t
  | some _ => b.recordFailure cfg t w.failedAt

def Bus.callOne (w : CallWeather) : Bus × HookCallResult :=
  match b.breakerOpen cfg t w.checkedAt with
  | (b, true) => (b, skippedCall t w)
  | (b, false) => (b.answered cfg t w, madeCall t w)

end

/-! ## The order of the calls -/

/-- The comparison of `sortTargets` and of the calls of a result. -/
def lessVersion (id version id' version' : String) : Bool :=
  if id = id' then compareSemver version version' > 0 else decide (id < id')

def sortTargets (targets : List Target) : List Target :=
  StableSorts.stable (fun s t => lessVersion s.pluginID s.version t.pluginID t.version) targets

section
variable (d : Dispatcher)

def Dispatcher.declaresHook (t : Target) (eventName : String) : Bool :=
  match d.unmarshal t.manifestJSON with
  | none => false
  | some manifest => eventName ∈ manifest.hooks

def Dispatcher.targetsFor (eventName : String) : List Target :=
  sortTargets (d.enabled.targets.filter (d.declaresHook · eventName))

def Dispatcher.isStrict (eventName : String) : Bool :=
  match d.cfg.strictEvents.lookup eventName with
  | some strict => strict
  | none => decide (".before_".toList <:+: eventName.toList)

end

/-! ## Strict events -/

/-- The error of a strict event. -/
def blockedBy (eventName : String) (call : HookCallResult) : Plugin.AppError :=
  .new .pluginOperation ("plugin hook " ++ eventName ++ " blocked by " ++ call.pluginID ++ "@" ++
    call.version ++ ": " ++ call.error)

/-- The loop over the targets of a strict event. -/
@[grind] def strictLoop (cfg : Config) (eventName : String) (weather : Target → CallWeather) :
    Bus → List Target → Bus × List HookCallResult × Option Plugin.AppError
  | b, [] => (b, [], none)
  | b, t :: ts =>
      let (b, call) := b.callOne cfg t (weather t)
      if call.status = .error then (b, [call], some (blockedBy eventName call))
      else
        let (b, calls, err) := strictLoop cfg eventName weather b ts
        (b, call :: calls, err)

/-- `Dispatch` of a strict event, once the payload is encoded. -/
def Dispatcher.dispatchStrict (d : Dispatcher) (b : Bus) (eventName : String)
    (weather : Target → CallWeather) : Bus × HookResult × Option Plugin.AppError :=
  let (b, calls, err) := strictLoop d.cfg eventName weather b (d.targetsFor eventName)
  (b, ⟨eventName, true, calls, []⟩, err)

theorem strictLoop_cons (cfg : Config) (eventName : String) (weather : Target → CallWeather)
    (b : Bus) (t : Target) (ts : List Target) :
    strictLoop cfg eventName weather b (t :: ts) =
      if (b.callOne cfg t (weather t)).2.status = .error then
        ((b.callOne cfg t (weather t)).1, [(b.callOne cfg t (weather t)).2],
          some (blockedBy eventName (b.callOne cfg t (weather t)).2))
      else
        ((strictLoop cfg eventName weather (b.callOne cfg t (weather t)).1 ts).1,
          (b.callOne cfg t (weather t)).2 ::
            (strictLoop cfg eventName weather (b.callOne cfg t (weather t)).1 ts).2.1,
          (strictLoop cfg eventName weather (b.callOne cfg t (weather t)).1 ts).2.2) := rfl

/-! ## Other events -/

/-- Where the goroutine of a target is. -/
inductive Phase where
  | waiting
  | entered
  /-- The breaker is to be forgotten. -/
  | expired
  | calling
  | answered
  | finished (call : HookCallResult)
  | left (call : HookCallResult)
  deriving Repr, DecidableEq

/-- The goroutines of `callIndependent`, and how many more may enter. -/
structure Pool where
  bus : Bus
  free : ℕ
  phases : List Phase

def Pool.start (cfg : Config) (b : Bus) (targets : List Target) : Pool :=
  ⟨b, if cfg.maxConcurrentHooks ≤ 0 then 1 else cfg.maxConcurrentHooks.toNat,
    targets.map fun _ => .waiting⟩

def Pool.to (s : Pool) (i : ℕ) (phase : Phase) : Pool := { s with phases := s.phases.set i phase }

/-- The goroutine of the target `t` at the position `i` takes a step. -/
def Pool.advance (cfg : Config) (s : Pool) (i : ℕ) (t : Target) (w : CallWeather) :
    Phase → Option Pool
  | .waiting => if s.free = 0 then none else some ({ s with free := s.free - 1 }.to i .entered)
  | .entered =>
      let state := s.bus.breakers t.key
      if state.failures < cfg.breakerThreshold then some (s.to i .calling)
      else if state.OpenAt cfg w.checkedAt then some (s.to i (.finished (skippedCall t w)))
      else some (s.to i .expired)
  | .expired => some ({ s with bus := s.bus.forget t }.to i .calling)
  | .calling =>
      some ({ s with bus := { s.bus with asked := s.bus.asked ++ [(t, w.answer)] } }.to i .answered)
  | .answered =>
      let bus := if w.answer = none then s.bus.recordSuccess t
        else s.bus.recordFailure cfg t w.failedAt
      some ({ s with bus := bus }.to i (.finished (madeCall t w)))
  | .finished call => some ({ s with free := s.free + 1 }.to i (.left call))
  | .left _ => none

def Pool.step (cfg : Config) (targets : List Target) (weather : Target → CallWeather) (s : Pool)
    (i : ℕ) : Option Pool :=
  match targets[i]?, s.phases[i]? with
  | some t, some phase => s.advance cfg i t (weather t) phase
  | _, _ => none

/-- What the goroutines have returned, once all of them have. -/
def Pool.results (s : Pool) : Option (List HookCallResult) :=
  s.phases.mapM fun
    | .left call => some call
    | _ => none

/-- `callIndependent`, with the goroutines taking steps in the order of the schedule. -/
def callIndependent (cfg : Config) (weather : Target → CallWeather) (b : Bus)
    (targets : List Target) (schedule : List ℕ) : Option (Bus × List HookCallResult) :=
  match run (Pool.step cfg targets weather) (.start cfg b targets) schedule with
  | none => none
  | some s => s.results.map fun calls => (s.bus, calls)

/-- The loop over the sequential targets. -/
@[grind] def sequentialLoop (cfg : Config) (weather : Target → CallWeather) :
    Bus → List Target → Bus × List HookCallResult
  | b, [] => (b, [])
  | b, t :: ts =>
      let (b, call) := b.callOne cfg t (weather t)
      let (b, calls) := sequentialLoop cfg weather b ts
      (b, call :: calls)

def warningsOf (calls : List HookCallResult) : List String :=
  (calls.filter (·.status = .error)).map fun call =>
    call.pluginID ++ "@" ++ call.version ++ ": " ++ call.error

def sortCalls (calls : List HookCallResult) : List HookCallResult :=
  StableSorts.stable (fun s t => lessVersion s.pluginID s.version t.pluginID t.version) calls

section
variable (d : Dispatcher)

/-- `hookIsolation`. -/
def Dispatcher.isIndependent (t : Target) : Bool :=
  match d.unmarshal t.manifestJSON with
  | none => false
  | some manifest => manifest.hookIsolation = "independent"

def Dispatcher.splitByIsolation (targets : List Target) : List Target × List Target :=
  (targets.filter (!d.isIndependent ·), targets.filter d.isIndependent)

/-- `Dispatch` of an event that is not strict, once the payload is encoded. -/
def Dispatcher.dispatchLenient (b : Bus) (eventName : String) (weather : Target → CallWeather)
    (schedule : List ℕ) : Option (Bus × HookResult) :=
  let (sequential, independent) := d.splitByIsolation (d.targetsFor eventName)
  let (b, calls) := sequentialLoop d.cfg weather b sequential
  (callIndependent d.cfg weather b independent schedule).map fun (b, concurrent) =>
    (b, ⟨eventName, false, sortCalls (calls ++ concurrent),
      warningsOf calls ++ warningsOf concurrent⟩)

/-- `Dispatch`. `encodeErr` is the error of encoding the payload. Nothing is returned
for a schedule that does not end. -/
def Dispatcher.dispatch (b : Bus) (eventName : String) (encodeErr : Option String)
    (weather : Target → CallWeather) (schedule : List ℕ) :
    Option (Bus × HookResult × Option Plugin.AppError) :=
  match encodeErr with
  | some err => some (b, ⟨"", false, [], []⟩,
      some (.wrap .invalidInput "encode hook payload failed" err))
  | none =>
      if d.isStrict eventName then some (d.dispatchStrict b eventName weather)
      else (d.dispatchLenient b eventName weather schedule).map fun (b, result) =>
        (b, result, none)

end

/-! ## The targets of an event -/

def versionKey (version : String) : ℤ ×ₗ ℤ ×ₗ ℤ :=
  let parts := semverParts version
  toLex (parts.1, toLex (parts.2.1, parts.2.2))

/-- The order of the calls, newer versions first. -/
def callKey (id version : String) : String ×ₗ (ℤ ×ₗ ℤ ×ₗ ℤ)ᵒᵈ :=
  toLex (id, OrderDual.toDual (versionKey version))

theorem compareSemver_pos_iff (a b : String) :
    compareSemver a b > 0 ↔ versionKey b < versionKey a := by
  simp only [compareSemver, versionKey, Prod.Lex.toLex_lt_toLex]
  split_ifs <;> omega

theorem lessVersion_eq (id version id' version' : String) :
    lessVersion id version id' version' =
      decide (callKey id version < callKey id' version') := by
  rw [lessVersion]
  by_cases hid : id = id'
  · subst hid
    rw [if_pos rfl, decide_eq_decide, compareSemver_pos_iff, callKey, callKey,
      Prod.Lex.toLex_lt_toLex]
    simp
  · rw [if_neg hid, decide_eq_decide, callKey, callKey, Prod.Lex.toLex_lt_toLex]
    simp [hid]

theorem arranged_sortTargets (targets : List Target) :
    StableSorts.Arranged
      (fun s t => lessVersion s.pluginID s.version t.pluginID t.version)
      (fun s t => callKey s.pluginID s.version ≤ callKey t.pluginID t.version) targets
      (sortTargets targets) := by
  have ha := StableSorts.arranging_key fun t : Target => callKey t.pluginID t.version
  have hless : (fun s t : Target => lessVersion s.pluginID s.version t.pluginID t.version) =
      fun s t => decide (callKey s.pluginID s.version < callKey t.pluginID t.version) :=
    funext₂ fun s t => lessVersion_eq _ _ _ _
  rw [sortTargets, hless]
  exact StableSorts.arranged_stable ha targets

section
variable {d : Dispatcher} {eventName : String}

theorem mem_targetsFor {t : Target} :
    t ∈ d.targetsFor eventName ↔ t ∈ d.enabled.targets ∧ d.declaresHook t eventName = true := by
  rw [Dispatcher.targetsFor, (arranged_sortTargets _).perm.mem_iff, List.mem_filter]

theorem targetsFor_nodup : ((d.targetsFor eventName).map Target.pluginID).Nodup := by
  have hperm := (arranged_sortTargets (d.enabled.targets.filter (d.declaresHook · eventName))).perm
  rw [Dispatcher.targetsFor, (hperm.map Target.pluginID).nodup_iff]
  exact d.enabled.nodup.sublist (List.filter_sublist.map _)

theorem append_at_inj {a b c d : List Char} (ha : '@' ∉ a) (hc : '@' ∉ c)
    (h : a ++ '@' :: b = c ++ '@' :: d) : a = c := by
  have htake : ∀ {a b : List Char}, '@' ∉ a → (a ++ '@' :: b).takeWhile (· ≠ '@') = a := by
    intro a b ha
    rw [List.takeWhile_append_of_pos fun x hx => by
      simpa using fun heq : x = '@' => ha (heq ▸ hx)]
    simp
  rw [← @htake a b ha, h, htake hc]

/-- Plugins do not share a breaker. -/
theorem key_inj {s t : Target} (hs : s ∈ d.enabled.targets) (ht : t ∈ d.enabled.targets)
    (h : s.key = t.key) : s.pluginID = t.pluginID := by
  have hchars := congrArg String.toList h
  simp only [Target.key, String.toList_append, List.append_assoc] at hchars
  exact String.toList_inj.mp
    (append_at_inj (d.enabled.plain s hs) (d.enabled.plain t ht) hchars)

theorem targetsFor_keys : ((d.targetsFor eventName).map Target.key).Nodup := by
  have hids := @targetsFor_nodup d eventName
  rw [List.Nodup, List.pairwise_map] at hids ⊢
  refine hids.imp_of_mem fun hs ht hne hkey => hne ?_
  exact key_inj (mem_targetsFor.mp hs).1 (mem_targetsFor.mp ht).1 hkey

end

end GoSite.Hookbus
