import GoSite.HookBus

/-!
# Strict events

A plugin that declares a strict event can block what the host is about to do. The
loop stops at the first error, but a target whose breaker is open is passed over, and
the host goes on as if it had agreed.
-/
namespace GoSite.Hookbus

section
variable {cfg : Config} {b : Bus} {t : Target} {w : CallWeather} {now : ℤ} {k : String}

/-! ## One call -/

theorem breakerOpen_of_open (h : (b.breakers t.key).OpenAt cfg now) :
    b.breakerOpen cfg t now = (b, true) := by
  rw [Bus.breakerOpen, if_neg (not_lt.mpr h.1), if_pos h]

theorem breakerOpen_of_closed (h : ¬ (b.breakers t.key).OpenAt cfg now) :
    (b.breakerOpen cfg t now).2 = false ∧ (b.breakerOpen cfg t now).1.asked = b.asked ∧
      ∀ k ≠ t.key, (b.breakerOpen cfg t now).1.breakers k = b.breakers k := by
  rw [Bus.breakerOpen]
  split_ifs with hfew
  · exact ⟨rfl, rfl, fun _ _ => rfl⟩
  · exact ⟨rfl, rfl, fun k hk => Function.update_of_ne hk _ _⟩

theorem answered_asked : (b.answered cfg t w).asked = b.asked ++ [(t, w.answer)] := by
  rw [Bus.answered]
  cases w.answer <;> rfl

theorem answered_breakers (hk : k ≠ t.key) :
    (b.answered cfg t w).breakers k = b.breakers k := by
  rw [Bus.answered]
  cases w.answer <;> exact Function.update_of_ne hk _ _

theorem callOne_of_open (h : (b.breakers t.key).OpenAt cfg w.checkedAt) :
    b.callOne cfg t w = (b, skippedCall t w) := by
  rw [Bus.callOne, breakerOpen_of_open h]

theorem callOne_of_closed (h : ¬ (b.breakers t.key).OpenAt cfg w.checkedAt) :
    b.callOne cfg t w = ((b.breakerOpen cfg t w.checkedAt).1.answered cfg t w, madeCall t w) := by
  obtain ⟨hopen, -, -⟩ := breakerOpen_of_closed h
  rw [Bus.callOne]
  cases hbreaker : b.breakerOpen cfg t w.checkedAt with
  | mk b' flag =>
      rw [hbreaker] at hopen
      dsimp only at hopen
      rw [hopen]

/-- A call is made where the breaker is closed. -/
theorem callOne_asked :
    (b.callOne cfg t w).1.asked = b.asked ++
      if (b.breakers t.key).OpenAt cfg w.checkedAt then [] else [(t, w.answer)] := by
  by_cases h : (b.breakers t.key).OpenAt cfg w.checkedAt
  · rw [callOne_of_open h, if_pos h, List.append_nil]
  · rw [callOne_of_closed h, if_neg h]
    dsimp only
    rw [answered_asked, (breakerOpen_of_closed h).2.1]

/-- The breakers of the others stay as they are. -/
theorem callOne_breakers (hk : k ≠ t.key) :
    (b.callOne cfg t w).1.breakers k = b.breakers k := by
  by_cases h : (b.breakers t.key).OpenAt cfg w.checkedAt
  · rw [callOne_of_open h]
  · rw [callOne_of_closed h]
    dsimp only
    rw [answered_breakers hk, (breakerOpen_of_closed h).2.2 k hk]

theorem madeCall_error_iff : (madeCall t w).status = .error ↔ w.answer ≠ none := by
  rw [madeCall]
  cases w.answer <;> simp

theorem callOne_error_iff :
    (b.callOne cfg t w).2.status = .error ↔
      ¬ (b.breakers t.key).OpenAt cfg w.checkedAt ∧ w.answer ≠ none := by
  by_cases h : (b.breakers t.key).OpenAt cfg w.checkedAt
  · simp [callOne_of_open h, skippedCall, h]
  · rw [callOne_of_closed h]
    simp [madeCall_error_iff, h]

end

/-! ## The loop -/

section
variable {cfg : Config} {eventName : String} {weather : Target → CallWeather}

/-- The breaker of a target is closed when the loop comes to it. -/
def ClosedFor (cfg : Config) (breakers : String → BreakerState) (weather : Target → CallWeather)
    (t : Target) : Prop :=
  ¬ (breakers t.key).OpenAt cfg (weather t).checkedAt

instance (cfg : Config) (breakers : String → BreakerState) (weather : Target → CallWeather)
    (t : Target) : Decidable (ClosedFor cfg breakers weather t) := by
  unfold ClosedFor
  infer_instance

/-- What the loop asks, and whether it is blocked. -/
structure Asked (cfg : Config) (weather : Target → CallWeather) (b : Bus) (ts : List Target)
    (asked : List (Target × Option String)) (err : Option Plugin.AppError) : Prop where
  blocked : err ≠ none ↔ ∃ t ∈ ts, ClosedFor cfg b.breakers weather t ∧ (weather t).answer ≠ none
  all : err = none → asked = b.asked ++
    (ts.filter fun t => ClosedFor cfg b.breakers weather t).map fun t => (t, (weather t).answer)
  stops : ∃ made, asked = b.asked ++ made ∧
    ∀ before t e after, made = before ++ (t, some e) :: after → after = []

theorem closedFor_congr {breakers breakers' : String → BreakerState} {t : Target}
    (h : breakers t.key = breakers' t.key) :
    ClosedFor cfg breakers weather t ↔ ClosedFor cfg breakers' weather t := by
  rw [ClosedFor, ClosedFor, h]

theorem strictLoop_asked {ts : List Target} (hkeys : (ts.map Target.key).Nodup) (b : Bus) :
    Asked cfg weather b ts (strictLoop cfg eventName weather b ts).1.asked
      (strictLoop cfg eventName weather b ts).2.2 := by
  induction ts generalizing b with
  | nil =>
      exact ⟨by simp [strictLoop], by simp [strictLoop], [], by simp [strictLoop], by simp⟩
  | cons t ts ih =>
      rw [List.map_cons, List.nodup_cons] at hkeys
      have hasked := @callOne_asked cfg b t (weather t)
      have herror := @callOne_error_iff cfg b t (weather t)
      have hother : ∀ s ∈ ts, (ClosedFor cfg (b.callOne cfg t (weather t)).1.breakers weather s ↔
          ClosedFor cfg b.breakers weather s) := by
        intro s hs
        refine closedFor_congr (callOne_breakers fun hk => hkeys.1 ?_)
        exact List.mem_map.mpr ⟨s, hs, hk⟩
      by_cases hstatus : (b.callOne cfg t (weather t)).2.status = .error
      · obtain ⟨hclosed, hanswer⟩ := herror.mp hstatus
        rw [strictLoop_cons, if_pos hstatus]
        refine ⟨?_, by simp, [(t, (weather t).answer)], ?_, ?_⟩
        · exact ⟨fun _ => ⟨t, List.mem_cons_self, hclosed, hanswer⟩, fun _ => by simp⟩
        · rw [hasked, if_neg hclosed]
        · intro before s e after hmade
          have hlen := congrArg List.length hmade
          simp only [List.length_append, List.length_cons, List.length_nil] at hlen
          exact List.length_eq_zero_iff.mp (by omega)
      · obtain ⟨hblocked, hall, made, hmade, hstops⟩ :=
          ih hkeys.2 (b.callOne cfg t (weather t)).1
        have hanswer : ClosedFor cfg b.breakers weather t → (weather t).answer = none := by
          intro hclosed
          by_contra hne
          exact hstatus (herror.mpr ⟨hclosed, hne⟩)
        rw [strictLoop_cons, if_neg hstatus]
        refine ⟨?_, ?_, ?_⟩
        · rw [hblocked]
          constructor
          · rintro ⟨s, hs, hclosed, hne⟩
            exact ⟨s, List.mem_cons_of_mem _ hs, (hother s hs).mp hclosed, hne⟩
          · rintro ⟨s, hs, hclosed, hne⟩
            rcases List.mem_cons.mp hs with rfl | hs
            · exact absurd (hanswer hclosed) hne
            · exact ⟨s, hs, (hother s hs).mpr hclosed, hne⟩
        · intro hnone
          have hfilter : (ts.filter fun s =>
              decide (ClosedFor cfg (b.callOne cfg t (weather t)).1.breakers weather s)) =
                ts.filter fun s => decide (ClosedFor cfg b.breakers weather s) :=
            List.filter_congr fun s hs => decide_eq_decide.mpr (hother s hs)
          rw [hall hnone, hasked, hfilter, List.filter_cons]
          by_cases hclosed : ClosedFor cfg b.breakers weather t
          · rw [if_neg hclosed, if_pos (by simpa using hclosed)]
            simp
          · rw [if_pos (not_not.mp hclosed), if_neg (by simpa using hclosed)]
            simp
        · -- The answer of the first target is no error, so the first error comes later.
          by_cases hclosed : ClosedFor cfg b.breakers weather t
          · refine ⟨(t, (weather t).answer) :: made, ?_, ?_⟩
            · rw [hmade, hasked, if_neg hclosed, List.append_assoc]
              rfl
            · intro before s e after hcons
              cases before with
              | nil =>
                  have hhead := (List.cons.inj hcons).1
                  rw [hanswer hclosed] at hhead
                  cases hhead
              | cons x before => exact hstops before s e after (List.cons.inj hcons).2
          · exact ⟨made, by rw [hmade, hasked, if_pos (not_not.mp hclosed), List.append_nil],
              hstops⟩

end

/-! ## The gate -/

/-- Nothing but the agreement of every target that declares the event lets the host go
on, and nobody is asked after the first error. -/
structure Gate (d : Dispatcher) (eventName : String) (asked : List (Target × Option String))
    (err : Option Plugin.AppError) : Prop where
  agreed : err = none →
    ∀ t ∈ d.enabled.targets, d.declaresHook t eventName = true → (t, none) ∈ asked
  stops : ∀ before t e after, asked = before ++ (t, some e) :: after → after = []

/-- A strict event is a gate exactly when the payload cannot be encoded, or a target
with a closed breaker refuses, or no target that declares the event has an open
breaker. -/
theorem strict_gate_iff (d : Dispatcher) (breakers : String → BreakerState) (eventName : String)
    (encodeErr : Option String) (weather : Target → CallWeather) (schedule : List ℕ)
    (hstrict : d.isStrict eventName = true) :
    ∃ b result err, d.dispatch ⟨breakers, []⟩ eventName encodeErr weather schedule =
        some (b, result, err) ∧
      (Gate d eventName b.asked err ↔
        encodeErr ≠ none ∨
          (∃ t ∈ d.enabled.targets, d.declaresHook t eventName = true ∧
            ClosedFor d.cfg breakers weather t ∧ (weather t).answer ≠ none) ∨
          ∀ t ∈ d.enabled.targets, d.declaresHook t eventName = true →
            ClosedFor d.cfg breakers weather t) := by
  cases encodeErr with
  | some err =>
      exact ⟨_, _, _, rfl, fun _ => .inl (by simp), fun _ => ⟨by simp, by simp⟩⟩
  | none =>
      have hloop := @strictLoop_asked d.cfg eventName weather _
        (@targetsFor_keys d eventName) ⟨breakers, []⟩
      refine ⟨_, _, _, if_pos hstrict, ?_⟩
      generalize strictLoop d.cfg eventName weather ⟨breakers, []⟩ (d.targetsFor eventName) = r
        at hloop ⊢
      obtain ⟨hblocked, hall, made, hmade, hstops⟩ := hloop
      rw [List.nil_append] at hmade
      have hrefuses : r.2.2 ≠ none ↔ ∃ t ∈ d.enabled.targets,
          d.declaresHook t eventName = true ∧ ClosedFor d.cfg breakers weather t ∧
            (weather t).answer ≠ none := by
        rw [hblocked]
        simp only [mem_targetsFor, and_assoc]
      rw [← hrefuses]
      constructor
      · rintro ⟨hagreed, -⟩
        by_cases herr : r.2.2 = none
        · refine .inr (.inr fun t ht hdeclares => ?_)
          have hmem := hagreed herr t ht hdeclares
          rw [hall herr, List.nil_append, List.mem_map] at hmem
          obtain ⟨s, hs, heq⟩ := hmem
          obtain rfl : s = t := (Prod.mk.inj heq).1
          simpa using (List.mem_filter.mp hs).2
        · exact .inr (.inl herr)
      · rintro (h | h | h)
        · exact absurd rfl h
        · exact ⟨fun herr => absurd herr h, by rwa [hmade]⟩
        · refine ⟨fun herr t ht hdeclares => ?_, by rwa [hmade]⟩
          have hclosed := h t ht hdeclares
          have hanswer : (weather t).answer = none := by
            by_contra hne
            exact hrefuses.mpr ⟨t, ht, hdeclares, hclosed, hne⟩ herr
          rw [hall herr, List.nil_append, List.mem_map]
          refine ⟨t, ?_, by rw [hanswer]⟩
          rw [List.mem_filter]
          exact ⟨mem_targetsFor.mpr ⟨ht, hdeclares⟩, by simpa using hclosed⟩

/-- One plugin that declares one event. -/
def guardTarget : Target := ⟨"acme/guard", "1.0.0", 1, "guard"⟩

def guardDispatcher : Dispatcher where
  cfg := Config.withDefaults ⟨0, 0, [], 0, 0⟩
  enabled := ⟨[guardTarget], by decide, by decide⟩
  unmarshal json := if json = "guard" then some ⟨["nginx.before_reload"], "sequential"⟩ else none

/-- The plugin refuses whatever it is asked. -/
def refusing (_ : Target) : CallWeather := ⟨1, some "blocked", false, 2, 1⟩

theorem guardDispatcher_strict : guardDispatcher.isStrict "nginx.before_reload" = true := by
  have hinfix : ".before_".toList <:+: "nginx.before_reload".toList :=
    ⟨"nginx".toList, "reload".toList, by decide⟩
  have hnone : guardDispatcher.cfg.strictEvents.lookup "nginx.before_reload" = none := rfl
  rw [Dispatcher.isStrict, hnone]
  exact decide_eq_true hinfix

theorem strict_gate_refusal :
    ∃ b result err, guardDispatcher.dispatch ⟨fun _ => .zero, []⟩ "nginx.before_reload" none
        refusing [] = some (b, result, err) ∧
      (Gate guardDispatcher "nginx.before_reload" b.asked err ↔
        (none : Option String) ≠ none ∨
          (∃ t ∈ guardDispatcher.enabled.targets,
            guardDispatcher.declaresHook t "nginx.before_reload" = true ∧
              ClosedFor guardDispatcher.cfg (fun _ => .zero) refusing t ∧
                (refusing t).answer ≠ none) ∨
          ∀ t ∈ guardDispatcher.enabled.targets,
            guardDispatcher.declaresHook t "nginx.before_reload" = true →
              ClosedFor guardDispatcher.cfg (fun _ => .zero) refusing t) :=
  strict_gate_iff guardDispatcher (fun _ => .zero) "nginx.before_reload" none refusing []
    guardDispatcher_strict

theorem guardDispatcher_targets :
    guardDispatcher.targetsFor "nginx.before_reload" = [guardTarget] := by
  have hfilter : guardDispatcher.enabled.targets.filter
      (guardDispatcher.declaresHook · "nginx.before_reload") = [guardTarget] := by decide
  have hperm := (arranged_sortTargets [guardTarget]).perm
  rw [Dispatcher.targetsFor, hfilter]
  exact List.perm_singleton.mp hperm

/-- After three failures the plugin is not asked, and the host goes on. -/
theorem open_breaker_passes_gate :
    guardDispatcher.isStrict "nginx.before_reload" = true ∧
      guardTarget ∈ guardDispatcher.enabled.targets ∧
      guardDispatcher.declaresHook guardTarget "nginx.before_reload" = true ∧
      ∃ b result, guardDispatcher.dispatch ⟨fun _ => ⟨3, some 0⟩, []⟩ "nginx.before_reload" none
          refusing [] = some (b, result, none) ∧ b.asked = [] := by
  refine ⟨guardDispatcher_strict, by decide, by decide, ?_⟩
  have hopen : (BreakerState.mk 3 (some 0)).OpenAt guardDispatcher.cfg 1 := by decide
  have hcall : Bus.callOne guardDispatcher.cfg ⟨fun _ => ⟨3, some 0⟩, []⟩ guardTarget
      (refusing guardTarget) = (⟨fun _ => ⟨3, some 0⟩, []⟩,
        skippedCall guardTarget (refusing guardTarget)) := callOne_of_open hopen
  rw [Dispatcher.dispatch]
  dsimp only
  rw [if_pos guardDispatcher_strict, Dispatcher.dispatchStrict, guardDispatcher_targets, strictLoop_cons, hcall]
  exact ⟨_, _, rfl, rfl⟩

end GoSite.Hookbus
