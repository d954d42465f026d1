import GoSite.StrictEvents

/-!
# The breaker of a target

A breaker has one counter and the time of the first failure it counted. A failure
later than one window after that time starts both anew, so failures that were counted
before are forgotten, though they are no older than a window.
-/
namespace GoSite.Hookbus

/-- The calls of one target, one after the other. -/
@[grind] def Bus.callAll (cfg : Config) (t : Target) :
    Bus → List CallWeather → Bus × List HookCallResult
  | b, [] => (b, [])
  | b, w :: ws =>
      let (b, call) := b.callOne cfg t w
      let (b, calls) := b.callAll cfg t ws
      (b, call :: calls)

/-- The breaker after a look at it that does not find it open. -/
def BreakerState.checked (cfg : Config) (state : BreakerState) : BreakerState :=
  if state.failures < cfg.breakerThreshold then state else .zero

section
variable {cfg : Config} {b : Bus} {t : Target} {w : CallWeather}

/-- A call that fails was made, and its failure is counted. -/
theorem callOne_of_error (h : (b.callOne cfg t w).2.status = .error) :
    ¬ (b.breakers t.key).OpenAt cfg w.checkedAt ∧
      (b.callOne cfg t w).1.breakers t.key =
        ((b.breakers t.key).checked cfg).failed cfg w.failedAt := by
  obtain ⟨hclosed, hanswer⟩ := callOne_error_iff.mp h
  obtain ⟨err, herr⟩ := Option.ne_none_iff_exists'.mp hanswer
  refine ⟨hclosed, ?_⟩
  have hchecked : (b.breakerOpen cfg t w.checkedAt).1.breakers t.key =
      (b.breakers t.key).checked cfg := by
    rw [Bus.breakerOpen, BreakerState.checked]
    split_ifs
    · rfl
    · exact Function.update_self _ _ _
  rw [callOne_of_closed hclosed, Bus.answered, herr, ← hchecked]
  exact Function.update_self _ _ _

theorem callOne_of_answer (hanswer : w.answer = none)
    (hclosed : ¬ (b.breakers t.key).OpenAt cfg w.checkedAt) :
    (b.callOne cfg t w).1.breakers t.key = .zero := by
  rw [callOne_of_closed hclosed, Bus.answered, hanswer]
  exact Function.update_self _ _ _

theorem callOne_skipped_iff :
    (b.callOne cfg t w).2.status = .skipped ↔ (b.breakers t.key).OpenAt cfg w.checkedAt := by
  by_cases h : (b.breakers t.key).OpenAt cfg w.checkedAt
  · rw [callOne_of_open h]
    simp [skippedCall, h]
  · rw [callOne_of_closed h, madeCall]
    cases w.answer <;> simp [h]

/-! ## What a breaker says -/

/-- A breaker counts failures from the time of one on. -/
def BreakerState.Counts (state : BreakerState) : Prop :=
  state = .zero ∨ 1 ≤ state.failures ∧ state.firstAt.isSome

theorem BreakerState.Counts.checked {state : BreakerState} (h : state.Counts) :
    (state.checked cfg).Counts := by
  rw [BreakerState.checked]
  split_ifs
  · exact h
  · exact .inl rfl

theorem BreakerState.Counts.failed {state : BreakerState} (h : state.Counts) (now : ℤ) :
    (state.failed cfg now).Counts := by
  refine .inr ?_
  rw [BreakerState.failed]
  cases hfirst : state.firstAt with
  | none => exact ⟨le_rfl, rfl⟩
  | some first =>
      rcases h with rfl | ⟨hpos, -⟩
      · cases hfirst
      · dsimp only
        split_ifs
        · exact ⟨le_rfl, rfl⟩
        · exact ⟨by omega, by rw [hfirst]; rfl⟩

theorem callOne_counts (h : (b.breakers t.key).Counts) :
    ((b.callOne cfg t w).1.breakers t.key).Counts := by
  by_cases hopen : (b.breakers t.key).OpenAt cfg w.checkedAt
  · rwa [callOne_of_open hopen]
  · cases hanswer : w.answer with
    | none =>
        rw [callOne_of_answer hanswer hopen]
        exact .inl rfl
    | some err =>
        have herror := callOne_error_iff.mpr ⟨hopen, by rw [hanswer]; simp⟩
        rw [(callOne_of_error herror).2]
        exact h.checked.failed _

theorem callAll_counts (ws : List CallWeather) {b : Bus} (h : (b.breakers t.key).Counts) :
    ((b.callAll cfg t ws).1.breakers t.key).Counts := by
  induction ws generalizing b with
  | nil => exact h
  | cons w ws ih => exact ih (callOne_counts h)

end

/-! ## Failures in a row -/

section
variable {cfg : Config} {t : Target}

/-- Failures within one window of the first one are counted with it. -/
theorem callAll_fresh {first : ℤ} (ws : List CallWeather) {b : Bus} {n : ℤ}
    (hstate : b.breakers t.key = ⟨n, some first⟩) (hfew : n + ws.length ≤ cfg.breakerThreshold)
    (hfailed : ∀ call ∈ (b.callAll cfg t ws).2, call.status = .error)
    (hwithin : ∀ w ∈ ws, w.failedAt - first ≤ cfg.breakerWindow) :
    (b.callAll cfg t ws).1.breakers t.key = ⟨n + ws.length, some first⟩ := by
  induction ws generalizing b n with
  | nil => simpa [Bus.callAll] using hstate
  | cons w ws ih =>
      obtain ⟨herror, hfailed⟩ := List.forall_mem_cons.mp hfailed
      obtain ⟨hw, hwithin⟩ := List.forall_mem_cons.mp hwithin
      rw [List.length_cons] at hfew ⊢
      have hstate' : (b.callOne cfg t w).1.breakers t.key = ⟨n + 1, some first⟩ := by
        rw [(callOne_of_error herror).2, hstate, BreakerState.checked, if_pos (by dsimp only; omega),
          BreakerState.failed]
        dsimp only
        rw [if_neg (not_lt.mpr hw)]
      have hrest := ih hstate' (by omega) hfailed hwithin
      rw [Bus.callAll]
      dsimp only
      rw [hrest]
      simp only [BreakerState.mk.injEq, and_true]
      omega

/-- A breaker that does not count what it has seen does not come to count it. -/
theorem callAll_miscounts (ws : List CallWeather) {b : Bus} {m : ℤ}
    (hlen : m + ws.length = cfg.breakerThreshold) (hm : 1 ≤ m)
    (hmiss : (b.breakers t.key).failures ≠ m)
    (hmax : (b.breakers t.key).failures ≤ cfg.breakerThreshold)
    (hfailed : ∀ call ∈ (b.callAll cfg t ws).2, call.status = .error) :
    ((b.callAll cfg t ws).1.breakers t.key).failures < cfg.breakerThreshold := by
  induction ws generalizing b m with
  | nil =>
      rw [List.length_nil] at hlen
      rw [Bus.callAll]
      dsimp only
      omega
  | cons w ws ih =>
      obtain ⟨herror, hfailed⟩ := List.forall_mem_cons.mp hfailed
      rw [List.length_cons] at hlen
      have hnext : ((b.callOne cfg t w).1.breakers t.key).failures = 1 ∨
          ((b.callOne cfg t w).1.breakers t.key).failures = (b.breakers t.key).failures + 1 ∧
            (b.breakers t.key).failures < cfg.breakerThreshold := by
        rw [(callOne_of_error herror).2, BreakerState.checked]
        split_ifs with hfew
        · rw [BreakerState.failed]
          cases (b.breakers t.key).firstAt with
          | none => exact .inl rfl
          | some since =>
              dsimp only
              split_ifs
              · exact .inl rfl
              · exact .inr ⟨rfl, hfew⟩
        · exact .inl rfl
      refine ih (m := m + 1) (by omega) (by omega) ?_ ?_ hfailed
      · show ((b.callOne cfg t w).1.breakers t.key).failures ≠ m + 1
        omega
      · show ((b.callOne cfg t w).1.breakers t.key).failures ≤ cfg.breakerThreshold
        omega

/-- The failures are counted from the first one on exactly when no earlier failure
has a window that covers it. -/
theorem callAll_open_iff {b : Bus} {first : CallWeather} {ws : List CallWeather} {now : ℤ}
    (hcounts : (b.breakers t.key).Counts) (hclock : first.checkedAt ≤ first.failedAt)
    (hlen : ((first :: ws).length : ℤ) = cfg.breakerThreshold)
    (hfailed : ∀ call ∈ (b.callAll cfg t (first :: ws)).2, call.status = .error)
    (hwithin : ∀ w ∈ ws, w.failedAt - first.failedAt ≤ cfg.breakerWindow)
    (hnow : now - first.failedAt ≤ cfg.breakerWindow) :
    ((b.callAll cfg t (first :: ws)).1.breakers t.key).OpenAt cfg now ↔
      ∀ since ∈ (b.breakers t.key).firstAt, cfg.breakerWindow < first.failedAt - since := by
  obtain ⟨herror, hfailed⟩ := List.forall_mem_cons.mp hfailed
  obtain ⟨hclosed, hstate⟩ := callOne_of_error herror
  rw [List.length_cons] at hlen
  constructor
  · intro hopen since hsince
    by_contra hcovered
    rw [not_lt] at hcovered
    refine absurd hopen.1 (not_le.mpr ?_)
    -- The first failure is counted together with one before it.
    have hfew : (b.breakers t.key).failures < cfg.breakerThreshold := by
      by_contra hmany
      exact hclosed ⟨not_lt.mp hmany, since, hsince, by omega⟩
    have hpos : 1 ≤ (b.breakers t.key).failures := by
      rcases hcounts with hzero | ⟨hpos, -⟩
      · rw [hzero] at hsince
        cases hsince
      · exact hpos
    rw [BreakerState.checked, if_pos hfew, BreakerState.failed, Option.mem_def.mp hsince] at hstate
    dsimp only at hstate
    rw [if_neg (not_lt.mpr hcovered)] at hstate
    have hnext := congrArg BreakerState.failures hstate
    dsimp only at hnext
    refine @callAll_miscounts _ _ ws (b.callOne cfg t first).1 1 (by omega) le_rfl ?_ ?_ hfailed
    · omega
    · omega
  · intro hfresh
    have hone : (b.callOne cfg t first).1.breakers t.key = ⟨1, some first.failedAt⟩ := by
      rw [hstate, BreakerState.checked]
      split_ifs
      · rw [BreakerState.failed]
        cases hsince : (b.breakers t.key).firstAt with
        | none => rfl
        | some since =>
            dsimp only
            rw [if_pos (hfresh since hsince)]
            rfl
      · rfl
    have hall := callAll_fresh ws hone (by omega) hfailed hwithin
    rw [Bus.callAll]
    dsimp only
    rw [hall]
    exact ⟨by dsimp only; omega, _, rfl, hnow⟩

end

/-- After as many failures in a row as the threshold says, all within one window, a
call within one window of the first of them is skipped exactly when the breaker had no
window before them that covers the first one. -/
theorem breaker_opens_iff (raw : Config) (t : Target) (history failures : List CallWeather)
    (first next : CallWeather) (hfirst : failures.head? = some first)
    (hclock : first.checkedAt ≤ first.failedAt)
    (hcount : (failures.length : ℤ) = raw.withDefaults.breakerThreshold)
    (hfailed : ∀ call ∈ (Bus.callAll raw.withDefaults t
        (Bus.callAll raw.withDefaults t ⟨fun _ => .zero, []⟩ history).1 failures).2,
      call.status = .error)
    (hwithin : ∀ v ∈ failures, ∀ w ∈ failures,
      w.failedAt - v.failedAt ≤ raw.withDefaults.breakerWindow)
    (hnext : next.checkedAt - first.failedAt ≤ raw.withDefaults.breakerWindow) :
    (Bus.callOne raw.withDefaults (Bus.callAll raw.withDefaults t
        (Bus.callAll raw.withDefaults t ⟨fun _ => .zero, []⟩ history).1 failures).1 t
        next).2.status = .skipped ↔
      ∀ since ∈ ((Bus.callAll raw.withDefaults t ⟨fun _ => .zero, []⟩ history).1.breakers
          t.key).firstAt,
        raw.withDefaults.breakerWindow < first.failedAt - since := by
  cases failures with
  | nil => cases hfirst
  | cons v ws =>
      obtain rfl : v = first := Option.some.inj hfirst
      rw [callOne_skipped_iff]
      refine callAll_open_iff (callAll_counts history (.inl rfl)) hclock hcount hfailed ?_ hnext
      exact fun w hw => hwithin v List.mem_cons_self w (List.mem_cons_of_mem _ hw)

/-- A call that fails at a time. -/
def failingAt (now : ℤ) : CallWeather := ⟨now, some "unreachable", false, now, 0⟩

/-- Three failures within a window of 300 open a breaker. -/
def shortWindow : Config := ⟨10, 5, [], 3, 300⟩

theorem breaker_opens_after_three :
    (Bus.callOne shortWindow.withDefaults (Bus.callAll shortWindow.withDefaults guardTarget
        (Bus.callAll shortWindow.withDefaults guardTarget ⟨fun _ => .zero, []⟩ []).1
        [failingAt 0, failingAt 10, failingAt 20]).1 guardTarget (failingAt 30)).2.status =
          .skipped ↔
      ∀ since ∈ ((Bus.callAll shortWindow.withDefaults guardTarget
          ⟨fun _ => .zero, []⟩ []).1.breakers guardTarget.key).firstAt,
        shortWindow.withDefaults.breakerWindow < (failingAt 0).failedAt - since :=
  breaker_opens_iff shortWindow guardTarget [] [failingAt 0, failingAt 10, failingAt 20]
    (failingAt 0) (failingAt 30) rfl (by decide) (by decide) (by decide) (by decide) (by decide)

/-- The three failures at 290, 310 and 320 follow one at 0, whose window ends between
them, and the call at 330 is made. -/
theorem breaker_forgets_failure :
    (∀ call ∈ (Bus.callAll shortWindow.withDefaults guardTarget
        (Bus.callAll shortWindow.withDefaults guardTarget ⟨fun _ => .zero, []⟩ [failingAt 0]).1
        [failingAt 290, failingAt 310, failingAt 320]).2, call.status = .error) ∧
      (330 : ℤ) - 290 ≤ shortWindow.withDefaults.breakerWindow ∧
      (Bus.callOne shortWindow.withDefaults (Bus.callAll shortWindow.withDefaults guardTarget
        (Bus.callAll shortWindow.withDefaults guardTarget ⟨fun _ => .zero, []⟩ [failingAt 0]).1
        [failingAt 290, failingAt 310, failingAt 320]).1 guardTarget (failingAt 330)).2.status =
          .error := by
  decide

end GoSite.Hookbus
