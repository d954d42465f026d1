import GoSite.CalendarPeriods

/-!
# The cron scheduler

At each tick the scheduler enqueues the jobs of which a period has ended since the tick
before. The tick is the next one's reference, whether or not its calls have succeeded.
-/
namespace GoSite.Cron
open GoStrings GoTimes

/-- `RunEveryMinute` and the other constants. -/
def unitText : CalendarUnit → Text
  | .minute => "min".toList
  | .hour => "hour".toList
  | .day => "day".toList
  | .month => "month".toList

def sameClockDay (a b : ℤ) : Bool := dateOf a = dateOf b

/-- `ShouldRun`. `toLower` is `unicode.ToLower`. -/
def shouldRun (toLower : Char → Char) (prev now : ℤ) (runEvery : Text) : Bool :=
  let every := (trimSpaceChars runEvery).map toLower
  if every = unitText .minute then minuteOf prev ≠ minuteOf now ∨ ¬ sameClockDay prev now
  else if every = unitText .hour then hourOf prev ≠ hourOf now ∨ ¬ sameClockDay prev now
  else if every = unitText .day then ¬ sameClockDay prev now
  else if every = unitText .month then
    (dateOf prev).2.1 ≠ (dateOf now).2.1 ∨ (dateOf prev).1 ≠ (dateOf now).1
  else false

/-- The columns of a job that the scheduler reads. -/
structure CronJob where
  id : ℕ
  name : Text
  payload : Text
  runEvery : Text
  deriving Repr, DecidableEq

/-- A tick, and what the repositories answer at it. A failure of `touch` is logged only. -/
structure Tick where
  now : ℤ
  list : Except Text (List CronJob)
  create : CronJob → Except Text ℕ
  touch : CronJob → Option Text

/-- A run that is given to the worker. -/
structure Enqueued where
  now : ℤ
  job : CronJob
  run : ℕ
  deriving Repr, DecidableEq

section
variable (toLower : Char → Char)

/-- One tick. -/
def tickRuns (prev : ℤ) (t : Tick) : List Enqueued :=
  match t.list with
  | .error _ => []
  | .ok jobs => jobs.filterMap fun job =>
      if shouldRun toLower prev t.now job.runEvery then
        match t.create job with
        | .error _ => none
        | .ok run => some ⟨t.now, job, run⟩
      else none

/-- `runCronScheduler`, from the time of its start. -/
@[grind] def runCronScheduler : ℤ → List Tick → List Enqueued
  | _, [] => []
  | prev, t :: ticks => tickRuns toLower prev t ++ runCronScheduler t.now ticks

end

/-- The row of the job is in every list. -/
def Tick.Lists (t : Tick) (job : CronJob) : Prop :=
  ∀ jobs, t.list = .ok jobs → jobs.filter (·.id = job.id) = [job]

/-- The calls that enqueue the job do not fail. -/
def Tick.Enqueues (t : Tick) (job : CronJob) : Prop :=
  t.list.isOk = true ∧ (t.create job).isOk = true

instance (t : Tick) (job : CronJob) : Decidable (t.Enqueues job) :=
  inferInstanceAs (Decidable (_ ∧ _))

/-- The repository calls for the job do not fail. -/
def Tick.Succeeds (t : Tick) (job : CronJob) : Prop := t.Enqueues job ∧ t.touch job = none

instance (t : Tick) (job : CronJob) : Decidable (t.Succeeds job) :=
  inferInstanceAs (Decidable (_ ∧ _))

/-- How often the job is enqueued in a period. -/
def runsIn (unit : CalendarUnit) (job : CronJob) (period : ℤ) (runs : List Enqueued) : ℕ :=
  runs.countP fun e => e.job.id = job.id ∧ unit.period e.now = period

/-- The first tick in a period, with the time before it. -/
@[grind] def firstIn (unit : CalendarUnit) (period : ℤ) : ℤ → List Tick → Option (ℤ × Tick)
  | _, [] => none
  | prev, t :: ticks =>
      if unit.period t.now = period then some (prev, t) else firstIn unit period t.now ticks

/-- The minute has the number that the last one had, in another hour of the day. -/
def MinuteRepeats (unit : CalendarUnit) (prev now : ℤ) : Prop :=
  unit = .minute ∧ minuteOf prev = minuteOf now ∧ hourOf prev ≠ hourOf now ∧
    dateOf prev = dateOf now

instance (unit : CalendarUnit) (prev now : ℤ) : Decidable (MinuteRepeats unit prev now) := by
  unfold MinuteRepeats
  infer_instance

/-- In each period that begins after the start and has a tick of which the calls succeed, the
job is enqueued once. -/
def OncePerPeriod (toLower : Char → Char) (unit : CalendarUnit) (job : CronJob) (start : ℤ)
    (ticks : List Tick) : Prop :=
  ∀ period, unit.period start < period →
    (∃ t ∈ ticks, unit.period t.now = period ∧ t.Succeeds job) →
      runsIn unit job period (runCronScheduler toLower start ticks) = 1

/-- The first tick of each such period can enqueue the job, and is not seen as one of the
minute before it. -/
def FirstTicksRun (unit : CalendarUnit) (job : CronJob) (start : ℤ) (ticks : List Tick) : Prop :=
  ∀ period, unit.period start < period →
    (∃ t ∈ ticks, unit.period t.now = period ∧ t.Succeeds job) →
      ∀ prev t, firstIn unit period start ticks = some (prev, t) →
        t.Enqueues job ∧ ¬ MinuteRepeats unit prev t.now

/-! ## One tick -/

theorem period_hour_eq_iff (a b : ℤ) :
    CalendarUnit.hour.period a = CalendarUnit.hour.period b ↔
      hourOf a = hourOf b ∧ dayNumber a = dayNumber b := by
  simp only [CalendarUnit.period, hourOf, dayNumber]
  omega

theorem period_minute_eq_iff (a b : ℤ) :
    CalendarUnit.minute.period a = CalendarUnit.minute.period b ↔
      minuteOf a = minuteOf b ∧ hourOf a = hourOf b ∧ dayNumber a = dayNumber b := by
  simp only [CalendarUnit.period, minuteOf, hourOf, dayNumber]
  omega

/-- `ShouldRun` sees the end of a period, but for a minute that repeats. -/
theorem shouldRun_iff {toLower : Char → Char} {unit : CalendarUnit} {runEvery : Text}
    (h : (trimSpaceChars runEvery).map toLower = unitText unit) (prev now : ℤ) :
    shouldRun toLower prev now runEvery = true ↔
      unit.period prev ≠ unit.period now ∧ ¬ MinuteRepeats unit prev now := by
  have hday : sameClockDay prev now = true ↔ dayNumber prev = dayNumber now := by
    rw [sameClockDay, decide_eq_true_eq, dateOf_eq_iff]
  cases unit with
  | minute =>
      rw [shouldRun, h, if_pos rfl, decide_eq_true_eq, hday]
      simp only [ne_eq, period_minute_eq_iff, MinuteRepeats, dateOf_eq_iff]
      tauto
  | hour =>
      rw [shouldRun, h, if_neg (by decide), if_pos rfl, decide_eq_true_eq, hday]
      simp only [ne_eq, period_hour_eq_iff, MinuteRepeats, reduceCtorEq, false_and,
        not_false_eq_true, and_true]
      tauto
  | day =>
      rw [shouldRun, h, if_neg (by decide), if_neg (by decide), if_pos rfl, decide_eq_true_eq, hday,
        MinuteRepeats]
      simp [CalendarUnit.period]
  | month =>
      rw [shouldRun, h, if_neg (by decide), if_neg (by decide), if_neg (by decide), if_pos rfl,
        decide_eq_true_eq]
      simp only [ne_eq, period_month_eq_iff, MinuteRepeats, reduceCtorEq, false_and,
        not_false_eq_true, and_true]
      tauto

/-- What one tick adds for the job. -/
theorem runsIn_tick (toLower : Char → Char) (unit : CalendarUnit) {job : CronJob} {t : Tick}
    (h : t.Lists job) (period prev : ℤ) :
    runsIn unit job period (tickRuns toLower prev t) =
      if unit.period t.now = period ∧ shouldRun toLower prev t.now job.runEvery ∧ t.Enqueues job
      then 1 else 0 := by
  rw [runsIn, tickRuns]
  cases hlist : t.list with
  | error err =>
      have hnot : ¬ t.Enqueues job := by
        rw [Tick.Enqueues, hlist]
        rintro ⟨hok, -⟩
        cases hok
      rw [if_neg fun h => hnot h.2.2]
      rfl
  | ok jobs =>
      have henqueues : t.Enqueues job ↔ (t.create job).isOk = true := by
        rw [Tick.Enqueues, hlist]
        exact and_iff_right rfl
      have hpred : ∀ job' : CronJob, (((if shouldRun toLower prev t.now job'.runEvery = true then
            match t.create job' with
            | .error _ => none
            | .ok run => some (Enqueued.mk t.now job' run)
          else none).map fun e => decide (e.job.id = job.id ∧ unit.period e.now = period)).getD
            false) =
          ((decide (unit.period t.now = period ∧ shouldRun toLower prev t.now job'.runEvery = true ∧
            (t.create job').isOk = true)) && decide (job'.id = job.id)) := by
        intro job'
        split_ifs with hrun
        · cases t.create job' with
          | error err => simp [Except.isOk, Except.toBool]
          | ok run => simp [hrun, Except.isOk, Except.toBool, Bool.and_comm]
        · simp [hrun]
      dsimp only
      rw [List.countP_filterMap]
      simp only [hpred]
      rw [← List.countP_filter, h jobs hlist, List.countP_singleton]
      simp only [decide_eq_true_eq, henqueues]

/-! ## All ticks -/

section
variable {toLower : Char → Char} {unit : CalendarUnit} {job : CronJob} {period : ℤ}

theorem runsIn_append (runs runs' : List Enqueued) :
    runsIn unit job period (runs ++ runs') =
      runsIn unit job period runs + runsIn unit job period runs' := List.countP_append

/-- Times that do not decrease, as one list. -/
def Ordered (start : ℤ) (ticks : List Tick) : Prop :=
  (start :: ticks.map Tick.now).Pairwise (· ≤ ·)

instance (start : ℤ) (ticks : List Tick) : Decidable (Ordered start ticks) :=
  inferInstanceAs (Decidable (List.Pairwise _ _))

theorem Ordered.cons {start : ℤ} {t : Tick} {ticks : List Tick} (h : Ordered start (t :: ticks)) :
    start ≤ t.now ∧ Ordered t.now ticks := by
  obtain ⟨hstart, hrest⟩ := List.pairwise_cons.mp h
  exact ⟨hstart _ List.mem_cons_self, hrest⟩

theorem Ordered.le {start : ℤ} {ticks : List Tick} (h : Ordered start ticks) :
    ∀ t ∈ ticks, start ≤ t.now := fun _ ht =>
  (List.pairwise_cons.mp h).1 _ (List.mem_map_of_mem ht)

/-- In a period that has begun nothing is enqueued. -/
theorem runsIn_begun (hunit : (trimSpaceChars job.runEvery).map toLower = unitText unit)
    {start : ℤ} {ticks : List Tick} (hordered : Ordered start ticks)
    (hlists : ∀ t ∈ ticks, t.Lists job) (hbegun : period ≤ unit.period start) :
    runsIn unit job period (runCronScheduler toLower start ticks) = 0 := by
  induction ticks generalizing start with
  | nil => rfl
  | cons t ticks ih =>
      obtain ⟨hle, hrest⟩ := hordered.cons
      obtain ⟨hlist, hlists⟩ := List.forall_mem_cons.mp hlists
      have hmono := period_mono unit hle
      rw [runCronScheduler, runsIn_append, runsIn_tick toLower unit hlist,
        ih hrest hlists (hbegun.trans hmono), if_neg]
      rintro ⟨hperiod, hrun, -⟩
      exact ((shouldRun_iff hunit _ _).mp hrun).1 (by omega)

/-- What is enqueued in a period to come is up to its first tick. -/
theorem runsIn_coming (hunit : (trimSpaceChars job.runEvery).map toLower = unitText unit)
    {start : ℤ} {ticks : List Tick} (hordered : Ordered start ticks)
    (hlists : ∀ t ∈ ticks, t.Lists job) (hcoming : unit.period start < period) :
    runsIn unit job period (runCronScheduler toLower start ticks) =
      match firstIn unit period start ticks with
      | none => 0
      | some (prev, t) => if t.Enqueues job ∧ ¬ MinuteRepeats unit prev t.now then 1 else 0 := by
  induction ticks generalizing start with
  | nil => rfl
  | cons t ticks ih =>
      obtain ⟨hle, hrest⟩ := hordered.cons
      obtain ⟨hlist, hlists⟩ := List.forall_mem_cons.mp hlists
      have hmono := period_mono unit hle
      rw [runCronScheduler, runsIn_append, runsIn_tick toLower unit hlist, firstIn]
      by_cases hperiod : unit.period t.now = period
      · have hcrossed : unit.period start ≠ unit.period t.now := by omega
        rw [runsIn_begun hunit hrest hlists hperiod.ge, if_pos hperiod, Nat.add_zero]
        refine if_congr ?_ rfl rfl
        rw [shouldRun_iff hunit, and_iff_right hperiod, and_iff_right hcrossed, and_comm]
      · rw [if_neg fun h => hperiod h.1, if_neg hperiod, Nat.zero_add]
        by_cases hlater : unit.period t.now < period
        · exact ih hrest hlists hlater
        · -- the period has been passed over
          have hnone : ∀ (prev : ℤ) (ticks : List Tick), (∀ t' ∈ ticks, t.now ≤ t'.now) →
              firstIn unit period prev ticks = none := by
            intro prev ticks
            induction ticks generalizing prev with
            | nil => exact fun _ => rfl
            | cons t' ticks ih' =>
                intro hafter
                obtain ⟨hnow, hafter⟩ := List.forall_mem_cons.mp hafter
                have hmono' := period_mono unit hnow
                rw [firstIn, if_neg (by omega)]
                exact ih' _ hafter
          rw [hnone _ _ hrest.le, runsIn_begun hunit hrest hlists (by omega)]

theorem firstIn_isSome {start : ℤ} {ticks : List Tick}
    (h : ∃ t ∈ ticks, unit.period t.now = period) : (firstIn unit period start ticks).isSome := by
  induction ticks generalizing start with
  | nil =>
      obtain ⟨t, ht, -⟩ := h
      cases ht
  | cons t ticks ih =>
      rw [firstIn]
      split_ifs with hperiod
      · rfl
      · refine ih ?_
        obtain ⟨t', ht', hperiod'⟩ := h
        rcases List.mem_cons.mp ht' with rfl | hmem
        · exact absurd hperiod' hperiod
        · exact ⟨t', hmem, hperiod'⟩

end

/-- `ShouldRun` tells whether two times lie in different periods exactly when no minute
repeats, and a job runs once in each period exactly when the first ticks can run it. -/
theorem cron_once_per_period_iff (toLower : Char → Char) (unit : CalendarUnit) (job : CronJob)
    (start : ℤ) (ticks : List Tick)
    (hunit : (trimSpaceChars job.runEvery).map toLower = unitText unit)
    (hordered : Ordered start ticks) (hlists : ∀ t ∈ ticks, t.Lists job) :
    (∀ prev now, (shouldRun toLower prev now job.runEvery = true ↔
        unit.period prev ≠ unit.period now) ↔ ¬ MinuteRepeats unit prev now) ∧
      (OncePerPeriod toLower unit job start ticks ↔ FirstTicksRun unit job start ticks) := by
  refine ⟨fun prev now => ?_, ?_⟩
  · rw [shouldRun_iff hunit]
    have hdiffer : MinuteRepeats unit prev now → unit.period prev ≠ unit.period now := by
      rintro ⟨rfl, -, hhour, -⟩ hsame
      exact hhour ((period_minute_eq_iff prev now).mp hsame).2.1
    tauto
  · unfold OncePerPeriod FirstTicksRun
    refine forall_congr' fun period => forall_congr' fun hcoming => forall_congr' fun hticks => ?_
    have hsome : (firstIn unit period start ticks).isSome := by
      obtain ⟨t, ht, hperiod, -⟩ := hticks
      exact firstIn_isSome ⟨t, ht, hperiod⟩
    obtain ⟨⟨prev, t⟩, hfirst⟩ := Option.isSome_iff_exists.mp hsome
    rw [runsIn_coming hunit hordered hlists hcoming, hfirst]
    dsimp only
    constructor
    · intro hone prev' t' heq
      obtain ⟨rfl, rfl⟩ := Prod.mk.inj (Option.some.inj heq)
      by_contra hnot
      rw [if_neg hnot] at hone
      cases hone
    · intro h
      exact if_pos (h prev t rfl)

/-- A job of every minute. -/
def minuteJob : CronJob := ⟨1, "tidy".toList, "true".toList, "min".toList⟩

/-- A tick at this second, at which all goes well. -/
def calmTick (second : ℤ) : Tick :=
  ⟨second * 10 ^ 9, .ok [minuteJob], fun _ => .ok 1, fun _ => none⟩

theorem minuteJob_unit : (trimSpaceChars minuteJob.runEvery).map Char.toLower =
    unitText .minute := by decide

theorem calmTick_lists (second : ℤ) : (calmTick second).Lists minuteJob := by
  intro jobs hjobs
  obtain rfl := Except.ok.inj hjobs
  decide

/-- Two ticks in the minute after the start. -/
theorem cron_once_per_period_minute :
    OncePerPeriod Char.toLower .minute minuteJob 0 [calmTick 60, calmTick 65] := by
  refine (cron_once_per_period_iff Char.toLower .minute minuteJob 0 [calmTick 60, calmTick 65]
    minuteJob_unit (by decide) ?_).2.mpr ?_
  · intro t ht
    simp only [List.mem_cons, List.not_mem_nil, or_false] at ht
    rcases ht with rfl | rfl <;> exact calmTick_lists _
  · rintro period - ⟨t, ht, rfl, -⟩ prev t' hfirst
    have hperiod : CalendarUnit.minute.period t.now = 1 := by
      simp only [List.mem_cons, List.not_mem_nil, or_false] at ht
      rcases ht with rfl | rfl <;> decide
    have hfound : firstIn .minute 1 0 [calmTick 60, calmTick 65] = some (0, calmTick 60) := rfl
    rw [hperiod, hfound] at hfirst
    obtain ⟨rfl, rfl⟩ := Prod.mk.inj (Option.some.inj hfirst)
    exact ⟨by decide, by decide⟩

/-- An hour after the start the same minute comes again, and nothing is enqueued. -/
theorem repeated_minute_not_run :
    ¬ OncePerPeriod Char.toLower .minute minuteJob 0 [calmTick 3600] := by
  intro h
  have hone := h 60 (by decide) ⟨calmTick 3600, List.mem_cons_self, by decide, by decide⟩
  have hnone : runsIn .minute minuteJob 60 (runCronScheduler Char.toLower 0 [calmTick 3600]) =
      0 := by decide
  rw [hnone] at hone
  cases hone

end GoSite.Cron
