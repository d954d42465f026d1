import GoSite.Rfc3339Times

/-!
# Periods of the calendar

The fields of a local clock, and the minutes, hours, days and months that it passes. The
date tells the day, and the months are passed one after the other.
-/
namespace GoSite.GoTimes

/-- The day of a local clock, which counts nanoseconds from the beginning of the year one. -/
def dayNumber (t : ℤ) : ℤ := t / 10 ^ 9 / 86400

/-- `Time.Date`. -/
def dateOf (t : ℤ) : ℤ × ℕ × ℕ :=
  let (year, yday) := yearDay (dayNumber t)
  (year, monthDay (isLeapYear year) yday)

/-- `Time.Hour`. -/
def hourOf (t : ℤ) : ℤ := t / 10 ^ 9 % 86400 / 3600

/-- `Time.Minute`. -/
def minuteOf (t : ℤ) : ℤ := t / 10 ^ 9 % 3600 / 60

inductive CalendarUnit where
  | minute
  | hour
  | day
  | month
  deriving Repr, DecidableEq

/-- The number of the period that holds a time. -/
def CalendarUnit.period : CalendarUnit → ℤ → ℤ
  | .minute, t => t / 10 ^ 9 / 60
  | .hour, t => t / 10 ^ 9 / 3600
  | .day, t => dayNumber t
  | .month, t => (dateOf t).1 * 12 + (dateOf t).2.1

/-! ## Dates -/

/-- The month and the day of a day of the year, and what they say of it. -/
theorem monthDay_days {leap : Bool} {yday : ℕ} (h : yday < 365 + (if leap then 1 else 0)) :
    ∃ year, isLeap year = leap ∧
      (1 ≤ (monthDay leap yday).1 ∧ (monthDay leap yday).1 ≤ 12) ∧
      1 ≤ (monthDay leap yday).2 ∧
      daysBefore (monthDay leap yday).1 year + (monthDay leap yday).2 - 1 = yday := by
  obtain ⟨year, hyear⟩ : ∃ year, isLeap year = leap := by
    cases leap with
    | true => exact ⟨2000, by decide⟩
    | false => exact ⟨2001, by decide⟩
  subst hyear
  obtain ⟨hmonth, ⟨hday, -⟩, hsum⟩ := monthDay_spec h
  exact ⟨year, rfl, hmonth, hday, hsum⟩

theorem monthDay_injective {leap : Bool} {a b : ℕ} (ha : a < 365 + (if leap then 1 else 0))
    (hb : b < 365 + (if leap then 1 else 0)) (h : monthDay leap a = monthDay leap b) : a = b := by
  obtain ⟨year, hyear, -, -, hsum⟩ := monthDay_days ha
  obtain ⟨year', hyear', -, -, hsum'⟩ := monthDay_days hb
  rw [← h, daysBefore_congr (hyear'.trans hyear.symm)] at hsum'
  exact hsum.symm.trans hsum'

/-- Later days lie in the same month or in later ones. -/
theorem monthDay_mono (leap : Bool) {a b : ℕ} (h : a ≤ b) :
    (monthDay leap a).1 ≤ (monthDay leap b).1 := by
  have hpast : ∀ ends : List ℕ, (ends.filter (· ≤ a)).length ≤ (ends.filter (· ≤ b)).length := by
    intro ends
    refine (List.monotone_filter_right ends fun x hx => ?_).length_le
    rw [decide_eq_true_eq] at hx ⊢
    exact hx.trans h
  exact Nat.succ_le_succ (hpast _)

/-- The date tells the day. -/
theorem dateOf_eq_iff (a b : ℤ) : dateOf a = dateOf b ↔ dayNumber a = dayNumber b := by
  refine ⟨fun h => ?_, fun h => by rw [dateOf, dateOf, h]⟩
  rcases ha : yearDay (dayNumber a) with ⟨year, yday⟩
  rcases hb : yearDay (dayNumber b) with ⟨year', yday'⟩
  simp only [dateOf, ha, hb, Prod.mk.injEq] at h
  obtain ⟨rfl, hmonth⟩ := h
  obtain ⟨hbound, hdays⟩ := yearDay_spec _ ha
  obtain ⟨hbound', hdays'⟩ := yearDay_spec _ hb
  obtain rfl := monthDay_injective hbound hbound' hmonth
  exact hdays.symm.trans hdays'

/-- Later days lie in the same year or in later ones. -/
theorem yearDay_mono {a b year year' : ℤ} {yday yday' : ℕ} (h : a ≤ b)
    (ha : yearDay a = (year, yday)) (hb : yearDay b = (year', yday')) :
    year < year' ∨ year = year' ∧ yday ≤ yday' := by
  obtain ⟨hbound, hdays⟩ := yearDay_spec _ ha
  obtain ⟨hbound', hdays'⟩ := yearDay_spec _ hb
  rcases lt_trichotomy year year' with hlt | rfl | hgt
  · exact .inl hlt
  · exact .inr ⟨rfl, by omega⟩
  · -- a year has no more days than its number says
    exfalso
    have hnext : 365 * (year - 1) + (year - 1) / 4 - (year - 1) / 100 + (year - 1) / 400 ≤
        365 * (year' - 1) + (year' - 1) / 4 - (year' - 1) / 100 + (year' - 1) / 400 + yday' := by
      omega
    by_cases hleap : isLeapYear year' = true
    · rw [if_pos hleap] at hbound'
      simp only [isLeapYear, decide_eq_true_eq] at hleap
      omega
    · rw [if_neg hleap] at hbound'
      omega

theorem month_bounds (t : ℤ) : 1 ≤ (dateOf t).2.1 ∧ (dateOf t).2.1 ≤ 12 := by
  rcases h : yearDay (dayNumber t) with ⟨year, yday⟩
  obtain ⟨hbound, -⟩ := yearDay_spec _ h
  obtain ⟨-, -, hmonth, -⟩ := monthDay_days hbound
  simpa only [dateOf, h] using hmonth

/-- Two times are in one month when the date has the same month and year. -/
theorem period_month_eq_iff (a b : ℤ) :
    CalendarUnit.month.period a = CalendarUnit.month.period b ↔
      (dateOf a).2.1 = (dateOf b).2.1 ∧ (dateOf a).1 = (dateOf b).1 := by
  have ha := month_bounds a
  have hb := month_bounds b
  simp only [CalendarUnit.period]
  omega

theorem period_mono (unit : CalendarUnit) {a b : ℤ} (h : a ≤ b) :
    unit.period a ≤ unit.period b := by
  cases unit with
  | minute => simp only [CalendarUnit.period]; omega
  | hour => simp only [CalendarUnit.period]; omega
  | day => simp only [CalendarUnit.period, dayNumber]; omega
  | month =>
      have ha := month_bounds a
      have hb := month_bounds b
      have hday : dayNumber a ≤ dayNumber b := by
        simp only [dayNumber]
        omega
      rcases hya : yearDay (dayNumber a) with ⟨year, yday⟩
      rcases hyb : yearDay (dayNumber b) with ⟨year', yday'⟩
      simp only [CalendarUnit.period, dateOf, hya, hyb] at ha hb ⊢
      rcases yearDay_mono hday hya hyb with hlt | ⟨rfl, hle⟩
      · omega
      · have hmonth := monthDay_mono (isLeapYear year) hle
        omega

end GoSite.GoTimes
