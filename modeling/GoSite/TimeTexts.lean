import GoSite.Rfc3339Times

/-!
# The order of time texts

`Time.String` writes the date and the clock of a time as its own zone shows them, and the
zone behind them. Texts are in the order of what the clocks show, whatever the instants are,
as long as the years have four digits.
-/
namespace GoSite.GoTimes
open GoStrings

/-- A time with the zone it is shown in: the seconds east of UTC and the zone's abbreviation.
A zone that `time.Parse` makes up has none. -/
structure ZonedTime where
  instant : ℤ
  offset : ℤ
  zone : Text
  deriving Repr, DecidableEq

/-- What the clock shows, as an instant in UTC. -/
def ZonedTime.clock (t : ZonedTime) : ℤ := t.instant + t.offset * 10 ^ 9

/-- `Time.UTC`. -/
def utc (instant : ℤ) : ZonedTime := ⟨instant, 0, "UTC".toList⟩

/-- The layout `-0700`. -/
def zoneDigits (offset : ℤ) : Text :=
  let zone := offset.tdiv 60
  (if zone < 0 then '-' else '+') :: (pad2 (zone.natAbs / 60) ++ pad2 (zone.natAbs % 60))

/-- The layout `-0700 MST`. A zone without an abbreviation is shown by its digits. -/
def ZonedTime.zoneText (t : ZonedTime) : Text :=
  zoneDigits t.offset ++ ' ' :: (if t.zone = [] then zoneDigits t.offset else t.zone)

/-- The layout `2006-01-02`, by the day. -/
def dateText (days : ℤ) : Text :=
  let (year, yday) := yearDay days
  let (month, day) := monthDay (isLeapYear year) yday
  yearText year ++ '-' :: (pad2 month ++ '-' :: pad2 day)

/-- The layout `15:04:05`, by the second of the day. -/
def clockText (clock : ℕ) : Text :=
  pad2 (clock / 3600) ++ ':' :: (pad2 (clock / 60 % 60) ++ ':' :: pad2 (clock % 60))

/-- `Time.String`. -/
def ZonedTime.string (t : ZonedTime) : Text :=
  dateText (t.clock / 10 ^ 9 / 86400) ++ ' ' :: (clockText (t.clock / 10 ^ 9 % 86400).toNat ++
    (fractionText (t.clock % 10 ^ 9).toNat ++ ' ' :: t.zoneText))

example : (⟨63839772000123000000, 7 * 3600, []⟩ : ZonedTime).string =
    "2024-01-02 13:00:00.123 +0700 +0700".toList := by decide

/-! ## Texts of one length -/

theorem append_lt_append_iff {p q s t : Text} (h : p.length = q.length) :
    p ++ s < q ++ t ↔ p < q ∨ p = q ∧ s < t := by
  induction p generalizing q with
  | nil =>
      obtain rfl := List.length_eq_zero_iff.mp h.symm
      simp
  | cons c p ih =>
      cases q with
      | nil => cases h
      | cons d q =>
          have hlength : p.length = q.length := by simpa using h
          rw [List.cons_append, List.cons_append, List.cons_lt_cons_iff, ih hlength,
            List.cons_lt_cons_iff, List.cons.injEq]
          tauto

theorem append_lt_append_of_lt {p q s t : Text} (h : p.length = q.length) (hlt : p < q) :
    p ++ s < q ++ t := (append_lt_append_iff h).mpr (.inl hlt)

theorem append_lt_append_of_eq {p s t : Text} (hlt : s < t) : p ++ s < p ++ t :=
  (append_lt_append_iff rfl).mpr (.inr ⟨rfl, hlt⟩)

theorem digitChar_lt : ∀ n < 10, ∀ m < n, Nat.digitChar m < Nat.digitChar n := by decide

theorem pad2_lt {m n : ℕ} (hn : n < 100) (h : m < n) : pad2 m < pad2 n := by
  rw [pad2, pad2, List.cons_lt_cons_iff]
  rcases Nat.lt_or_ge (m / 10) (n / 10) with htens | htens
  · exact .inl (digitChar_lt _ (by omega) _ htens)
  · have hsame : m / 10 = n / 10 := by omega
    rw [hsame, List.cons_lt_cons_iff]
    exact .inr ⟨rfl, .inl (digitChar_lt _ (by omega) _ (by omega))⟩

theorem pad4_lt {m n : ℕ} (hn : n < 10000) (h : m < n) : pad4 m < pad4 n := by
  rw [pad4, pad4]
  rcases Nat.lt_or_ge (m / 100) (n / 100) with hhigh | hhigh
  · exact append_lt_append_of_lt rfl (pad2_lt (by omega) hhigh)
  · have hsame : m / 100 = n / 100 := by omega
    rw [hsame]
    exact append_lt_append_of_eq (pad2_lt (by omega) (by omega))

theorem clockText_lt {a b : ℕ} (hb : b < 86400) (h : a < b) : clockText a < clockText b := by
  rw [clockText, clockText]
  rcases Nat.lt_or_ge (a / 3600) (b / 3600) with hhour | hhour
  · exact append_lt_append_of_lt rfl (pad2_lt (by omega) hhour)
  · have hsame : a / 3600 = b / 3600 := by omega
    rw [hsame]
    refine append_lt_append_of_eq (List.cons_lt_cons_iff.mpr (.inr ⟨rfl, ?_⟩))
    rcases Nat.lt_or_ge (a / 60 % 60) (b / 60 % 60) with hmin | hmin
    · exact append_lt_append_of_lt rfl (pad2_lt (by omega) hmin)
    · have hsame' : a / 60 % 60 = b / 60 % 60 := by omega
      rw [hsame']
      refine append_lt_append_of_eq (List.cons_lt_cons_iff.mpr (.inr ⟨rfl, ?_⟩))
      exact pad2_lt (by omega) (by omega)

/-! ## Dates -/

/-- Days of four-digit years. -/
def FourDigitDay (days : ℤ) : Prop := 0 ≤ (yearDay days).1 ∧ (yearDay days).1 < 10000

/-- The days of a year end before a later one begins. -/
theorem yearEnd_le {year later : ℤ} {yday : ℕ} (h : year < later)
    (hyday : yday < 365 + (if isLeapYear year then 1 else 0)) :
    365 * (year - 1) + (year - 1) / 4 - (year - 1) / 100 + (year - 1) / 400 + yday <
      365 * (later - 1) + (later - 1) / 4 - (later - 1) / 100 + (later - 1) / 400 := by
  have hleap : (if isLeapYear year = true then 1 else 0) ≤ 1 := by split_ifs <;> omega
  split_ifs at hyday with hleapYear
  · simp only [isLeapYear, decide_eq_true_eq] at hleapYear
    omega
  · omega

/-- The days of a year of four digits. -/
theorem fourDigitDay_of_year {year yday : ℕ} (hyear : year < 10000)
    (hyday : yday < 365 + (if isLeap year then 1 else 0)) :
    FourDigitDay (365 * ((year : ℤ) - 1) + ((year : ℤ) - 1) / 4 - ((year : ℤ) - 1) / 100 +
      ((year : ℤ) - 1) / 400 + yday) := by
  obtain ⟨days, hdays⟩ : ∃ days, days = 365 * ((year : ℤ) - 1) + ((year : ℤ) - 1) / 4 -
      ((year : ℤ) - 1) / 100 + ((year : ℤ) - 1) / 400 + yday := ⟨_, rfl⟩
  obtain ⟨year', yday', hyear'⟩ : ∃ year yday, yearDay days = (year, yday) := ⟨_, _, rfl⟩
  obtain ⟨hyday', hdays'⟩ := yearDay_spec _ hyear'
  rw [← isLeapYear_natCast] at hyday
  rw [← hdays, FourDigitDay, hyear']
  dsimp only
  constructor
  · by_contra hneg
    have hbefore := yearEnd_le (by omega : year' < year) hyday'
    omega
  · by_contra hwide
    have hafter := yearEnd_le (by omega : (year : ℤ) < year') hyday
    omega

/-- A later day is in a later year, or later in the same one. -/
theorem yearDay_lt {days later : ℤ} (h : days < later) :
    (yearDay days).1 < (yearDay later).1 ∨
      (yearDay days).1 = (yearDay later).1 ∧ (yearDay days).2 < (yearDay later).2 := by
  obtain ⟨year, yday, hyear⟩ : ∃ year yday, yearDay days = (year, yday) := ⟨_, _, rfl⟩
  obtain ⟨year', yday', hyear'⟩ : ∃ year yday, yearDay later = (year, yday) := ⟨_, _, rfl⟩
  obtain ⟨hyday, hdays⟩ := yearDay_spec _ hyear
  obtain ⟨hyday', hdays'⟩ := yearDay_spec _ hyear'
  rw [hyear, hyear']
  dsimp only
  rcases lt_trichotomy year year' with hlt | rfl | hgt
  · exact .inl hlt
  · exact .inr ⟨rfl, by omega⟩
  · have hend := yearEnd_le hgt hyday'
    omega

/-- A later day of a year is in a later month, or later in the same one. -/
theorem monthDay_lt {year yday later : ℕ}
    (hlater : later < 365 + (if isLeap year then 1 else 0)) (h : yday < later) :
    (monthDay (isLeap year) yday).1 < (monthDay (isLeap year) later).1 ∨
      (monthDay (isLeap year) yday).1 = (monthDay (isLeap year) later).1 ∧
        (monthDay (isLeap year) yday).2 < (monthDay (isLeap year) later).2 := by
  have hmonth : (monthDay (isLeap year) yday).1 ≤ (monthDay (isLeap year) later).1 := by
    refine Nat.succ_le_succ (List.Sublist.length_le ?_)
    refine List.monotone_filter_right _ fun n hn => ?_
    exact decide_eq_true ((of_decide_eq_true hn).trans h.le)
  have hspec := monthDay_spec (h.trans hlater)
  have hspec' := monthDay_spec hlater
  obtain ⟨month, day, hmd⟩ : ∃ month day, monthDay (isLeap year) yday = (month, day) := ⟨_, _, rfl⟩
  obtain ⟨month', day', hmd'⟩ : ∃ month day, monthDay (isLeap year) later = (month, day) :=
    ⟨_, _, rfl⟩
  rw [hmd, hmd'] at hmonth
  rw [hmd] at hspec
  rw [hmd'] at hspec'
  obtain ⟨-, ⟨hday, -⟩, hyday⟩ := hspec
  obtain ⟨-, ⟨hday', -⟩, hyday'⟩ := hspec'
  rw [hmd, hmd']
  dsimp only at hmonth ⊢
  rcases Nat.lt_or_ge month month' with hlt | hge
  · exact .inl hlt
  · obtain rfl := Nat.le_antisymm hmonth hge
    exact .inr ⟨rfl, by omega⟩

theorem yearText_natCast {year : ℕ} (h : year < 10000) : yearText year = pad4 year := by
  rw [yearText, if_neg (by omega), Int.natAbs_natCast, if_pos h]

/-- Date texts of four-digit years are in the order of the days. -/
theorem dateText_lt {days later : ℤ} (hdays : FourDigitDay days) (hlater : FourDigitDay later)
    (h : days < later) : (dateText days).length = (dateText later).length ∧
      dateText days < dateText later := by
  have hlt := yearDay_lt h
  obtain ⟨year, yday, hyear⟩ : ∃ year yday, yearDay days = (year, yday) := ⟨_, _, rfl⟩
  obtain ⟨year', yday', hyear'⟩ : ∃ year yday, yearDay later = (year, yday) := ⟨_, _, rfl⟩
  obtain ⟨hyday', -⟩ := yearDay_spec _ hyear'
  rw [FourDigitDay, hyear] at hdays
  rw [FourDigitDay, hyear'] at hlater
  rw [hyear, hyear'] at hlt
  dsimp only at hdays hlater hlt
  obtain ⟨m, rfl⟩ := Int.eq_ofNat_of_zero_le hdays.1
  obtain ⟨n, rfl⟩ := Int.eq_ofNat_of_zero_le hlater.1
  have hm : m < 10000 := Int.ofNat_lt.mp hdays.2
  have hn : n < 10000 := Int.ofNat_lt.mp hlater.2
  simp only [dateText, hyear, hyear', yearText_natCast hm, yearText_natCast hn, isLeapYear_natCast]
  refine ⟨rfl, ?_⟩
  rcases hlt with hlt | ⟨hsame, hlt⟩
  · exact append_lt_append_of_lt rfl (pad4_lt hn (Int.ofNat_lt.mp hlt))
  · obtain rfl := Int.ofNat_inj.mp hsame
    rw [isLeapYear_natCast] at hyday'
    refine append_lt_append_of_eq (List.cons_lt_cons_iff.mpr (.inr ⟨rfl, ?_⟩))
    have hmonthDay := monthDay_lt hyday' hlt
    have hspec := monthDay_spec hyday'
    obtain ⟨month, day, hmd⟩ : ∃ month day, monthDay (isLeap m) yday' = (month, day) := ⟨_, _, rfl⟩
    rw [hmd] at hspec hmonthDay
    obtain ⟨⟨-, hmonth⟩, ⟨-, hday⟩, -⟩ := hspec
    have hthirty := daysIn_le month m
    rw [hmd]
    dsimp only at hmonthDay ⊢
    rcases hmonthDay with hmonthLt | ⟨hmonthEq, hdayLt⟩
    · exact append_lt_append_of_lt rfl (pad2_lt (by omega) hmonthLt)
    · rw [hmonthEq]
      refine append_lt_append_of_eq (List.cons_lt_cons_iff.mpr (.inr ⟨rfl, ?_⟩))
      exact pad2_lt (by omega) hdayLt

/-! ## Fractions -/

theorem pad9_lt {m n : ℕ} (hn : n < 10 ^ 9) (h : m < n) : pad9 m < pad9 n := by
  rw [pad9, pad9, List.cons_lt_cons_iff]
  rcases Nat.lt_or_ge (m / 10 ^ 8) (n / 10 ^ 8) with hfirst | hfirst
  · exact .inl (digitChar_lt _ (by omega) _ hfirst)
  · have hsame : m / 10 ^ 8 = n / 10 ^ 8 := by omega
    rw [hsame]
    refine .inr ⟨rfl, ?_⟩
    rcases Nat.lt_or_ge (m / 10 ^ 4 % 10 ^ 4) (n / 10 ^ 4 % 10 ^ 4) with hmiddle | hmiddle
    · exact append_lt_append_of_lt rfl (pad4_lt (by omega) hmiddle)
    · have hsame' : m / 10 ^ 4 % 10 ^ 4 = n / 10 ^ 4 % 10 ^ 4 := by omega
      rw [hsame']
      exact append_lt_append_of_eq (pad4_lt (by omega) (by omega))

theorem rdropWhile_cons (p : Char → Bool) (c : Char) (cs : Text) :
    (c :: cs).rdropWhile p =
      if cs.rdropWhile p = [] ∧ p c = true then [] else c :: cs.rdropWhile p := by
  simp only [List.rdropWhile, List.reverse_cons, List.dropWhile_append, List.reverse_eq_nil_iff,
    List.isEmpty_iff]
  by_cases hrest : cs.reverse.dropWhile p = []
  · by_cases hc : p c = true
    · simp [hrest, hc]
    · simp [hrest, hc]
  · simp [hrest]

/-- Without the zeros at their ends, digits are in the same order when a blank follows. -/
theorem trimmed_lt {p q : Text} (hlength : p.length = q.length) (hdigits : ∀ c ∈ q, '0' ≤ c)
    (hp : ∀ c ∈ p, '0' ≤ c) (h : p < q) (s t : Text) :
    p.rdropWhile (· = '0') ++ ' ' :: s < q.rdropWhile (· = '0') ++ ' ' :: t ∧
      q.rdropWhile (· = '0') ≠ [] := by
  have hlow : ' ' < '0' := by decide
  have hblank : ∀ c : Char, '0' ≤ c → ' ' < c := fun c hc => lt_of_lt_of_le hlow hc
  induction p generalizing q s t with
  | nil =>
      obtain rfl := List.length_eq_zero_iff.mp hlength.symm
      exact absurd h (lt_irrefl _)
  | cons c p ih =>
      cases q with
      | nil => cases hlength
      | cons d q =>
          have hd := hdigits d List.mem_cons_self
          have hc := hp c List.mem_cons_self
          have hkept : ∀ {rest}, d :: rest ≠ ([] : Text) := List.cons_ne_nil _ _
          have hfirst : ∀ {x rest : Text}, (' ' :: x : Text) < d :: rest := by
            intro x rest
            exact List.cons_lt_cons_iff.mpr (.inl (hblank d hd))
          rcases List.cons_lt_cons_iff.mp h with hlt | ⟨rfl, hlt⟩
          · have hzero : ¬ decide (d = '0') = true := by
              rw [decide_eq_true_eq]
              rintro rfl
              exact absurd (lt_of_le_of_lt hc hlt) (lt_irrefl _)
            have hq : (d :: q).rdropWhile (· = '0') = d :: q.rdropWhile (· = '0') := by
              rw [rdropWhile_cons, if_neg fun hboth => hzero hboth.2]
            rw [hq, rdropWhile_cons]
            refine ⟨?_, hkept⟩
            split_ifs
            · exact hfirst
            · exact List.cons_lt_cons_iff.mpr (.inl hlt)
          · obtain ⟨hless, hne⟩ := ih (q := q) (by simpa using hlength)
              (fun e he => hdigits e (List.mem_cons_of_mem c he))
              (fun e he => hp e (List.mem_cons_of_mem c he)) hlt s t
            have hq : (c :: q).rdropWhile (· = '0') = c :: q.rdropWhile (· = '0') := by
              rw [rdropWhile_cons, if_neg fun hboth => hne hboth.1]
            rw [hq, rdropWhile_cons]
            refine ⟨?_, hkept⟩
            split_ifs
            · exact hfirst
            · exact List.cons_lt_cons_iff.mpr (.inr ⟨rfl, hless⟩)

/-- Fractions of a second are in order when a blank follows. -/
theorem fractionText_lt {m n : ℕ} (hn : n < 10 ^ 9) (h : m < n) (s t : Text) :
    fractionText m ++ ' ' :: s < fractionText n ++ ' ' :: t := by
  have hdigit : ∀ k < 10 ^ 9, ∀ c ∈ pad9 k, '0' ≤ c := by
    intro k hk c hc
    have hc := (pad9_spec hk).1 c hc
    simp only [Char.isDigit, Bool.and_eq_true, decide_eq_true_eq] at hc
    exact hc.1
  have hlength : (pad9 m).length = (pad9 n).length := rfl
  obtain ⟨hlt, hne⟩ :=
    trimmed_lt hlength (hdigit n hn) (hdigit m (h.trans hn)) (pad9_lt hn h) s t
  rw [fractionText, fractionText, if_neg hne]
  split_ifs
  · exact List.cons_lt_cons_iff.mpr (.inl (by decide))
  · exact List.cons_lt_cons_iff.mpr (.inr ⟨rfl, hlt⟩)

/-! ## Times -/

/-- The clock of the time shows a year of four digits. -/
def ZonedTime.FourDigits (t : ZonedTime) : Prop := FourDigitDay (t.clock / 10 ^ 9 / 86400)

theorem string_lt_of_clock_lt {a b : ZonedTime} (ha : a.FourDigits) (hb : b.FourDigits)
    (h : a.clock < b.clock) : a.string < b.string := by
  rw [ZonedTime.string, ZonedTime.string]
  rcases lt_or_ge (a.clock / 10 ^ 9 / 86400) (b.clock / 10 ^ 9 / 86400) with hday | hday
  · obtain ⟨hlength, hlt⟩ := dateText_lt ha hb hday
    exact append_lt_append_of_lt hlength hlt
  · have hsame : a.clock / 10 ^ 9 / 86400 = b.clock / 10 ^ 9 / 86400 := by omega
    rw [hsame]
    refine append_lt_append_of_eq (List.cons_lt_cons_iff.mpr (.inr ⟨rfl, ?_⟩))
    rcases lt_or_ge (a.clock / 10 ^ 9 % 86400).toNat (b.clock / 10 ^ 9 % 86400).toNat with
      hsec | hsec
    · exact append_lt_append_of_lt rfl (clockText_lt (by omega) hsec)
    · have hsame' : (a.clock / 10 ^ 9 % 86400).toNat = (b.clock / 10 ^ 9 % 86400).toNat := by omega
      rw [hsame']
      refine append_lt_append_of_eq ?_
      exact fractionText_lt (by omega) (by omega) _ _

theorem string_lt_iff_of_clock_eq {a b : ZonedTime} (h : a.clock = b.clock) :
    a.string < b.string ↔ a.zoneText < b.zoneText := by
  rw [ZonedTime.string, ZonedTime.string, h, append_lt_append_iff rfl, List.cons_lt_cons_iff,
    append_lt_append_iff rfl, append_lt_append_iff rfl, List.cons_lt_cons_iff]
  simp

/-- Texts of times are in the order of what the clocks show, and then of the zones. -/
theorem string_not_lt_iff {a b : ZonedTime} (ha : a.FourDigits) (hb : b.FourDigits) :
    ¬ b.string < a.string ↔
      a.clock < b.clock ∨ a.clock = b.clock ∧ ¬ b.zoneText < a.zoneText := by
  rcases lt_trichotomy a.clock b.clock with hlt | heq | hgt
  · refine iff_of_true ?_ (.inl hlt)
    exact fun hback => lt_asymm hback (string_lt_of_clock_lt ha hb hlt)
  · rw [string_lt_iff_of_clock_eq heq.symm]
    simp [heq]
  · refine iff_of_false (not_not.mpr (string_lt_of_clock_lt hb ha hgt)) ?_
    rintro (hlt | ⟨heq, -⟩)
    · exact lt_asymm hlt hgt
    · exact hgt.ne' heq

/-! ## Parsing -/

/-- `time.Parse(time.RFC3339, value)`. `localZone` looks up the offset and the
abbreviation of the local zone at an instant. -/
def parseRFC3339 (localZone : ℤ → ℤ × Text) (value : Text) : Option ZonedTime := do
  let (year, value) ← getYear value
  let value ← skipChar '-' value
  let (month, value) ← getnum value true
  if month < 1 ∨ 12 < month then none
  let value ← skipChar '-' value
  let (day, value) ← getnum value true
  let value ← skipChar 'T' value
  let (hour, value) ← getBelow 24 false value
  let value ← skipChar ':' value
  let (min, value) ← getBelow 60 true value
  let value ← skipChar ':' value
  let (sec, value) ← getBelow 60 true value
  let (nsec, value) := getFraction value
  let offset ← getZoneColon value
  if 1 ≤ day ∧ day ≤ daysIn month year then
    let instant := (date year month day hour min sec - offset) * 10 ^ 9 + nsec
    if value = ['Z'] then some (utc instant)
    else
      let (localOffset, zone) := localZone instant
      some ⟨instant, offset, if localOffset = offset then zone else []⟩
  else none

/-! ## The years of parsed times -/

theorem lt_of_digit? {c : Char} {n : ℕ} (h : digit? c = some n) : n < 10 := by
  unfold digit? at h
  split_ifs at h with hdigit
  have hle : c.toNat ≤ '9'.toNat := hdigit.2
  have hnine : '9'.toNat = 57 := rfl
  have hzero : '0'.toNat = 48 := rfl
  obtain rfl := Option.some.inj h
  omega

theorem lt_of_getYear {s rest : Text} {year : ℕ} (h : getYear s = some (year, rest)) :
    year < 10000 := by
  match s with
  | [] | [_] | [_, _] | [_, _, _] => cases h
  | a :: b :: c :: d :: s =>
      simp only [getYear, Option.bind_eq_bind, Option.bind_eq_some_iff, Option.some.injEq,
        Prod.mk.injEq] at h
      obtain ⟨a, ha, b, hb, c, hc, d, hd, rfl, -⟩ := h
      have ha := lt_of_digit? ha
      have hb := lt_of_digit? hb
      have hc := lt_of_digit? hc
      have hd := lt_of_digit? hd
      omega

theorem lt_of_getBelow {limit n : ℕ} {fixed : Bool} {s rest : Text}
    (h : getBelow limit fixed s = some (n, rest)) : n < limit := by
  simp only [getBelow, Option.bind_eq_bind, Option.bind_eq_some_iff] at h
  obtain ⟨⟨m, r⟩, -, h⟩ := h
  split_ifs at h with hlt
  cases h
  exact hlt

theorem foldl_addDigit_lt {digits : Text} (h : ∀ c ∈ digits, c.isDigit = true) (n : ℕ) :
    digits.foldl addDigit n < (n + 1) * 10 ^ digits.length := by
  induction digits generalizing n with
  | nil => simp
  | cons c digits ih =>
      rw [List.forall_mem_cons] at h
      have hc : addDigit n c ≤ n * 10 + 9 := by
        have hnine : c.toNat ≤ '9'.toNat := by
          have hdigit := h.1
          simp only [Char.isDigit, Bool.and_eq_true, decide_eq_true_eq] at hdigit
          exact hdigit.2
        have h9 : '9'.toNat = 57 := rfl
        have h0 : '0'.toNat = 48 := rfl
        simp only [addDigit]
        omega
      rw [List.foldl_cons, List.length_cons, pow_succ]
      calc digits.foldl addDigit (addDigit n c)
          < (addDigit n c + 1) * 10 ^ digits.length := ih h.2 _
        _ ≤ ((n + 1) * 10) * 10 ^ digits.length := Nat.mul_le_mul_right _ (by omega)
        _ = (n + 1) * (10 ^ digits.length * 10) := by ring

theorem getFraction_lt (s : Text) : (getFraction s).1 < 10 ^ 9 := by
  cases s with
  | nil => exact Nat.pow_pos (by decide)
  | cons c s =>
      rw [getFraction]
      dsimp only
      split_ifs
      · have hdigits : ∀ d ∈ (s.takeWhile Char.isDigit).take 9, d.isDigit = true :=
          fun d hd => List.mem_takeWhile_imp (List.mem_of_mem_take hd)
        have hlength : ((s.takeWhile Char.isDigit).take 9).length ≤ 9 := List.length_take_le ..
        generalize (s.takeWhile Char.isDigit).take 9 = kept at hdigits hlength
        have hlt : kept.foldl addDigit 0 < 10 ^ kept.length := by
          simpa using foldl_addDigit_lt hdigits 0
        calc kept.foldl addDigit 0 * 10 ^ (9 - kept.length)
            < 10 ^ kept.length * 10 ^ (9 - kept.length) :=
              Nat.mul_lt_mul_of_pos_right hlt (Nat.pow_pos (by decide))
          _ = 10 ^ 9 := by rw [← pow_add, Nat.add_sub_cancel' hlength]
      · exact Nat.pow_pos (by decide)

/-- A day of a month is before the end of its year. -/
theorem daysBefore_add_le {month day year : ℕ} (hmonth : 1 ≤ month ∧ month ≤ 12)
    (hday : day ≤ daysIn month year) :
    daysBefore month year + day ≤ 365 + (if isLeap year then 1 else 0) := by
  have hleap : ∀ m < 13, daysBefore m 2000 + daysIn m 2000 ≤ 366 := by decide
  have hcommon : ∀ m < 13, daysBefore m 2001 + daysIn m 2001 ≤ 365 := by decide
  cases hyear : isLeap year with
  | true =>
      have hsame := hyear.trans (by decide : true = isLeap 2000)
      have hbefore := hleap month (by omega)
      rw [daysIn_congr hsame] at hday
      rw [daysBefore_congr hsame, if_pos rfl]
      omega
  | false =>
      have hsame := hyear.trans (by decide : false = isLeap 2001)
      have hbefore := hcommon month (by omega)
      rw [daysIn_congr hsame] at hday
      rw [daysBefore_congr hsame, if_neg Bool.false_ne_true]
      omega

/-- The clock of a time that was parsed shows the year of the text. -/
theorem parseRFC3339_fourDigits {localZone : ℤ → ℤ × Text} {value : Text} {t : ZonedTime}
    (h : parseRFC3339 localZone value = some t) : t.FourDigits := by
  rw [parseRFC3339] at h
  obtain ⟨⟨year, v1⟩, hyear, h⟩ := Option.bind_eq_some_iff.mp h
  obtain ⟨v2, -, h⟩ := Option.bind_eq_some_iff.mp h
  obtain ⟨⟨month, v3⟩, -, h⟩ := Option.bind_eq_some_iff.mp h
  dsimp only at h
  split_ifs at h with hmonth
  · cases h
  obtain ⟨v4, -, h⟩ := Option.bind_eq_some_iff.mp h
  obtain ⟨⟨day, v5⟩, -, h⟩ := Option.bind_eq_some_iff.mp h
  obtain ⟨v6, -, h⟩ := Option.bind_eq_some_iff.mp h
  obtain ⟨⟨hour, v7⟩, hhour, h⟩ := Option.bind_eq_some_iff.mp h
  obtain ⟨v8, -, h⟩ := Option.bind_eq_some_iff.mp h
  obtain ⟨⟨min, v9⟩, hmin, h⟩ := Option.bind_eq_some_iff.mp h
  obtain ⟨v10, -, h⟩ := Option.bind_eq_some_iff.mp h
  obtain ⟨⟨sec, v11⟩, hsec, h⟩ := Option.bind_eq_some_iff.mp h
  obtain ⟨offset, hoffset, h⟩ := Option.bind_eq_some_iff.mp h
  have hyear := lt_of_getYear hyear
  have hhour := lt_of_getBelow hhour
  have hmin := lt_of_getBelow hmin
  have hsec := lt_of_getBelow hsec
  have hnsec := getFraction_lt v11
  have hclock : t.clock = date year month day hour min sec * 10 ^ 9 + (getFraction v11).1 ∧
      1 ≤ day ∧ day ≤ daysIn month year := by
    by_cases hday : 1 ≤ day ∧ day ≤ daysIn month year
    · by_cases hutc : (getFraction v11).2 = ['Z']
      · rw [if_pos hday, if_pos hutc] at h
        rw [hutc] at hoffset
        obtain rfl := Option.some.inj h
        obtain rfl := Option.some.inj hoffset
        refine ⟨?_, hday⟩
        simp [utc, ZonedTime.clock]
      · rw [if_pos hday, if_neg hutc] at h
        obtain rfl := Option.some.inj h
        refine ⟨?_, hday⟩
        rw [ZonedTime.clock]
        ring
    · rw [if_neg hday] at h
      cases h
  obtain ⟨hclock, hfirst, hlast⟩ := hclock
  have hdays := daysBefore_add_le (by omega) hlast
  have hfour := @fourDigitDay_of_year year (daysBefore month year + day - 1) hyear (by omega)
  rw [ZonedTime.FourDigits, hclock, date]
  convert hfour using 1
  push_cast [Nat.cast_sub]
  omega

end GoSite.GoTimes
