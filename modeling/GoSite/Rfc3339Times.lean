import GoSite.GoTimes

/-!
# Times in RFC 3339

`time.Parse` and `Time.Format` in UTC with the layout `time.RFC3339Nano`. An
instant is the number of nanoseconds since the zero time, the beginning of the
year one. Every instant of a year of four digits is read back.
-/
namespace GoSite.GoTimes

open GoStrings

def isLeapYear (year : ℤ) : Bool := year % 4 = 0 ∧ (year % 100 ≠ 0 ∨ year % 400 = 0)

/-- The year of a day, and the day of the year counted from zero. Days are
counted from the beginning of the year one. -/
def yearDay (days : ℤ) : ℤ × ℕ :=
  let d := (days % 146097).toNat
  let n100 := min (d / 36524) 3
  let d := d - 36524 * n100
  let n4 := d / 1461
  let d := d - 1461 * n4
  let n1 := min (d / 365) 3
  (400 * (days / 146097) + 100 * n100 + 4 * n4 + n1 + 1, d - 365 * n1)

/-- The days of a year up to the end of each month. -/
def monthEnds (leap : Bool) : List ℕ :=
  if leap then [31, 60, 91, 121, 152, 182, 213, 244, 274, 305, 335, 366]
  else [31, 59, 90, 120, 151, 181, 212, 243, 273, 304, 334, 365]

/-- The month of a day of the year, and the day of the month, counted from one. -/
def monthDay (leap : Bool) (yday : ℕ) : ℕ × ℕ :=
  let past := ((monthEnds leap).filter (· ≤ yday)).length
  (past + 1, yday - (0 :: monthEnds leap).getD past 0 + 1)

/-- The year of an instant. -/
def yearOf (ts : ℤ) : ℤ := (yearDay (ts / 10 ^ 9 / 86400)).1

/-- `appendInt` with a width of four. -/
def yearText (year : ℤ) : Text :=
  let digits := if year.natAbs < 10000 then pad4 year.natAbs else Nat.toDigits 10 year.natAbs
  if year < 0 then '-' :: digits else digits

def pad9 (n : ℕ) : Text := Nat.digitChar (n / 10 ^ 8) :: (pad4 (n / 10 ^ 4 % 10 ^ 4) ++ pad4 (n % 10 ^ 4))

/-- The fraction of a second without zeros at its end. -/
def fractionText (nsec : ℕ) : Text :=
  let digits := (pad9 nsec).rdropWhile (· = '0')
  if digits = [] then [] else '.' :: digits

/-- A date, the seconds of its day and the nanoseconds of the second. -/
def rfc3339Text (year : ℤ) (month day clock nsec : ℕ) : Text :=
  yearText year ++ '-' :: (pad2 month ++ '-' :: (pad2 day ++ 'T' ::
    (pad2 (clock / 3600) ++ ':' :: (pad2 (clock / 60 % 60) ++ ':' ::
      (pad2 (clock % 60) ++ (fractionText nsec ++ ['Z']))))))

/-- `Time.UTC().Format(time.RFC3339Nano)`. -/
def formatRFC3339Nano (ts : ℤ) : Text :=
  let seconds := ts / 10 ^ 9
  let (year, yday) := yearDay (seconds / 86400)
  let (month, day) := monthDay (isLeapYear year) yday
  rfc3339Text year month day (seconds % 86400).toNat (ts % 10 ^ 9).toNat

/-- `Z`, or an offset in hours and minutes, in seconds. Nothing may follow it. -/
def getZoneColon : Text → Option ℤ
  | ['Z'] => some 0
  | [sign, h, h', ':', m, m'] => getZone [sign, h, h', m, m']
  | _ => none

/-- `time.Parse(time.RFC3339Nano, value)`. -/
def parseRFC3339Nano (value : Text) : Option ℤ := do
  let (year, value) ← getYear value
  let value ← skipChar '-' value
  let (month, value) ← getnum value true
  if month < 1 ∨ 12 < month then none
  let value ← skipChar '-' value
  let (day, value) ← getnum value true
  let value ← skipChar 'T' value
  let (hour, value) ← getBelow 24 false value
  let value ← skipChar ':' value
  let (min, value) ← getBelow 60 true value
  let value ← skipChar ':' value
  let (sec, value) ← getBelow 60 true value
  let (nsec, value) := getFraction value
  let offset ← getZoneColon value
  if 1 ≤ day ∧ day ≤ daysIn month year then
    some ((date year month day hour min sec - offset) * 10 ^ 9 + nsec)
  else none

/-! ## Days and years -/

/-- A day by the cycles of 400 years, the centuries, the cycles of four years and
the years that have passed. The last day of a leap year is that of its cycle. -/
theorem exists_cycles (days : ℤ) :
    ∃ (a : ℤ) (b c e yday : ℕ), yearDay days = (400 * a + 100 * b + 4 * c + e + 1, yday) ∧
      b ≤ 3 ∧ c ≤ 24 ∧ e ≤ 3 ∧ yday ≤ 365 ∧ (yday = 365 → e = 3 ∧ (c = 24 → b = 3)) ∧
      days = 146097 * a + 36524 * b + 1461 * c + 365 * e + yday := by
  obtain ⟨d, hd⟩ : ∃ d, d = (days % 146097).toNat := ⟨_, rfl⟩
  obtain ⟨b, hb⟩ : ∃ b, b = min (d / 36524) 3 := ⟨_, rfl⟩
  obtain ⟨c, hc⟩ : ∃ c, c = (d - 36524 * b) / 1461 := ⟨_, rfl⟩
  obtain ⟨e, he⟩ : ∃ e, e = min ((d - 36524 * b - 1461 * c) / 365) 3 := ⟨_, rfl⟩
  have hlt : d < 146097 := by omega
  have hdays : days = 146097 * (days / 146097) + d := by omega
  refine ⟨days / 146097, b, c, e, d - 36524 * b - 1461 * c - 365 * e, ?_, ?_, ?_, ?_, ?_, ?_, ?_⟩
  · simp only [yearDay, hd, hb, hc, he]
  · omega
  · omega
  · omega
  · omega
  · omega
  · omega

/-- The day lies in the year, and the year begins where its number says. -/
theorem yearDay_spec (days : ℤ) {year : ℤ} {yday : ℕ} (h : yearDay days = (year, yday)) :
    yday < 365 + (if isLeapYear year then 1 else 0) ∧
      365 * (year - 1) + (year - 1) / 4 - (year - 1) / 100 + (year - 1) / 400 + yday = days := by
  obtain ⟨a, b, c, e, n, hcycles, hb, hc, he, hn, hlast, hdays⟩ := exists_cycles days
  rw [hcycles] at h
  obtain ⟨rfl, rfl⟩ := Prod.mk.inj h
  constructor
  · by_cases hleap : isLeapYear (400 * a + 100 * b + 4 * c + e + 1) = true
    · rw [if_pos hleap]
      omega
    · rw [if_neg hleap]
      simp only [isLeapYear, decide_eq_true_eq] at hleap
      by_contra hlong
      obtain ⟨rfl, hcentury⟩ := hlast (by omega)
      omega
  · omega

theorem daysIn_congr {year year' : ℕ} (h : isLeap year = isLeap year') (month : ℕ) :
    daysIn month year = daysIn month year' := by
  simp only [daysIn, h]

theorem daysBefore_congr {year year' : ℕ} (h : isLeap year = isLeap year') (month : ℕ) :
    daysBefore month year = daysBefore month year' := by
  simp only [daysBefore, daysIn_congr h]

theorem isLeapYear_natCast (year : ℕ) : isLeapYear year = isLeap year := by
  rw [Bool.eq_iff_iff]
  simp only [isLeapYear, isLeap, decide_eq_true_eq]
  omega

/-- The month and day of a day of the year. -/
theorem monthDay_spec {year yday : ℕ} (h : yday < 365 + (if isLeap year then 1 else 0)) :
    let (month, day) := monthDay (isLeap year) yday
    (1 ≤ month ∧ month ≤ 12) ∧ (1 ≤ day ∧ day ≤ daysIn month year) ∧
      daysBefore month year + day - 1 = yday := by
  have hleap : ∀ yday < 366, ((1 ≤ (monthDay true yday).1 ∧ (monthDay true yday).1 ≤ 12) ∧
      (1 ≤ (monthDay true yday).2 ∧ (monthDay true yday).2 ≤ daysIn (monthDay true yday).1 2000) ∧
      daysBefore (monthDay true yday).1 2000 + (monthDay true yday).2 - 1 = yday) := by
    set_option maxRecDepth 20000 in
    decide
  have hcommon : ∀ yday < 365, ((1 ≤ (monthDay false yday).1 ∧ (monthDay false yday).1 ≤ 12) ∧
      (1 ≤ (monthDay false yday).2 ∧ (monthDay false yday).2 ≤ daysIn (monthDay false yday).1 2001) ∧
      daysBefore (monthDay false yday).1 2001 + (monthDay false yday).2 - 1 = yday) := by
    set_option maxRecDepth 20000 in
    decide
  cases hyear : isLeap year with
  | true =>
      rw [hyear] at h
      simp only [daysIn_congr (hyear.trans (by decide : true = isLeap 2000)),
        daysBefore_congr (hyear.trans (by decide : true = isLeap 2000))]
      exact hleap yday h
  | false =>
      rw [hyear] at h
      simp only [daysIn_congr (hyear.trans (by decide : false = isLeap 2001)),
        daysBefore_congr (hyear.trans (by decide : false = isLeap 2001))]
      exact hcommon yday h

/-! ## Fractions -/

/-- Read the next digit of a number. -/
def addDigit (n : ℕ) (d : Char) : ℕ := n * 10 + (d.toNat - '0'.toNat)

theorem digitChar_spec : ∀ d < 10, (Nat.digitChar d).isDigit = true ∧
    (Nat.digitChar d).toNat - '0'.toNat = d := by decide

theorem pad9_spec {n : ℕ} (h : n < 10 ^ 9) :
    (∀ c ∈ pad9 n, c.isDigit = true) ∧ (pad9 n).length = 9 ∧ (pad9 n).foldl addDigit 0 = n := by
  have hdigit := fun d hd => (digitChar_spec d hd).1
  have hvalue := fun d hd => (digitChar_spec d hd).2
  refine ⟨?_, rfl, ?_⟩
  · simp only [pad9, pad4, pad2, List.cons_append, List.nil_append, List.forall_mem_cons]
    refine ⟨hdigit _ (by omega), hdigit _ (by omega), hdigit _ (by omega), hdigit _ (by omega),
      hdigit _ (by omega), hdigit _ (by omega), hdigit _ (by omega), hdigit _ (by omega),
      hdigit _ (by omega), by simp⟩
  · simp (disch := omega) only [pad9, pad4, pad2, List.cons_append, List.nil_append,
      List.foldl_cons, List.foldl_nil, addDigit, hvalue]
    omega

theorem foldl_zeros {zeros : Text} (h : ∀ c ∈ zeros, c = '0') (n : ℕ) :
    zeros.foldl addDigit n = n * 10 ^ zeros.length := by
  induction zeros generalizing n with
  | nil => simp
  | cons c zeros ih =>
      rw [List.forall_mem_cons] at h
      have hzero : addDigit n '0' = n * 10 := rfl
      rw [List.foldl_cons, h.1, hzero, ih h.2, List.length_cons]
      ring

/-- The fraction of a second is read back. -/
theorem getFraction_fractionText {n : ℕ} (h : n < 10 ^ 9) :
    getFraction (fractionText n ++ ['Z']) = (n, ['Z']) := by
  obtain ⟨hdigits, hlength, hvalue⟩ := pad9_spec h
  have hsplit : (pad9 n).rdropWhile (· = '0') ++ (pad9 n).rtakeWhile (· = '0') = pad9 n :=
    List.rdropWhile_append_rtakeWhile ..
  have hzeros : ∀ c ∈ (pad9 n).rtakeWhile (· = '0'), c = '0' := by
    intro c hc
    simpa using List.mem_rtakeWhile_imp hc
  rw [fractionText]
  generalize (pad9 n).rdropWhile (· = '0') = kept at hsplit
  generalize (pad9 n).rtakeWhile (· = '0') = zeros at hsplit hzeros
  rw [← hsplit, List.foldl_append, foldl_zeros hzeros] at hvalue
  rw [← hsplit, List.length_append] at hlength
  have hkept : ∀ c ∈ kept, c.isDigit = true := by
    intro c hc
    exact hdigits c (hsplit ▸ List.mem_append_left _ hc)
  by_cases hnil : kept = []
  · subst hnil
    simp only [List.foldl_nil, zero_mul] at hvalue
    subst hvalue
    simp [getFraction]
  · have htake : (kept ++ ['Z']).takeWhile Char.isDigit = kept := by
      rw [List.takeWhile_append_of_pos hkept]
      simp
    have hdrop : (kept ++ ['Z']).dropWhile Char.isDigit = ['Z'] := by
      rw [List.dropWhile_append_of_pos hkept]
      simp
    have hfirst : kept.take 9 = kept := List.take_of_length_le (by omega)
    have hpow : 9 - kept.length = zeros.length := by omega
    simp only [if_neg hnil, List.cons_append, getFraction, htake, hdrop, hfirst, hpow]
    rw [if_pos (by simp [hnil])]
    exact Prod.ext hvalue rfl

/-! ## Reading times back -/

/-- After the first four digits of a longer year there is no dash. -/
theorem skipChar_of_getYear_wide {n : ℕ} (h : ¬ n < 10000) {rest value : Text} {year : ℕ}
    (hyear : getYear (Nat.toDigits 10 n ++ rest) = some (year, value)) :
    skipChar '-' value = none := by
  have hlength : ¬ (Nat.toDigits 10 n).length ≤ 4 := by
    rw [Nat.length_toDigits_le_iff (by decide) (by decide)]
    omega
  have hdigit : ∀ c ∈ Nat.toDigits 10 n, c.isDigit = true := fun c hc =>
    Nat.isDigit_of_mem_toDigits (by decide) (by decide) hc
  generalize Nat.toDigits 10 n = digits at *
  match digits with
  | [] | [_] | [_, _] | [_, _, _] | [_, _, _, _] => simp at hlength
  | a :: b :: c :: d :: e :: digits =>
      simp only [List.cons_append, getYear, Option.bind_eq_bind, Option.bind_eq_some_iff,
        Option.some.injEq, Prod.mk.injEq] at hyear
      obtain ⟨_, -, _, -, _, -, _, -, -, rfl⟩ := hyear
      rw [skipChar, if_neg]
      rintro rfl
      exact absurd (hdigit '-' (by simp)) (by decide)

theorem getYear_minus (digits rest : Text) : getYear ('-' :: digits ++ rest) = none := by
  have hdash : digit? '-' = none := by decide
  match digits, rest with
  | [], [] | [], [_] | [], [_, _] | [_], [] | [_], [_] | [_, _], [] => rfl
  | [], b :: c :: d :: rest => simp [getYear, hdash]
  | [b], c :: d :: rest => simp [getYear, hdash]
  | [b, c], d :: rest => simp [getYear, hdash]
  | b :: c :: d :: digits, rest => simp [getYear, hdash]

theorem parse_rfc3339Text {year month day clock nsec : ℕ} (hyear : year < 10000)
    (hmonth : 1 ≤ month ∧ month ≤ 12) (hday : 1 ≤ day ∧ day ≤ daysIn month year)
    (hclock : clock < 86400) (hnsec : nsec < 10 ^ 9) :
    parseRFC3339Nano (rfc3339Text year month day clock nsec) =
      some (date year month day (clock / 3600) (clock / 60 % 60) (clock % 60) * 10 ^ 9 + nsec) := by
  have hdayMax := daysIn_le month year
  have hyearText : yearText year = pad4 year := by simp [yearText, hyear]
  have hrange : ¬ (month < 1 ∨ 12 < month) := by omega
  have hmonthText := getnum_pad2 (by omega : month < 100) true
  have hdayText := getnum_pad2 (by omega : day < 100) true
  have hhour := getBelow_pad2 (by omega : clock / 3600 < 24) (by decide) false
  have hmin := getBelow_pad2 (by omega : clock / 60 % 60 < 60) (by decide) true
  have hsec := getBelow_pad2 (by omega : clock % 60 < 60) (by decide) true
  have hzone : getZoneColon ['Z'] = some 0 := rfl
  rw [rfc3339Text, hyearText]
  refine (bind_read (getYear_pad4 hyear _) _).trans <| (bind_read (skipChar_cons '-' _) _).trans <|
    (bind_read (hmonthText _) _).trans <| (if_neg hrange).trans <|
    (bind_read (skipChar_cons '-' _) _).trans <| (bind_read (hdayText _) _).trans <|
    (bind_read (skipChar_cons 'T' _) _).trans <| (bind_read (hhour _) _).trans <|
    (bind_read (skipChar_cons ':' _) _).trans <| (bind_read (hmin _) _).trans <|
    (bind_read (skipChar_cons ':' _) _).trans <| (bind_read (hsec _) _).trans ?_
  simp only [getFraction_fractionText hnsec]
  refine (bind_read hzone _).trans ?_
  rw [if_pos hday, sub_zero]

theorem parse_rfc3339Text_wide {year : ℤ} (hyear : ¬ (0 ≤ year ∧ year < 10000))
    (month day clock nsec : ℕ) : parseRFC3339Nano (rfc3339Text year month day clock nsec) = none := by
  rw [rfc3339Text, yearText, parseRFC3339Nano]
  by_cases hneg : year < 0
  · rw [if_pos hneg, getYear_minus]
    rfl
  · rw [if_neg hneg, if_neg (by omega)]
    generalize '-' :: _ = rest
    cases hread : getYear (Nat.toDigits 10 year.natAbs ++ rest) with
    | none => rfl
    | some read =>
        obtain ⟨n, value⟩ := read
        show (skipChar '-' value).bind _ = none
        rw [skipChar_of_getYear_wide (by omega) hread, Option.bind_none]

/-- A time is read back if its year has four digits, and not read otherwise. -/
theorem parseRFC3339Nano_format (ts : ℤ) :
    parseRFC3339Nano (formatRFC3339Nano ts) =
      if 0 ≤ yearOf ts ∧ yearOf ts < 10000 then some ts else none := by
  obtain ⟨year, yday, hyear⟩ : ∃ year yday, yearDay (ts / 10 ^ 9 / 86400) = (year, yday) := ⟨_, _, rfl⟩
  obtain ⟨month, day, hmd⟩ : ∃ month day, monthDay (isLeapYear year) yday = (month, day) := ⟨_, _, rfl⟩
  obtain ⟨hyday, hdays⟩ := yearDay_spec _ hyear
  have hof : yearOf ts = year := by rw [yearOf, hyear]
  have htext : formatRFC3339Nano ts =
      rfc3339Text year month day (ts / 10 ^ 9 % 86400).toNat (ts % 10 ^ 9).toNat := by
    simp only [formatRFC3339Nano, hyear, hmd]
  rw [hof, htext]
  split_ifs with hfour
  · obtain ⟨n, rfl⟩ := Int.eq_ofNat_of_zero_le hfour.1
    rw [isLeapYear_natCast] at hyday hmd
    have hmonthDay := monthDay_spec hyday
    rw [hmd] at hmonthDay
    obtain ⟨hmonth, hday, hbefore⟩ := hmonthDay
    rw [parse_rfc3339Text (by omega) hmonth hday (by omega) (by omega)]
    have hseconds : date n month day ((ts / 10 ^ 9 % 86400).toNat / 3600)
        ((ts / 10 ^ 9 % 86400).toNat / 60 % 60) ((ts / 10 ^ 9 % 86400).toNat % 60) =
          ts / 10 ^ 9 := by
      simp only [date]
      omega
    rw [hseconds]
    congr 1
    omega
  · exact parse_rfc3339Text_wide hfour month day _ _

example : formatRFC3339Nano 63839772000123000000 = "2024-01-02T06:00:00.123Z".toList := by
  decide

end GoSite.GoTimes
