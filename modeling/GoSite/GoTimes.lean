import GoSite.GoStrings

/-!
# Times of access logs

`time.Parse` of the Go standard library with the layout of the common log
format, `02/Jan/2006:15:04:05 -0700`, on code points, and the times the server
writes in that form.
-/
namespace GoSite.GoTimes

open GoStrings

abbrev Text := List Char

/-- An instant, counted from the beginning of the year one in UTC. -/
structure Time where
  sec : ℤ
  nsec : ℕ
  deriving Repr, DecidableEq

/-- `Time.IsZero`. -/
def Time.isZero (t : Time) : Bool := t.sec = 0 ∧ t.nsec = 0

def isLeap (year : ℕ) : Bool := year % 4 = 0 ∧ (year % 100 ≠ 0 ∨ year % 400 = 0)

/-- The days of a month, counted from one. -/
def daysIn (month year : ℕ) : ℕ :=
  if month = 2 ∧ isLeap year then 29
  else [31, 28, 31, 30, 31, 30, 31, 31, 30, 31, 30, 31].getD (month - 1) 0

/-- The days of the year before a month. -/
def daysBefore (month year : ℕ) : ℕ :=
  ((List.range (month - 1)).map fun m => daysIn (m + 1) year).sum

/-- `time.Date` in UTC, in seconds. -/
def date (year month day hour min sec : ℕ) : ℤ :=
  let past : ℤ := (year : ℤ) - 1
  let days : ℤ := 365 * past + past / 4 - past / 100 + past / 400 + daysBefore month year + day - 1
  days * 86400 + hour * 3600 + min * 60 + sec

/-- `getnum`: two digits, or one where the number is not fixed. -/
def getnum (s : Text) (fixed : Bool) : Option (ℕ × Text) :=
  match s with
  | [] => none
  | c :: rest =>
      match digit? c with
      | none => none
      | some n =>
          match rest with
          | [] => if fixed then none else some (n, [])
          | d :: tail =>
              match digit? d with
              | none => if fixed then none else some (n, d :: tail)
              | some m => some (n * 10 + m, tail)

/-- `skip` of one code point that is not a blank. -/
def skipChar (c : Char) : Text → Option Text
  | [] => none
  | d :: rest => if d = c then some rest else none

/-- `skip` of a blank: any number of them, and at least one unless nothing is left. -/
def skipBlank : Text → Option Text
  | [] => some []
  | d :: rest => if d = ' ' then some (rest.dropWhile (· = ' ')) else none

def shortMonthNames : List Text :=
  ["Jan".toList, "Feb".toList, "Mar".toList, "Apr".toList, "May".toList, "Jun".toList,
    "Jul".toList, "Aug".toList, "Sep".toList, "Oct".toList, "Nov".toList, "Dec".toList]

/-- `lookup` in the month names, without regard to case. -/
def lookupMonth (s : Text) : Option (ℕ × Text) :=
  let name := (s.take 3).map Char.toLower
  match shortMonthNames.findIdx? (fun m => m.map Char.toLower = name) with
  | none => none
  | some i => some (i + 1, s.drop 3)

/-- Four digits of a year. -/
def getYear : Text → Option (ℕ × Text)
  | a :: b :: c :: d :: rest => do
      let a ← digit? a
      let b ← digit? b
      let c ← digit? c
      let d ← digit? d
      some (((a * 10 + b) * 10 + c) * 10 + d, rest)
  | _ => none

/-- A number below a limit, as `time.Parse` reads the parts of the clock. -/
def getBelow (limit : ℕ) (fixed : Bool) (s : Text) : Option (ℕ × Text) := do
  let (n, rest) ← getnum s fixed
  if n < limit then some (n, rest) else none

/-- A fraction of a second that the layout does not name. -/
def getFraction : Text → ℕ × Text
  | [] => (0, [])
  | c :: rest =>
      let digits := rest.takeWhile Char.isDigit
      if (c = '.' ∨ c = ',') ∧ digits ≠ [] then
        let kept := digits.take 9
        let ns := kept.foldl (fun n d => n * 10 + (d.toNat - '0'.toNat)) 0
        (ns * 10 ^ (9 - kept.length), rest.dropWhile Char.isDigit)
      else (0, c :: rest)

/-- The zone offset, in seconds. Nothing may follow it. -/
def getZone : Text → Option ℤ
  | [sign, h, h', m, m'] => do
      let (hour, _) ← getnum [h, h'] true
      let (min, _) ← getnum [m, m'] true
      if hour ≤ 24 ∧ min ≤ 60 then
        let offset : ℤ := (hour * 60 + min) * 60
        if sign = '+' then some offset else if sign = '-' then some (-offset) else none
      else none
  | _ => none

/-- `time.Parse("02/Jan/2006:15:04:05 -0700", value)`. -/
def parseTime (value : Text) : Option Time := do
  let (day, value) ← getnum value true
  let value ← skipChar '/' value
  let (month, value) ← lookupMonth value
  let value ← skipChar '/' value
  let (year, value) ← getYear value
  let value ← skipChar ':' value
  let (hour, value) ← getBelow 24 false value
  let value ← skipChar ':' value
  let (min, value) ← getBelow 60 true value
  let value ← skipChar ':' value
  let (sec, value) ← getBelow 60 true value
  let (nsec, value) := getFraction value
  let value ← skipBlank value
  let offset ← getZone value
  if 1 ≤ day ∧ day ≤ daysIn month year then
    some ⟨date year month day hour min sec - offset, nsec⟩
  else none

/-- A time as the server's clock gives it, with its zone. -/
structure LocalTime where
  year : ℕ
  month : ℕ
  day : ℕ
  hour : ℕ
  min : ℕ
  sec : ℕ
  west : Bool
  zoneHour : ℕ
  zoneMin : ℕ
  year_mem : 1970 ≤ year ∧ year < 10000
  month_mem : 1 ≤ month ∧ month ≤ 12
  day_mem : 1 ≤ day ∧ day ≤ daysIn month year
  clock_lt : hour < 24 ∧ min < 60 ∧ sec < 60
  zone_lt : zoneHour < 24 ∧ zoneMin < 60

/-- `%02d`. -/
def pad2 (n : ℕ) : Text := [Nat.digitChar (n / 10), Nat.digitChar (n % 10)]

/-- `%d` of a year of four digits. -/
def pad4 (n : ℕ) : Text := pad2 (n / 100) ++ pad2 (n % 100)

/-- `$time_local`. -/
def LocalTime.toText (t : LocalTime) : Text :=
  pad2 t.day ++ '/' :: (shortMonthNames.getD (t.month - 1) [] ++ '/' :: (pad4 t.year ++ ':' ::
    (pad2 t.hour ++ ':' :: (pad2 t.min ++ ':' :: (pad2 t.sec ++ ' ' ::
      (if t.west then '-' else '+') :: (pad2 t.zoneHour ++ pad2 t.zoneMin))))))

/-- The instant the clock shows. -/
def LocalTime.instant (t : LocalTime) : Time :=
  let offset : ℤ := (t.zoneHour * 60 + t.zoneMin) * 60
  ⟨date t.year t.month t.day t.hour t.min t.sec - (if t.west then -offset else offset), 0⟩

theorem getnum_pad2 {n : ℕ} (h : n < 100) (fixed : Bool) (rest : Text) :
    getnum (pad2 n ++ rest) fixed = some (n, rest) := by
  have hn : n / 10 * 10 + n % 10 = n := by omega
  simp only [pad2, List.cons_append, List.nil_append, getnum, digit?_digitChar (n / 10) (by omega),
    digit?_digitChar (n % 10) (by omega), hn]

theorem getBelow_pad2 {n limit : ℕ} (h : n < limit) (hlimit : limit ≤ 100) (fixed : Bool)
    (rest : Text) : getBelow limit fixed (pad2 n ++ rest) = some (n, rest) := by
  simp [getBelow, getnum_pad2 (by omega : n < 100), h]

theorem getYear_pad4 {n : ℕ} (h : n < 10000) (rest : Text) :
    getYear (pad4 n ++ rest) = some (n, rest) := by
  have hn : ((n / 100 / 10 * 10 + n / 100 % 10) * 10 + n % 100 / 10) * 10 + n % 100 % 10 = n := by
    omega
  simp only [pad4, pad2, List.cons_append, List.nil_append, getYear,
    digit?_digitChar (n / 100 / 10) (by omega), digit?_digitChar (n / 100 % 10) (by omega),
    digit?_digitChar (n % 100 / 10) (by omega), digit?_digitChar (n % 100 % 10) (by omega),
    Option.bind_eq_bind, Option.bind_some, hn]

@[simp] theorem skipChar_cons (c : Char) (rest : Text) : skipChar c (c :: rest) = some rest := by
  simp [skipChar]

theorem lookupMonth_name {month : ℕ} (h : 1 ≤ month ∧ month ≤ 12) (rest : Text) :
    lookupMonth (shortMonthNames.getD (month - 1) [] ++ rest) = some (month, rest) := by
  obtain ⟨hfirst, hlast⟩ := h
  interval_cases month <;> rfl

theorem daysIn_le (month year : ℕ) : daysIn month year ≤ 31 := by
  unfold daysIn
  split_ifs
  · omega
  · by_cases hmonth : month - 1 < 12
    · generalize month - 1 = m at hmonth
      interval_cases m <;> decide
    · rw [List.getD_eq_getElem?_getD, List.getElem?_eq_none (by simpa using hmonth)]
      exact Nat.zero_le _

theorem getZone_pad2 (west : Bool) {h m : ℕ} (hh : h < 24) (hm : m < 60) :
    getZone ((if west then '-' else '+') :: (pad2 h ++ pad2 m)) =
      some (if west then -((h * 60 + m) * 60 : ℤ) else ((h * 60 + m) * 60 : ℤ)) := by
  have hhour := getnum_pad2 (by omega : h < 100) true []
  have hmin := getnum_pad2 (by omega : m < 100) true []
  rw [List.append_nil] at hhour hmin
  have hrange : h ≤ 24 ∧ m ≤ 60 := by omega
  have hlist : ∀ sign, getZone (sign :: (pad2 h ++ pad2 m)) =
      if sign = '+' then some ((h * 60 + m) * 60 : ℤ)
      else if sign = '-' then some (-((h * 60 + m) * 60 : ℤ)) else none := by
    intro sign
    unfold pad2 at hhour hmin
    simp only [pad2, List.cons_append, List.nil_append, getZone, hhour, hmin,
      Option.bind_eq_bind, Option.bind_some, if_pos hrange]
  rw [hlist]
  cases west <;> simp

theorem skipBlank_sign (west : Bool) (rest : Text) :
    skipBlank (' ' :: (if west then '-' else '+') :: rest) =
      some ((if west then '-' else '+') :: rest) := by
  cases west <;> simp [skipBlank]

theorem bind_read {α β : Type} {read : Option α} {a : α} (h : read = some a) (f : α → Option β) :
    read >>= f = f a := by
  rw [h]
  rfl

/-- What the parser answers, from what it read part by part. -/
theorem parseTime_of_parts {value v1 v2 v3 v4 v5 v6 v7 v8 v9 v10 v11 v12 v13 : Text}
    {day month year hour min sec nsec : ℕ} {offset : ℤ} (hday : getnum value true = some (day, v1))
    (h1 : skipChar '/' v1 = some v2) (hmonth : lookupMonth v2 = some (month, v3))
    (h2 : skipChar '/' v3 = some v4) (hyear : getYear v4 = some (year, v5))
    (h3 : skipChar ':' v5 = some v6) (hhour : getBelow 24 false v6 = some (hour, v7))
    (h4 : skipChar ':' v7 = some v8) (hmin : getBelow 60 true v8 = some (min, v9))
    (h5 : skipChar ':' v9 = some v10) (hsec : getBelow 60 true v10 = some (sec, v11))
    (hfraction : getFraction v11 = (nsec, v12)) (h6 : skipBlank v12 = some v13)
    (hzone : getZone v13 = some offset) :
    parseTime value = if 1 ≤ day ∧ day ≤ daysIn month year then
      some ⟨date year month day hour min sec - offset, nsec⟩ else none := by
  refine (bind_read hday _).trans <| (bind_read h1 _).trans <| (bind_read hmonth _).trans <|
    (bind_read h2 _).trans <| (bind_read hyear _).trans <| (bind_read h3 _).trans <|
    (bind_read hhour _).trans <| (bind_read h4 _).trans <| (bind_read hmin _).trans <|
    (bind_read h5 _).trans <| (bind_read hsec _).trans ?_
  simp only [hfraction]
  exact (bind_read h6 _).trans (bind_read hzone _)

/-- A time the server writes is read back. -/
theorem parseTime_toText (t : LocalTime) : parseTime t.toText = some t.instant := by
  have hday : t.day < 100 := by
    have hmax := daysIn_le t.month t.year
    have hmem := t.day_mem
    omega
  have hfraction : ∀ rest, getFraction (' ' :: rest) = (0, ' ' :: rest) := by
    intro rest
    simp [getFraction]
  rw [LocalTime.toText, parseTime_of_parts (getnum_pad2 hday true _) (skipChar_cons '/' _)
    (lookupMonth_name t.month_mem _) (skipChar_cons '/' _) (getYear_pad4 t.year_mem.2 _)
    (skipChar_cons ':' _) (getBelow_pad2 t.clock_lt.1 (by decide) false _) (skipChar_cons ':' _)
    (getBelow_pad2 t.clock_lt.2.1 (by decide) true _) (skipChar_cons ':' _)
    (getBelow_pad2 t.clock_lt.2.2 (by decide) true _) (hfraction _) (skipBlank_sign t.west _)
    (getZone_pad2 t.west t.zone_lt.1 t.zone_lt.2), if_pos t.day_mem]
  rfl

/-- The server's clock never shows the zero time. -/
theorem LocalTime.instant_not_zero (t : LocalTime) : t.instant.isZero = false := by
  have hyear := t.year_mem.1
  have hzone := t.zone_lt
  have hday := t.day_mem.1
  have hsec : 0 < t.instant.sec := by
    simp only [LocalTime.instant, date]
    split_ifs <;> omega
  have hne : t.instant.sec ≠ 0 := by omega
  simp [Time.isZero, hne]

/-- What a reader took from the text has no quote. -/
def Reads (s rest : Text) : Prop := ∃ pre, s = pre ++ rest ∧ '"' ∉ pre

theorem Reads.trans {s t u : Text} (h : Reads s t) (h' : Reads t u) : Reads s u := by
  obtain ⟨pre, rfl, hpre⟩ := h
  obtain ⟨more, rfl, hmore⟩ := h'
  exact ⟨pre ++ more, (List.append_assoc ..).symm, by simp [hpre, hmore]⟩

theorem ne_quote_of_digit? {c : Char} {n : ℕ} (h : digit? c = some n) : c ≠ '"' := by
  rintro rfl
  cases h

theorem reads_getnum {s rest : Text} {fixed : Bool} {n : ℕ} (h : getnum s fixed = some (n, rest)) :
    Reads s rest := by
  cases s with
  | nil => cases h
  | cons c s =>
      cases hc : digit? c with
      | none => simp [getnum, hc] at h
      | some a =>
          have hne := ne_quote_of_digit? hc
          cases s with
          | nil =>
              simp only [getnum, hc] at h
              split_ifs at h
              cases h
              exact ⟨[c], rfl, by simp [hne.symm]⟩
          | cons d s =>
              cases hd : digit? d with
              | none =>
                  simp only [getnum, hc, hd] at h
                  split_ifs at h
                  cases h
                  exact ⟨[c], rfl, by simp [hne.symm]⟩
              | some b =>
                  simp only [getnum, hc, hd] at h
                  cases h
                  exact ⟨[c, d], rfl, by simp [hne.symm, (ne_quote_of_digit? hd).symm]⟩

theorem reads_skipChar {c : Char} (hc : c ≠ '"') {s rest : Text} (h : skipChar c s = some rest) :
    Reads s rest := by
  cases s with
  | nil => cases h
  | cons d s =>
      rw [skipChar] at h
      split_ifs at h with hd
      cases h
      exact ⟨[d], rfl, by simp [hd, hc.symm]⟩

theorem reads_lookupMonth {s rest : Text} {month : ℕ} (h : lookupMonth s = some (month, rest)) :
    Reads s rest := by
  have hnames : ∀ m ∈ shortMonthNames, '"' ∉ m.map Char.toLower := by decide
  simp only [lookupMonth] at h
  split at h
  · cases h
  · next i hfind =>
    cases h
    obtain ⟨hi, hname, -⟩ := List.findIdx?_eq_some_iff_getElem.mp hfind
    refine ⟨s.take 3, (List.take_append_drop 3 s).symm, fun hm => ?_⟩
    have hlower : '"' ∈ (s.take 3).map Char.toLower := List.mem_map.mpr ⟨'"', hm, rfl⟩
    rw [← of_decide_eq_true hname] at hlower
    exact hnames _ (List.getElem_mem hi) hlower

theorem reads_getYear {s rest : Text} {year : ℕ} (h : getYear s = some (year, rest)) :
    Reads s rest := by
  match s with
  | [] | [_] | [_, _] | [_, _, _] => cases h
  | a :: b :: c :: d :: s =>
      simp only [getYear, Option.bind_eq_bind, Option.bind_eq_some_iff, Option.some.injEq,
        Prod.mk.injEq] at h
      obtain ⟨_, ha, _, hb, _, hc, _, hd, -, rfl⟩ := h
      refine ⟨[a, b, c, d], rfl, ?_⟩
      simp [(ne_quote_of_digit? ha).symm, (ne_quote_of_digit? hb).symm,
        (ne_quote_of_digit? hc).symm, (ne_quote_of_digit? hd).symm]

theorem reads_getBelow {limit n : ℕ} {fixed : Bool} {s rest : Text}
    (h : getBelow limit fixed s = some (n, rest)) : Reads s rest := by
  simp only [getBelow, Option.bind_eq_bind, Option.bind_eq_some_iff] at h
  obtain ⟨⟨m, r⟩, hnum, h⟩ := h
  split_ifs at h
  cases h
  exact reads_getnum hnum

theorem reads_takeWhile {p : Char → Bool} (hp : p '"' = false) (s : Text) :
    Reads s (s.dropWhile p) := by
  refine ⟨s.takeWhile p, (List.takeWhile_append_dropWhile ..).symm, fun hm => ?_⟩
  have hquote := List.mem_takeWhile_imp hm
  rw [hp] at hquote
  cases hquote

theorem reads_getFraction (s : Text) : Reads s (getFraction s).2 := by
  cases s with
  | nil => exact ⟨[], rfl, by simp⟩
  | cons c s =>
      simp only [getFraction]
      split_ifs with h
      · have hc : c ≠ '"' := by
          rintro rfl
          exact absurd h.1 (by decide)
        exact Reads.trans ⟨[c], rfl, by simp [hc.symm]⟩ (reads_takeWhile (by decide) s)
      · exact ⟨[], rfl, by simp⟩

theorem reads_skipBlank {s rest : Text} (h : skipBlank s = some rest) : Reads s rest := by
  cases s with
  | nil =>
      cases h
      exact ⟨[], rfl, by simp⟩
  | cons d s =>
      rw [skipBlank] at h
      split_ifs at h with hd
      cases h
      exact Reads.trans ⟨[d], rfl, by simp [hd]⟩ (reads_takeWhile (by decide) s)

theorem quote_not_mem_of_getZone {s : Text} {offset : ℤ} (h : getZone s = some offset) :
    '"' ∉ s := by
  match s with
  | [] | [_] | [_, _] | [_, _, _] | [_, _, _, _] => cases h
  | _ :: _ :: _ :: _ :: _ :: _ :: _ => cases h
  | [sign, a, b, c, d] =>
      simp only [getZone, Option.bind_eq_bind, Option.bind_eq_some_iff] at h
      obtain ⟨⟨hour, r⟩, hhour, ⟨min, r'⟩, hmin, h⟩ := h
      have htwo : ∀ {x y : Char} {n : ℕ} {r : Text}, getnum [x, y] true = some (n, r) →
          x ≠ '"' ∧ y ≠ '"' := by
        intro x y n r hnum
        cases hx : digit? x with
        | none => simp [getnum, hx] at hnum
        | some m =>
            cases hy : digit? y with
            | none => simp [getnum, hx, hy] at hnum
            | some k => exact ⟨ne_quote_of_digit? hx, ne_quote_of_digit? hy⟩
      have hsign : sign ≠ '"' := by
        rintro rfl
        simp at h
      have h1 := htwo hhour
      have h2 := htwo hmin
      simp [hsign.symm, h1.1.symm, h1.2.symm, h2.1.symm, h2.2.symm]

/-- A text with a quote is no time. -/
theorem quote_not_mem_of_parseTime {s : Text} {t : Time} (h : parseTime s = some t) : '"' ∉ s := by
  rw [parseTime] at h
  obtain ⟨⟨day, v1⟩, h1, h⟩ := Option.bind_eq_some_iff.mp h
  obtain ⟨v2, h2, h⟩ := Option.bind_eq_some_iff.mp h
  obtain ⟨⟨month, v3⟩, h3, h⟩ := Option.bind_eq_some_iff.mp h
  obtain ⟨v4, h4, h⟩ := Option.bind_eq_some_iff.mp h
  obtain ⟨⟨year, v5⟩, h5, h⟩ := Option.bind_eq_some_iff.mp h
  obtain ⟨v6, h6, h⟩ := Option.bind_eq_some_iff.mp h
  obtain ⟨⟨hour, v7⟩, h7, h⟩ := Option.bind_eq_some_iff.mp h
  obtain ⟨v8, h8, h⟩ := Option.bind_eq_some_iff.mp h
  obtain ⟨⟨min, v9⟩, h9, h⟩ := Option.bind_eq_some_iff.mp h
  obtain ⟨v10, h10, h⟩ := Option.bind_eq_some_iff.mp h
  obtain ⟨⟨sec, v11⟩, h11, h⟩ := Option.bind_eq_some_iff.mp h
  obtain ⟨v12, h12, h⟩ := Option.bind_eq_some_iff.mp h
  obtain ⟨offset, h13, -⟩ := Option.bind_eq_some_iff.mp h
  have hreads : Reads s v12 :=
    (reads_getnum h1).trans <| (reads_skipChar (by decide) h2).trans <|
      (reads_lookupMonth h3).trans <| (reads_skipChar (by decide) h4).trans <|
        (reads_getYear h5).trans <| (reads_skipChar (by decide) h6).trans <|
          (reads_getBelow h7).trans <| (reads_skipChar (by decide) h8).trans <|
            (reads_getBelow h9).trans <| (reads_skipChar (by decide) h10).trans <|
              (reads_getBelow h11).trans <| (reads_getFraction v11).trans (reads_skipBlank h12)
  obtain ⟨pre, rfl, hpre⟩ := hreads
  simp [hpre, quote_not_mem_of_getZone h13]

end GoSite.GoTimes
