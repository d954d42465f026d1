import GoSite.EventIds

/-!
# Which events an id tells apart

The time of an id is written to the nanosecond, and no two instants are written alike. Of
the message an id keeps no more than 64 bytes, and of the site nothing, so that the lines of
one second that begin alike share an id.
-/
namespace GoSite.GoTimes
open GoStrings

/-- What is before the first of an element, and what is after it. -/
theorem eq_of_append_cons_eq {α : Type*} {x : α} {p q s t : List α} (hp : x ∉ p) (hq : x ∉ q)
    (h : p ++ x :: s = q ++ x :: t) : p = q ∧ s = t := by
  induction p generalizing q with
  | nil =>
      cases q with
      | nil => exact ⟨rfl, (List.cons.inj h).2⟩
      | cons y q => exact absurd (List.cons.inj h).1 (List.ne_of_not_mem_cons hq)
  | cons y p ih =>
      cases q with
      | nil => exact absurd (List.cons.inj h).1.symm (List.ne_of_not_mem_cons hp)
      | cons z q =>
          obtain ⟨rfl, hrest⟩ := List.cons.inj h
          obtain ⟨rfl, rfl⟩ := ih (List.not_mem_of_not_mem_cons hp)
            (List.not_mem_of_not_mem_cons hq) hrest
          exact ⟨rfl, rfl⟩

theorem digitChar_inj : ∀ m < 10, ∀ n < 10, Nat.digitChar m = Nat.digitChar n → m = n := by
  decide

theorem pad2_inj {m n : ℕ} (hm : m < 100) (hn : n < 100) (h : pad2 m = pad2 n) : m = n := by
  rw [pad2, pad2, List.cons.injEq, List.cons.injEq] at h
  have htens := digitChar_inj _ (by omega) _ (by omega) h.1
  have hones := digitChar_inj _ (by omega) _ (by omega) h.2.1
  omega

theorem pad4_inj {m n : ℕ} (hm : m < 10000) (hn : n < 10000) (h : pad4 m = pad4 n) : m = n := by
  obtain ⟨hhigh, hlow⟩ := List.append_inj h rfl
  have hhundreds := pad2_inj (by omega) (by omega) hhigh
  have hrest := pad2_inj (by omega) (by omega) hlow
  omega

theorem toDigits_inj {m n : ℕ} (h : Nat.toDigits 10 m = Nat.toDigits 10 n) : m = n := by
  have hread : ∀ k, Nat.ofDigitChars 10 (Nat.toDigits 10 k) 0 = k := fun k =>
    Nat.ofDigitChars_toDigits (by decide) (by decide)
  rw [← hread m, h, hread]

/-- The digits of a year, without its sign. -/
def yearDigits (n : ℕ) : Text := if n < 10000 then pad4 n else Nat.toDigits 10 n

theorem isDigit_of_mem_yearDigits {n : ℕ} {c : Char} (h : c ∈ yearDigits n) :
    c.isDigit = true := by
  rw [yearDigits] at h
  split_ifs at h with hn
  · simp only [pad4, pad2, List.cons_append, List.nil_append, List.mem_cons,
      List.not_mem_nil, or_false] at h
    rcases h with rfl | rfl | rfl | rfl <;> exact (digitChar_spec _ (by omega)).1
  · exact Nat.isDigit_of_mem_toDigits (by decide) (by decide) h

theorem yearDigits_inj {m n : ℕ} (h : yearDigits m = yearDigits n) : m = n := by
  have hwide : ∀ {k}, ¬ k < 10000 → (Nat.toDigits 10 k).length ≠ 4 := by
    intro k hk hlength
    have hle := (Nat.length_toDigits_le_iff (b := 10) (n := k) (k := 4) (by decide)
      (by decide)).mp hlength.le
    omega
  rw [yearDigits, yearDigits] at h
  split_ifs at h with hm hn hn
  · exact pad4_inj hm hn h
  · exact absurd (congrArg List.length h).symm (hwide hn)
  · exact absurd (congrArg List.length h) (hwide hm)
  · exact toDigits_inj h

theorem yearText_inj {y z : ℤ} (h : yearText y = yearText z) : y = z := by
  have heq : ∀ k : ℤ, yearText k =
      if k < 0 then '-' :: yearDigits k.natAbs else yearDigits k.natAbs := fun _ => rfl
  have hsign : ∀ k digits, yearDigits k ≠ '-' :: digits := by
    intro k digits hdigits
    have hdigit := isDigit_of_mem_yearDigits (hdigits ▸ List.mem_cons_self : '-' ∈ yearDigits k)
    exact absurd hdigit (by decide)
  rw [heq, heq] at h
  split_ifs at h with hy hz hz
  · have habs := yearDigits_inj (List.cons.inj h).2
    omega
  · exact absurd h.symm (hsign _ _)
  · exact absurd h (hsign _ _)
  · have habs := yearDigits_inj h
    omega

theorem exists_isLeap (leap : Bool) : ∃ year, isLeap year = leap := by
  cases leap with
  | true => exact ⟨2000, by decide⟩
  | false => exact ⟨2001, by decide⟩

theorem monthDay_inj {leap : Bool} {m n : ℕ} (hm : m < 365 + if leap then 1 else 0)
    (hn : n < 365 + if leap then 1 else 0) (h : monthDay leap m = monthDay leap n) : m = n := by
  obtain ⟨year, rfl⟩ := exists_isLeap leap
  obtain ⟨month, day, hmd⟩ : ∃ month day, monthDay (isLeap year) n = (month, day) := ⟨_, _, rfl⟩
  have hspec := monthDay_spec hm
  have hspec' := monthDay_spec hn
  rw [h, hmd] at hspec
  rw [hmd] at hspec'
  exact hspec.2.2.symm.trans hspec'.2.2

/-- A time is read off its text without the date, up to the day it lies in. -/
theorem clock_of_text {c d m n : ℕ} (hc : c < 86400) (hd : d < 86400) (hm : m < 10 ^ 9)
    (hn : n < 10 ^ 9)
    (h : pad2 (c / 3600) ++ ':' :: (pad2 (c / 60 % 60) ++ ':' :: (pad2 (c % 60) ++
        (fractionText m ++ ['Z']))) =
      pad2 (d / 3600) ++ ':' :: (pad2 (d / 60 % 60) ++ ':' :: (pad2 (d % 60) ++
        (fractionText n ++ ['Z'])))) : c = d ∧ m = n := by
  obtain ⟨hhour, hrest⟩ := List.append_inj h rfl
  obtain ⟨hmin, hrest⟩ := List.append_inj (List.cons.inj hrest).2 rfl
  obtain ⟨hsec, hfraction⟩ := List.append_inj (List.cons.inj hrest).2 rfl
  have hhour := pad2_inj (by omega) (by omega) hhour
  have hmin := pad2_inj (by omega) (by omega) hmin
  have hsec := pad2_inj (by omega) (by omega) hsec
  have hread := congrArg getFraction hfraction
  rw [getFraction_fractionText hm, getFraction_fractionText hn] at hread
  exact ⟨by omega, (Prod.mk.inj hread).1⟩

/-- Texts of times determine the times, whatever their years. -/
theorem rfc3339Text_inj {y z : ℤ} {month month' day day' c d m n : ℕ} (hmonth : month < 100)
    (hmonth' : month' < 100) (hday : day < 100) (hday' : day' < 100) (hc : c < 86400)
    (hd : d < 86400) (hm : m < 10 ^ 9) (hn : n < 10 ^ 9)
    (h : rfc3339Text y month day c m = rfc3339Text z month' day' d n) :
    y = z ∧ month = month' ∧ day = day' ∧ c = d ∧ m = n := by
  have hT : ∀ (year : ℤ) {i j : ℕ}, i < 100 → j < 100 →
      'T' ∉ yearText year ++ '-' :: (pad2 i ++ '-' :: pad2 j) := by
    intro year i j hi hj hmem
    have hdigit : ('T').isDigit = false := by decide
    have hpad : ∀ k < 100, 'T' ∉ pad2 k := by decide
    have hyear : 'T' ∉ yearText year := by
      intro hmem
      have hmem' : 'T' ∈ yearDigits year.natAbs := by
        have heq : yearText year =
          if year < 0 then '-' :: yearDigits year.natAbs else yearDigits year.natAbs := rfl
        rw [heq] at hmem
        split_ifs at hmem
        · exact (List.mem_cons.mp hmem).resolve_left (by decide)
        · exact hmem
      rw [isDigit_of_mem_yearDigits hmem'] at hdigit
      cases hdigit
    simp [hyear, hpad i hi, hpad j hj] at hmem
  have hsplit : ∀ (year : ℤ) (i j k l : ℕ), rfc3339Text year i j k l =
      (yearText year ++ '-' :: (pad2 i ++ '-' :: pad2 j)) ++ 'T' ::
        (pad2 (k / 3600) ++ ':' :: (pad2 (k / 60 % 60) ++ ':' :: (pad2 (k % 60) ++
          (fractionText l ++ ['Z'])))) := by
    intro year i j k l
    simp [rfc3339Text]
  rw [hsplit, hsplit] at h
  obtain ⟨hdate, hclock⟩ := eq_of_append_cons_eq (hT y hmonth hday) (hT z hmonth' hday') h
  obtain ⟨hyear, hrest⟩ := List.append_inj' hdate rfl
  obtain ⟨hmonths, hrest⟩ := List.append_inj (List.cons.inj hrest).2 rfl
  exact ⟨yearText_inj hyear, pad2_inj hmonth hmonth' hmonths,
    pad2_inj hday hday' (List.cons.inj hrest).2, clock_of_text hc hd hm hn hclock⟩

theorem monthDay_lt_hundred {leap : Bool} {yday : ℕ} (h : yday < 365 + if leap then 1 else 0) :
    (monthDay leap yday).1 < 100 ∧ (monthDay leap yday).2 < 100 := by
  obtain ⟨year, rfl⟩ := exists_isLeap leap
  obtain ⟨month, day, hmd⟩ : ∃ month day, monthDay (isLeap year) yday = (month, day) := ⟨_, _, rfl⟩
  have hspec := monthDay_spec h
  have hdays := daysIn_le month year
  rw [hmd] at hspec ⊢
  obtain ⟨⟨-, hmonth⟩, ⟨-, hday⟩, -⟩ := hspec
  exact ⟨by dsimp only; omega, by dsimp only; omega⟩

/-- No two instants are written alike. -/
theorem formatRFC3339Nano_injective : Function.Injective formatRFC3339Nano := by
  intro a b h
  obtain ⟨year, yday, hyear⟩ : ∃ year yday, yearDay (a / 10 ^ 9 / 86400) = (year, yday) :=
    ⟨_, _, rfl⟩
  obtain ⟨year', yday', hyear'⟩ : ∃ year yday, yearDay (b / 10 ^ 9 / 86400) = (year, yday) :=
    ⟨_, _, rfl⟩
  obtain ⟨hyday, hdays⟩ := yearDay_spec _ hyear
  obtain ⟨hyday', hdays'⟩ := yearDay_spec _ hyear'
  have hshort := monthDay_lt_hundred hyday
  have hshort' := monthDay_lt_hundred hyday'
  simp only [formatRFC3339Nano, hyear, hyear'] at h
  obtain ⟨rfl, hmonth, hday, hclock, hnsec⟩ := rfc3339Text_inj hshort.1 hshort'.1 hshort.2
    hshort'.2 (by omega) (by omega) (by omega) (by omega) h
  obtain rfl := monthDay_inj hyday hyday' (Prod.ext hmonth hday)
  omega

end GoSite.GoTimes

namespace GoSite.Observability
open GoStrings GoTimes

/-- The site of a log row. -/
def StoredRow.site : StoredRow → Option String
  | .access row | .error row => some row.site
  | .audit _ | .job _ => none

/-- Two rows that are not the same event. -/
def StoredRow.Differs (a b : StoredRow) : Prop :=
  a.event.ts ≠ b.event.ts ∨ a.event.message ≠ b.event.message ∨ a.site ≠ b.site

/-- The bytes of the message that an id keeps. -/
def StoredRow.shownMessage (row : StoredRow) : List UInt8 := (encode row.event.message).take 64

theorem source_of_kind {a b : StoredRow} (h : a.kind = b.kind) :
    a.event.source = b.event.source := by
  cases a <;> cases b <;> first | rfl | cases h

/-- Rows of one source have one id exactly when their times and the beginnings of their
messages are the same. -/
theorem eventID_eq_iff {a b : StoredRow} (h : a.kind = b.kind) :
    a.eventID = b.eventID ↔ a.event.ts = b.event.ts ∧ a.shownMessage = b.shownMessage := by
  have htime : ∀ ts, idBar ∉ encode (String.ofList (formatRFC3339Nano ts)) := fun ts =>
    idBar_not_mem_encode (by rw [String.toList_ofList]; exact bar_not_mem_format ts)
  rw [StoredRow.eventID, StoredRow.eventID, eventID, eventID, source_of_kind h,
    List.append_cancel_left_eq, List.cons.injEq]
  constructor
  · rintro ⟨-, hids⟩
    obtain ⟨htexts, hmessages⟩ := eq_of_append_cons_eq (htime _) (htime _) hids
    have htext := congrArg decode htexts
    rw [decode_encode, decode_encode] at htext
    exact ⟨formatRFC3339Nano_injective (String.ofList_injective htext), hmessages⟩
  · rintro ⟨hts, hmessages⟩
    refine ⟨rfl, ?_⟩
    rw [hts]
    exact congrArg (_ ++ idBar :: ·) hmessages

/-- The ids of the rows of a source tell all its events apart exactly when no two of them
share the time and the first 64 bytes of the message. -/
theorem event_ids_identify_iff {kind : SourceKind} {rows : List StoredRow}
    (hkind : ∀ r ∈ rows, r.kind = kind) :
    (∀ a ∈ rows, ∀ b ∈ rows, a.Differs b → a.eventID ≠ b.eventID) ↔
      ∀ a ∈ rows, ∀ b ∈ rows, a.Differs b →
        a.event.ts ≠ b.event.ts ∨ a.shownMessage ≠ b.shownMessage := by
  refine forall₄_congr fun a ha b hb => ?_
  rw [ne_eq, eventID_eq_iff ((hkind a ha).trans (hkind b hb).symm), not_and_or]

/-- A line in the access log of a site. -/
def lineRow (site : String) (line : List Char) (hline : '\n' ∉ line) : StoredRow :=
  .access ⟨0, site, none, none, String.ofList line, isStatusCode_of_none,
    by rwa [String.toList_ofList]⟩

section
variable {site site' : String} {line line' : List Char} {hline : '\n' ∉ line}
  {hline' : '\n' ∉ line'}

theorem lineRow_kind : (lineRow site line hline).kind = .logAccess := rfl

theorem lineRow_ts : (lineRow site line hline).event.ts = 0 := rfl

theorem lineRow_shown : (lineRow site line hline).shownMessage =
    (line.flatMap String.utf8EncodeChar).take 64 := by
  have hmessage : (lineRow site line hline).event.message = String.ofList line := rfl
  rw [StoredRow.shownMessage, hmessage, encode, String.toList_ofList]

theorem lineRow_differs (h : line ≠ line') :
    (lineRow site line hline).Differs (lineRow site' line' hline') :=
  .inr (.inl fun heq => h (String.ofList_injective heq))

theorem lineRow_eventID_eq_iff : (lineRow site line hline).eventID =
    (lineRow site' line' hline').eventID ↔
      (line.flatMap String.utf8EncodeChar).take 64 =
        (line'.flatMap String.utf8EncodeChar).take 64 := by
  rw [eventID_eq_iff (lineRow_kind.trans lineRow_kind.symm), lineRow_ts, lineRow_ts, lineRow_shown,
    lineRow_shown]
  exact and_iff_right rfl

end

theorem event_ids_identify_two :
    let rows := [lineRow "a.example" ['/'] (by decide), lineRow "a.example" ['/', 'x'] (by decide)]
    ∀ a ∈ rows, ∀ b ∈ rows, a.Differs b → a.eventID ≠ b.eventID := by
  refine (@event_ids_identify_iff .logAccess _ (by simp [lineRow, StoredRow.kind])).mpr ?_
  have hmessages : (lineRow "a.example" ['/'] (by decide)).shownMessage ≠
      (lineRow "a.example" ['/', 'x'] (by decide)).shownMessage := by
    rw [lineRow_shown, lineRow_shown]
    decide
  have hsame : ∀ a : StoredRow, ¬ a.Differs a := by
    rintro a (h | h | h) <;> exact h rfl
  simp only [List.mem_cons, List.not_mem_nil, or_false, forall_eq_or_imp, forall_eq]
  exact ⟨⟨fun h => absurd h (hsame _), fun _ => .inr hmessages⟩,
    fun _ => .inr hmessages.symm, fun h => absurd h (hsame _)⟩

theorem not_identified {a b : StoredRow} (hkind : a.kind = b.kind) (hdiffers : a.Differs b)
    (hsame : a.eventID = b.eventID) :
    ¬ ∀ (kind : SourceKind) (rows : List StoredRow), (∀ r ∈ rows, r.kind = kind) →
      ∀ a ∈ rows, ∀ b ∈ rows, a.Differs b → a.eventID ≠ b.eventID := by
  intro hall
  have hkinds : ∀ r ∈ [a, b], r.kind = b.kind := by
    intro r hr
    rcases List.mem_pair.mp hr with rfl | rfl
    · exact hkind
    · rfl
  exact hall b.kind [a, b] hkinds a List.mem_cons_self b
    (List.mem_cons_of_mem _ List.mem_cons_self) hdiffers hsame

/-- A path of 65 bytes. -/
def longPath (n : Fin 10) : List Char := List.replicate 64 '/' ++ [Nat.digitChar n]

theorem not_mem_longPath (n : Fin 10) : '\n' ∉ longPath n := by
  have hdigit : ∀ n : Fin 10, '\n' ≠ Nat.digitChar n := by decide
  intro hmem
  rcases List.mem_append.mp hmem with hmem | hmem
  · exact absurd (List.eq_of_mem_replicate hmem) (by decide)
  · exact hdigit n (List.mem_singleton.mp hmem)

/-- The events of two requests have one id, and so have those of two sites. -/
theorem requests_share_event_id :
    let row := fun site n => lineRow site (longPath n) (not_mem_longPath n)
    let a := row "a.example" 1
    let b := row "a.example" 2
    let c := row "b.example" 1
    (a.Differs b ∧ a.eventID = b.eventID) ∧ (a.Differs c ∧ a.eventID = c.eventID) ∧
      ¬ ∀ (kind : SourceKind) (rows : List StoredRow), (∀ r ∈ rows, r.kind = kind) →
        ∀ a ∈ rows, ∀ b ∈ rows, a.Differs b → a.eventID ≠ b.eventID := by
  have hsites : (lineRow "a.example" (longPath 1) (not_mem_longPath 1)).Differs
      (lineRow "b.example" (longPath 1) (not_mem_longPath 1)) := by
    refine .inr (.inr ?_)
    show some "a.example" ≠ some "b.example"
    decide
  have hdiffers : (lineRow "a.example" (longPath 1) (not_mem_longPath 1)).Differs
      (lineRow "a.example" (longPath 2) (not_mem_longPath 2)) :=
    lineRow_differs (by decide)
  have hsame : (lineRow "a.example" (longPath 1) (not_mem_longPath 1)).eventID =
      (lineRow "a.example" (longPath 2) (not_mem_longPath 2)).eventID :=
    lineRow_eventID_eq_iff.mpr (by decide)
  exact ⟨⟨hdiffers, hsame⟩, ⟨hsites, lineRow_eventID_eq_iff.mpr rfl⟩,
    not_identified (lineRow_kind.trans lineRow_kind.symm) hdiffers hsame⟩

end GoSite.Observability
