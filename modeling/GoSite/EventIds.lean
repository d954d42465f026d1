import GoSite.QueryEvents
import GoSite.Rfc3339Times
import GoSite.Utf8Texts

/-!
# Ids of events

The id of an event is its source, its time and the beginning of its message. A
subscriber that reconnects sends back the last id it saw, and the time is read
from it.
-/
namespace GoSite.Observability
open GoStrings GoTimes

/-- The separator of an id. -/
def idBar : UInt8 := '|'.toUInt8

/-- The id as a string of bytes. The message is cut after 64 of them. -/
def eventID (source : String) (ts : ℤ) (message : String) : List UInt8 :=
  encode source ++ idBar :: (encode (String.ofList (formatRFC3339Nano ts)) ++
    idBar :: (encode message).take 64)

/-- The id of an event of the service. -/
def StoredRow.eventID (row : StoredRow) : List UInt8 :=
  Observability.eventID row.event.source row.event.ts row.event.message

/-- What is before the first of a byte, and what is after it. -/
@[grind] def cutByte (b : UInt8) : List UInt8 → Option (List UInt8 × List UInt8)
  | [] => none
  | c :: cs =>
      if c = b then some ([], cs)
      else (cutByte b cs).map fun (before, after) => (c :: before, after)

def parseTailIDTime (id : List UInt8) : Option ℤ := do
  let (_, rest) ← cutByte idBar id
  let (time, _) ← cutByte idBar rest
  parseRFC3339Nano (decode time).toList

/-- The years whose times are read back from an id. -/
def HasFourDigitYear (ts : ℤ) : Prop := 0 ≤ yearOf ts ∧ yearOf ts < 10000

instance (ts : ℤ) : Decidable (HasFourDigitYear ts) := inferInstanceAs (Decidable (_ ∧ _))

/-! ## The id -/

theorem cutByte_append {b : UInt8} {before : List UInt8} (h : b ∉ before) (after : List UInt8) :
    cutByte b (before ++ b :: after) = some (before, after) := by
  induction before with
  | nil => simp [cutByte]
  | cons c before ih =>
      rw [List.mem_cons, not_or] at h
      rw [List.cons_append, cutByte, if_neg (Ne.symm h.1), ih h.2]
      rfl

/-- A byte of ASCII in the bytes of a text is a code point of it. -/
theorem ofNat_mem_of_mem_encode {s : String} {b : UInt8} (hb : IsAscii b) (h : b ∈ encode s) :
    Char.ofNat b.toNat ∈ s.toList := by
  obtain ⟨c, hc, hmem⟩ := List.mem_flatMap.mp h
  by_cases hwide : 128 ≤ c.toNat
  · exact absurd hb (not_isAscii_of_mem_encodeChar hwide hmem)
  · rw [encodeChar_ascii (by omega), List.mem_singleton] at hmem
    have hnat : b.toNat = c.toNat := by
      rw [hmem, UInt8.toNat_ofNat', Nat.mod_eq_of_lt (by omega)]
    rwa [hnat, Char.ofNat_toNat]

theorem idBar_not_mem_encode {s : String} (h : '|' ∉ s.toList) : idBar ∉ encode s :=
  fun hmem => h (ofNat_mem_of_mem_encode (by decide) hmem)

/-- The characters that a time is written with. -/
def timeChars : Text := "0123456789abcdef*-:.TZ".toList

theorem digitChar_mem_timeChars (n : ℕ) : Nat.digitChar n ∈ timeChars := by
  by_cases h : n < 16
  · revert n
    decide
  · have hstar : Nat.digitChar n = '*' := by
      simp (disch := omega) only [Nat.digitChar, if_neg]
    rw [hstar]
    decide

theorem pad2_subset_timeChars (n : ℕ) : pad2 n ⊆ timeChars := by
  simp [pad2, List.subset_def, digitChar_mem_timeChars]

theorem pad4_subset_timeChars (n : ℕ) : pad4 n ⊆ timeChars :=
  List.append_subset.mpr ⟨pad2_subset_timeChars _, pad2_subset_timeChars _⟩

theorem mem_timeChars_of_isDigit {c : Char} (h : c.isDigit = true) : c ∈ timeChars := by
  have hall : ∀ n < 58, (Char.ofNat n).isDigit = true → Char.ofNat n ∈ timeChars := by decide
  have hle := (Char.isDigit_iff_toNat.mp h).2
  have hnine : '9'.toNat = 57 := rfl
  have hchar := hall c.toNat (by omega)
  rw [Char.ofNat_toNat] at hchar
  exact hchar h

theorem yearText_subset_timeChars (year : ℤ) : yearText year ⊆ timeChars := by
  have hdigits : Nat.toDigits 10 year.natAbs ⊆ timeChars := fun c hc =>
    mem_timeChars_of_isDigit (Nat.isDigit_of_mem_toDigits (by decide) (by decide) hc)
  have hminus : '-' ∈ timeChars := by decide
  simp only [yearText]
  split_ifs <;> simp [hminus, hdigits, pad4_subset_timeChars]

theorem fractionText_subset_timeChars (nsec : ℕ) : fractionText nsec ⊆ timeChars := by
  have hpad : pad9 nsec ⊆ timeChars := List.cons_subset.mpr ⟨digitChar_mem_timeChars _,
    List.append_subset.mpr ⟨pad4_subset_timeChars _, pad4_subset_timeChars _⟩⟩
  rw [fractionText]
  split_ifs
  · exact List.nil_subset _
  · exact List.cons_subset.mpr ⟨by decide, fun c hc =>
      hpad ((List.rdropWhile_prefix _ _).subset hc)⟩

theorem format_subset_timeChars (ts : ℤ) : formatRFC3339Nano ts ⊆ timeChars := by
  simp only [formatRFC3339Nano, rfc3339Text, List.append_subset, List.cons_subset,
    yearText_subset_timeChars, pad2_subset_timeChars, fractionText_subset_timeChars, true_and]
  decide

theorem bar_not_mem_format (ts : ℤ) : '|' ∉ formatRFC3339Nano ts := fun h =>
  absurd (format_subset_timeChars ts h) (by decide)

/-- The time of an id is read back, whatever the message. -/
theorem parseTailIDTime_eventID {source : String} (h : '|' ∉ source.toList) (ts : ℤ)
    (message : String) :
    parseTailIDTime (eventID source ts message) =
      if HasFourDigitYear ts then some ts else none := by
  have htime : idBar ∉ encode (String.ofList (formatRFC3339Nano ts)) :=
    idBar_not_mem_encode (by rw [String.toList_ofList]; exact bar_not_mem_format ts)
  simp only [parseTailIDTime, eventID, cutByte_append (idBar_not_mem_encode h),
    cutByte_append htime, Option.bind_eq_bind, Option.bind_some, decode_encode,
    String.toList_ofList, parseRFC3339Nano_format]
  rfl

theorem source_of_row (row : StoredRow) : '|' ∉ row.event.source.toList := by
  cases row <;> simp [StoredRow.event, mapAuditEvent, mapJobEvent, mapLogEvent, sourceAudit,
    sourceJob, sourceAccess, sourceError]

theorem parseTailIDTime_row (row : StoredRow) :
    parseTailIDTime row.eventID =
      if HasFourDigitYear row.event.ts then some row.event.ts else none :=
  parseTailIDTime_eventID (source_of_row row) _ _

end GoSite.Observability
