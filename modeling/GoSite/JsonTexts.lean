import GoSite.GoBytes
import Mathlib.Data.Nat.Digits.Lemmas
import Mathlib.Data.List.Sort

/-!
# Texts of JSON values

What `json.Marshal` writes for a value. The keys of a map are written in order, and a
string is written with every character escaped that could end a line.
-/
namespace GoSite.JsonTexts
open GoStrings

abbrev Text := List Char

/-- The characters of the text of a floating point number. -/
def numeralChars : Text := "+-.0123456789e".toList

/-- The text of a number that was read as a floating point number. -/
structure FloatText where
  text : Text
  numeral : ∀ c ∈ text, c ∈ numeralChars

/-- A value as Go holds it behind `interface{}`. The keys of an object are distinct. -/
inductive JsonValue where
  | null
  | bool (b : Bool)
  | int (n : ℤ)
  | float (n : FloatText)
  | string (s : List UInt8)
  | array (vs : List JsonValue)
  | object (fs : List (List UInt8 × JsonValue))

def hexDigits : Text := "0123456789abcdef".toList

def hexDigit (n : ℕ) : Char := hexDigits.getD (n % 16) '0'

/-- What `appendString` writes for one code point. -/
def escapeRune (r : Rune) : Text :=
  if r.char = Char.ofNat 0xFFFD ∧ r.bytes.length = 1 then "\\ufffd".toList
  else if r.char = '\\' ∨ r.char = '"' then ['\\', r.char]
  else if r.char = Char.ofNat 8 then "\\b".toList
  else if r.char = Char.ofNat 12 then "\\f".toList
  else if r.char = '\n' then "\\n".toList
  else if r.char = '\r' then "\\r".toList
  else if r.char = '\t' then "\\t".toList
  else if r.char < ' ' ∨ r.char = '<' ∨ r.char = '>' ∨ r.char = '&' then
    "\\u00".toList ++ [hexDigit (r.char.toNat / 16), hexDigit r.char.toNat]
  else if r.char = Char.ofNat 0x2028 ∨ r.char = Char.ofNat 0x2029 then
    "\\u202".toList ++ [hexDigit r.char.toNat]
  else [r.char]

def quoteString (s : List UInt8) : Text := '"' :: ((runes s).flatMap escapeRune ++ ['"'])

def intText (n : ℤ) : Text :=
  if n < 0 then '-' :: Nat.toDigits 10 n.natAbs else Nat.toDigits 10 n.natAbs

def arrayText (texts : List Text) : Text := '[' :: ([','].intercalate texts ++ [']'])

/-- The fields of an object in the order they are written in. -/
def objectText (fields : List (List UInt8 × Text)) : Text :=
  '{' :: ([','].intercalate (fields.map fun (key, text) => quoteString key ++ ':' :: text) ++ ['}'])

def sortFields (fields : List (List UInt8 × Text)) : List (List UInt8 × Text) :=
  fields.insertionSort fun a b => a.1 ≤ b.1

mutual

@[grind] def valueText : JsonValue → Text
  | .null => "null".toList
  | .bool b => if b then "true".toList else "false".toList
  | .int n => intText n
  | .float n => n.text
  | .string s => quoteString s
  | .array vs => arrayText (valueTexts vs)
  | .object fs => objectText (sortFields (fieldTexts fs))

@[grind] def valueTexts : List JsonValue → List Text
  | [] => []
  | v :: vs => valueText v :: valueTexts vs

@[grind] def fieldTexts : List (List UInt8 × JsonValue) → List (List UInt8 × Text)
  | [] => []
  | (key, v) :: fs => (key, valueText v) :: fieldTexts fs

end

/-! ## No control characters -/

/-- No character of the text is a control character. -/
def NoControl (t : Text) : Prop := ∀ c ∈ t, ' ' ≤ c

instance (t : Text) : Decidable (NoControl t) := inferInstanceAs (Decidable (∀ c ∈ t, ' ' ≤ c))

@[simp] theorem noControl_nil : NoControl [] := by simp [NoControl]

@[simp] theorem noControl_cons {c : Char} {t : Text} :
    NoControl (c :: t) ↔ ' ' ≤ c ∧ NoControl t := by
  simp [NoControl]

@[simp] theorem noControl_append {s t : Text} :
    NoControl (s ++ t) ↔ NoControl s ∧ NoControl t := by
  simp [NoControl, or_imp, forall_and]

theorem NoControl.of_subset {s t : Text} (h : NoControl t) (hsubset : s ⊆ t) : NoControl s :=
  fun c hc => h c (hsubset hc)

theorem noControl_intercalate {texts : List Text} (h : ∀ t ∈ texts, NoControl t) :
    NoControl ([','].intercalate texts) := by
  induction texts with
  | nil => simp
  | cons t texts ih =>
      have ht := h t List.mem_cons_self
      have hrest := ih fun u hu => h u (List.mem_cons_of_mem t hu)
      cases texts with
      | nil => simpa using ht
      | cons u texts =>
          rw [List.intercalate_cons_cons]
          simp [ht, hrest]

theorem hexDigit_ge (n : ℕ) : ' ' ≤ hexDigit n := by
  have hall : ∀ m < 16, ' ' ≤ hexDigits.getD m '0' := by decide
  exact hall _ (Nat.mod_lt n (by decide))

theorem noControl_escapeRune (r : Rune) : NoControl (escapeRune r) := by
  rw [escapeRune]
  split_ifs with hinvalid hmark hback hfeed hlf hcr htab hspace hline
  · decide
  · rcases hmark with h | h <;> rw [h] <;> decide
  · decide
  · decide
  · decide
  · decide
  · decide
  · simp [hexDigit_ge]
  · simp [hexDigit_ge]
  · have hge : ' ' ≤ r.char := by
      by_contra h
      exact hspace (Or.inl (Char.not_le.mp h))
    simpa using hge

theorem noControl_quoteString (s : List UInt8) : NoControl (quoteString s) := by
  have hbody : NoControl ((runes s).flatMap escapeRune) := by
    intro c hc
    obtain ⟨r, -, hc⟩ := List.mem_flatMap.mp hc
    exact noControl_escapeRune r c hc
  simp [quoteString, hbody]

theorem noControl_intText (n : ℤ) : NoControl (intText n) := by
  have hdigits : NoControl (Nat.toDigits 10 n.natAbs) := by
    intro c hc
    have hdigit := Nat.isDigit_of_mem_toDigits (by decide) (by decide) hc
    simp only [Char.isDigit, Bool.and_eq_true, decide_eq_true_eq] at hdigit
    exact Char.le_trans (by decide : ' ' ≤ '0') hdigit.1
  rw [intText]
  split_ifs <;> simp [hdigits]

theorem noControl_arrayText {texts : List Text} (h : ∀ t ∈ texts, NoControl t) :
    NoControl (arrayText texts) := by
  simp [arrayText, noControl_intercalate h]

theorem noControl_objectText {fields : List (List UInt8 × Text)}
    (h : ∀ field ∈ fields, NoControl field.2) : NoControl (objectText fields) := by
  have hfields : ∀ t ∈ fields.map fun (key, text) => quoteString key ++ ':' :: text,
      NoControl t := by
    intro t ht
    obtain ⟨⟨key, text⟩, hfield, rfl⟩ := List.mem_map.mp ht
    simp [noControl_quoteString, h _ hfield]
  simp [objectText, noControl_intercalate hfields]

theorem mem_sortFields {fields : List (List UInt8 × Text)} {field : List UInt8 × Text} :
    field ∈ sortFields fields ↔ field ∈ fields := List.mem_insertionSort _

mutual

/-- The text of a value stands on one line. -/
theorem noControl_valueText (v : JsonValue) : NoControl (valueText v) := by
  cases v with
  | null => decide
  | bool b => cases b <;> decide
  | int n => exact noControl_intText n
  | float n =>
      intro c hc
      exact (by decide : ∀ c ∈ numeralChars, ' ' ≤ c) c (n.numeral c hc)
  | string s => exact noControl_quoteString s
  | array vs => exact noControl_arrayText (noControl_valueTexts vs)
  | object fs =>
      exact noControl_objectText fun field hfield =>
        noControl_fieldTexts fs field (mem_sortFields.mp hfield)

theorem noControl_valueTexts (vs : List JsonValue) : ∀ t ∈ valueTexts vs, NoControl t := by
  cases vs with
  | nil => simp [valueTexts]
  | cons v vs =>
      intro t ht
      rcases List.mem_cons.mp ht with rfl | ht
      · exact noControl_valueText v
      · exact noControl_valueTexts vs t ht

theorem noControl_fieldTexts (fs : List (List UInt8 × JsonValue)) :
    ∀ field ∈ fieldTexts fs, NoControl field.2 := by
  cases fs with
  | nil => simp [fieldTexts]
  | cons f fs =>
      obtain ⟨key, v⟩ := f
      intro field hfield
      rcases List.mem_cons.mp hfield with rfl | hfield
      · exact noControl_valueText v
      · exact noControl_fieldTexts fs field hfield

end

end GoSite.JsonTexts
