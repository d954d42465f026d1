import Mathlib

/-!
# String functions of the Go standard library

A Go string that holds valid UTF-8 is its list of code points. Each function
below follows the documented behaviour of the library function of its name.
-/
namespace GoSite.GoStrings

/-- A property of all code points of a text is decided along the text, not over all
code points there are. -/
instance (priority := 1100) decidableBAllChar (p : Char → Prop) [DecidablePred p]
    (s : List Char) : Decidable (∀ c ∈ s, p c) := List.decidableBAll p s

instance (priority := 1100) decidableBExChar (p : Char → Prop) [DecidablePred p]
    (s : List Char) : Decidable (∃ c ∈ s, p c) := List.decidableBEx p s

instance lawfulBEqChars : LawfulBEq (List Char) := inferInstance

instance lawfulBEqTexts : LawfulBEq (List (List Char)) := inferInstance

/-- `unicode.IsSpace`. -/
def isSpace (c : Char) : Bool :=
  let n := c.toNat
  (9 ≤ n && n ≤ 13) || n == 0x20 || n == 0x85 || n == 0xA0 || n == 0x1680 ||
    (0x2000 ≤ n && n ≤ 0x200a) || n == 0x2028 || n == 0x2029 || n == 0x202f || n == 0x205f ||
    n == 0x3000

/-- `strings.TrimSpace` on code points. -/
def trimSpaceChars (s : List Char) : List Char :=
  (s.dropWhile isSpace).rdropWhile isSpace

/-- `strings.TrimSpace`. -/
def trimSpace (s : String) : String := String.ofList (trimSpaceChars s.toList)

/-- `strings.TrimPrefix` on code points. -/
def trimPrefix (s pre : List Char) : List Char :=
  if pre <+: s then s.drop pre.length else s

/-- `strings.ReplaceAll` of one code point. -/
def replaceAll (c : Char) (new : List Char) (s : List Char) : List Char :=
  s.flatMap fun d => if d = c then new else [d]

/-- `strings.Join`. -/
@[grind] def join (sep : String) : List String → String
  | [] => ""
  | [s] => s
  | s :: t :: rest => s ++ sep ++ join sep (t :: rest)

/-- The two ways in which `strconv` rejects a number. -/
inductive NumError where
  | invalid
  | range
  deriving Repr, DecidableEq

def digit? (c : Char) : Option ℕ :=
  if '0' ≤ c ∧ c ≤ '9' then some (c.toNat - '0'.toNat) else none

/-- The loop of `strconv.ParseUint` in base ten. It stops at the first digit
that does not fit, before it looks at what follows. -/
@[grind] def parseUintLoop : ℕ → List Char → Except NumError ℕ
  | n, [] => .ok n
  | n, c :: cs =>
      match digit? c with
      | none => .error .invalid
      | some d =>
          if n * 10 + d < 2 ^ 64 then parseUintLoop (n * 10 + d) cs else .error .range

/-- The optional sign of `strconv.ParseInt`. -/
def splitSign : List Char → Bool × List Char
  | '+' :: cs => (false, cs)
  | '-' :: cs => (true, cs)
  | cs => (false, cs)

/-- `strconv.Atoi` on a 64-bit platform: the number and the error. A number out
of range is returned as the nearest one that fits. -/
def atoi (s : List Char) : ℤ × Option NumError :=
  let (neg, digits) := splitSign s
  if digits = [] then (0, some .invalid)
  else
    let clamp (n : ℕ) : ℤ × Option NumError :=
      if neg then
        if n > 2 ^ 63 then (-2 ^ 63, some .range) else (-(n : ℤ), none)
      else
        if n ≥ 2 ^ 63 then (2 ^ 63 - 1, some .range) else (n, none)
    match parseUintLoop 0 digits with
    | .ok n => clamp n
    | .error .range => clamp (2 ^ 64 - 1)
    | .error .invalid => (0, some .invalid)

example : atoi "+12".toList = (12, none) := by decide
example : atoi "99999999999999999999x".toList = (2 ^ 63 - 1, some .range) := by decide

theorem parseUintLoop_append {n m : ℕ} {cs : List Char} (h : parseUintLoop n cs = .ok m)
    (ds : List Char) : parseUintLoop n (cs ++ ds) = parseUintLoop m ds := by
  induction cs generalizing n with
  | nil =>
      rw [parseUintLoop, Except.ok.injEq] at h
      rw [h, List.nil_append]
  | cons c cs ih =>
      rw [parseUintLoop] at h
      rw [List.cons_append, parseUintLoop]
      cases hd : digit? c with
      | none => simp [hd] at h
      | some d =>
          simp only [hd] at h
          by_cases hfit : n * 10 + d < 2 ^ 64
          · rw [if_pos hfit] at h
            simp only [if_pos hfit]
            exact ih h
          · rw [if_neg hfit] at h
            cases h

theorem digit?_digitChar : ∀ d < 10, digit? (Nat.digitChar d) = some d := by decide

/-- A number that fits is read back from its decimal digits. -/
theorem parseUintLoop_toDigits {n : ℕ} (h : n < 2 ^ 64) :
    parseUintLoop 0 (Nat.toDigits 10 n) = .ok n := by
  induction n using Nat.strongRecOn with
  | ind n ih =>
      rw [Nat.toDigits_eq_if (by decide)]
      split_ifs with hn
      · have hfit : 0 * 10 + n < 2 ^ 64 := by omega
        simp only [parseUintLoop, digit?_digitChar n hn, if_pos hfit]
        rw [Nat.zero_mul, Nat.zero_add]
      · have hq := ih (n / 10) (by omega) (by omega)
        have hval : n / 10 * 10 + n % 10 = n := by omega
        rw [parseUintLoop_append hq, parseUintLoop, digit?_digitChar _ (by omega)]
        simp only [hval, if_pos h]
        rfl

theorem isDigit_of_mem_toDigits {n : ℕ} {c : Char} (h : c ∈ Nat.toDigits 10 n) :
    c.isDigit = true :=
  Nat.isDigit_of_mem_toDigits (by decide) (by decide) h

theorem splitSign_of_isDigit {cs : List Char} (h : ∀ c ∈ cs, c.isDigit = true) :
    splitSign cs = (false, cs) := by
  cases cs with
  | nil => rfl
  | cons c cs =>
      have hc := h c List.mem_cons_self
      rw [splitSign]
      · rintro ds ⟨⟩
        simp [Char.isDigit] at hc
      · rintro ds ⟨⟩
        simp [Char.isDigit] at hc

theorem trimSpaceChars_of_not_space {cs : List Char} (h : ∀ c ∈ cs, isSpace c = false) :
    trimSpaceChars cs = cs := by
  have hdrop : cs.dropWhile isSpace = cs := by
    rw [List.dropWhile_eq_self_iff]
    intro hpos
    simp [h _ (List.getElem_mem hpos)]
  rw [trimSpaceChars, hdrop, List.rdropWhile_eq_self_iff]
  intro hne
  simp [h _ (List.getLast_mem hne)]

/-- A text without blanks at its ends is not trimmed. -/
theorem trimSpaceChars_eq_self {cs : List Char} (hhead : ¬ cs.head?.any isSpace)
    (hlast : ¬ cs.getLast?.any isSpace) : trimSpaceChars cs = cs := by
  have hdrop : cs.dropWhile isSpace = cs := by
    cases cs with
    | nil => rfl
    | cons c cs => exact List.dropWhile_cons_of_neg (by simpa using hhead)
  rw [trimSpaceChars, hdrop, List.rdropWhile_eq_self_iff]
  intro hne
  simpa [List.getLast?_eq_some_getLast hne] using hlast

theorem trimSpaceChars_head (cs : List Char) : ¬ (trimSpaceChars cs).head?.any isSpace := by
  have hpre := List.rdropWhile_prefix isSpace (cs.dropWhile isSpace)
  rw [← trimSpaceChars] at hpre
  cases htrim : trimSpaceChars cs with
  | nil => simp
  | cons c rest =>
      obtain ⟨tail, htail⟩ := htrim ▸ hpre
      have hne : cs.dropWhile isSpace ≠ [] := by simp [← htail]
      have hhead := List.head_dropWhile_not isSpace hne
      simp only [← htail, List.cons_append, List.head_cons] at hhead
      simp [hhead]

theorem trimSpaceChars_last (cs : List Char) : ¬ (trimSpaceChars cs).getLast?.any isSpace := by
  by_cases hne : trimSpaceChars cs = []
  · simp [hne]
  · have hlast := List.rdropWhile_last_not isSpace (cs.dropWhile isSpace) hne
    rw [List.getLast?_eq_some_getLast hne, Option.any_some]
    exact hlast

theorem trimSpaceChars_sublist (cs : List Char) : (trimSpaceChars cs).Sublist cs :=
  (List.rdropWhile_prefix isSpace _).sublist.trans (List.dropWhile_suffix isSpace).sublist

theorem mem_dropWhile_of_not {p : Char → Bool} {cs : List Char} {c : Char} (hc : c ∈ cs)
    (hp : p c = false) : c ∈ cs.dropWhile p := by
  rw [← List.takeWhile_append_dropWhile (p := p) (l := cs), List.mem_append] at hc
  rcases hc with hc | hc
  · rw [List.mem_takeWhile_imp hc] at hp
    cases hp
  · exact hc

theorem mem_trimSpaceChars {cs : List Char} {c : Char} (hc : c ∈ cs) (hspace : isSpace c = false) :
    c ∈ trimSpaceChars cs := by
  rw [trimSpaceChars, List.rdropWhile, List.mem_reverse]
  exact mem_dropWhile_of_not (List.mem_reverse.mpr (mem_dropWhile_of_not hc hspace)) hspace

@[simp] theorem trimSpace_trimSpace (s : String) : trimSpace (trimSpace s) = trimSpace s := by
  simp only [trimSpace, String.toList_ofList,
    trimSpaceChars_eq_self (trimSpaceChars_head s.toList) (trimSpaceChars_last s.toList)]

/-- `strconv.Atoi` reads a decimal number back. -/
theorem atoi_toDigits {n : ℕ} (h : n < 2 ^ 63) : atoi (Nat.toDigits 10 n) = ((n : ℤ), none) := by
  have hsign := splitSign_of_isDigit (fun c hc => isDigit_of_mem_toDigits (n := n) hc)
  have hread := parseUintLoop_toDigits (n := n) (by omega)
  have hne : Nat.toDigits 10 n ≠ [] := Nat.toDigits_ne_nil
  have hfit : ¬ 2 ^ 63 ≤ n := by omega
  simp only [atoi, hsign, hne, hread, if_false, Bool.false_eq_true, ge_iff_le, if_neg hfit]

theorem isSpace_of_isDigit {c : Char} (h : c.isDigit = true) : isSpace c = false := by
  simp only [Char.isDigit, ge_iff_le, Bool.and_eq_true, decide_eq_true_eq,
    UInt32.le_iff_toNat_le] at h
  have h0 : '0'.val.toNat = 48 := rfl
  have h9 : '9'.val.toNat = 57 := rfl
  have hn : c.toNat = c.val.toNat := rfl
  simp [isSpace]
  omega

/-- A part between separators has none. -/
theorem not_mem_of_mem_splitOn {sep : Char} {text part : List Char}
    (hpart : part ∈ text.splitOn sep) : sep ∉ part := by
  induction text generalizing part with
  | nil =>
      rw [List.splitOn_nil, List.mem_singleton] at hpart
      simp [hpart]
  | cons c text ih =>
      rw [List.splitOn_cons_eq_if_modifyHead] at hpart
      split_ifs at hpart with hc
      · rcases List.mem_cons.mp hpart with rfl | hpart
        · simp
        · exact ih hpart
      · cases hsplit : text.splitOn sep with
        | nil => exact absurd hsplit (List.splitOn_ne_nil _ _)
        | cons first rest =>
            rw [hsplit] at hpart ih
            rcases List.mem_cons.mp hpart with rfl | hpart
            · have hfirst : sep ∉ first := ih List.mem_cons_self
              have hne : c ≠ sep := by simpa using hc
              simp [hfirst, hne.symm]
            · exact ih (List.mem_cons_of_mem _ hpart)

theorem mem_of_mem_splitOn {sep c : Char} {text part : List Char}
    (hpart : part ∈ text.splitOn sep) (hc : c ∈ part) : c ∈ text := by
  induction text generalizing part with
  | nil =>
      rw [List.splitOn_nil, List.mem_singleton] at hpart
      simp [hpart] at hc
  | cons d text ih =>
      rw [List.splitOn_cons_eq_if_modifyHead] at hpart
      split_ifs at hpart with hd
      · rcases List.mem_cons.mp hpart with rfl | hpart
        · simp at hc
        · exact List.mem_cons_of_mem d (ih hpart hc)
      · cases hsplit : text.splitOn sep with
        | nil => exact absurd hsplit (List.splitOn_ne_nil _ _)
        | cons first rest =>
            rw [hsplit] at hpart ih
            rcases List.mem_cons.mp hpart with rfl | hpart
            · rcases List.mem_cons.mp hc with rfl | hc
              · exact List.mem_cons_self
              · exact List.mem_cons_of_mem d (ih List.mem_cons_self hc)
            · exact List.mem_cons_of_mem d (ih (List.mem_cons_of_mem _ hpart) hc)

end GoSite.GoStrings
