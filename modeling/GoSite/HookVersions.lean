import GoSite.PluginInstall
import GoSite.Semver

/-!
# Version comparison of the hook bus

The bus has a copy of the comparison in the plugin service. It reads a part of a
version with `Sscanf`, which skips blanks and stops behind the digits, where the
service reads the whole part with `Atoi`. Neither looks at the error, so a
number that does not fit is the greatest one for the service and 0 for the bus.
-/
namespace GoSite.Hookbus
open GoStrings

/-- `SkipSpace` of a scan, for which a line feed is an error. -/
@[grind] def skipSpace : List Char → Option (List Char)
  | [] => some []
  | c :: cs =>
      if c = '\n' then none
      else if isSpace c then skipSpace cs
      else some (c :: cs)

/-- `Sscanf` of one `%d` into a zero, with its error dropped. -/
def scanOrZero (part : List Char) : ℤ :=
  match skipSpace part with
  | none => 0
  | some text =>
      let sign := if text.head? = some '+' ∨ text.head? = some '-' then text.take 1 else []
      let digits := (text.drop sign.length).takeWhile Char.isDigit
      if digits = [] then 0
      else
        match atoi (sign ++ digits) with
        | (n, none) => n
        | (_, some _) => 0

/-- `semverParts` of the bus. -/
def semverParts (v : String) : ℤ × ℤ × ℤ :=
  let v := trimPrefix (trimSpaceChars v.toList) ['v']
  let v := (v.splitOn '-').headD []
  let out := (v.splitOn '.').map scanOrZero
  (out.getD 0 0, out.getD 1 0, out.getD 2 0)

/-- `compareSemver` of the bus. -/
def compareSemver (a b : String) : ℤ :=
  let ap := semverParts a
  let bp := semverParts b
  if ap.1 > bp.1 then 1
  else if ap.1 < bp.1 then -1
  else if ap.2.1 > bp.2.1 then 1
  else if ap.2.1 < bp.2.1 then -1
  else if ap.2.2 > bp.2.2 then 1
  else if ap.2.2 < bp.2.2 then -1
  else 0

/-- The manifest check accepts the version. -/
def AcceptedVersion (v : String) : Prop :=
  ∃ m : Plugin.InstallManifest, m.version = v ∧ Plugin.validateManifest m = none

/-- The dot-separated parts before the first dash. -/
def versionParts (v : String) : List (List Char) :=
  (((trimPrefix (trimSpaceChars v.toList) ['v']).splitOn '-').headD []).splitOn '.'

/-- The number of a run of digits. -/
def decimal (n : ℕ) (digits : List Char) : ℕ :=
  digits.foldl (fun n c => n * 10 + (c.toNat - '0'.toNat)) n

/-- Blanks, at most one plus sign and digits at the front of a part. -/
structure Leads (part blanks digits rest : List Char) : Prop where
  parts : part = blanks ++ digits ++ rest ∨ part = blanks ++ '+' :: (digits ++ rest)
  blank : ∀ c ∈ blanks, isSpace c = true ∧ c ≠ '\n'
  digits_ne_nil : digits ≠ []
  digit : ∀ c ∈ digits, c.isDigit = true
  ends : ¬ rest.head?.any Char.isDigit

/-- A part is read alike when it is a number that fits, or does not begin with
one that is positive and fits. `Atoi` looks no further than to where a number
is too big for 64 bits. -/
def ReadAlike (part : List Char) : Prop :=
  ∀ blanks digits rest, Leads part blanks digits rest →
    if blanks = [] ∧ rest = [] then decimal 0 digits < 2 ^ 63
    else decimal 0 digits = 0 ∨
      2 ^ 63 ≤ decimal 0 digits ∧ (blanks = [] → decimal 0 digits < 2 ^ 64)

/-- The parts a comparison looks at are read alike. -/
def Alike (v : String) : Prop := ∀ part ∈ (versionParts v).take 3, ReadAlike part

/-- The two comparisons give results of the same sign. -/
def SameSign (a b : String) : Prop :=
  (Plugin.compareSemver a b).sign = (compareSemver a b).sign

/-! ## One part -/

theorem le_decimal (n : ℕ) (ds : List Char) : n ≤ decimal n ds := by
  induction ds generalizing n with
  | nil => exact le_rfl
  | cons d ds ih =>
      have h := ih (n * 10 + (d.toNat - '0'.toNat))
      rw [decimal, List.foldl_cons]
      rw [decimal] at h
      omega

theorem digit?_of_isDigit {c : Char} (h : c.isDigit = true) :
    digit? c = some (c.toNat - '0'.toNat) := by
  obtain ⟨h0, h9⟩ := Char.isDigit_iff_toNat.mp h
  exact if_pos ⟨h0, h9⟩

theorem digit?_of_not_isDigit {c : Char} (h : ¬ c.isDigit = true) : digit? c = none :=
  if_neg fun hrange => h (Char.isDigit_iff_toNat.mpr ⟨hrange.1, hrange.2⟩)

/-- The loop over digits, which stops where the number is too big. -/
theorem parseUintLoop_digits {n : ℕ} (hn : n < 2 ^ 64) {ds : List Char}
    (hds : ∀ c ∈ ds, c.isDigit = true) (rest : List Char) :
    parseUintLoop n (ds ++ rest) =
      if decimal n ds < 2 ^ 64 then parseUintLoop (decimal n ds) rest else .error .range := by
  induction ds generalizing n with
  | nil => rw [List.nil_append, decimal, List.foldl_nil, if_pos hn]
  | cons d ds ih =>
      rw [List.forall_mem_cons] at hds
      rw [List.cons_append, parseUintLoop]
      simp only [digit?_of_isDigit hds.1]
      by_cases hfit : n * 10 + (d.toNat - '0'.toNat) < 2 ^ 64
      · rw [if_pos hfit, ih hfit hds.2]
        rfl
      · have hle := le_decimal (n * 10 + (d.toNat - '0'.toNat)) ds
        have hbig : ¬ decimal n (d :: ds) < 2 ^ 64 := fun hlt => hfit (lt_of_le_of_lt hle hlt)
        rw [if_neg hfit, if_neg hbig]

theorem decimal_toDigits {n : ℕ} (h : n < 2 ^ 64) : decimal 0 (Nat.toDigits 10 n) = n := by
  have hread := parseUintLoop_digits (by decide : 0 < 2 ^ 64)
    (fun c hc => isDigit_of_mem_toDigits (n := n) hc) []
  rw [List.append_nil, parseUintLoop_toDigits h] at hread
  split_ifs at hread
  exact (Except.ok.inj hread).symm

theorem takeWhile_digits {digits rest : List Char} (hdigits : ∀ c ∈ digits, c.isDigit = true)
    (hends : ¬ rest.head?.any Char.isDigit) : (digits ++ rest).takeWhile Char.isDigit = digits := by
  rw [List.takeWhile_append_of_pos hdigits]
  cases rest with
  | nil => simp
  | cons c rest => rw [List.takeWhile_cons_of_neg (by simpa using hends), List.append_nil]

/-- `Atoi` of a text that does not begin with digits behind its sign. -/
theorem atoiOrZero_of_no_digit {text body : List Char} (hsign : splitSign text = (false, body))
    (hbody : ¬ body.head?.any Char.isDigit) : Plugin.atoiOrZero text = 0 := by
  rw [Plugin.atoiOrZero, atoi, hsign]
  cases body with
  | nil => rfl
  | cons c body =>
      have hc : ¬ c.isDigit = true := by simpa using hbody
      simp only [reduceCtorEq, if_false, parseUintLoop, digit?_of_not_isDigit hc]

theorem atoiOrZero_of_digits {text digits rest : List Char}
    (hsign : splitSign text = (false, digits ++ rest)) (hne : digits ≠ [])
    (hdigits : ∀ c ∈ digits, c.isDigit = true) (hends : ¬ rest.head?.any Char.isDigit) :
    Plugin.atoiOrZero text =
      if rest = [] then (if decimal 0 digits < 2 ^ 63 then (decimal 0 digits : ℤ) else 2 ^ 63 - 1)
      else if decimal 0 digits < 2 ^ 64 then 0 else 2 ^ 63 - 1 := by
  have hread := parseUintLoop_digits (by decide : 0 < 2 ^ 64) hdigits rest
  have hbody : digits ++ rest ≠ [] := by simp [hne]
  rw [Plugin.atoiOrZero, atoi, hsign]
  simp only [if_neg hbody, hread]
  generalize decimal 0 digits = n
  cases rest with
  | nil =>
      simp only [parseUintLoop, if_true]
      split_ifs <;> grind
  | cons c rest =>
      have hc : ¬ c.isDigit = true := by simpa using hends
      simp only [reduceCtorEq, if_false, parseUintLoop, digit?_of_not_isDigit hc]
      split_ifs <;> grind

theorem splitSign_of_no_sign {text : List Char} (h : ∀ c, text.head? = some c → c ≠ '+' ∧ c ≠ '-') :
    splitSign text = (false, text) := by
  cases text with
  | nil => rfl
  | cons c text =>
      have hc := h c rfl
      rw [splitSign]
      · rintro cs ⟨⟩
        exact hc.1 rfl
      · rintro cs ⟨⟩
        exact hc.2 rfl

/-- `Atoi` takes no blank. -/
theorem atoiOrZero_of_blank {part : List Char} (h : part.head?.any isSpace) :
    Plugin.atoiOrZero part = 0 := by
  cases part with
  | nil => rfl
  | cons c part =>
      have hc : isSpace c = true := by simpa using h
      have hsign : splitSign (c :: part) = (false, c :: part) := by
        refine splitSign_of_no_sign fun d hd => ?_
        cases hd
        constructor <;> rintro rfl <;> exact absurd hc (by decide)
      refine atoiOrZero_of_no_digit hsign ?_
      intro hdigit
      rw [isSpace_of_isDigit (by simpa using hdigit)] at hc
      cases hc

/-- What `Sscanf` skips in front of a number. -/
theorem skipSpace_spec (part : List Char) :
    (skipSpace part = none ∧ part.head?.any isSpace) ∨
      ∃ blanks text, part = blanks ++ text ∧ skipSpace part = some text ∧
        (∀ c ∈ blanks, isSpace c = true ∧ c ≠ '\n') ∧ ¬ text.head?.any isSpace := by
  induction part with
  | nil => exact .inr ⟨[], [], rfl, rfl, by simp, by simp⟩
  | cons c cs ih =>
      rw [skipSpace]
      split_ifs with hline hblank
      · exact .inl ⟨rfl, by simp [hline]; decide⟩
      · rcases ih with ⟨hnone, -⟩ | ⟨blanks, text, rfl, hsome, hblanks, htext⟩
        · exact .inl ⟨hnone, by simp [hblank]⟩
        · exact .inr ⟨c :: blanks, text, rfl, hsome,
            List.forall_mem_cons.mpr ⟨⟨hblank, hline⟩, hblanks⟩, htext⟩
      · exact .inr ⟨[], c :: cs, rfl, rfl, by simp, by simpa using hblank⟩

theorem skipSpace_blanks {blanks text : List Char}
    (hblanks : ∀ c ∈ blanks, isSpace c = true ∧ c ≠ '\n') (htext : ¬ text.head?.any isSpace) :
    skipSpace (blanks ++ text) = some text := by
  induction blanks with
  | nil =>
      cases text with
      | nil => rfl
      | cons c text =>
          have hc : ¬ isSpace c = true := by simpa using htext
          have hline : c ≠ '\n' := by
            rintro rfl
            exact hc (by decide)
          rw [List.nil_append, skipSpace, if_neg hline, if_neg hc]
  | cons c blanks ih =>
      rw [List.forall_mem_cons] at hblanks
      rw [List.cons_append, skipSpace, if_neg hblanks.1.2, if_pos hblanks.1.1, ih hblanks.2]

theorem not_space_of_digits {digits rest : List Char} (hne : digits ≠ [])
    (hdigits : ∀ c ∈ digits, c.isDigit = true) : ¬ (digits ++ rest).head?.any isSpace := by
  cases digits with
  | nil => exact absurd rfl hne
  | cons d digits => simp [isSpace_of_isDigit (hdigits d List.mem_cons_self)]

/-- The number the bus reads where a number stands. -/
theorem scanOrZero_of_leads {part blanks digits rest : List Char}
    (h : Leads part blanks digits rest) :
    scanOrZero part = if decimal 0 digits < 2 ^ 63 then (decimal 0 digits : ℤ) else 0 := by
  have hread := parseUintLoop_digits (by decide : 0 < 2 ^ 64) h.digit []
  rw [List.append_nil] at hread
  have hatoi : ∀ sign, splitSign (sign ++ digits) = (false, digits) →
      (match atoi (sign ++ digits) with
        | (n, none) => n
        | (_, some _) => 0) =
          if decimal 0 digits < 2 ^ 63 then (decimal 0 digits : ℤ) else 0 := by
    intro sign hsign
    simp only [atoi, hsign, if_neg h.digits_ne_nil, hread]
    generalize decimal 0 digits = n
    by_cases hfit : n < 2 ^ 64
    · simp only [if_pos hfit, parseUintLoop]
      grind
    · simp only [if_neg hfit]
      grind
  have htake := takeWhile_digits h.digit h.ends
  rcases h.parts with hpart | hpart
  · have hspace := @not_space_of_digits _ rest h.digits_ne_nil h.digit
    have hnosign : ¬ ((digits ++ rest).head? = some '+' ∨ (digits ++ rest).head? = some '-') := by
      have hdigit := h.digit
      cases digits with
      | nil => exact absurd rfl h.digits_ne_nil
      | cons d digits =>
          have hd := hdigit d List.mem_cons_self
          rintro (hd' | hd') <;> cases hd' <;> exact absurd hd (by decide)
    rw [hpart, List.append_assoc, scanOrZero, skipSpace_blanks h.blank hspace]
    simp only [if_neg hnosign, List.length_nil, List.drop_zero, htake, if_neg h.digits_ne_nil]
    exact hatoi [] (splitSign_of_isDigit h.digit)
  · rw [hpart, scanOrZero, skipSpace_blanks h.blank (by simp; decide)]
    simp only [List.head?_cons, true_or, if_true, List.take_succ_cons, List.take_zero,
      List.length_singleton, List.drop_succ_cons, List.drop_zero, htake, if_neg h.digits_ne_nil]
    exact hatoi ['+'] rfl

/-- The number the service reads there. -/
theorem atoiOrZero_of_leads {part blanks digits rest : List Char}
    (h : Leads part blanks digits rest) :
    Plugin.atoiOrZero part =
      if blanks ≠ [] then 0
      else if rest = [] then
        (if decimal 0 digits < 2 ^ 63 then (decimal 0 digits : ℤ) else 2 ^ 63 - 1)
      else if decimal 0 digits < 2 ^ 64 then 0 else 2 ^ 63 - 1 := by
  by_cases hblanks : blanks = []
  · rw [if_neg (by simpa using hblanks)]
    subst hblanks
    rcases h.parts with hpart | hpart
    · have hsign : splitSign part = (false, digits ++ rest) := by
        have hdigit := h.digit
        rw [hpart, List.nil_append]
        refine splitSign_of_no_sign fun c hc => ?_
        cases digits with
        | nil => exact absurd rfl h.digits_ne_nil
        | cons d digits =>
            have hd := hdigit d List.mem_cons_self
            cases hc
            constructor <;> rintro rfl <;> exact absurd hd (by decide)
      exact atoiOrZero_of_digits hsign h.digits_ne_nil h.digit h.ends
    · have hsign : splitSign part = (false, digits ++ rest) := by
        rw [hpart]
        rfl
      exact atoiOrZero_of_digits hsign h.digits_ne_nil h.digit h.ends
  · rw [if_pos hblanks]
    apply atoiOrZero_of_blank
    cases blanks with
    | nil => exact absurd rfl hblanks
    | cons c blanks =>
        have hc := (h.blank c List.mem_cons_self).1
        rcases h.parts with rfl | rfl <;> simp [hc]

/-- Where no number stands, both read zero. -/
theorem leads_or_zero {part : List Char} (hdash : '-' ∉ part) :
    (∃ blanks digits rest, Leads part blanks digits rest) ∨
      Plugin.atoiOrZero part = 0 ∧ scanOrZero part = 0 := by
  rcases skipSpace_spec part with ⟨hnone, hblank⟩ | ⟨blanks, text, rfl, hskip, hblanks, htext⟩
  · exact .inr ⟨atoiOrZero_of_blank hblank, by rw [scanOrZero, hnone]⟩
  · obtain ⟨sign, body, rfl, hsign, hbody⟩ : ∃ sign body, text = sign ++ body ∧
        (sign = [] ∨ sign = ['+']) ∧
          (sign = [] → ∀ c, body.head? = some c → c ≠ '+' ∧ c ≠ '-') := by
      cases text with
      | nil => exact ⟨[], [], rfl, .inl rfl, by simp⟩
      | cons c text =>
          by_cases hc : c = '+'
          · exact ⟨['+'], text, by rw [hc]; rfl, .inr rfl, by simp⟩
          · refine ⟨[], c :: text, rfl, .inl rfl, fun _ d hd => ?_⟩
            cases hd
            refine ⟨hc, ?_⟩
            rintro rfl
            simp at hdash
    by_cases hdigits : body.takeWhile Char.isDigit = []
    · right
      have hhead : ¬ body.head?.any Char.isDigit := by
        cases body with
        | nil => simp
        | cons c body =>
            intro hc
            rw [List.takeWhile_cons_of_pos (by simpa using hc)] at hdigits
            cases hdigits
      constructor
      · cases blanks with
        | nil =>
            rcases hsign with rfl | rfl
            · exact atoiOrZero_of_no_digit (splitSign_of_no_sign (hbody rfl)) hhead
            · exact atoiOrZero_of_no_digit rfl hhead
        | cons c blanks =>
            exact atoiOrZero_of_blank (by simp [(hblanks c List.mem_cons_self).1])
      · rw [scanOrZero, hskip]
        rcases hsign with rfl | rfl
        · have hnosign : ¬ (body.head? = some '+' ∨ body.head? = some '-') := by
            rintro (hc | hc)
            · exact (hbody rfl _ hc).1 rfl
            · exact (hbody rfl _ hc).2 rfl
          simp [hnosign, hdigits]
        · simp [hdigits]
    · left
      refine ⟨blanks, body.takeWhile Char.isDigit, body.dropWhile Char.isDigit, ?_, hblanks,
        hdigits, fun c hc => List.mem_takeWhile_imp hc, ?_⟩
      · rw [List.append_assoc, List.takeWhile_append_dropWhile]
        rcases hsign with rfl | rfl
        · exact .inl rfl
        · exact .inr rfl
      · intro hhead
        cases hrest : body.dropWhile Char.isDigit with
        | nil => simp [hrest] at hhead
        | cons c rest =>
            have hnot := List.head_dropWhile_not Char.isDigit (l := body) (by simp [hrest])
            simp only [hrest, List.head_cons] at hnot
            simp [hrest, hnot] at hhead

/-- A part that both read alike. -/
theorem readAlike_iff {part : List Char} (hdash : '-' ∉ part) :
    ReadAlike part ↔ Plugin.atoiOrZero part = scanOrZero part := by
  have hvalues : ∀ {blanks digits rest : List Char}, Leads part blanks digits rest →
      ((if blanks = [] ∧ rest = [] then decimal 0 digits < 2 ^ 63
        else decimal 0 digits = 0 ∨
          2 ^ 63 ≤ decimal 0 digits ∧ (blanks = [] → decimal 0 digits < 2 ^ 64)) ↔
        Plugin.atoiOrZero part = scanOrZero part) := by
    intro blanks digits rest h
    rw [atoiOrZero_of_leads h, scanOrZero_of_leads h]
    generalize decimal 0 digits = n
    by_cases hblanks : blanks = [] <;> by_cases hrest : rest = [] <;>
      simp only [hblanks, hrest, ne_eq, not_true_eq_false, not_false_eq_true, if_true, if_false,
        and_self, and_true, and_false, true_implies, false_implies] <;> grind
  constructor
  · intro h
    rcases leads_or_zero hdash with ⟨blanks, digits, rest, hleads⟩ | ⟨hservice, hbus⟩
    · exact (hvalues hleads).mp (h blanks digits rest hleads)
    · rw [hservice, hbus]
  · exact fun h blanks digits rest hleads => (hvalues hleads).mpr h

/-! ## Versions -/

theorem dash_not_mem_part {v : String} {part : List Char} (hpart : part ∈ versionParts v) :
    '-' ∉ part := by
  intro hmem
  have hfirst := mem_of_mem_splitOn hpart hmem
  cases hsplit : (trimPrefix (trimSpaceChars v.toList) ['v']).splitOn '-' with
  | nil => exact List.splitOn_ne_nil _ _ hsplit
  | cons first rest =>
      rw [hsplit, List.headD_cons] at hfirst
      exact not_mem_of_mem_splitOn (hsplit ▸ List.mem_cons_self : first ∈ _) hfirst

theorem service_semverParts (v : String) :
    Plugin.semverParts v = (((versionParts v).map Plugin.atoiOrZero).getD 0 0,
      ((versionParts v).map Plugin.atoiOrZero).getD 1 0,
      ((versionParts v).map Plugin.atoiOrZero).getD 2 0) := rfl

theorem bus_semverParts (v : String) :
    semverParts v = (((versionParts v).map scanOrZero).getD 0 0,
      ((versionParts v).map scanOrZero).getD 1 0,
      ((versionParts v).map scanOrZero).getD 2 0) := rfl

/-- Both read a version alike if they read its parts alike. -/
theorem semverParts_eq_iff (v : String) : semverParts v = Plugin.semverParts v ↔ Alike v := by
  have halike : Alike v ↔
      ∀ part ∈ (versionParts v).take 3, scanOrZero part = Plugin.atoiOrZero part :=
    forall₂_congr fun part hpart =>
      (readAlike_iff (dash_not_mem_part (List.mem_of_mem_take hpart))).trans eq_comm
  rw [halike, service_semverParts, bus_semverParts]
  match versionParts v with
  | [] => simp
  | [a] => simp
  | [a, b] => simp
  | a :: b :: c :: rest => simp

theorem compareSemver_of_alike {a b : String} (ha : Alike a) (hb : Alike b) :
    compareSemver a b = Plugin.compareSemver a b := by
  rw [compareSemver, (semverParts_eq_iff a).mpr ha,
    (semverParts_eq_iff b).mpr hb]
  rfl

theorem compareSemver_eq_zero_iff {a b : String} :
    compareSemver a b = 0 ↔ semverParts a = semverParts b := by
  simp only [compareSemver, Prod.ext_iff]
  grind

theorem service_compareSemver_eq_zero {a b : String}
    (h : Plugin.semverParts a = Plugin.semverParts b) : Plugin.compareSemver a b = 0 := by
  simp [Plugin.compareSemver, h]

/-- Three numbers as a version. -/
def printParts (parts : ℤ × ℤ × ℤ) : List Char :=
  Nat.toDigits 10 parts.1.toNat ++ '.' ::
    (Nat.toDigits 10 parts.2.1.toNat ++ '.' :: Nat.toDigits 10 parts.2.2.toNat)

theorem trimSpaceChars_printParts (parts : ℤ × ℤ × ℤ) :
    trimSpaceChars (printParts parts) = printParts parts := by
  refine trimSpaceChars_of_not_space fun c hc => ?_
  simp only [printParts, List.mem_append, List.mem_cons] at hc
  rcases hc with hc | rfl | hc | rfl | hc
  · exact isSpace_of_isDigit (isDigit_of_mem_toDigits hc)
  · decide
  · exact isSpace_of_isDigit (isDigit_of_mem_toDigits hc)
  · decide
  · exact isSpace_of_isDigit (isDigit_of_mem_toDigits hc)

theorem versionParts_printParts (parts : ℤ × ℤ × ℤ) :
    versionParts (String.ofList (printParts parts)) =
      [Nat.toDigits 10 parts.1.toNat, Nat.toDigits 10 parts.2.1.toNat,
        Nat.toDigits 10 parts.2.2.toNat] := by
  have hprefix : trimPrefix (printParts parts) ['v'] = printParts parts := by
    refine if_neg fun hpre => ?_
    have hfirst : (printParts parts).head? = some 'v' := by
      obtain ⟨rest, hrest⟩ := hpre
      rw [← hrest]
      rfl
    have hdigit := fun c hc => isDigit_of_mem_toDigits (n := parts.1.toNat) (c := c) hc
    have hne : Nat.toDigits 10 parts.1.toNat ≠ [] := Nat.toDigits_ne_nil
    rw [printParts] at hfirst
    generalize Nat.toDigits 10 parts.1.toNat = digits at hfirst hdigit hne
    cases digits with
    | nil => exact hne rfl
    | cons d digits =>
        cases hfirst
        exact absurd (hdigit 'v' List.mem_cons_self) (by decide)
  have hdash : '-' ∉ printParts parts := by
    intro hmem
    have hno : ∀ n : ℕ, '-' ∉ Nat.toDigits 10 n := fun n hc =>
      absurd (isDigit_of_mem_toDigits hc) (by decide)
    simp [printParts, hno] at hmem
  have hdot : ∀ n : ℕ, '.' ∉ Nat.toDigits 10 n := fun n hc =>
    absurd (isDigit_of_mem_toDigits hc) (by decide)
  have hjoin : printParts parts = ['.'].intercalate [Nat.toDigits 10 parts.1.toNat,
      Nat.toDigits 10 parts.2.1.toNat, Nat.toDigits 10 parts.2.2.toNat] := by
    simp [printParts, List.intercalate]
  rw [versionParts, String.toList_ofList, trimSpaceChars_printParts, hprefix,
    List.splitOn_eq_singleton hdash, List.headD_cons, hjoin]
  refine List.splitOn_intercalate '.' (fun part hpart => ?_) (by simp)
  simp only [List.mem_cons, List.not_mem_nil, or_false] at hpart
  rcases hpart with rfl | rfl | rfl <;> exact hdot _

/-- A number that is not negative and fits. -/
def Fits (n : ℤ) : Prop := 0 ≤ n ∧ n < 2 ^ 63

theorem fits_zero : Fits 0 := ⟨by decide, by decide⟩

theorem fits_getD {ns : List ℤ} (h : ∀ n ∈ ns, Fits n) (i : ℕ) : Fits (ns.getD i 0) := by
  rw [List.getD_eq_getElem?_getD]
  cases hi : ns[i]? with
  | none => exact fits_zero
  | some n => exact h n (List.mem_of_getElem? hi)

theorem fits_atoiOrZero {part : List Char} (hdash : '-' ∉ part) : Fits (Plugin.atoiOrZero part) := by
  rcases leads_or_zero hdash with ⟨blanks, digits, rest, hleads⟩ | ⟨hzero, -⟩
  · rw [atoiOrZero_of_leads hleads, Fits]
    generalize decimal 0 digits = n
    split_ifs <;> omega
  · rw [hzero]
    exact fits_zero

theorem fits_service_semverParts (v : String) :
    Fits (Plugin.semverParts v).1 ∧ Fits (Plugin.semverParts v).2.1 ∧
      Fits (Plugin.semverParts v).2.2 := by
  have hparts : ∀ n ∈ (versionParts v).map Plugin.atoiOrZero, Fits n := by
    intro n hn
    obtain ⟨part, hpart, rfl⟩ := List.mem_map.mp hn
    exact fits_atoiOrZero (dash_not_mem_part hpart)
  rw [service_semverParts]
  dsimp only
  exact ⟨fits_getD hparts 0, fits_getD hparts 1, fits_getD hparts 2⟩

theorem atoiOrZero_toDigits {n : ℕ} (h : n < 2 ^ 63) :
    Plugin.atoiOrZero (Nat.toDigits 10 n) = n := by
  rw [Plugin.atoiOrZero, atoi_toDigits h]

theorem scanOrZero_toDigits {n : ℕ} (h : n < 2 ^ 63) : scanOrZero (Nat.toDigits 10 n) = n := by
  have hleads : Leads (Nat.toDigits 10 n) [] (Nat.toDigits 10 n) [] :=
    ⟨.inl (by simp), by simp, Nat.toDigits_ne_nil, fun c hc => isDigit_of_mem_toDigits hc, by simp⟩
  rw [scanOrZero_of_leads hleads, decimal_toDigits (by omega), if_pos h]

/-- Both read printed numbers back. -/
theorem semverParts_printParts {parts : ℤ × ℤ × ℤ}
    (h : Fits parts.1 ∧ Fits parts.2.1 ∧ Fits parts.2.2) :
    Plugin.semverParts (String.ofList (printParts parts)) = parts ∧
      semverParts (String.ofList (printParts parts)) = parts := by
  obtain ⟨x, y, z⟩ := parts
  simp only [Fits] at h
  obtain ⟨⟨hx, hx'⟩, ⟨hy, hy'⟩, ⟨hz, hz'⟩⟩ := h
  obtain ⟨x, rfl⟩ := Int.eq_ofNat_of_zero_le hx
  obtain ⟨y, rfl⟩ := Int.eq_ofNat_of_zero_le hy
  obtain ⟨z, rfl⟩ := Int.eq_ofNat_of_zero_le hz
  have hx : x < 2 ^ 63 := by omega
  have hy : y < 2 ^ 63 := by omega
  have hz : z < 2 ^ 63 := by omega
  rw [service_semverParts, bus_semverParts, versionParts_printParts]
  simp only [Int.toNat_natCast, List.map_cons, List.map_nil, List.getD_cons_zero,
    List.getD_cons_succ, atoiOrZero_toDigits hx, atoiOrZero_toDigits hy, atoiOrZero_toDigits hz,
    scanOrZero_toDigits hx, scanOrZero_toDigits hy, scanOrZero_toDigits hz, and_self]

/-- A manifest that asks for nothing. -/
def plainManifest (version : String) : Plugin.InstallManifest where
  tier := 0
  apiVersion := ""
  minGoSiteVersion := ""
  rpcVersion := ""
  permissions := []
  hooks := []
  id := "acme/sample"
  name := "sample"
  version := version
  configVersion := ""
  hookIsolation := ""
  sidebar := []
  validate := ⟨"", ""⟩
  artifactSHA256 := ""
  signed := false

theorem acceptedVersion_of_ne_blank {v : String} (h : trimSpace v ≠ "") : AcceptedVersion v := by
  refine ⟨plainManifest v, rfl, ?_⟩
  have hid : Plugin.matchesPluginID "acme/sample" = true := by decide
  have hname : trimSpace "sample" ≠ "" := by decide
  simp [Plugin.validateManifest, plainManifest, hid, hname, h]

theorem acceptedVersion_printParts (parts : ℤ × ℤ × ℤ) :
    AcceptedVersion (String.ofList (printParts parts)) := by
  apply acceptedVersion_of_ne_blank
  rw [trimSpace, String.toList_ofList, trimSpaceChars_printParts]
  intro hempty
  have hnil := congrArg String.toList hempty
  simp [printParts] at hnil

/-- Versions whose parts are read alike are ordered alike, and a version is ordered
alike against all of these only if it is one of them. -/
theorem compareSemver_agrees (a : String) :
    (∀ b, Alike a → Alike b → SameSign a b) ∧
      ((∀ b, AcceptedVersion b → Alike b → SameSign a b) ↔ Alike a) := by
  have hagree : ∀ b, Alike a → Alike b → SameSign a b := by
    intro b ha hb
    rw [SameSign, compareSemver_of_alike ha hb]
  refine ⟨hagree, ⟨fun h => ?_, fun ha b _ hb => hagree b ha hb⟩⟩
  obtain ⟨hservice, hbus⟩ := semverParts_printParts (fits_service_semverParts a)
  have hsame := h _ (acceptedVersion_printParts _)
    ((semverParts_eq_iff _).mp (hbus.trans hservice.symm))
  rw [SameSign, service_compareSemver_eq_zero hservice.symm, Int.sign_zero, eq_comm,
    Int.sign_eq_zero_iff_zero, compareSemver_eq_zero_iff, hbus] at hsame
  exact (semverParts_eq_iff a).mp hsame

/-- A build suffix without a dash is a part of the number for the bus only. -/
theorem compareSemver_disagrees :
    ¬ ∀ a b, AcceptedVersion a → AcceptedVersion b → SameSign a b := by
  intro h
  exact absurd (h "1.0.1+5" "1.0.0" (acceptedVersion_of_ne_blank (by decide))
    (acceptedVersion_of_ne_blank (by decide))) (by unfold SameSign; decide)

end GoSite.Hookbus
