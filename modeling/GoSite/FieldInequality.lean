import GoSite.FilterEval
import GoSite.QuotedSearches

/-!
# Equality and inequality of a field

`f=v` and `f!=v` take the same ways through the parser. It makes a wildcard of an
equality with a star, and an expression of either sign between slashes. The
evaluator has a contains test for an equality, and compares whole texts for an
inequality.
-/
namespace GoSite.Observability
open BooleanTrees GoStrings

variable {lib : SearchLib}

/-! ## Text between delimiters -/

/-- No delimiter in the text ends it, and no backslash at its end hides one. -/
@[grind] def Inside (delim : UInt8) : Bool → List UInt8 → Prop
  | escaped, [] => escaped = false
  | true, _ :: cs => Inside delim false cs
  | false, c :: cs =>
      if c = '\\'.toUInt8 then Inside delim true cs else c ≠ delim ∧ Inside delim false cs

instance decidableInside (delim : UInt8) : ∀ escaped cs, Decidable (Inside delim escaped cs)
  | escaped, [] => inferInstanceAs (Decidable (escaped = false))
  | true, _ :: cs => decidableInside delim false cs
  | false, c :: cs =>
      if h : c = '\\'.toUInt8 then
        have := decidableInside delim true cs
        decidable_of_iff (Inside delim true cs) (by rw [Inside, if_pos h])
      else
        have := decidableInside delim false cs
        decidable_of_iff (c ≠ delim ∧ Inside delim false cs) (by rw [Inside, if_neg h])

theorem scanTo_inside {delim : UInt8} (hdelim : delim ≠ '\\'.toUInt8) {escaped : Bool}
    {text : List UInt8} (h : Inside delim escaped text) (rest : List UInt8) :
    scanTo delim escaped (text ++ delim :: rest) = some (text, rest) := by
  induction text generalizing escaped with
  | nil =>
      obtain rfl : escaped = false := h
      rw [List.nil_append, scanTo, if_neg hdelim, if_pos rfl]
  | cons c text ih =>
      cases escaped with
      | true => rw [List.cons_append, scanTo, ih h]; rfl
      | false =>
          rw [Inside] at h
          rw [List.cons_append, scanTo]
          split_ifs at h ⊢ with hback hc
          · rw [ih h]; rfl
          · exact absurd hc h.1
          · rw [ih h.2]; rfl

/-- The pipe splitter leaves a quote or an expression where the lexer does. -/
theorem passesPipes_inside {delim : UInt8} {mode : SplitMode} {text : List UInt8}
    (hmode : delim = '"'.toUInt8 ∧ mode = .quote ∨ delim = '/'.toUInt8 ∧ mode = .regex)
    (h : Inside delim false text) : PassesPipes (delim :: (text ++ [delim])) := by
  have hbytes : '"'.toUInt8 ≠ '\\'.toUInt8 ∧ '/'.toUInt8 ≠ '\\'.toUInt8 ∧
      '/'.toUInt8 ≠ '"'.toUInt8 := by decide
  have hloop : ∀ escaped (text : List UInt8), Inside delim escaped text → ∀ buf rest,
      splitPipesLoop mode escaped buf (text ++ delim :: rest) =
        splitPipesLoop .plain false (buf ++ text ++ [delim]) rest := by
    intro escaped text
    induction text generalizing escaped with
    | nil =>
        intro htext buf rest
        obtain rfl : escaped = false := htext
        rcases hmode with ⟨rfl, rfl⟩ | ⟨rfl, rfl⟩ <;> simp [splitPipesLoop, hbytes]
    | cons c text ih =>
        intro htext buf rest
        cases escaped with
        | true =>
            rw [Inside] at htext
            have hnext := ih false htext (buf ++ [c]) rest
            rcases hmode with ⟨rfl, rfl⟩ | ⟨rfl, rfl⟩ <;>
              rw [List.cons_append, splitPipesLoop, hnext] <;> simp
        | false =>
            rw [Inside] at htext
            split_ifs at htext with hback
            · have hnext := ih true htext (buf ++ [c]) rest
              rcases hmode with ⟨rfl, rfl⟩ | ⟨rfl, rfl⟩ <;>
                rw [List.cons_append, splitPipesLoop, if_pos hback, hnext] <;> simp
            · have hnext := ih false htext.2 (buf ++ [c]) rest
              rcases hmode with ⟨rfl, rfl⟩ | ⟨rfl, rfl⟩ <;>
                rw [List.cons_append, splitPipesLoop, if_neg hback, if_neg htext.1, hnext] <;>
                simp
  intro buf rest
  have hnext := hloop false text h (buf ++ [delim]) rest
  rcases hmode with ⟨rfl, rfl⟩ | ⟨rfl, rfl⟩
  · rw [List.cons_append, splitPipesLoop, if_pos rfl, List.append_assoc, List.singleton_append,
      hnext]
    simp
  · rw [List.cons_append, splitPipesLoop, if_neg hbytes.2.2, if_pos rfl, List.append_assoc,
      List.singleton_append, hnext]
    simp

/-! ## Names and signs -/

/-- The two signs. -/
inductive EqualitySign where
  | equal
  | unequal
  deriving Repr, DecidableEq

def EqualitySign.text : EqualitySign → List Char
  | .equal => ['=']
  | .unequal => ['!', '=']

def EqualitySign.op : EqualitySign → Op
  | .equal => .eq
  | .unequal => .ne

/-- A name whose lower case the parser accepts, and which the lexer does not cut. -/
structure FieldName (lib : SearchLib) (f : List Char) : Prop where
  valid : isValidFieldName lib (f.map lib.toLower) = true
  spaceless : ∀ c ∈ f, isSpace c = false
  uncut : ∀ b ∈ encode (String.ofList f), isCutByte b = false

/-- A value without quotes or slashes: one word of the lexer. -/
structure BareValue (v : String) : Prop where
  nonempty : v ≠ ""
  trimmed : trimSpaceChars v.toList = v.toList
  bytes : ∀ b ∈ encode v, endsWord b = false ∧ b ≠ '|'.toUInt8

section
variable {f : List Char}

theorem FieldName.ne_nil (h : FieldName lib f) : f ≠ [] := by
  rintro rfl
  have hvalid := h.valid
  simp [isValidFieldName] at hvalid

/-- ASCII characters of a name are those of names. -/
theorem FieldName.fieldChar (h : FieldName lib f) {c : Char} (hc : c ∈ f) (hascii : c.toNat < 128) :
    isFieldChar c = true := by
  have hvalid := h.valid
  simp only [isValidFieldName, Bool.and_eq_true, List.all_eq_true] at hvalid
  have hlower := hvalid.1.2 _ (List.mem_map_of_mem hc)
  rw [lib.toLower_ascii c hascii] at hlower
  have hall : ∀ n < 128, (Char.ofNat n).toLower.toNat < 128 ∧
      (isFieldChar (Char.ofNat n).toLower = true → isFieldChar (Char.ofNat n) = true) := by decide
  have hchar := hall c.toNat hascii
  rw [Char.ofNat_toNat] at hchar
  rw [lib.isLetter_ascii _ hchar.1, lib.isDigit_ascii _ hchar.1] at hlower
  exact hchar.2 hlower

theorem FieldName.not_sign (h : FieldName lib f) {c : Char} (hc : c ∈ ['>', '<', '!', '=']) :
    c ∉ f := by
  intro hmem
  have hall : ∀ c ∈ ['>', '<', '!', '='], c.toNat < 128 ∧ isFieldChar c = false := by decide
  have hchar := h.fieldChar hmem (hall c hc).1
  rw [(hall c hc).2] at hchar
  cases hchar

theorem FieldName.bytes (h : FieldName lib f) :
    ∀ b ∈ encode (String.ofList f),
      endsWord b = false ∧ b ≠ '"'.toUInt8 ∧ b ≠ '/'.toUInt8 ∧ b ≠ '|'.toUInt8 := by
  intro b hb
  have hcut := h.uncut b hb
  rw [encode, String.toList_ofList, List.mem_flatMap] at hb
  obtain ⟨c, hc, hbc⟩ := hb
  by_cases hascii : c.toNat < 128
  · rw [encodeChar_ascii hascii, List.mem_singleton] at hbc
    have hall := fieldChar_ascii c.toNat hascii
    rw [Char.ofNat_toNat] at hall
    obtain ⟨-, -, -, -, -, ⟨⟨hl, hr, hq, hs⟩, hpipe, -⟩, hspace⟩ := hall (h.fieldChar hc hascii)
    rw [hbc]
    exact ⟨by simp [endsWord, hl, hr, hq, hs, hspace], hq, hs, hpipe⟩
  · have hnot := not_isAscii_of_mem_encodeChar (by omega) hbc
    obtain ⟨⟨hl, hr, hq, hs⟩, hpipe, -⟩ := freeByte_of_not_ascii hnot
    have hspace : isSpaceByte b = false := by rw [isSpaceByte_eq hnot, hcut]
    exact ⟨by simp [endsWord, hl, hr, hq, hs, hspace], hq, hs, hpipe⟩

/-- The name is read in lower case. -/
theorem FieldName.fieldName (h : FieldName lib f) :
    Observability.fieldName lib f = f.map lib.toLower := by
  rw [Observability.fieldName, trimSpaceChars_of_not_space h.spaceless]

/-- What contains a sign of equality is no name. -/
theorem not_valid_of_equal {part : List Char} (h : '=' ∈ part) :
    isValidFieldName lib (Observability.fieldName lib part) = false := by
  have hmem : '=' ∈ Observability.fieldName lib part := by
    rw [Observability.fieldName, List.mem_map]
    refine ⟨'=', mem_trimSpaceChars h (by decide), ?_⟩
    rw [lib.toLower_ascii _ (by decide)]
    decide
  rw [Bool.eq_false_iff]
  intro hvalid
  simp only [isValidFieldName, Bool.and_eq_true, List.all_eq_true] at hvalid
  have hchar := hvalid.1.2 _ hmem
  rw [lib.isLetter_ascii _ (by decide), lib.isDigit_ascii _ (by decide)] at hchar
  exact absurd hchar (by decide)

/-! ## The predicate of a word -/

/-- An operator is not found in front of its first character. -/
theorem length_le_of_index {pre rest sep : List Char} {c : Char} (hpre : c ∉ pre) {i : ℕ}
    (h : index (pre ++ rest) (c :: sep) = some i) : pre.length ≤ i := by
  induction pre generalizing i with
  | nil => exact Nat.zero_le _
  | cons d pre ih =>
      rw [List.mem_cons, not_or] at hpre
      have hno : ¬ (c :: sep) <+: d :: (pre ++ rest) := fun hp =>
        hpre.1 (List.cons_prefix_cons.mp hp).1
      rw [List.cons_append, index, if_neg hno] at h
      obtain ⟨j, hj, rfl⟩ := Option.map_eq_some_iff.mp h
      exact Nat.succ_le_succ (ih hpre.2 hj)

theorem index_at {pre rest sep : List Char} {c : Char} (hpre : c ∉ pre) :
    index (pre ++ (c :: sep) ++ rest) (c :: sep) = some pre.length := by
  induction pre with
  | nil =>
      have hp : (c :: sep) <+: c :: (sep ++ rest) := ⟨rest, rfl⟩
      rw [List.nil_append, List.cons_append, index, if_pos hp]
      rfl
  | cons d pre ih =>
      rw [List.mem_cons, not_or] at hpre
      have hno : ¬ (c :: sep) <+: d :: (pre ++ (c :: sep) ++ rest) := fun hp =>
        hpre.1 (List.cons_prefix_cons.mp hp).1
      rw [List.cons_append, List.cons_append, index, if_neg hno, ih hpre.2]
      rfl

/-- An operator that is found behind a sign of equality is passed over. -/
theorem loop_skips {pre rest : List Char} (hequal : '=' ∈ pre) {sep : String} {c : Char}
    {more : List Char} (hsep : sep.toList = c :: more) (hc : c ∉ pre) (op : Op)
    (ops : List (String × Op)) :
    parseFieldPredicateLoop lib (pre ++ rest) ((sep, op) :: ops) =
      parseFieldPredicateLoop lib (pre ++ rest) ops := by
  rw [parseFieldPredicateLoop, hsep]
  cases hindex : index (pre ++ rest) (c :: more) with
  | none => rfl
  | some i =>
      have hlen := length_le_of_index hc hindex
      cases i with
      | zero => rfl
      | succ i =>
          have hmem : '=' ∈ (pre ++ rest).take (i + 1) := by
            rw [List.take_append, List.mem_append, List.take_of_length_le hlen]
            exact .inl hequal
          simp only [not_valid_of_equal hmem, Bool.false_eq_true, not_false_eq_true, if_true]

/-- The operator of a word that begins with a name and a sign. -/
theorem loop_takes (h : FieldName lib f) {sep : String} {c : Char} {more : List Char}
    (hsep : sep.toList = c :: more) (hc : c ∉ f) (op : Op) (ops : List (String × Op))
    {value : List Char} (htrim : trimSpaceChars value = value) (hslash : '/' ∉ value) :
    parseFieldPredicateLoop lib (f ++ sep.toList ++ value) ((sep, op) :: ops) =
      if value = [] then none
      else some ⟨String.ofList (f.map lib.toLower), likeIfStar op (String.ofList value),
        String.ofList value⟩ := by
  have hlen : f.length = f.length - 1 + 1 := by
    have := List.length_pos_iff.mpr h.ne_nil
    omega
  have htake : (f ++ sep.toList ++ value).take (f.length - 1 + 1) = f := by
    rw [← hlen, List.append_assoc, List.take_left]
  have hdrop : (f ++ sep.toList ++ value).drop (f.length - 1 + 1 + sep.length) = value := by
    rw [← hlen, ← String.length_toList, ← List.length_append, List.drop_left]
  have hregex : ¬ (['/'] <+: value ∧ ['/'] <:+ value ∧ 2 ≤ value.length) := fun hr =>
    hslash (hr.1.subset List.mem_cons_self)
  have hindex : index (f ++ sep.toList ++ value) sep.toList = some (f.length - 1 + 1) := by
    rw [hsep, index_at hc, hlen]
    rfl
  rw [parseFieldPredicateLoop, hindex]
  simp only [htake, hdrop, h.fieldName, h.valid, htrim, not_true_eq_false, if_false, if_neg hregex]

theorem equal_mem (sign : EqualitySign) : '=' ∈ f ++ sign.text := by
  cases sign <;> simp [EqualitySign.text]

/-- The word of a name, a sign and a value that is not empty. -/
theorem FieldName.parse_word (h : FieldName lib f) (sign : EqualitySign) {value : List Char}
    (htrim : trimSpaceChars value = value) (hslash : '/' ∉ value) :
    parseFieldPredicate lib (String.ofList (f ++ sign.text ++ value)) =
      if value = [] then none
      else some ⟨String.ofList (f.map lib.toLower), likeIfStar sign.op (String.ofList value),
        String.ofList value⟩ := by
  have hequal : '=' ∈ f ++ sign.text := equal_mem sign
  have hnot : ∀ {c : Char}, c ∈ ['>', '<', '!', '='] → c ∉ sign.text → c ∉ f ++ sign.text := by
    intro c hc hsign hmem
    rcases List.mem_append.mp hmem with hmem | hmem
    · exact h.not_sign hc hmem
    · exact hsign hmem
  rw [parseFieldPredicate, String.toList_ofList, fieldOps]
  cases sign with
  | equal =>
      rw [loop_skips hequal rfl (hnot (by decide) (by decide)),
        loop_skips hequal rfl (hnot (by decide) (by decide)),
        loop_skips hequal rfl (hnot (by decide) (by decide)),
        loop_skips hequal rfl (hnot (by decide) (by decide)),
        loop_skips hequal rfl (hnot (by decide) (by decide))]
      exact @loop_takes _ _ h "=" _ _ rfl (h.not_sign (by decide)) .eq _ _ htrim hslash
  | unequal =>
      rw [loop_skips hequal rfl (hnot (by decide) (by decide)),
        loop_skips hequal rfl (hnot (by decide) (by decide))]
      exact @loop_takes _ _ h "!=" _ _ rfl (h.not_sign (by decide)) .ne _ _ htrim hslash

/-- Behind a name and a sign no operator waits for a value. -/
theorem no_suffix (sign : EqualitySign) {value : List Char}
    (hvalue : value ≠ []) :
    fieldOpSuffix lib (String.ofList (f ++ sign.text ++ value)) = none := by
  have hall : ∀ sep_op ∈ fieldOps, '=' ∉ sep_op.1.toList.dropLast := by decide
  have hpre : ∃ pre, f ++ sign.text = pre ++ ['='] := by
    cases sign with
    | equal => exact ⟨f, rfl⟩
    | unequal => exact ⟨f ++ ['!'], by simp [EqualitySign.text]⟩
  obtain ⟨pre, hpre⟩ := hpre
  rw [fieldOpSuffix, String.toList_ofList, hpre]
  have hloop : ∀ ops : List (String × Op), (∀ sep_op ∈ ops, '=' ∉ sep_op.1.toList.dropLast) →
      fieldOpSuffixLoop lib (pre ++ ['='] ++ value) ops = none := by
    intro ops
    induction ops with
    | nil => intro _; rfl
    | cons sep_op ops ih =>
        obtain ⟨sep, op⟩ := sep_op
        intro hops
        obtain ⟨hsep, hops⟩ := List.forall_mem_cons.mp hops
        rw [fieldOpSuffixLoop]
        by_cases hsuffix : sep.toList <:+ pre ++ ['='] ++ value
        · have hle : sep.length ≤ value.length := by
            by_contra hgt
            -- A longer operator would have the sign before its last character.
            have hlong : '=' :: value <:+ sep.toList := by
              refine List.suffix_of_suffix_length_le ⟨pre, by simp⟩ hsuffix ?_
              rw [List.length_cons, String.length_toList]
              omega
            obtain ⟨front, hfront⟩ := hlong
            refine hsep ?_
            rw [← hfront, List.dropLast_append_of_ne_nil (by simp),
              List.dropLast_cons_of_ne_nil hvalue]
            simp
          have hmem : '=' ∈ (pre ++ ['='] ++ value).take
              ((pre ++ ['='] ++ value).length - sep.length) := by
            rw [List.take_append, List.mem_append]
            left
            rw [List.take_of_length_le]
            · simp
            · rw [@List.length_append _ (pre ++ ['=']) value]
              omega
          rw [if_neg (not_not.mpr hsuffix)]
          simp only [not_valid_of_equal hmem, Bool.false_eq_true, if_false]
          exact ih hops
        · rw [if_pos hsuffix]
          exact ih hops
  exact hloop _ hall

theorem suffix_skips {word : List Char} {sep : String} {c : Char} (hsep : c ∈ sep.toList)
    (hc : c ∉ word) (op : Op) (ops : List (String × Op)) :
    fieldOpSuffixLoop lib word ((sep, op) :: ops) = fieldOpSuffixLoop lib word ops := by
  rw [fieldOpSuffixLoop, if_pos fun hsuffix => hc (hsuffix.subset hsep)]

theorem suffix_takes (h : FieldName lib f) (sep : String) (op : Op) (ops : List (String × Op)) :
    fieldOpSuffixLoop lib (f ++ sep.toList) ((sep, op) :: ops) =
      some (String.ofList (f.map lib.toLower), op) := by
  have htake : (f ++ sep.toList).take ((f ++ sep.toList).length - sep.length) = f := by
    rw [List.length_append, String.length_toList, Nat.add_sub_cancel, List.take_left]
  rw [fieldOpSuffixLoop, if_neg (not_not.mpr (List.suffix_append _ _))]
  simp only [htake, h.fieldName, h.valid, if_true]

/-- A name and a sign alone wait for a value. -/
theorem FieldName.opens (h : FieldName lib f) (sign : EqualitySign) :
    opensField lib (String.ofList (f ++ sign.text)) (String.ofList (f.map lib.toLower))
      sign.op := by
  constructor
  · have hparse := @FieldName.parse_word _ _ h sign [] rfl (by simp)
    rwa [List.append_nil, if_pos rfl] at hparse
  · have hnot : ∀ {c : Char}, c ∈ ['>', '<', '!', '='] → c ∉ sign.text → c ∉ f ++ sign.text := by
      intro c hc hsign hmem
      rcases List.mem_append.mp hmem with hmem | hmem
      · exact h.not_sign hc hmem
      · exact hsign hmem
    rw [fieldOpSuffix, String.toList_ofList, fieldOps]
    cases sign with
    | equal =>
        rw [@suffix_skips _ _ _ '>' (by decide) (hnot (by decide) (by decide)),
          @suffix_skips _ _ _ '<' (by decide) (hnot (by decide) (by decide)),
          @suffix_skips _ _ _ '!' (by decide) (hnot (by decide) (by decide)),
          @suffix_skips _ _ _ '>' (by decide) (hnot (by decide) (by decide)),
          @suffix_skips _ _ _ '<' (by decide) (hnot (by decide) (by decide))]
        exact suffix_takes h "=" .eq _
    | unequal =>
        rw [@suffix_skips _ _ _ '>' (by decide) (hnot (by decide) (by decide)),
          @suffix_skips _ _ _ '<' (by decide) (hnot (by decide) (by decide))]
        exact suffix_takes h "!=" .ne _

/-! ## The predicates of both signs -/

/-- A value as it is written behind a sign. -/
inductive ValueText where
  | bare (v : String)
  /-- The text between two quotes. -/
  | quoted (text : List UInt8)
  /-- The text between two slashes. -/
  | regex (text : List UInt8)
  deriving Repr, DecidableEq

def ValueText.bytes : ValueText → List UInt8
  | .bare v => encode v
  | .quoted text => '"'.toUInt8 :: (text ++ ['"'.toUInt8])
  | .regex text => '/'.toUInt8 :: (text ++ ['/'.toUInt8])

/-- The grammar admits the value. -/
def ValueText.Admitted (lib : SearchLib) : ValueText → Prop
  | .bare v => BareValue v
  | .quoted text => Inside '"'.toUInt8 false text
  | .regex text => Inside '/'.toUInt8 false text ∧ validRegexp lib (decode text) = true

/-- The value of the predicate. -/
def ValueText.value : ValueText → String
  | .bare v => v
  | .quoted text => unescapeQuoted (decode text)
  | .regex text => decode text

/-- `f=v` or `f!=v`. -/
def comparison (f : List Char) (sign : EqualitySign) (v : ValueText) : List UInt8 :=
  encode (String.ofList (f ++ sign.text)) ++ v.bytes

def ValueText.predicate (field : String) (sign : EqualitySign) (v : ValueText) : PredExpr :=
  match v with
  | .regex _ => ⟨field, .regexp, v.value⟩
  | .bare _ | .quoted _ => ⟨field, likeIfStar sign.op v.value, v.value⟩

theorem wordKind_of_equal {cs : List Char} (h : '=' ∈ cs) :
    wordKind (String.ofList cs) = .word := by
  have hmem : '=' ∈ (String.ofList ((String.ofList cs).toList.map Char.toUpper)).toList := by
    simp only [String.toList_ofList, List.mem_map]
    exact ⟨'=', h, by decide⟩
  rw [wordKind]
  split_ifs with hand hor hnot
  · rw [hand] at hmem
    exact absurd hmem (by decide)
  · rw [hor] at hmem
    exact absurd hmem (by decide)
  · rw [hnot] at hmem
    exact absurd hmem (by decide)
  · rfl

theorem FieldName.sign_bytes (h : FieldName lib f) (sign : EqualitySign) :
    ∀ b ∈ encode (String.ofList (f ++ sign.text)),
      endsWord b = false ∧ b ≠ '"'.toUInt8 ∧ b ≠ '/'.toUInt8 ∧ b ≠ '|'.toUInt8 := by
  intro b hb
  rw [String.ofList_append, encode_append, List.mem_append] at hb
  rcases hb with hb | hb
  · exact h.bytes b hb
  · revert b
    cases sign <;> decide

/-- The text starts with the first character of the name. -/
theorem FieldName.runes (h : FieldName lib f) (sign : EqualitySign) (rest : List UInt8) :
    ∃ c cs, isSpace c = false ∧ GoStrings.runes (encode (String.ofList (f ++ sign.text)) ++ rest) =
      ⟨c, String.utf8EncodeChar c⟩ :: (cs ++ GoStrings.runes rest) := by
  obtain ⟨c, f', rfl⟩ := List.exists_cons_of_ne_nil h.ne_nil
  refine ⟨c, (f' ++ sign.text).map fun c => ⟨c, String.utf8EncodeChar c⟩,
    h.spaceless c List.mem_cons_self, ?_⟩
  rw [encode, String.toList_ofList, runes_flatMap_append]
  rfl

theorem FieldName.trim_bare (h : FieldName lib f) (sign : EqualitySign) {v : String}
    (hv : BareValue v) :
    trimSpaceBytes (comparison f sign (.bare v)) = comparison f sign (.bare v) := by
  have htext : comparison f sign (.bare v) = encode (String.ofList (f ++ sign.text) ++ v) :=
    (encode_append _ _).symm
  rw [htext]
  refine trimSpaceBytes_encode ?_ ?_
  · obtain ⟨c, f', rfl⟩ := List.exists_cons_of_ne_nil h.ne_nil
    simp [h.spaceless c List.mem_cons_self]
  · have hne : v.toList ≠ [] := fun hnil => hv.nonempty (String.toList_eq_nil_iff.mp hnil)
    have hlast := trimSpaceChars_last v.toList
    rw [hv.trimmed] at hlast
    rwa [String.toList_append, List.getLast?_append_of_ne_nil _ hne]

/-- Nor is there white space around a name and delimited text. -/
theorem FieldName.trim_delimited (h : FieldName lib f) (sign : EqualitySign) {delim : UInt8}
    (hascii : IsAscii delim) (hspace : isSpace (Char.ofNat delim.toNat) = false)
    (text : List UInt8) :
    trimSpaceBytes (encode (String.ofList (f ++ sign.text)) ++ delim :: (text ++ [delim])) =
      encode (String.ofList (f ++ sign.text)) ++ delim :: (text ++ [delim]) := by
  refine trimSpaceBytes_eq_self ?_ ?_
  · obtain ⟨c, cs, hc, hruns⟩ := h.runes sign (delim :: (text ++ [delim]))
    rw [hruns]
    simp [hc]
  · have hassoc : encode (String.ofList (f ++ sign.text)) ++ delim :: (text ++ [delim]) =
        (encode (String.ofList (f ++ sign.text)) ++ delim :: text) ++ delim :: [] := by simp
    rw [hassoc, runes_append_ascii _ hascii, List.getLast?_append]
    simp [hspace]

theorem FieldName.trim (h : FieldName lib f) (sign : EqualitySign) {v : ValueText}
    (hv : v.Admitted lib) : trimSpaceBytes (comparison f sign v) = comparison f sign v := by
  cases v with
  | bare v => exact h.trim_bare sign hv
  | quoted text => exact h.trim_delimited sign (by decide) (by decide) text
  | regex text => exact h.trim_delimited sign (by decide) (by decide) text

theorem BareValue.slashless {v : String} (h : BareValue v) : '/' ∉ v.toList := by
  intro hmem
  have hslash : '/'.toUInt8 ∈ encode v := by
    rw [encode, List.mem_flatMap]
    exact ⟨'/', hmem, by decide⟩
  exact absurd (h.bytes _ hslash).1 (by decide)

theorem ValueText.passesPipes {v : ValueText} (h : v.Admitted lib) : PassesPipes v.bytes := by
  cases v with
  | bare v =>
      refine passesPipes_of_forall fun b hb => ?_
      obtain ⟨hends, hpipe⟩ := h.bytes b hb
      simp only [endsWord, Bool.or_eq_false_iff, decide_eq_false_iff_not] at hends
      exact ⟨hends.1.1.2, hends.1.2, hpipe⟩
  | quoted text => exact passesPipes_inside (.inl ⟨rfl, rfl⟩) h
  | regex text => exact passesPipes_inside (.inr ⟨rfl, rfl⟩) h.1

theorem FieldName.encode_ne_nil (h : FieldName lib f) (more : List Char) :
    encode (String.ofList (f ++ more)) ≠ [] := by
  intro hnil
  have htext := congrArg decode hnil
  rw [decode_encode] at htext
  have hchars := congrArg String.toList htext
  simp [decode, h.ne_nil] at hchars

/-! ## The tokens of a comparison -/

theorem tokens_delimited {delim : UInt8} (hspace : isSpaceByte delim = false)
    (text : List UInt8) :
    tokens (delim :: (text ++ [delim])) =
      (lexeme delim (text ++ [delim])).1 :: tokens (lexeme delim (text ++ [delim])).2 := by
  refine tokens_of_skipSpace ?_
  simp [skipSpace, hspace]

theorem tokens_quoted {text : List UInt8} (h : Inside '"'.toUInt8 false text) :
    tokens ('"'.toUInt8 :: (text ++ ['"'.toUInt8])) =
      [⟨.quoted, unescapeQuoted (decode text)⟩] := by
  have hlexeme : lexeme '"'.toUInt8 (text ++ ['"'.toUInt8]) =
      readQuoted (text ++ ['"'.toUInt8]) := rfl
  rw [tokens_delimited (by decide), hlexeme, readQuoted, scanTo_inside (by decide) h]
  rfl

theorem tokens_regex {text : List UInt8} (h : Inside '/'.toUInt8 false text) :
    tokens ('/'.toUInt8 :: (text ++ ['/'.toUInt8])) = [⟨.regex, decode text⟩] := by
  have hlexeme : lexeme '/'.toUInt8 (text ++ ['/'.toUInt8]) =
      regexText (text ++ ['/'.toUInt8]) := rfl
  rw [tokens_delimited (by decide), hlexeme, regexText, scanTo_inside (by decide) h]
  rfl

/-- The tokens of a comparison: one word, or a word and the value. -/
def ValueText.tokens (word : List Char) : ValueText → List Token
  | .bare v => [⟨.word, String.ofList (word ++ v.toList)⟩]
  | .quoted text => [⟨.word, String.ofList word⟩, ⟨.quoted, unescapeQuoted (decode text)⟩]
  | .regex text => [⟨.word, String.ofList word⟩, ⟨.regex, decode text⟩]

theorem forall_head {b : UInt8} (rest : List UInt8) (hb : endsWord b = true) :
    ∀ d ∈ (b :: rest).head?, endsWord d = true := by
  rintro d ⟨⟩
  exact hb

theorem FieldName.tokens_of_value (h : FieldName lib f) (sign : EqualitySign)
    {value : List UInt8} (hvalue : ∀ b ∈ value.head?, endsWord b = true) :
    tokens (encode (String.ofList (f ++ sign.text)) ++ value) =
      ⟨.word, String.ofList (f ++ sign.text)⟩ :: tokens value := by
  rw [tokens_word (h.encode_ne_nil _) (fun b hb => (h.sign_bytes sign b hb).1) hvalue,
    decode_encode, wordKind_of_equal (equal_mem sign)]

theorem FieldName.tokens (h : FieldName lib f) (sign : EqualitySign) {v : ValueText}
    (hv : v.Admitted lib) :
    Observability.tokens (comparison f sign v) = v.tokens (f ++ sign.text) := by
  have hquote : endsWord '"'.toUInt8 = true := by decide
  have hslash : endsWord '/'.toUInt8 = true := by decide
  cases v with
  | bare v =>
      have htext : comparison f sign (.bare v) =
          encode (String.ofList (f ++ sign.text ++ v.toList)) ++ [] := by
        rw [List.append_nil, String.ofList_append, String.ofList_toList, encode_append]
        rfl
      have hne : encode (String.ofList (f ++ sign.text ++ v.toList)) ≠ [] := by
        rw [List.append_assoc]
        exact h.encode_ne_nil _
      have hbytes : ∀ b ∈ encode (String.ofList (f ++ sign.text ++ v.toList)),
          endsWord b = false := by
        intro b hb
        rw [String.ofList_append, String.ofList_toList, encode_append, List.mem_append] at hb
        rcases hb with hb | hb
        · exact (h.sign_bytes sign b hb).1
        · exact (hv.bytes b hb).1
      rw [htext, tokens_word hne hbytes (by simp), decode_encode,
        wordKind_of_equal (List.mem_append_left _ (equal_mem sign))]
      rfl
  | quoted text =>
      rw [comparison, ValueText.bytes, h.tokens_of_value sign (forall_head _ hquote),
        tokens_quoted hv]
      rfl
  | regex text =>
      rw [comparison, ValueText.bytes, h.tokens_of_value sign (forall_head _ hslash),
        tokens_regex hv.1]
      rfl

/-! ## The predicate of a comparison -/

theorem FieldName.leaf (h : FieldName lib f) (sign : EqualitySign) {v : ValueText}
    (hv : v.Admitted lib) :
    Leaf lib (v.tokens (f ++ sign.text))
      (v.predicate (String.ofList (f.map lib.toLower)) sign) := by
  cases v with
  | bare v =>
      have hne : v.toList ≠ [] := fun hnil => hv.nonempty (String.toList_eq_nil_iff.mp hnil)
      have hparse := h.parse_word sign hv.trimmed hv.slashless
      rw [if_neg hne, String.ofList_toList] at hparse
      have hword : wordPredicate lib (String.ofList (f ++ sign.text ++ v.toList)) =
          ⟨String.ofList (f.map lib.toLower), likeIfStar sign.op v, v⟩ := by
        rw [wordPredicate, hparse]
        rfl
      have hleaf : Leaf lib [⟨.word, String.ofList (f ++ sign.text ++ v.toList)⟩] _ := .word rfl
      rwa [hword] at hleaf
  | quoted text => exact .fieldValue rfl (.inl rfl) (h.opens sign)
  | regex text => exact .fieldRegex rfl rfl (h.opens sign)

theorem ValueText.readable {v : ValueText} (hv : v.Admitted lib) (word : List Char) :
    ∀ t ∈ v.tokens word, Readable lib t := by
  intro t ht
  cases v with
  | bare v =>
      rw [List.mem_singleton.mp ht]
      exact ⟨by simp, by simp⟩
  | quoted text =>
      rcases List.mem_pair.mp ht with rfl | rfl <;> exact ⟨by simp, by simp⟩
  | regex text =>
      rcases List.mem_pair.mp ht with rfl | rfl
      · exact ⟨by simp, by simp⟩
      · exact ⟨by simp, fun _ => hv.2⟩

/-- A comparison is read as its predicate. -/
theorem FieldName.parse_comparison (h : FieldName lib f) (sign : EqualitySign) {v : ValueText}
    (hv : v.Admitted lib) :
    parseSearch lib (comparison f sign v) =
      .ok (some (.leaf (v.predicate (String.ofList (f.map lib.toLower)) sign)), []) := by
  have htrim := h.trim sign hv
  have hpasses : PassesPipes (comparison f sign v) :=
    (passesPipes_of_forall fun b hb => (h.sign_bytes sign b hb).2).append
      (ValueText.passesPipes hv)
  have hleaf := h.leaf sign hv
  have hread : Reads lib False _ (.unit (.leaf _)) := .leaf hleaf
  refine parseSearch_of_parses ?_ ?_ htrim (splitPipes_of_passes hpasses htrim)
    (h.tokens sign hv) (ValueText.readable hv _)
    (parses_alone hread (parses_leaf hleaf fun t ht => ?_))
  · intro hstar
    have hequal : '='.toUInt8 ∈ comparison f sign v := by
      rw [comparison, List.mem_append, encode, String.toList_ofList, List.mem_flatMap]
      exact .inl ⟨'=', equal_mem sign, by decide⟩
    rw [hstar] at hequal
    exact absurd hequal (by decide)
  · cases v <;> simp [ValueText.tokens]
  · cases v with
    | bare v =>
        have hne : v.toList ≠ [] := fun hnil => hv.nonempty (String.toList_eq_nil_iff.mp hnil)
        intro u hu hkind
        rw [List.mem_singleton.mp hu]
        exact no_suffix sign hne
    | quoted text => simp [ValueText.tokens] at ht
    | regex text => simp [ValueText.tokens] at ht

end

/-! ## Both signs on one event -/

section
variable {g : GoText} {f : List Char} {v : ValueText} {x : String}

/-- Where inequality is the complement of equality. The sign is dropped for an
expression, a star counts only behind `=`, and so does a part of the text. -/
def Complementary (g : GoText) (v : ValueText) (x : String) : Prop :=
  match v with
  | .regex _ => False
  | .bare _ | .quoted _ =>
      if hasStar v.value then matchWildcard g x v.value = g.equalFold x v.value
      else containsText (g.lower x) (g.lower v.value) → g.equalFold x v.value

theorem evalFilter_leaf {ev : QueryEvent} {kind : SourceKind} {p : PredExpr}
    (hfield : p.field ≠ "") (hop : isComparison p.op = false)
    (hx : eventFieldValue g ev p.field kind = some x) :
    evalFilter g (some (.leaf p)) ev kind =
      ((fieldColumn kind p.field).isSome && evalOp g p.op x p.value) := by
  have happ : exprApplicable kind (.leaf p) = (fieldColumn kind p.field).isSome := by
    rw [exprApplicable, predApplicable, if_neg hfield]
    cases fieldColumn kind p.field <;> simp [hop]
  have hnode : evalNode g (.leaf p) ev kind = evalPred g p ev kind := rfl
  rw [evalFilter, happ, hnode, evalPred, if_neg hfield]
  cases fieldColumn kind p.field <;> simp [hx]

theorem likeIfStar_sign (sign : EqualitySign) (value : String) :
    isComparison (likeIfStar sign.op value) = false := by
  rw [likeIfStar]
  split_ifs
  · rfl
  · cases sign <;> rfl

theorem predicate_op (field : String) (sign : EqualitySign) (v : ValueText) :
    isComparison (v.predicate field sign).op = false := by
  cases v with
  | bare v => exact likeIfStar_sign sign v
  | quoted text => exact likeIfStar_sign sign _
  | regex text => rfl

theorem evalOp_unequal (g : GoText) (x value : String) :
    evalOp g (likeIfStar .ne value) x value = !g.equalFold x value := by
  rw [likeIfStar, if_neg (by simp)]
  rfl

theorem evalOp_equal (g : GoText) (x value : String) :
    evalOp g (likeIfStar .eq value) x value =
      if hasStar value then matchWildcard g x value
      else g.equalFold x value || containsText (g.lower x) (g.lower value) := by
  cases hstar : hasStar value <;> simp [likeIfStar, evalOp, hstar]

/-- The two operators on a value. -/
theorem evalOp_complements_iff (field : String) (v : ValueText) (x : String) :
    (evalOp g (v.predicate field .unequal).op x (v.predicate field .unequal).value = true ↔
        evalOp g (v.predicate field .equal).op x (v.predicate field .equal).value = false) ↔
      Complementary g v x := by
  have hplain : ∀ value : String,
      (evalOp g (likeIfStar .ne value) x value = true ↔
          evalOp g (likeIfStar .eq value) x value = false) ↔
        if hasStar value then matchWildcard g x value = g.equalFold x value
        else containsText (g.lower x) (g.lower value) → g.equalFold x value := by
    intro value
    rw [evalOp_unequal, evalOp_equal]
    split_ifs
    · cases g.equalFold x value <;> cases matchWildcard g x value <;> decide
    · cases g.equalFold x value <;> cases containsText (g.lower x) (g.lower value) <;> decide
  cases v with
  | bare v =>
      rw [Complementary, ValueText.predicate, ValueText.predicate]
      exact hplain v
  | quoted text =>
      rw [Complementary, ValueText.predicate, ValueText.predicate]
      generalize (ValueText.quoted text).value = value
      exact hplain value
  | regex text =>
      rw [Complementary, ValueText.predicate, ValueText.predicate, iff_false]
      cases evalOp g .regexp x (ValueText.regex text).value <;> simp

/-- `f!=v` is the complement of `f=v` on an event with the field exactly where the
source has a column for it and both signs look at the value the same way. -/
theorem inequality_complements_iff (lib : SearchLib) (g : GoText) (f : List Char) (v : ValueText)
    (ev : QueryEvent) (kind : SourceKind) (x : String) (hf : FieldName lib f)
    (hv : v.Admitted lib)
    (hx : eventFieldValue g ev (String.ofList (f.map lib.toLower)) kind = some x) :
    ∃ e n, parseSearch lib (comparison f .equal v) = .ok (some e, []) ∧
      parseSearch lib (comparison f .unequal v) = .ok (some n, []) ∧
      ((evalFilter g (some n) ev kind = true ↔ evalFilter g (some e) ev kind = false) ↔
        (fieldColumn kind (String.ofList (f.map lib.toLower))).isSome ∧ Complementary g v x) := by
  refine ⟨_, _, hf.parse_comparison .equal hv, hf.parse_comparison .unequal hv, ?_⟩
  have hname : String.ofList (f.map lib.toLower) ≠ "" := by
    intro hnil
    have hchars := congrArg String.toList hnil
    simp [hf.ne_nil] at hchars
  have hfield : ∀ sign, (v.predicate (String.ofList (f.map lib.toLower)) sign).field =
      String.ofList (f.map lib.toLower) := by
    intro sign
    cases v <;> rfl
  have heval : ∀ sign, evalFilter g
      (some (.leaf (v.predicate (String.ofList (f.map lib.toLower)) sign))) ev kind =
        ((fieldColumn kind (String.ofList (f.map lib.toLower))).isSome &&
          evalOp g (v.predicate (String.ofList (f.map lib.toLower)) sign).op x
            (v.predicate (String.ofList (f.map lib.toLower)) sign).value) := by
    intro sign
    rw [evalFilter_leaf (by rwa [hfield]) (predicate_op _ _ _) (by rwa [hfield]), hfield]
  rw [heval, heval]
  cases fieldColumn kind (String.ofList (f.map lib.toLower)) with
  | none => simp
  | some col => simpa using evalOp_complements_iff _ v x

/-- An event of the access log with a message of four letters. -/
def messageExample : QueryEvent := ⟨0, "access", "", "", "abcd", []⟩

theorem inequality_complements_bare :
    ∃ e n, parseSearch asciiLib (comparison "preview".toList .equal (.bare "x")) =
        .ok (some e, []) ∧
      parseSearch asciiLib (comparison "preview".toList .unequal (.bare "x")) =
        .ok (some n, []) ∧
      ((evalFilter asciiText (some n) messageExample .logAccess = true ↔
          evalFilter asciiText (some e) messageExample .logAccess = false) ↔
        (fieldColumn .logAccess (String.ofList ("preview".toList.map Char.toLower))).isSome ∧
          Complementary asciiText (.bare "x") "abcd") :=
  inequality_complements_iff asciiLib asciiText "preview".toList (.bare "x") messageExample
    .logAccess "abcd" ⟨by decide, by decide, by decide⟩ ⟨by decide, by decide, by decide⟩
    (by decide)

/-- Both signs find a message that contains the value, and an expression is
looked for whatever the sign. -/
theorem both_signs_match :
    ∃ e n r, parseSearch asciiLib (comparison "preview".toList .equal (.bare "b")) =
        .ok (some e, []) ∧
      parseSearch asciiLib (comparison "preview".toList .unequal (.bare "b")) =
        .ok (some n, []) ∧
      evalFilter asciiText (some n) messageExample .logAccess = true ∧
      evalFilter asciiText (some e) messageExample .logAccess = true ∧
      parseSearch asciiLib (comparison "preview".toList .equal (.regex ['b'.toUInt8])) =
        .ok (some r, []) ∧
      parseSearch asciiLib (comparison "preview".toList .unequal (.regex ['b'.toUInt8])) =
        .ok (some r, []) := by
  have hf : FieldName asciiLib "preview".toList := ⟨by decide, by decide, by decide⟩
  have hv : (ValueText.bare "b").Admitted asciiLib := ⟨by decide, by decide, by decide⟩
  have hr : (ValueText.regex ['b'.toUInt8]).Admitted asciiLib := ⟨by decide, by decide⟩
  exact ⟨_, _, _, hf.parse_comparison .equal hv, hf.parse_comparison .unequal hv, by decide,
    by decide, hf.parse_comparison .equal hr, hf.parse_comparison .unequal hr⟩

end

end GoSite.Observability
