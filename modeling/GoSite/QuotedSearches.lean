import GoSite.WordSearches

/-!
# Quoted text in a search

The pipe splitter, the lexer and the reader of escapes each follow quotes and
backslashes on their own. On text that is escaped the plain way they agree.
-/
namespace GoSite.Observability
open BooleanTrees GoStrings

variable {lib : SearchLib}

/-- A backslash before each backslash and each quote. -/
def escapeBytes (v : List UInt8) : List UInt8 :=
  v.flatMap fun b =>
    if b = '\\'.toUInt8 ∨ b = '"'.toUInt8 then ['\\'.toUInt8, b] else [b]

theorem escapeBytes_cons (b : UInt8) (v : List UInt8) :
    escapeBytes (b :: v) =
      (if b = '\\'.toUInt8 ∨ b = '"'.toUInt8 then ['\\'.toUInt8, b] else [b]) ++ escapeBytes v :=
  List.flatMap_cons

theorem escapeBytes_append (v w : List UInt8) :
    escapeBytes (v ++ w) = escapeBytes v ++ escapeBytes w := List.flatMap_append

/-- The text of a string between quotes. -/
def quotedText (v : List UInt8) : List UInt8 := '"'.toUInt8 :: (escapeBytes v ++ ['"'.toUInt8])

/-! ## The scanners -/

theorem scanTo_escapeBytes (v rest : List UInt8) :
    scanTo '"'.toUInt8 false (escapeBytes v ++ '"'.toUInt8 :: rest) =
      some (escapeBytes v, rest) := by
  induction v with
  | nil =>
      have hquote : '"'.toUInt8 ≠ '\\'.toUInt8 := by decide
      simp [escapeBytes, scanTo, hquote]
  | cons b v ih =>
      rw [escapeBytes_cons]
      split_ifs with hspecial
      · rw [List.append_assoc, List.cons_append, List.cons_append, List.nil_append, scanTo,
          if_pos rfl, scanTo, ih]
        rfl
      · rw [not_or] at hspecial
        rw [List.append_assoc, List.cons_append, List.nil_append, scanTo, if_neg hspecial.1,
          if_neg hspecial.2, ih]
        rfl

/-- The pipe splitter takes the bytes and stands as before. -/
def PassesPipes (text : List UInt8) : Prop :=
  ∀ buf rest, splitPipesLoop .plain false buf (text ++ rest) =
    splitPipesLoop .plain false (buf ++ text) rest

theorem PassesPipes.append {text more : List UInt8} (h : PassesPipes text)
    (h' : PassesPipes more) : PassesPipes (text ++ more) := by
  intro buf rest
  rw [List.append_assoc, h, h', List.append_assoc]

theorem passesPipes_byte {b : UInt8} (hquote : b ≠ '"'.toUInt8) (hslash : b ≠ '/'.toUInt8)
    (hpipe : b ≠ '|'.toUInt8) : PassesPipes [b] := by
  intro buf rest
  rw [List.singleton_append, splitPipesLoop, if_neg hquote, if_neg hslash, if_neg hpipe]

theorem splitPipesLoop_escapeBytes (v buf rest : List UInt8) :
    splitPipesLoop .quote false buf (escapeBytes v ++ '"'.toUInt8 :: rest) =
      splitPipesLoop .plain false (buf ++ escapeBytes v ++ ['"'.toUInt8]) rest := by
  induction v generalizing buf with
  | nil =>
      have hquote : '"'.toUInt8 ≠ '\\'.toUInt8 := by decide
      simp [escapeBytes, splitPipesLoop, hquote]
  | cons b v ih =>
      rw [escapeBytes_cons]
      split_ifs with hspecial
      · rw [List.append_assoc, List.cons_append, List.cons_append, List.nil_append,
          splitPipesLoop, if_pos rfl, splitPipesLoop, ih]
        simp
      · rw [not_or] at hspecial
        rw [List.append_assoc, List.cons_append, List.nil_append, splitPipesLoop,
          if_neg hspecial.1, if_neg hspecial.2, ih]
        simp

theorem passesPipes_quotedText (v : List UInt8) : PassesPipes (quotedText v) := by
  intro buf rest
  have hsplit : splitPipesLoop .plain false buf (quotedText v ++ rest) =
      splitPipesLoop .quote false (buf ++ ['"'.toUInt8])
        (escapeBytes v ++ '"'.toUInt8 :: rest) := by
    simp [quotedText, splitPipesLoop]
  rw [hsplit, splitPipesLoop_escapeBytes]
  simp [quotedText]

theorem splitPipes_of_passes {text : List UInt8} (h : PassesPipes text)
    (htrim : trimSpaceBytes text = text) : splitPipes text = .ok (text, []) := by
  have hloop := h [] []
  rw [List.append_nil, List.nil_append, splitPipesLoop, htrim] at hloop
  rw [splitPipes, hloop]
  rfl

/-! ## Escapes -/

/-- A backslash before each backslash and each quote of a text. -/
def escapeChars (cs : List Char) : List Char :=
  cs.flatMap fun c => if c = '\\' ∨ c = '"' then ['\\', c] else [c]

theorem escapeChars_cons (c : Char) (cs : List Char) :
    escapeChars (c :: cs) = (if c = '\\' ∨ c = '"' then ['\\', c] else [c]) ++ escapeChars cs :=
  List.flatMap_cons

theorem replacePair_cons {a b : Char} {new : List Char} {c : Char} {cs : List Char}
    (h : c ≠ a ∨ ∀ d ∈ cs.head?, d ≠ b) :
    replacePair a b new (c :: cs) = c :: replacePair a b new cs := by
  cases cs with
  | nil => rfl
  | cons d cs =>
      rw [replacePair, if_neg]
      rintro ⟨hc, hd⟩
      rcases h with h | h
      · exact h hc
      · exact h d rfl hd

theorem escapeChars_head (cs : List Char) : ∀ d ∈ (escapeChars cs).head?, d ≠ '"' := by
  cases cs with
  | nil => simp [escapeChars]
  | cons c cs =>
      intro d hd
      by_cases hspecial : c = '\\' ∨ c = '"'
      · simp only [escapeChars, List.flatMap_cons, if_pos hspecial, List.cons_append,
          List.head?_cons, Option.mem_some_iff] at hd
        rw [← hd]
        decide
      · simp only [escapeChars, List.flatMap_cons, if_neg hspecial, List.cons_append,
          List.head?_cons, Option.mem_some_iff] at hd
        rw [← hd]
        exact fun hc => hspecial (Or.inr hc)

/-- The first step of `unescapeQuoted` leaves backslashes twice. -/
theorem replacePair_escapeChars (cs : List Char) :
    replacePair '\\' '"' ['"'] (escapeChars cs) =
      cs.flatMap fun c => if c = '\\' then ['\\', '\\'] else [c] := by
  induction cs with
  | nil => rfl
  | cons c cs ih =>
      rw [escapeChars_cons, List.flatMap_cons, ← ih]
      by_cases hback : c = '\\'
      · subst hback
        rw [if_pos (Or.inl rfl), if_pos rfl, List.cons_append, List.cons_append, List.nil_append,
          replacePair_cons (Or.inr (by simp)), replacePair_cons (Or.inr (escapeChars_head cs))]
        rfl
      · by_cases hquote : c = '"'
        · subst hquote
          rw [if_pos (Or.inr rfl), if_neg (by decide), List.cons_append, List.cons_append,
            List.nil_append, replacePair, if_pos ⟨rfl, rfl⟩]
        · rw [if_neg (by simp [hback, hquote]), if_neg hback, List.cons_append, List.nil_append,
            replacePair_cons (Or.inl hback)]
          rfl

/-- The second step leaves them once. -/
theorem replacePair_doubled (cs : List Char) :
    replacePair '\\' '\\' ['\\'] (cs.flatMap fun c => if c = '\\' then ['\\', '\\'] else [c]) =
      cs := by
  induction cs with
  | nil => rfl
  | cons c cs ih =>
      rw [List.flatMap_cons]
      by_cases hback : c = '\\'
      · subst hback
        rw [if_pos rfl, List.cons_append, List.cons_append, List.nil_append, replacePair,
          if_pos ⟨rfl, rfl⟩, ih]
        rfl
      · rw [if_neg hback, List.cons_append, List.nil_append, replacePair_cons (Or.inl hback), ih]

theorem unescapeQuoted_escapeChars (cs : List Char) :
    unescapeQuoted (String.ofList (escapeChars cs)) = String.ofList cs := by
  rw [unescapeQuoted, String.toList_ofList, replacePair_escapeChars, replacePair_doubled]

/-- Bytes outside ASCII stand in escaped text as they stand in the string. -/
theorem prefix_of_prefix_escapeBytes {part v : List UInt8} (hpart : ∀ b ∈ part, ¬ IsAscii b)
    (h : part <+: escapeBytes v) : part <+: v := by
  induction part generalizing v with
  | nil => exact List.nil_prefix
  | cons b part ih =>
      have hb := hpart b List.mem_cons_self
      cases v with
      | nil => simp [escapeBytes] at h
      | cons c v =>
          rw [escapeBytes_cons] at h
          split_ifs at h with hspecial
          · obtain ⟨hbc, -⟩ := List.cons_prefix_cons.mp h
            rw [hbc] at hb
            exact absurd (by decide) hb
          · obtain ⟨rfl, htail⟩ := List.cons_prefix_cons.mp h
            have hpre := ih (fun d hd => hpart d (List.mem_cons_of_mem _ hd)) htail
            exact List.cons_prefix_cons.mpr ⟨rfl, hpre⟩

theorem escapeBytes_of_not_ascii {v : List UInt8} (h : ∀ b ∈ v, ¬ IsAscii b) :
    escapeBytes v = v := by
  induction v with
  | nil => rfl
  | cons b v ih =>
      have hb : ¬ (b = '\\'.toUInt8 ∨ b = '"'.toUInt8) := by
        rintro (rfl | rfl) <;> exact h _ List.mem_cons_self (by decide)
      rw [escapeBytes, List.flatMap_cons, if_neg hb, ← escapeBytes,
        ih fun c hc => h c (List.mem_cons_of_mem _ hc)]
      rfl

theorem toNat_ofNat_byte {n : ℕ} (h : n < 128) : (UInt8.ofNat n).toNat = n :=
  UInt8.toNat_ofNat_of_lt' (lt_trans h (by decide))

theorem ofNat_eq_toUInt8_iff {c d : Char} (hc : c.toNat < 128) (hd : d.toNat < 128) :
    UInt8.ofNat c.toNat = d.toUInt8 ↔ c = d := by
  have hbyte : d.toUInt8 = UInt8.ofNat d.toNat := rfl
  rw [hbyte]
  constructor
  · intro h
    have hnat := congrArg UInt8.toNat h
    rw [toNat_ofNat_byte hc, toNat_ofNat_byte hd] at hnat
    rw [← Char.ofNat_toNat c, hnat, Char.ofNat_toNat]
  · rintro rfl
    rfl

theorem escapeBytes_encodeChar (c : Char) :
    escapeBytes (String.utf8EncodeChar c) =
      (if c = '\\' ∨ c = '"' then ['\\'.toUInt8] else []) ++ String.utf8EncodeChar c := by
  by_cases hascii : c.toNat < 128
  · have hback : _ ↔ c = '\\' := ofNat_eq_toUInt8_iff hascii (by decide)
    have hquote : _ ↔ c = '"' := ofNat_eq_toUInt8_iff hascii (by decide)
    rw [encodeChar_ascii hascii, escapeBytes_cons]
    by_cases hspecial : c = '\\' ∨ c = '"'
    · rw [if_pos hspecial, if_pos (hspecial.imp hback.mpr hquote.mpr)]
      rfl
    · rw [if_neg hspecial, if_neg fun h => hspecial (h.imp hback.mp hquote.mp)]
      rfl
  · have hspecial : ¬ (c = '\\' ∨ c = '"') := by
      rintro (rfl | rfl) <;> exact hascii (by decide)
    rw [if_neg hspecial, escapeBytes_of_not_ascii fun b hb =>
      not_isAscii_of_mem_encodeChar (by omega) hb]
    rfl

/-- A byte that begins no code point begins none in escaped text. -/
theorem decodeRune_escapeBytes {b : UInt8} {rest : List UInt8}
    (h : decodeRune (b :: rest) = none) : decodeRune (b :: escapeBytes rest) = none := by
  have hb : ¬ IsAscii b := by
    intro hascii
    rw [decodeRune_ascii hascii] at h
    exact absurd h (by simp)
  rw [Option.eq_none_iff_forall_ne_some]
  intro c hc
  obtain ⟨more, heq⟩ := decodeRune_eq_some_iff.mp hc
  have hnot : 128 ≤ c.toNat := by
    by_contra hlt
    rw [encodeChar_ascii (by omega)] at heq
    obtain ⟨hbc, -⟩ := List.cons.inj heq
    apply hb
    rw [hbc, IsAscii, toNat_ofNat_byte (by omega)]
    omega
  cases henc : String.utf8EncodeChar c with
  | nil => exact absurd henc String.utf8EncodeChar_ne_nil
  | cons d part =>
      rw [henc, List.cons_append] at heq
      obtain ⟨rfl, htail⟩ := List.cons.inj heq
      have hpart : part <+: rest := by
        refine prefix_of_prefix_escapeBytes (fun e he => ?_) ⟨more, htail.symm⟩
        exact not_isAscii_of_mem_encodeChar hnot (by rw [henc]; exact List.mem_cons_of_mem _ he)
      obtain ⟨more', hrest⟩ := hpart
      have hsome : decodeRune (b :: rest) = some c :=
        decodeRune_eq_some_iff.mpr ⟨more', by rw [henc, ← hrest]; rfl⟩
      rw [h] at hsome
      exact absurd hsome (by simp)

/-- Escaping a string escapes its text. -/
theorem decode_escapeBytes (v : List UInt8) :
    (decode (escapeBytes v)).toList = escapeChars (decode v).toList := by
  simp only [decode, String.toList_ofList]
  induction v using runes_induction with
  | nil => rfl
  | char c rest ih =>
      rw [escapeBytes_append, escapeBytes_encodeChar, runes_encodeChar, List.map_cons,
        escapeChars_cons, ← ih]
      by_cases hspecial : c = '\\' ∨ c = '"'
      · rw [if_pos hspecial, if_pos hspecial, List.append_assoc, List.singleton_append,
          runes_ascii (by decide), runes_encodeChar]
        rfl
      · rw [if_neg hspecial, if_neg hspecial, List.nil_append, runes_encodeChar]
        rfl
  | byte b rest hnone ih =>
      have hb : ¬ (b = '\\'.toUInt8 ∨ b = '"'.toUInt8) := by
        rintro (rfl | rfl) <;> rw [decodeRune_ascii (by decide)] at hnone <;>
          exact absurd hnone (by simp)
      rw [escapeBytes_cons, if_neg hb, List.singleton_append,
        runes_of_none (decodeRune_escapeBytes hnone), runes_of_none hnone, List.map_cons,
        List.map_cons, escapeChars_cons, ih]
      rfl

/-- The lexer reads the text that was quoted. -/
theorem tokens_quotedText (v rest : List UInt8) :
    tokens (quotedText v ++ rest) = ⟨.quoted, decode v⟩ :: tokens rest := by
  have hspace : isSpaceByte '"'.toUInt8 = false := by decide
  have hskip : skipSpace (quotedText v ++ rest) =
      '"'.toUInt8 :: (escapeBytes v ++ '"'.toUInt8 :: rest) := by
    simp [skipSpace, quotedText, hspace]
  have hlexeme : lexeme '"'.toUInt8 (escapeBytes v ++ '"'.toUInt8 :: rest) =
      readQuoted (escapeBytes v ++ '"'.toUInt8 :: rest) := rfl
  have hunescape : unescapeQuoted (decode (escapeBytes v)) = decode v := by
    have htext : decode (escapeBytes v) = String.ofList (escapeChars (decode v).toList) := by
      rw [← decode_escapeBytes, String.ofList_toList]
    rw [htext, unescapeQuoted_escapeChars, String.ofList_toList]
  rw [tokens_of_skipSpace hskip, hlexeme, readQuoted, scanTo_escapeBytes]
  dsimp only
  rw [hunescape]

/-! ## Quoted text alone -/

theorem isSpace_quote : isSpace (Char.ofNat '"'.toUInt8.toNat) = false := by decide

theorem trim_quotedText (v : List UInt8) : trimSpaceBytes (quotedText v) = quotedText v :=
  trimSpaceBytes_between (by decide) (by decide) isSpace_quote isSpace_quote _

/-- Quoted text is free text with the value that was quoted. -/
theorem parse_quotedText (lib : SearchLib) (v : List UInt8) :
    parseSearch lib (quotedText v) = .ok (some (.leaf ⟨"", .contains, decode v⟩), []) := by
  have htokens : tokens (quotedText v) = [⟨.quoted, decode v⟩] := by
    have hcons := tokens_quotedText v []
    rwa [List.append_nil] at hcons
  have hread : Reads lib False [⟨.quoted, decode v⟩] (.unit (.leaf ⟨"", .contains, decode v⟩)) :=
    .leaf (.quoted rfl)
  refine parseSearch_of_parses ?_ ?_ (trim_quotedText v)
    (splitPipes_of_passes (passesPipes_quotedText v) (trim_quotedText v)) htokens ?_
    (parses_alone hread (parses_leaf (.quoted rfl) fun _ _ => ?_))
  · simp [quotedText]
  · simp
  · intro t ht
    rw [List.mem_singleton.mp ht]
    exact ⟨by simp, by simp⟩
  · intro t ht hk
    rw [List.mem_singleton.mp ht] at hk
    simp at hk

/-! ## A field and quoted text -/

/-- A field name of the grammar in ASCII. -/
structure AsciiField (lib : SearchLib) (f : List Char) : Prop where
  valid : isValidFieldName lib f = true
  ascii : ∀ c ∈ f, c.toNat < 128

/-- The characters of field names in ASCII. -/
def isFieldChar (c : Char) : Bool := c.isAlpha || c.isDigit || c = '_'

theorem AsciiField.ne_nil {f : List Char} (h : AsciiField lib f) : f ≠ [] := by
  rintro rfl
  have hvalid := h.valid
  simp [isValidFieldName] at hvalid

theorem AsciiField.chars {f : List Char} (h : AsciiField lib f) :
    ∀ c ∈ f, isFieldChar c = true := by
  intro c hc
  have hvalid := h.valid
  simp only [isValidFieldName, Bool.and_eq_true, List.all_eq_true] at hvalid
  have hchar := hvalid.1.2 c hc
  rwa [lib.isLetter_ascii c (h.ascii c hc), lib.isDigit_ascii c (h.ascii c hc)] at hchar

theorem AsciiField.head {f : List Char} (h : AsciiField lib f) :
    ∀ c ∈ f.head?, (c.isAlpha || c = '_') = true := by
  intro c hc
  have hvalid := h.valid
  simp only [isValidFieldName, Bool.and_eq_true, List.all_eq_true] at hvalid
  have hhead := hvalid.2
  rw [Option.mem_def.mp hc, Option.all_some] at hhead
  rwa [lib.isLetter_ascii c (h.ascii c (List.mem_of_mem_head? hc))] at hhead

theorem fieldChar_ascii : ∀ n < 128, isFieldChar (Char.ofNat n) = true →
    isSpace (Char.ofNat n) = false ∧ isOperatorChar (Char.ofNat n) = false ∧
      Char.ofNat n ≠ '!' ∧ (Char.ofNat n).toLower.toNat < 128 ∧
      isFieldChar (Char.ofNat n).toLower = true ∧ FreeByte (UInt8.ofNat n) ∧
      isSpaceByte (UInt8.ofNat n) = false := by decide

theorem fieldHead_ascii : ∀ n < 128, ((Char.ofNat n).isAlpha || Char.ofNat n = '_') = true →
    ((Char.ofNat n).toLower.isAlpha || (Char.ofNat n).toLower = '_') = true := by decide

theorem AsciiField.char {f : List Char} (h : AsciiField lib f) {c : Char} (hc : c ∈ f) :
    isSpace c = false ∧ isOperatorChar c = false ∧ c ≠ '!' ∧ c.toLower.toNat < 128 ∧
      isFieldChar c.toLower = true ∧ FreeByte (UInt8.ofNat c.toNat) ∧
      isSpaceByte (UInt8.ofNat c.toNat) = false := by
  have hall := fieldChar_ascii c.toNat (h.ascii c hc)
  rw [Char.ofNat_toNat] at hall
  exact hall (h.chars c hc)

/-- A field name is read in lower case, and is valid. -/
theorem AsciiField.fieldName {f : List Char} (h : AsciiField lib f) :
    fieldName lib f = f.map Char.toLower := by
  rw [Observability.fieldName, trimSpaceChars_of_not_space fun c hc => (h.char hc).1]
  exact List.map_congr_left fun c hc => lib.toLower_ascii c (h.ascii c hc)

theorem AsciiField.lower {f : List Char} (h : AsciiField lib f) :
    isValidFieldName lib (f.map Char.toLower) = true := by
  have hne := h.ne_nil
  simp only [isValidFieldName, Bool.and_eq_true, List.all_eq_true, decide_eq_true_eq]
  refine ⟨⟨by simpa using hne, ?_⟩, ?_⟩
  · intro c hc
    obtain ⟨d, hd, rfl⟩ := List.mem_map.mp hc
    obtain ⟨-, -, -, hascii, hchar, -⟩ := h.char hd
    rw [lib.isLetter_ascii _ hascii, lib.isDigit_ascii _ hascii]
    exact hchar
  · cases f with
    | nil => exact absurd rfl hne
    | cons c f =>
        obtain ⟨-, -, -, hascii, -⟩ := h.char List.mem_cons_self
        have hall := fieldHead_ascii c.toNat (h.ascii c List.mem_cons_self)
        rw [Char.ofNat_toNat] at hall
        rw [List.map_cons, List.head?_cons, Option.all_some, lib.isLetter_ascii _ hascii]
        exact hall (h.head c rfl)

/-- The word `f=` has no operator but the sign of equality. -/
theorem AsciiField.word_chars {f : List Char} (h : AsciiField lib f) :
    ∀ c ∈ f ++ ['='], c ≠ '>' ∧ c ≠ '<' ∧ c ≠ '!' := by
  intro c hc
  rcases List.mem_append.mp hc with hc | hc
  · obtain ⟨-, hop, hbang, -⟩ := h.char hc
    rw [isOperatorChar] at hop
    simp only [Bool.or_eq_false_iff, decide_eq_false_iff_not] at hop
    exact ⟨hop.1.1.1, hop.1.1.2, hbang⟩
  · rw [List.mem_singleton.mp hc]
    decide

theorem index_none {s : List Char} (sub : List Char) {c : Char} (hsub : c ∈ sub) (hs : c ∉ s) :
    index s sub = none := by
  rw [Option.eq_none_iff_forall_ne_some]
  intro i hi
  exact hs ((index_isInfix hi).subset hsub)

theorem index_append_singleton {f : List Char} {c : Char} (h : c ∉ f) :
    index (f ++ [c]) [c] = some f.length := by
  induction f with
  | nil => simp [index]
  | cons d f ih =>
      rw [List.mem_cons, not_or] at h
      have hpre : ¬ [c] <+: d :: (f ++ [c]) := by
        rw [List.cons_prefix_cons]
        exact fun hpre => h.1 hpre.1
      rw [List.cons_append, index, if_neg hpre, ih h.2]
      rfl

/-- `f=` waits for a value to compare the field with. -/
theorem AsciiField.opens {f : List Char} (h : AsciiField lib f) :
    opensField lib (String.ofList (f ++ ['='])) (String.ofList (f.map Char.toLower)) .eq := by
  have hword := h.word_chars
  have hgt : '>' ∉ f ++ ['='] := fun hc => (hword _ hc).1 rfl
  have hlt : '<' ∉ f ++ ['='] := fun hc => (hword _ hc).2.1 rfl
  have hbang : '!' ∉ f ++ ['='] := fun hc => (hword _ hc).2.2 rfl
  have heq : '=' ∉ f := by
    intro hc
    have hop := (h.char hc).2.1
    simp [isOperatorChar] at hop
  have hsep : "=".length = 1 := by decide
  have hlen : f.length = f.length - 1 + 1 := by
    have := List.length_pos_iff.mpr h.ne_nil
    omega
  constructor
  · have hindex : index (f ++ ['=']) "=".toList = some (f.length - 1 + 1) := by
      rw [← hlen]
      exact index_append_singleton heq
    have htake : (f ++ ['=']).take (f.length - 1 + 1) = f := by
      rw [← hlen]
      simp
    have hdrop : trimSpaceChars ((f ++ ['=']).drop (f.length - 1 + 1 + "=".length)) = [] := by
      rw [← hlen, hsep]
      simp [trimSpaceChars]
    rw [parseFieldPredicate, String.toList_ofList]
    simp only [fieldOps, parseFieldPredicateLoop]
    rw [index_none ">=".toList (by simp) hgt, index_none "<=".toList (by simp) hlt,
      index_none "!=".toList (by simp) hbang, index_none ">".toList (by simp) hgt,
      index_none "<".toList (by simp) hlt, hindex]
    simp only [htake, h.fieldName, h.lower, hdrop, not_true_eq_false, if_false, if_true]
  · have hsuffix : ∀ (sub : List Char) {c : Char}, c ∈ sub → c ∉ f ++ ['='] →
        ¬ sub <:+ f ++ ['='] := fun _ _ hsub hc hsuf => hc (hsuf.subset hsub)
    have htake : (f ++ ['=']).take ((f ++ ['=']).length - "=".length) = f := by simp [hsep]
    rw [fieldOpSuffix, String.toList_ofList]
    simp only [fieldOps, fieldOpSuffixLoop]
    rw [if_pos (hsuffix ">=".toList (by simp) hgt),
      if_pos (hsuffix "<=".toList (by simp) hlt),
      if_pos (hsuffix "!=".toList (by simp) hbang),
      if_pos (hsuffix ">".toList (by simp) hgt),
      if_pos (hsuffix "<".toList (by simp) hlt), if_neg (by simp)]
    simp only [htake, h.fieldName, h.lower, if_true]

/-- The text `f=` and a quoted value. -/
def fieldText (f : List Char) (v : List UInt8) : List UInt8 :=
  encode (String.ofList (f ++ ['='])) ++ quotedText v

theorem mem_encode_ofList {cs : List Char} (hascii : ∀ c ∈ cs, c.toNat < 128) {b : UInt8}
    (h : b ∈ encode (String.ofList cs)) : ∃ c ∈ cs, b = UInt8.ofNat c.toNat := by
  rw [encode, String.toList_ofList, List.mem_flatMap] at h
  obtain ⟨c, hc, hb⟩ := h
  rw [encodeChar_ascii (hascii c hc), List.mem_singleton] at hb
  exact ⟨c, hc, hb⟩

theorem AsciiField.word_ascii {f : List Char} (h : AsciiField lib f) :
    ∀ c ∈ f ++ ['='], c.toNat < 128 := by
  intro c hc
  rcases List.mem_append.mp hc with hc | hc
  · exact h.ascii c hc
  · rw [List.mem_singleton.mp hc]
    decide

/-- The bytes of `f=` are those of one word. -/
theorem AsciiField.word_bytes {f : List Char} (h : AsciiField lib f) :
    ∀ b ∈ encode (String.ofList (f ++ ['='])),
      endsWord b = false ∧ b ≠ '"'.toUInt8 ∧ b ≠ '/'.toUInt8 ∧ b ≠ '|'.toUInt8 := by
  intro b hb
  obtain ⟨c, hc, rfl⟩ := mem_encode_ofList h.word_ascii hb
  rcases List.mem_append.mp hc with hc | hc
  · obtain ⟨-, -, -, -, -, ⟨⟨hl, hr, hq, hs⟩, hpipe, -⟩, hspace⟩ := h.char hc
    exact ⟨by simp [endsWord, hl, hr, hq, hs, hspace], hq, hs, hpipe⟩
  · rw [List.mem_singleton.mp hc]
    decide

theorem passesPipes_of_forall {text : List UInt8}
    (h : ∀ b ∈ text, b ≠ '"'.toUInt8 ∧ b ≠ '/'.toUInt8 ∧ b ≠ '|'.toUInt8) :
    PassesPipes text := by
  induction text with
  | nil =>
      intro buf rest
      simp
  | cons b text ih =>
      obtain ⟨hq, hs, hpipe⟩ := h b List.mem_cons_self
      exact (passesPipes_byte hq hs hpipe).append (ih fun c hc => h c (List.mem_cons_of_mem _ hc))

theorem wordKind_of_equals {f : List Char} : wordKind (String.ofList (f ++ ['='])) = .word := by
  have hmem : '=' ∈ (String.ofList ((String.ofList (f ++ ['='])).toList.map Char.toUpper)).toList := by
    simp only [String.toList_ofList, List.map_append, List.mem_append]
    exact Or.inr (by decide)
  rw [wordKind]
  split_ifs with hand hor hnot
  · rw [hand] at hmem
    exact absurd hmem (by decide)
  · rw [hor] at hmem
    exact absurd hmem (by decide)
  · rw [hnot] at hmem
    exact absurd hmem (by decide)
  · rfl

theorem AsciiField.tokens {f : List Char} (h : AsciiField lib f) (v : List UInt8) :
    Observability.tokens (fieldText f v) =
      [⟨.word, String.ofList (f ++ ['='])⟩, ⟨.quoted, decode v⟩] := by
  have hne : encode (String.ofList (f ++ ['='])) ≠ [] := by
    intro hnil
    have htext := congrArg decode hnil
    rw [decode_encode] at htext
    have hchars := congrArg String.toList htext
    simp [decode] at hchars
  have hends : ∀ b ∈ (quotedText v).head?, endsWord b = true := by
    intro b hb
    rw [quotedText, List.head?_cons, Option.mem_some_iff] at hb
    rw [← hb]
    decide
  have hvalue := tokens_quotedText v []
  rw [List.append_nil] at hvalue
  rw [fieldText, tokens_word hne (fun b hb => (h.word_bytes b hb).1) hends, decode_encode,
    wordKind_of_equals, hvalue]
  rfl

theorem AsciiField.trim {f : List Char} (h : AsciiField lib f) (v : List UInt8) :
    trimSpaceBytes (fieldText f v) = fieldText f v := by
  cases f with
  | nil => exact absurd rfl h.ne_nil
  | cons c f =>
      have hascii := h.ascii c List.mem_cons_self
      have htext : fieldText (c :: f) v = UInt8.ofNat c.toNat ::
          (encode (String.ofList (f ++ ['='])) ++ ('"'.toUInt8 :: escapeBytes v) ++
            ['"'.toUInt8]) := by
        simp [fieldText, encode, quotedText, encodeChar_ascii hascii]
      have hbyte : (UInt8.ofNat c.toNat).toNat = c.toNat := toNat_ofNat_byte hascii
      rw [htext]
      refine trimSpaceBytes_between ?_ (by decide) ?_ isSpace_quote _
      · rw [IsAscii, hbyte]
        exact hascii
      · rw [hbyte, Char.ofNat_toNat]
        exact (h.char List.mem_cons_self).1

/-- A field and a quoted value without a star are an equality. -/
theorem parse_fieldText (lib : SearchLib) {f : List Char} (hf : AsciiField lib f)
    {v : List UInt8} (hv : '*'.toUInt8 ∉ v) : parseSearch lib (fieldText f v) =
      .ok (some (.leaf ⟨String.ofList (f.map Char.toLower), .eq, decode v⟩), []) := by
  have hpasses : PassesPipes (fieldText f v) :=
    (passesPipes_of_forall fun b hb => (hf.word_bytes b hb).2).append (passesPipes_quotedText v)
  have hstar : hasStar (decode v) = false := by
    rw [hasStar, Bool.eq_false_iff]
    intro hmem
    have hmem' : '*' ∈ (decode v).toList := by simpa using hmem
    exact hv (mem_of_mem_decode (by decide) hmem')
  have hleaf : Leaf lib [⟨.word, String.ofList (f ++ ['='])⟩, ⟨.quoted, decode v⟩]
      ⟨String.ofList (f.map Char.toLower), likeIfStar .eq (decode v), decode v⟩ :=
    .fieldValue rfl (Or.inl rfl) hf.opens
  have hop : likeIfStar .eq (decode v) = .eq := by simp [likeIfStar, hstar]
  rw [hop] at hleaf
  have hread : Reads lib False _ (.unit (.leaf _)) := .leaf hleaf
  refine parseSearch_of_parses ?_ ?_ (hf.trim v) (splitPipes_of_passes hpasses (hf.trim v))
    (hf.tokens v) ?_ (parses_alone hread (parses_leaf hleaf fun t ht => by simp at ht))
  · intro hstar
    have hlen := congrArg List.length hstar
    simp [fieldText, quotedText] at hlen
    omega
  · simp
  · intro t ht
    simp only [List.mem_cons, List.not_mem_nil, or_false] at ht
    rcases ht with rfl | rfl <;> exact ⟨by simp, by simp⟩

/-- Quoted text is read as the value that was quoted, alone and behind a field. -/
theorem quoting_round_trips (lib : SearchLib) (v : List UInt8) (f : List Char)
    (hv : '*'.toUInt8 ∉ v) (hf : AsciiField lib f) :
    parseSearch lib (quotedText v) = .ok (some (.leaf ⟨"", .contains, decode v⟩), []) ∧
      parseSearch lib (fieldText f v) =
        .ok (some (.leaf ⟨String.ofList (f.map Char.toLower), .eq, decode v⟩), []) :=
  ⟨parse_quotedText lib v, parse_fieldText lib hf hv⟩

/-- `a" OR \|`, as bytes. -/
def quotedExample : List UInt8 := [97, 34, 32, 79, 82, 32, 92, 124]

theorem quoting_round_trips_level :
    quotedText quotedExample = [34, 97, 92, 34, 32, 79, 82, 32, 92, 92, 124, 34] ∧
      parseSearch asciiLib (quotedText quotedExample) =
          .ok (some (.leaf ⟨"", .contains, decode quotedExample⟩), []) ∧
        parseSearch asciiLib (fieldText "Level".toList quotedExample) =
          .ok (some (.leaf ⟨String.ofList ("Level".toList.map Char.toLower), .eq,
            decode quotedExample⟩), []) :=
  ⟨by decide, quoting_round_trips asciiLib quotedExample "Level".toList (by decide)
    ⟨by decide, by decide⟩⟩

/-- The predicate is one on the field in lower case. -/
theorem field_is_lowered :
    AsciiField asciiLib "Level".toList ∧
      parseSearch asciiLib (fieldText "Level".toList [120]) =
        .ok (some (.leaf ⟨"level", .eq, "x"⟩), []) ∧
      parseSearch asciiLib (fieldText "Level".toList [120]) ≠
        .ok (some (.leaf ⟨"Level", .eq, "x"⟩), []) := by
  have hparse : parseSearch asciiLib (fieldText "Level".toList [120]) =
      .ok (some (.leaf ⟨"level", .eq, "x"⟩), []) := by
    have htext : fieldText "Level".toList [120] = [76, 101, 118, 101, 108, 61, 34, 120, 34] := by
      decide
    rw [htext]
    rfl
  refine ⟨⟨by decide, by decide⟩, hparse, ?_⟩
  rw [hparse]
  simp

end GoSite.Observability
