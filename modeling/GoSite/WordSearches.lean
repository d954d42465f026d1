import GoSite.ReadSearches
import GoSite.SearchRepresentation

/-!
# Searches for words

The lexer asks of each byte whether it is white space as if it were a code point.
Two continuation bytes are, so a word with one of them in its encoding is cut
there.
-/
namespace GoSite.Observability
open BooleanTrees GoStrings

variable {lib : SearchLib}

/-! ## Text without quotes, slashes and parentheses -/

/-- Neither a quote nor a slash nor a parenthesis. -/
def WordByte (b : UInt8) : Prop :=
  b ≠ '('.toUInt8 ∧ b ≠ ')'.toUInt8 ∧ b ≠ '"'.toUInt8 ∧ b ≠ '/'.toUInt8

theorem lexeme_wordByte {ch : UInt8} (h : WordByte ch) (rest : List UInt8) :
    lexeme ch rest = readWord (ch :: rest) := by
  rw [lexeme, if_neg h.1, if_neg h.2.1, if_neg h.2.2.1, if_neg h.2.2.2]

/-- Each token is a word or a keyword made of bytes of the text. -/
theorem tokens_of_wordBytes {bytes : List UInt8} (h : ∀ b ∈ bytes, WordByte b) :
    ∀ t ∈ tokens bytes, ∃ part, part ⊆ bytes ∧ t = ⟨wordKind (decode part), decode part⟩ := by
  induction hlen : bytes.length using Nat.strong_induction_on generalizing bytes with
  | _ n ih =>
      cases hskip : skipSpace bytes with
      | nil => simp [tokens_of_skipSpace_nil hskip]
      | cons ch rest =>
          have hle := skipSpace_length_le bytes
          have hafter := lexeme_length_le (isSpaceByte_of_skipSpace hskip) rest
          have hsub : ch :: rest ⊆ bytes := hskip ▸ (List.dropWhile_sublist _).subset
          have hch : WordByte ch := h ch (hsub List.mem_cons_self)
          rw [hskip, List.length_cons] at hle
          rw [tokens_of_skipSpace hskip]
          rw [lexeme_wordByte hch] at hafter ⊢
          have hdrop : (readWord (ch :: rest)).2 ⊆ bytes := by
            intro b hb
            exact hsub ((List.dropWhile_sublist (!endsWord ·)).subset hb)
          intro t ht
          rcases List.mem_cons.mp ht with rfl | ht
          · exact ⟨(ch :: rest).takeWhile (!endsWord ·), fun b hb =>
              hsub ((List.takeWhile_sublist _).subset hb), rfl⟩
          · obtain ⟨part, hpart, hpred⟩ := ih _ (by omega) (fun b hb => h b (hdrop hb)) rfl t ht
            exact ⟨part, fun b hb => hdrop (hpart hb), hpred⟩

/-- A word and what comes after it. -/
theorem tokens_word {bytes rest : List UInt8} (hne : bytes ≠ [])
    (hbytes : ∀ b ∈ bytes, endsWord b = false)
    (hrest : ∀ b ∈ rest.head?, endsWord b = true) :
    tokens (bytes ++ rest) = ⟨wordKind (decode bytes), decode bytes⟩ :: tokens rest := by
  cases bytes with
  | nil => exact absurd rfl hne
  | cons ch cs =>
      have hch := hbytes ch List.mem_cons_self
      simp only [endsWord, Bool.or_eq_false_iff, decide_eq_false_iff_not] at hch
      obtain ⟨⟨⟨⟨hl, hr⟩, hq⟩, hs⟩, hspace⟩ := hch
      have hskip : skipSpace (ch :: cs ++ rest) = ch :: (cs ++ rest) := by
        simp [skipSpace, hspace]
      have htake : (ch :: cs ++ rest).takeWhile (!endsWord ·) = ch :: cs := by
        rw [List.takeWhile_append_of_pos (by simpa using hbytes)]
        cases rest with
        | nil => simp
        | cons d rest => simp [hrest d rfl]
      have hdrop : (ch :: cs ++ rest).dropWhile (!endsWord ·) = rest := by
        rw [List.dropWhile_append_of_pos (by simpa using hbytes)]
        cases rest with
        | nil => rfl
        | cons d rest => simp [hrest d rfl]
      rw [tokens_of_skipSpace hskip, lexeme_wordByte ⟨hl, hr, hq, hs⟩, readWord]
      rw [← List.cons_append, htake, hdrop]

theorem tokens_space {b : UInt8} (h : isSpaceByte b = true) (rest : List UInt8) :
    tokens (b :: rest) = tokens rest :=
  tokens_congr (by simp [skipSpace, h])

/-! ## Words without operators -/

theorem index_isInfix {s sub : List Char} {i : ℕ} (h : index s sub = some i) : sub <:+: s := by
  induction s generalizing i with
  | nil =>
      rw [index] at h
      split_ifs at h with hsub
      rw [hsub]
  | cons c cs ih =>
      rw [index] at h
      split_ifs at h with hpre
      · exact hpre.isInfix
      · obtain ⟨j, hj, -⟩ := Option.map_eq_some_iff.mp h
        exact (ih hj).trans (List.suffix_cons c cs).isInfix

/-- A character of which each operator has one. -/
def isOperatorChar (c : Char) : Bool := c = '>' || c = '<' || c = '=' || c = ':'

theorem fieldOps_operatorChar : ∀ sep_op ∈ fieldOps, ∃ c ∈ sep_op.1.toList, isOperatorChar c := by
  decide

theorem parseFieldPredicateLoop_none {word : List Char} {ops : List (String × Op)}
    (hops : ∀ sep_op ∈ ops, ∃ c ∈ sep_op.1.toList, isOperatorChar c)
    (h : ∀ c ∈ word, isOperatorChar c = false) : parseFieldPredicateLoop lib word ops = none := by
  induction ops with
  | nil => rfl
  | cons sep_op ops ih =>
      obtain ⟨sep, op⟩ := sep_op
      have hnone : index word sep.toList = none := by
        rw [Option.eq_none_iff_forall_ne_some]
        intro i hi
        obtain ⟨c, hc, hop⟩ := hops _ List.mem_cons_self
        simp [h c ((index_isInfix hi).subset hc)] at hop
      rw [parseFieldPredicateLoop, hnone]
      exact ih fun so hso => hops so (List.mem_cons_of_mem _ hso)

theorem fieldOpSuffixLoop_none {word : List Char} {ops : List (String × Op)}
    (hops : ∀ sep_op ∈ ops, ∃ c ∈ sep_op.1.toList, isOperatorChar c)
    (h : ∀ c ∈ word, isOperatorChar c = false) : fieldOpSuffixLoop lib word ops = none := by
  induction ops with
  | nil => rfl
  | cons sep_op ops ih =>
      obtain ⟨sep, op⟩ := sep_op
      have hsuffix : ¬ sep.toList <:+ word := by
        intro hsuffix
        obtain ⟨c, hc, hop⟩ := hops _ List.mem_cons_self
        simp [h c (hsuffix.subset hc)] at hop
      rw [fieldOpSuffixLoop, if_pos hsuffix]
      exact ih fun so hso => hops so (List.mem_cons_of_mem _ hso)

/-- Words without operators are free text. -/
def FreeWords (ts : List Token) : Prop :=
  ∀ t ∈ ts, (t.kind = .word ∨ t.kind = .andOp ∨ t.kind = .orOp ∨ t.kind = .notOp) ∧
    ∀ c ∈ t.text.toList, isOperatorChar c = false

theorem FreeWords.noFields {ts : List Token} (h : FreeWords ts) : NoFields lib ts :=
  fun t ht _ => fieldOpSuffixLoop_none fieldOps_operatorChar (h t ht).2

theorem FreeWords.readable {ts : List Token} (h : FreeWords ts) : ∀ t ∈ ts, Readable lib t := by
  intro t ht
  rcases (h t ht).1 with hk | hk | hk | hk <;> exact ⟨by simp [hk], by simp [hk]⟩

theorem wordPredicate_free {word : String} (h : ∀ c ∈ word.toList, isOperatorChar c = false) :
    wordPredicate lib word = ⟨"", .contains, word⟩ :=
  wordPredicate_of_none (parseFieldPredicateLoop_none fieldOps_operatorChar h)

theorem Leaf.free {us : List Token} {p : PredExpr} (h : Leaf lib us p) (hfree : FreeWords us) :
    [p] = us.map fun t => (⟨"", .contains, t.text⟩ : PredExpr) := by
  have hkind : ∀ t ∈ us, t.kind ≠ .quoted ∧ t.kind ≠ .regex := by
    intro t ht
    rcases (hfree t ht).1 with hk | hk | hk | hk <;> simp [hk]
  cases h with
  | quoted hk => exact absurd hk (hkind _ (by simp)).1
  | regex hk => exact absurd hk (hkind _ (by simp)).2
  | word hk =>
      rw [wordPredicate_free (hfree _ (List.mem_singleton_self _)).2]
      rfl
  | fieldRegex hw hk => exact absurd hk (hkind _ (by simp)).2
  | fieldValue hw hk hopens =>
      rename_i w t field op
      have hplain : NoFields lib [w, t] := hfree.noFields
      have hnone := hplain w (by simp) hw
      rw [hopens.2] at hnone
      exact absurd hnone (by simp)

/-- The predicates of free words are the words. -/
theorem Cut.freeWords {ts : List Token} {ps : List PredExpr} (h : Cut lib ts ps)
    (hfree : FreeWords ts) :
    ps = (ts.filter isOperand).map fun t => (⟨"", .contains, t.text⟩ : PredExpr) := by
  obtain ⟨gs, hleaf, hcut, rfl⟩ := h
  rw [hcut, List.map_flatMap, List.map_eq_flatMap]
  refine List.flatMap_congr ?_
  intro g hg
  refine (hleaf g hg).free fun t ht => hfree t ?_
  have hmem : t ∈ ts.filter isOperand := by
    rw [hcut]
    exact List.mem_flatMap.mpr ⟨g, hg, ht⟩
  exact (List.mem_filter.mp hmem).1

/-- An accepted search of free words has the words as its predicates. -/
theorem leaves_of_freeWords {q : List UInt8} {e : FilterExpr} {pipes : List PipeCmd}
    (h : parseSearch lib q = .ok (some e, pipes)) (hfree : FreeWords (searchTokens q)) :
    e.leaves = ((searchTokens q).filter isOperand).map
      fun t => (⟨"", .contains, t.text⟩ : PredExpr) := by
  rcases parseSearch_readsOff h with ⟨hnone, -⟩ | ⟨e', used, he, hused, hread, hall⟩
  · simp at hnone
  · have hused : searchTokens q = used := hall fun t ht => (hfree.readable t ht).2
    rw [Option.some.inj he, hused]
    rw [hused] at hfree
    exact hread.cut.freeWords hfree

/-! ## Words cut in their encoding -/

def isCutByte (b : UInt8) : Bool := b = 0x85 || b = 0xA0

theorem isSpaceByte_eq {b : UInt8} (h : ¬ IsAscii b) : isSpaceByte b = isCutByte b := by
  have hall : ∀ n < 256, 128 ≤ n →
      isSpaceByte (UInt8.ofNat n) = isCutByte (UInt8.ofNat n) := by
    set_option maxRecDepth 20000 in
    decide
  rw [IsAscii] at h
  have hb := hall b.toNat b.toNat_lt (by omega)
  rwa [UInt8.ofNat_toNat] at hb

theorem not_isAscii_of_isCutByte {b : UInt8} (h : isCutByte b = true) : ¬ IsAscii b := by
  rw [isCutByte, Bool.or_eq_true, decide_eq_true_eq, decide_eq_true_eq] at h
  rcases h with rfl | rfl <;> decide

/-- No encoding begins with such a byte. -/
theorem isCutByte_head {c : Char} {b : UInt8} {rest : List UInt8}
    (h : String.utf8EncodeChar c = b :: rest) : isCutByte b = false := by
  rw [Bool.eq_false_iff]
  intro hb
  rw [isCutByte, Bool.or_eq_true, decide_eq_true_eq, decide_eq_true_eq] at hb
  rcases hb with rfl | rfl <;> rcases head_encodeChar h with hlt | hlt <;>
    exact absurd hlt (by decide)

/-- What stands before a cut is not the text, and has a replacement character. -/
theorem decode_before_cut {cs : List Char} {part rest : List UInt8} {b : UInt8}
    (hb : isCutByte b = true) (h : cs.flatMap String.utf8EncodeChar = part ++ b :: rest) :
    Char.ofNat 0xFFFD ∈ (decode part).toList ∧ (decode part).toList ≠ cs := by
  simp only [decode, String.toList_ofList]
  induction cs generalizing part with
  | nil => simp at h
  | cons c cs ih =>
      rw [List.flatMap_cons] at h
      rcases List.append_eq_append_iff.mp h with ⟨part', rfl, hrest⟩ | ⟨more, henc, hmore⟩
      · obtain ⟨hmem, hne⟩ := ih hrest
        rw [runes_encodeChar]
        exact ⟨List.mem_cons_of_mem _ hmem, fun heq => hne (List.cons.inj heq).2⟩
      · cases more with
        | nil =>
            rw [List.append_nil] at henc
            have hcut : cs.flatMap String.utf8EncodeChar = [] ++ b :: rest := by
              simpa using hmore.symm
            have hmem := (ih hcut).1
            simp at hmem
        | cons d more =>
            obtain ⟨rfl, -⟩ := List.cons.inj hmore
            cases part with
            | nil =>
                rw [isCutByte_head henc] at hb
                exact absurd hb (by simp)
            | cons p ps =>
                have hnone : decodeRune (p :: ps) = none := by
                  rw [Option.eq_none_iff_forall_ne_some]
                  intro c' hc'
                  obtain ⟨more', hps⟩ := decodeRune_eq_some_iff.mp hc'
                  have hsame : decodeRune (String.utf8EncodeChar c) = some c' :=
                    decodeRune_eq_some_iff.mpr
                      ⟨more' ++ b :: more, by rw [henc, hps, List.append_assoc]⟩
                  have hc : decodeRune (String.utf8EncodeChar c) = some c :=
                    decodeRune_eq_some_iff.mpr ⟨[], by simp⟩
                  rw [hc, Option.some.injEq] at hsame
                  have hlen := congrArg List.length henc
                  rw [hps, hsame] at hlen
                  simp at hlen
                rw [runes_of_none hnone]
                refine ⟨List.mem_cons_self, fun heq => ?_⟩
                obtain ⟨rfl, -⟩ := List.cons.inj heq
                have hmem : b ∈ String.utf8EncodeChar (Char.ofNat 0xFFFD) := by
                  rw [henc]
                  simp
                rw [isCutByte, Bool.or_eq_true, decide_eq_true_eq, decide_eq_true_eq] at hb
                rcases hb with rfl | rfl <;> exact absurd hmem (by decide)

/-! ## The text of a search without quotes -/

/-- A byte that is no part of a quote, an expression, a group, a pipe or an operator. -/
def FreeByte (b : UInt8) : Prop :=
  WordByte b ∧ b ≠ '|'.toUInt8 ∧ b ≠ '>'.toUInt8 ∧ b ≠ '<'.toUInt8 ∧ b ≠ '='.toUInt8 ∧
    b ≠ ':'.toUInt8

instance (b : UInt8) : Decidable (WordByte b) := by
  unfold WordByte
  infer_instance

instance (b : UInt8) : Decidable (FreeByte b) := by
  unfold FreeByte
  infer_instance

theorem freeByte_of_not_ascii {b : UInt8} (h : ¬ IsAscii b) : FreeByte b := by
  have hall : ∀ n < 256, 128 ≤ n → FreeByte (UInt8.ofNat n) := by
    set_option maxRecDepth 20000 in
    decide
  rw [IsAscii] at h
  have hb := hall b.toNat b.toNat_lt (by omega)
  rwa [UInt8.ofNat_toNat] at hb

theorem splitPipesLoop_free {buf bytes : List UInt8} (h : ∀ b ∈ bytes, FreeByte b) :
    splitPipesLoop .plain false buf bytes = .ok [trimSpaceBytes (buf ++ bytes)] := by
  induction bytes generalizing buf with
  | nil => simp [splitPipesLoop]
  | cons b bytes ih =>
      obtain ⟨⟨-, -, hquote, hslash⟩, hpipe, -⟩ := h b List.mem_cons_self
      rw [splitPipesLoop, if_neg hquote, if_neg hslash, if_neg hpipe,
        ih fun c hc => h c (List.mem_cons_of_mem _ hc)]
      simp

theorem splitPipes_free {bytes : List UInt8} (h : ∀ b ∈ bytes, FreeByte b)
    (htrim : trimSpaceBytes bytes = bytes) : splitPipes bytes = .ok (bytes, []) := by
  rw [splitPipes, splitPipesLoop_free h, List.nil_append, htrim]
  rfl

theorem searchTokens_free {bytes : List UInt8} (h : ∀ b ∈ bytes, FreeByte b)
    (htrim : trimSpaceBytes bytes = bytes) : searchTokens bytes = tokens bytes := by
  rw [searchTokens, htrim, splitPipes_free h htrim]
  dsimp only
  rw [htrim]

theorem freeWords_of_freeBytes {bytes : List UInt8} (h : ∀ b ∈ bytes, FreeByte b) :
    FreeWords (tokens bytes) := by
  intro t ht
  obtain ⟨part, hpart, rfl⟩ := tokens_of_wordBytes (fun b hb => (h b hb).1) t ht
  refine ⟨wordKind_eq_word_or _, fun c hc => ?_⟩
  rw [Bool.eq_false_iff]
  intro hop
  rw [isOperatorChar] at hop
  simp only [Bool.or_eq_true, decide_eq_true_eq] at hop
  rcases hop with ((rfl | rfl) | rfl) | rfl <;>
    exact absurd (h _ (hpart (mem_of_mem_decode (by decide) hc))) (by decide)

/-! ## Bare words -/

/-- A word without white space, quotes, groups, pipes, operators and stars. -/
structure BareWord (w : String) : Prop where
  nonempty : w ≠ ""
  chars : ∀ c ∈ w.toList, isSpace c = false ∧ c ∉ ['"', '(', ')', '/', '|', '*'] ∧
    isOperatorChar c = false
  keyword : w ≠ "AND" ∧ w ≠ "OR" ∧ w ≠ "NOT"

/-- No byte of the encoding is taken for white space, and the word is no keyword
in other letters. -/
def Intact (w : String) : Prop :=
  (∀ b ∈ encode w, isCutByte b = false) ∧ wordKind w = .word

/-- The predicate of free text. -/
def containsWord (w : String) : FilterExpr := .leaf ⟨"", .contains, w⟩

theorem BareWord.bytes {w : String} (h : BareWord w) :
    ∀ b ∈ encode w, FreeByte b ∧ (IsAscii b → isSpaceByte b = false) := by
  intro b hb
  rw [encode, List.mem_flatMap] at hb
  obtain ⟨c, hc, hbc⟩ := hb
  obtain ⟨hspace, hmem, hop⟩ := h.chars c hc
  by_cases hascii : c.toNat < 128
  · have hall : ∀ n < 128, isSpace (Char.ofNat n) = false →
        Char.ofNat n ∉ ['"', '(', ')', '/', '|', '*'] → isOperatorChar (Char.ofNat n) = false →
        FreeByte (UInt8.ofNat n) ∧ isSpaceByte (UInt8.ofNat n) = false := by decide
    rw [encodeChar_ascii hascii, List.mem_singleton] at hbc
    have hbyte := hall c.toNat hascii (by rwa [Char.ofNat_toNat]) (by rwa [Char.ofNat_toNat])
      (by rwa [Char.ofNat_toNat])
    rw [hbc]
    exact ⟨hbyte.1, fun _ => hbyte.2⟩
  · have hnot := not_isAscii_of_mem_encodeChar (by omega) hbc
    exact ⟨freeByte_of_not_ascii hnot, fun hb => absurd hb hnot⟩

theorem BareWord.endsWord {w : String} (h : BareWord w) :
    ∀ b ∈ encode w, Observability.endsWord b = isCutByte b := by
  intro b hb
  obtain ⟨⟨⟨hl, hr, hq, hs⟩, -⟩, hspace⟩ := h.bytes b hb
  have hends : Observability.endsWord b = isSpaceByte b := by
    simp [Observability.endsWord, hl, hr, hq, hs]
  rw [hends]
  by_cases hascii : IsAscii b
  · rw [hspace hascii, eq_comm, Bool.eq_false_iff]
    exact fun hcut => not_isAscii_of_isCutByte hcut hascii
  · exact isSpaceByte_eq hascii

theorem BareWord.encode_ne_nil {w : String} (h : BareWord w) : encode w ≠ [] := by
  intro hnil
  have hw := congrArg decode hnil
  rw [decode_encode] at hw
  exact h.nonempty hw

/-- A word that is not cut is one token. -/
theorem BareWord.tokens_whole {w : String} (h : BareWord w)
    (hcut : ∀ b ∈ encode w, isCutByte b = false) {rest : List UInt8}
    (hrest : ∀ b ∈ rest.head?, Observability.endsWord b = true) :
    tokens (encode w ++ rest) = ⟨wordKind w, w⟩ :: tokens rest := by
  have htokens := tokens_word h.encode_ne_nil
    (fun b hb => by rw [h.endsWord b hb, hcut b hb]) hrest
  rwa [decode_encode] at htokens

theorem wordKind_of_replacement {word : String} (h : Char.ofNat 0xFFFD ∈ word.toList) :
    wordKind word = .word := by
  have hupper : Char.ofNat 0xFFFD ∈ (String.ofList (word.toList.map Char.toUpper)).toList := by
    rw [String.toList_ofList]
    exact List.mem_map.mpr ⟨_, h, by decide⟩
  rw [wordKind]
  split_ifs with hand hor hnot
  · rw [hand] at hupper
    exact absurd hupper (by decide)
  · rw [hor] at hupper
    exact absurd hupper (by decide)
  · rw [hnot] at hupper
    exact absurd hupper (by decide)
  · rfl

/-- A word that is cut begins with another word. -/
theorem BareWord.tokens_cut {w : String} (h : BareWord w)
    (hcut : ¬ ∀ b ∈ encode w, isCutByte b = false) (rest : List UInt8) :
    ∃ x ts, tokens (encode w ++ rest) = ⟨.word, x⟩ :: ts ∧ x ≠ w ∧ wordKind x = .word := by
  have hsplit := List.takeWhile_append_dropWhile (p := (!isCutByte ·)) (l := encode w)
  cases hdrop : (encode w).dropWhile (!isCutByte ·) with
  | nil =>
      rw [List.dropWhile_eq_nil_iff] at hdrop
      exact absurd (fun b hb => by simpa using hdrop b hb) hcut
  | cons b after =>
      rw [hdrop] at hsplit
      have hb : isCutByte b = true := by
        have hhead := List.head?_dropWhile_not (!isCutByte ·) (encode w)
        rw [hdrop] at hhead
        simpa using hhead
      obtain ⟨hmem, hne⟩ := decode_before_cut hb hsplit.symm
      have hkind := wordKind_of_replacement hmem
      have hbefore : ∀ c ∈ (encode w).takeWhile (!isCutByte ·), c ∈ encode w ∧
          isCutByte c = false := by
        intro c hc
        have hnot := List.mem_takeWhile_imp hc
        exact ⟨(List.takeWhile_sublist _).subset hc, by simpa using hnot⟩
      have hnil : (encode w).takeWhile (!isCutByte ·) ≠ [] := by
        intro hnil
        rw [hnil] at hmem
        simp [decode] at hmem
      have hends : Observability.endsWord b = true := by
        rw [h.endsWord b (by rw [← hsplit]; simp), hb]
      have htokens : tokens (_ ++ (b :: after ++ rest)) = _ := tokens_word hnil
        (fun c hc => by rw [h.endsWord c (hbefore c hc).1, (hbefore c hc).2])
        (by simpa using hends)
      rw [hkind, ← List.append_assoc, hsplit] at htokens
      refine ⟨_, _, htokens, fun heq => hne ?_, hkind⟩
      rw [heq]

/-! ## Searches for one word and for two -/

/-- The words of an accepted search, where it is made of two or less. -/
def wordTexts (q : List UInt8) : List String :=
  ((tokens q).filter isOperand).map Token.text

theorem texts_of_accepted {q : List UInt8} (hfree : ∀ b ∈ q, FreeByte b)
    (htrim : trimSpaceBytes q = q) {e : FilterExpr} {pipes : List PipeCmd}
    (h : parseSearch lib q = .ok (some e, pipes)) :
    e.leaves = (wordTexts q).map fun text => (⟨"", .contains, text⟩ : PredExpr) := by
  have htokens := searchTokens_free hfree htrim
  have hleaves := leaves_of_freeWords h (by rw [htokens]; exact freeWords_of_freeBytes hfree)
  rw [hleaves, htokens, wordTexts, List.map_map]
  rfl

theorem texts_inj {texts texts' : List String}
    (h : texts.map (fun text => (⟨"", .contains, text⟩ : PredExpr)) =
      texts'.map fun text => (⟨"", .contains, text⟩ : PredExpr)) : texts = texts' :=
  List.map_injective_iff.mpr (fun _ _ heq => (PredExpr.mk.inj heq).2.2) h

theorem BareWord.trim {w : String} (h : BareWord w) : trimSpaceBytes (encode w) = encode w := by
  refine trimSpaceBytes_encode ?_ ?_
  · cases hhead : w.toList.head? with
    | none => simp
    | some c => simp [(h.chars c (List.mem_of_head? hhead)).1]
  · cases hlast : w.toList.getLast? with
    | none => simp
    | some c => simp [(h.chars c (List.mem_of_getLast? hlast)).1]

theorem BareWord.toList_ne_nil {w : String} (h : BareWord w) : w.toList ≠ [] := by
  intro hnil
  exact h.nonempty (String.toList_inj.mp hnil)

theorem BareWord.trim_pair {u v : String} (hu : BareWord u) (hv : BareWord v) :
    trimSpaceBytes (encode (u ++ " " ++ v)) = encode (u ++ " " ++ v) := by
  have hfirst := hu.toList_ne_nil
  have hlast := hv.toList_ne_nil
  refine trimSpaceBytes_encode ?_ ?_
  · have hc := (hu.chars _ (List.head_mem hfirst)).1
    simp [List.head?_append, List.head?_eq_some_head hfirst, hc]
  · have hc := (hv.chars _ (List.getLast_mem hlast)).1
    have htext : (u ++ " " ++ v).toList = (u.toList ++ [' ']) ++ v.toList := by simp
    rw [htext, List.getLast?_append, List.getLast?_eq_some_getLast hlast]
    simp [hc]

theorem encode_space : encode " " = [' '.toUInt8] := by decide

theorem encode_pair (u v : String) :
    encode (u ++ " " ++ v) = encode u ++ ' '.toUInt8 :: encode v := by
  rw [encode_append, encode_append, encode_space]
  simp

theorem pair_freeBytes {u v : String} (hu : BareWord u) (hv : BareWord v) :
    ∀ b ∈ encode (u ++ " " ++ v), FreeByte b := by
  intro b hb
  rw [encode_pair, List.mem_append, List.mem_cons] at hb
  rcases hb with hb | rfl | hb
  · exact (hu.bytes b hb).1
  · decide
  · exact (hv.bytes b hb).1

theorem wordTexts_pair (u v : String) (h : ∀ b ∈ encode u, isCutByte b = false)
    (hu : BareWord u) : wordTexts (encode (u ++ " " ++ v)) =
      (if wordKind u = .word then [u] else []) ++ wordTexts (encode v) := by
  have hspace : isSpaceByte ' '.toUInt8 = true := by decide
  have hends : Observability.endsWord ' '.toUInt8 = true := by decide
  rw [wordTexts, encode_pair, hu.tokens_whole h (by simpa using hends), tokens_space hspace]
  rcases wordKind_eq_word_or u with hk | hk | hk | hk <;>
    simp [wordTexts, isOperand, hk]

theorem wordTexts_whole {w : String} (h : ∀ b ∈ encode w, isCutByte b = false)
    (hw : BareWord w) : wordTexts (encode w) = if wordKind w = .word then [w] else [] := by
  have htokens : tokens (encode w ++ []) = ⟨wordKind w, w⟩ :: tokens [] :=
    hw.tokens_whole h (by simp)
  rw [List.append_nil] at htokens
  rw [wordTexts, htokens]
  rcases wordKind_eq_word_or w with hk | hk | hk | hk <;>
    simp [isOperand, hk, tokens, tokensLoop]

theorem wordTexts_cut {w : String} (h : ¬ ∀ b ∈ encode w, isCutByte b = false)
    (hw : BareWord w) (rest : List UInt8) :
    ∃ x xs, wordTexts (encode w ++ rest) = x :: xs ∧ x ≠ w ∧ wordKind x = .word := by
  obtain ⟨x, ts, htokens, hne, hkind⟩ := hw.tokens_cut h rest
  exact ⟨x, (ts.filter isOperand).map Token.text, by simp [wordTexts, htokens, isOperand],
    hne, hkind⟩

theorem wordTexts_eq_singleton {w : String} (hw : BareWord w) :
    wordTexts (encode w) = [w] ↔ Intact w := by
  by_cases hcut : ∀ b ∈ encode w, isCutByte b = false
  · rw [wordTexts_whole hcut hw]
    by_cases hk : wordKind w = .word
    · exact iff_of_true (by rw [if_pos hk]) ⟨hcut, hk⟩
    · exact iff_of_false (by simp [hk]) fun hintact => hk hintact.2
  · obtain ⟨x, xs, htexts, hne, -⟩ := wordTexts_cut hcut hw []
    rw [List.append_nil] at htexts
    rw [htexts]
    constructor
    · intro heq
      exact absurd (List.cons.inj heq).1 hne
    · intro hintact
      exact absurd hintact.1 hcut

theorem wordTexts_eq_pair {u v : String} (hu : BareWord u) (hv : BareWord v) :
    wordTexts (encode (u ++ " " ++ v)) = [u, v] ↔ Intact u ∧ Intact v := by
  rw [← wordTexts_eq_singleton hv]
  by_cases hcut : ∀ b ∈ encode u, isCutByte b = false
  · rw [wordTexts_pair u v hcut hu]
    by_cases hk : wordKind u = .word
    · have hintact : Intact u := ⟨hcut, hk⟩
      simp [hk, hintact]
    · have hnot : wordTexts (encode v) ≠ [u, v] := by
        intro htexts
        by_cases hcut' : ∀ b ∈ encode v, isCutByte b = false
        · rw [wordTexts_whole hcut' hv] at htexts
          split_ifs at htexts
          · simp at htexts
        · obtain ⟨x, xs, htexts', -, hkind⟩ := wordTexts_cut hcut' hv []
          rw [List.append_nil, htexts] at htexts'
          rw [(List.cons.inj htexts').1] at hk
          exact hk hkind
      simp [hk, Intact, hnot]
  · obtain ⟨x, xs, htexts, hne, -⟩ := wordTexts_cut hcut hu (' '.toUInt8 :: encode v)
    rw [encode_pair, htexts]
    constructor
    · intro heq
      exact absurd (List.cons.inj heq).1 hne
    · intro hintact
      exact absurd hintact.1.1 hcut

theorem not_star {s : String} {c : Char} (hmem : c ∈ s.toList) (hc : c ≠ '*') :
    encode s ≠ ['*'.toUInt8] := by
  intro hstar
  have hs := congrArg decode hstar
  rw [decode_encode] at hs
  have hchars : s.toList = ['*'] := by rw [hs]; decide
  rw [hchars, List.mem_singleton] at hmem
  exact hc hmem

theorem BareWord.exists_char {w : String} (h : BareWord w) : ∃ c ∈ w.toList, c ≠ '*' := by
  refine ⟨w.toList.head h.toList_ne_nil, List.head_mem _, ?_⟩
  intro hstar
  exact (h.chars _ (List.head_mem h.toList_ne_nil)).2.1 (by simp [hstar])

theorem reads_word {w : String} (hw : BareWord w) :
    Reads lib False [⟨.word, w⟩] (.unit (containsWord w)) := by
  have hpred : wordPredicate lib w = ⟨"", .contains, w⟩ :=
    wordPredicate_free fun c hc => (hw.chars c hc).2.2
  have hleaf : Leaf lib [⟨.word, w⟩] (wordPredicate lib w) := .word rfl
  rw [hpred] at hleaf
  exact .leaf hleaf

/-- A bare word is read as itself exactly where it is intact. -/
theorem parse_word_iff (lib : SearchLib) {w : String} (hw : BareWord w) :
    parseSearch lib (encode w) = .ok (some (containsWord w), []) ↔ Intact w := by
  have hfree : ∀ b ∈ encode w, FreeByte b := fun b hb => (hw.bytes b hb).1
  rw [← wordTexts_eq_singleton hw]
  constructor
  · intro h
    have hleaves : [w].map (fun text => (⟨"", .contains, text⟩ : PredExpr)) = _ :=
      texts_of_accepted hfree hw.trim h
    exact (texts_inj hleaves).symm
  · intro h
    have hintact := (wordTexts_eq_singleton hw).mp h
    have htokens : tokens (encode w) = [⟨.word, w⟩] := by
      have hwhole : tokens (encode w ++ []) = ⟨wordKind w, w⟩ :: tokens [] :=
        hw.tokens_whole hintact.1 (by simp)
      rw [List.append_nil, hintact.2] at hwhole
      exact hwhole
    obtain ⟨c, hc, hstar⟩ := hw.exists_char
    have hnotStar := not_star hc hstar
    have hwords := freeWords_of_freeBytes hfree
    rw [htokens] at hwords
    exact parseSearch_of_reads hnotStar (by simp) hw.trim (splitPipes_free hfree hw.trim) htokens
      hwords.readable (.query (.conj (reads_word hw) .noMore) .noAlternative) hwords.noFields

/-- Two bare words are read as their conjunction exactly where both are intact. -/
theorem parse_pair_iff (lib : SearchLib) {u v : String} (hu : BareWord u) (hv : BareWord v) :
    parseSearch lib (encode (u ++ " " ++ v)) =
        .ok (some (.and [containsWord u, containsWord v]), []) ↔ Intact u ∧ Intact v := by
  have hfree := pair_freeBytes hu hv
  have htrim := hu.trim_pair hv
  rw [← wordTexts_eq_pair hu hv]
  constructor
  · intro h
    have hleaves : [u, v].map (fun text => (⟨"", .contains, text⟩ : PredExpr)) = _ :=
      texts_of_accepted hfree htrim h
    exact (texts_inj hleaves).symm
  · intro h
    obtain ⟨hintact, hintact'⟩ := (wordTexts_eq_pair hu hv).mp h
    have htokens : tokens (encode (u ++ " " ++ v)) = [⟨.word, u⟩, ⟨.word, v⟩] := by
      have hspace : isSpaceByte ' '.toUInt8 = true := by decide
      have hends : Observability.endsWord ' '.toUInt8 = true := by decide
      have hlast : tokens (encode v ++ []) = ⟨wordKind v, v⟩ :: tokens [] :=
        hv.tokens_whole hintact'.1 (by simp)
      rw [List.append_nil, hintact'.2] at hlast
      rw [encode_pair, hu.tokens_whole hintact.1 (by simpa using hends), tokens_space hspace,
        hlast, hintact.2]
      rfl
    obtain ⟨c, hc, hstar⟩ := hu.exists_char
    have hnotStar := not_star (s := u ++ " " ++ v) (c := c) (by simp [hc]) hstar
    have hwords := freeWords_of_freeBytes hfree
    rw [htokens] at hwords
    exact parseSearch_of_reads hnotStar (by simp) htrim (splitPipes_free hfree htrim) htokens
      hwords.readable
      (.query (.conj (reads_word hu) (.juxtaposed (reads_word hv) .noMore)) .noAlternative)
      hwords.noFields

/-- Searches for one bare word and for two are right exactly where the words are
intact. -/
theorem bare_words_iff (lib : SearchLib) (u v : String) (hu : BareWord u) (hv : BareWord v) :
    (parseSearch lib (encode u) = .ok (some (containsWord u), []) ↔ Intact u) ∧
      (parseSearch lib (encode (u ++ " " ++ v)) =
          .ok (some (.and [containsWord u, containsWord v]), []) ↔ Intact u ∧ Intact v) :=
  ⟨parse_word_iff lib hu, parse_pair_iff lib hu hv⟩

theorem bare_words_iff_umlaut :
    (parseSearch asciiLib (encode "bär") = .ok (some (containsWord "bär"), []) ↔
        Intact "bär") ∧
      (parseSearch asciiLib (encode ("bär" ++ " " ++ "x")) =
          .ok (some (.and [containsWord "bär", containsWord "x"]), []) ↔
        Intact "bär" ∧ Intact "x") :=
  bare_words_iff asciiLib "bär" "x" ⟨by decide, by decide, by decide⟩
    ⟨by decide, by decide, by decide⟩

/-- The second byte of `à` is taken for a blank. -/
theorem grave_is_cut :
    BareWord "à" ∧ encode "à" = [0xC3, 0xA0] ∧
      parseSearch asciiLib (encode "à") = .ok (some (containsWord "\uFFFD"), []) ∧
      parseSearch asciiLib (encode "à") ≠ .ok (some (containsWord "à"), []) := by
  have hparse : parseSearch asciiLib (encode "à") = .ok (some (containsWord "\uFFFD"), []) := by
    rfl
  refine ⟨⟨by decide, by decide, by decide⟩, by decide, hparse, ?_⟩
  rw [hparse]
  simp [containsWord]

end GoSite.Observability
