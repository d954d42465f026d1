import GoSite.ParserProgress
import GoSite.Utf8Texts

/-!
# The tokens of a search

What a search consists of, whether or not the parser can read it: its tokens
with every expression between slashes, also those that do not compile. Where all
of them compile the lexer looks at the first token and moves past it.
-/
namespace GoSite.Observability
open BooleanTrees GoStrings

/-! ## Tokens of a text -/

/-- An expression between slashes behind the first one. -/
def regexText (input : List UInt8) : Token × List UInt8 :=
  match scanTo '/'.toUInt8 false input with
  | none => (Token.zero, [])
  | some (pattern, after) => (⟨.regex, decode pattern⟩, after)

/-- The token that begins with a byte, and what comes after it. -/
def lexeme (ch : UInt8) (rest : List UInt8) : Token × List UInt8 :=
  if ch = '('.toUInt8 then (⟨.lparen, "("⟩, rest)
  else if ch = ')'.toUInt8 then (⟨.rparen, ")"⟩, rest)
  else if ch = '"'.toUInt8 then readQuoted rest
  else if ch = '/'.toUInt8 then regexText rest
  else readWord (ch :: rest)

/-- At most as many tokens as there are bytes. -/
@[grind] def tokensLoop : ℕ → List UInt8 → List Token
  | 0, _ => []
  | n + 1, input =>
      match skipSpace input with
      | [] => []
      | ch :: rest => (lexeme ch rest).1 :: tokensLoop n (lexeme ch rest).2

def tokens (input : List UInt8) : List Token := tokensLoop input.length input

/-- The tokens of the text before the first pipe. -/
def searchTokens (q : List UInt8) : List Token :=
  match splitPipes (trimSpaceBytes q) with
  | .error _ => []
  | .ok (search, _) => tokens (trimSpaceBytes search)

variable {lib : SearchLib}

/-- A token the lexer can read. -/
def Readable (lib : SearchLib) (t : Token) : Prop :=
  t.kind ≠ .eof ∧ (t.kind = .regex → validRegexp lib t.text = true)

theorem regexText_length_le (input : List UInt8) : (regexText input).2.length ≤ input.length := by
  rw [regexText]
  cases hscan : scanTo '/'.toUInt8 false input with
  | none => simp
  | some scanned => exact (scanTo_length_lt hscan).le

theorem wordKind_eq_word_or (word : String) :
    wordKind word = .word ∨ wordKind word = .andOp ∨ wordKind word = .orOp ∨
      wordKind word = .notOp := by
  rw [wordKind]
  split_ifs <;> simp

theorem readWord_kind (input : List UInt8) :
    (readWord input).1.kind ≠ .eof ∧ (readWord input).1.kind ≠ .regex := by
  rcases wordKind_eq_word_or (decode (input.takeWhile (!endsWord ·))) with h | h | h | h <;>
    simp [readWord, h]

theorem lexeme_of_ne_slash (lib : SearchLib) {ch : UInt8} (h : ch ≠ '/'.toUInt8)
    (rest : List UInt8) :
    readToken lib ch rest = lexeme ch rest ∧ (lexeme ch rest).1.kind ≠ .regex := by
  rw [readToken, lexeme]
  split_ifs with hl hr hq
  · exact ⟨rfl, by simp⟩
  · exact ⟨rfl, by simp⟩
  · refine ⟨rfl, ?_⟩
    cases hscan : scanTo '"'.toUInt8 false rest <;> simp [readQuoted, hscan, Token.zero]
  · exact ⟨rfl, (readWord_kind _).2⟩

/-- The lexer reads the token, unless it is an expression that does not compile. -/
theorem readToken_eq (lib : SearchLib) (ch : UInt8) (rest : List UInt8) :
    readToken lib ch rest =
      if (lexeme ch rest).1.kind = .regex ∧ validRegexp lib (lexeme ch rest).1.text = false then
        (Token.zero, (lexeme ch rest).2)
      else lexeme ch rest := by
  by_cases hs : ch = '/'.toUInt8
  · subst hs
    have hread : readToken lib '/'.toUInt8 rest = readRegex lib rest := rfl
    have hlexeme : lexeme '/'.toUInt8 rest = regexText rest := rfl
    rw [hread, hlexeme, readRegex, regexText]
    cases hscan : scanTo '/'.toUInt8 false rest with
    | none => simp [Token.zero]
    | some scanned =>
        cases hvalid : validRegexp lib (decode scanned.1) <;> simp [hvalid]
  · obtain ⟨hread, hkind⟩ := lexeme_of_ne_slash lib hs rest
    rw [hread, if_neg fun h => hkind h.1]

theorem lexeme_length_le {ch : UInt8} (hspace : isSpaceByte ch = false) (rest : List UInt8) :
    (lexeme ch rest).2.length ≤ rest.length := by
  by_cases hs : ch = '/'.toUInt8
  · subst hs
    exact regexText_length_le rest
  · have hread := readToken_length_le ⟨Char.toLower, Char.isAlpha, Char.isDigit, fun _ => true,
      fun _ _ => rfl, fun _ _ => rfl, fun _ _ => rfl⟩ hspace rest
    rw [readToken_eq] at hread
    split_ifs at hread <;> exact hread

theorem tokensLoop_of_length_le {n : ℕ} {input : List UInt8} (h : input.length ≤ n) :
    tokensLoop n input = tokens input := by
  have hall : ∀ m n (input : List UInt8), input.length ≤ m → input.length ≤ n →
      tokensLoop n input = tokensLoop m input := by
    intro m
    induction m with
    | zero =>
        intro n input hm hn
        rw [List.length_eq_zero_iff.mp (Nat.le_zero.mp hm)]
        cases n <;> rfl
    | succ m ih =>
        intro n input hm hn
        cases n with
        | zero => rw [List.length_eq_zero_iff.mp (Nat.le_zero.mp hn)]; rfl
        | succ n =>
            rw [tokensLoop, tokensLoop]
            cases hskip : skipSpace input with
            | nil => rfl
            | cons ch rest =>
                have hle := skipSpace_length_le input
                have hafter := lexeme_length_le (isSpaceByte_of_skipSpace hskip) rest
                rw [hskip, List.length_cons] at hle
                dsimp only
                rw [ih n _ (by omega) (by omega)]
  exact hall _ _ _ le_rfl h

theorem tokens_of_skipSpace_nil {input : List UInt8} (h : skipSpace input = []) :
    tokens input = [] := by
  cases input with
  | nil => rfl
  | cons b input => rw [tokens, List.length_cons, tokensLoop, h]

theorem tokens_of_skipSpace {input rest : List UInt8} {ch : UInt8}
    (h : skipSpace input = ch :: rest) :
    tokens input = (lexeme ch rest).1 :: tokens (lexeme ch rest).2 := by
  have hle := skipSpace_length_le input
  have hafter := lexeme_length_le (isSpaceByte_of_skipSpace h) rest
  rw [h, List.length_cons] at hle
  cases input with
  | nil => simp at hle
  | cons b input =>
      rw [List.length_cons] at hle
      rw [tokens, List.length_cons, tokensLoop, h]
      dsimp only
      rw [tokensLoop_of_length_le (by omega)]

theorem tokens_congr {input input' : List UInt8} (h : skipSpace input = skipSpace input') :
    tokens input = tokens input' := by
  cases hskip : skipSpace input with
  | nil => rw [tokens_of_skipSpace_nil hskip, tokens_of_skipSpace_nil (h.symm.trans hskip)]
  | cons ch rest =>
      rw [tokens_of_skipSpace hskip, tokens_of_skipSpace (h.symm.trans hskip)]

/-! ## The lexer on readable tokens -/

theorem peek_readable {input : List UInt8} (h : ∀ t ∈ tokens input, Readable lib t) :
    tokens (peek lib input).2 = tokens input ∧
      (tokens input = [] ∧ (peek lib input).1 = Token.zero ∨
        (peek lib input).1.kind ≠ .eof ∧
          tokens input = (peek lib input).1 :: tokens (next lib input).2) := by
  cases hskip : skipSpace input with
  | nil =>
      have hpeek : peek lib input = (Token.zero, []) := by simp [peek, read, hskip]
      rw [hpeek, tokens_of_skipSpace_nil hskip]
      exact ⟨rfl, Or.inl ⟨rfl, rfl⟩⟩
  | cons ch rest =>
      have htokens := tokens_of_skipSpace hskip
      obtain ⟨heof, hregex⟩ := h (lexeme ch rest).1 (by simp [htokens])
      have hread : readToken lib ch rest = lexeme ch rest := by
        rw [readToken_eq, if_neg]
        rintro ⟨hkind, hbad⟩
        simp [hregex hkind] at hbad
      have hpeek : peek lib input = ((lexeme ch rest).1, ch :: rest) := by
        simp [peek, read, hskip, hread, heof]
      have hnext : next lib input = lexeme ch rest := by simp [next, read, hskip, hread]
      rw [hpeek, hnext]
      refine ⟨tokens_congr ?_, Or.inr ⟨heof, htokens⟩⟩
      rw [← hskip, skipSpace_skipSpace]

/-- The token that was looked at is the first one. -/
theorem tokens_eq_cons {input : List UInt8} (h : ∀ t ∈ tokens input, Readable lib t)
    (hkind : (peek lib input).1.kind ≠ .eof) :
    tokens input = (peek lib input).1 :: tokens (next lib (peek lib input).2).2 := by
  rw [(next_peek hkind).1]
  rcases (peek_readable h).2 with ⟨-, hzero⟩ | ⟨-, hcons⟩
  · exact absurd (by rw [hzero]; rfl) hkind
  · exact hcons

theorem peek_eof_iff {input : List UInt8} (h : ∀ t ∈ tokens input, Readable lib t) :
    (peek lib input).1.kind = .eof ↔ tokens input = [] := by
  rcases (peek_readable h).2 with ⟨hnil, hzero⟩ | ⟨hkind, hcons⟩
  · rw [hzero]
    exact ⟨fun _ => hnil, fun _ => rfl⟩
  · exact ⟨fun heof => absurd heof hkind, fun hnil => by simp [hcons] at hnil⟩

/-- An expression the lexer returns compiles, whatever else there is. -/
theorem valid_of_peek {input : List UInt8} (h : (peek lib input).1.kind = .regex) :
    validRegexp lib (peek lib input).1.text = true := by
  cases hskip : skipSpace input with
  | nil => simp [peek, read, hskip, Token.zero] at h
  | cons ch rest =>
      have hpeek : (peek lib input).1 = (readToken lib ch rest).1 := by
        rw [peek, read, hskip]
        dsimp only
        split_ifs <;> rfl
      rw [hpeek, readToken_eq] at h ⊢
      split_ifs at h ⊢ with hbad
      · simp [Token.zero] at h
      · simpa [h] using hbad

end GoSite.Observability
