import GoSite.QuotedSearches

/-!
# Formulas over phrases

A formula over quoted phrases, in parentheses or without, and what it means. Any
text with the right tokens will do, with any white space and keywords in any
letters.
-/
namespace GoSite.Observability
open BooleanTrees GoStrings

variable {lib : SearchLib}

/-- A token of a text of phrases. -/
inductive Symbol where
  | phrase (text : String)
  | lparen
  | rparen
  | andOp
  | orOp
  | notOp
  deriving Repr, DecidableEq

def symbol (t : Token) : Option Symbol :=
  match t.kind with
  | .quoted => some (.phrase t.text)
  | .lparen => some .lparen
  | .rparen => some .rparen
  | .andOp => some .andOp
  | .orOp => some .orOp
  | .notOp => some .notOp
  | _ => none

/-- A query without pipes whose tokens are the symbols. -/
def SpelledAs (q : List UInt8) (symbols : List Symbol) : Prop :=
  (∃ search, splitPipes (trimSpaceBytes q) = .ok (search, [])) ∧
    (searchTokens q).map symbol = symbols.map some

/-! ## Formulas in parentheses -/

/-- A boolean tree over phrases, which are strings of bytes. -/
inductive Formula where
  | phrase (v : List UInt8)
  | not (a : Formula)
  | and (a b : Formula)
  | or (a b : Formula)
  deriving Repr, DecidableEq

/-- The truth value under a valuation of the phrases. -/
@[grind] def Formula.eval (truth : String → Bool) : Formula → Bool
  | .phrase v => truth (decode v)
  | .not a => !a.eval truth
  | .and a b => a.eval truth && b.eval truth
  | .or a b => a.eval truth || b.eval truth

@[grind] def Formula.symbols : Formula → List Symbol
  | .phrase v => [.phrase (decode v)]
  | .not a => .lparen :: .notOp :: a.symbols ++ [.rparen]
  | .and a b => .lparen :: a.symbols ++ (.andOp :: b.symbols ++ [.rparen])
  | .or a b => .lparen :: a.symbols ++ (.orOp :: b.symbols ++ [.rparen])

/-- The text with parentheses around everything but phrases. -/
@[grind] def Formula.text : Formula → List UInt8
  | .phrase v => quotedText v
  | .not a => encode "(NOT " ++ a.text ++ encode ")"
  | .and a b => encode "(" ++ a.text ++ encode " AND " ++ b.text ++ encode ")"
  | .or a b => encode "(" ++ a.text ++ encode " OR " ++ b.text ++ encode ")"

/-! ## Formulas without parentheses -/

/-- A phrase behind some `NOT`s. -/
structure Literal where
  nots : ℕ
  value : List UInt8
  deriving Repr, DecidableEq

/-- Literals that follow each other, with `AND` written before some of them. -/
structure Conjunction where
  first : Literal
  more : List (Bool × Literal)
  deriving Repr, DecidableEq

/-- Conjunctions with `OR` between them. -/
structure FlatFormula where
  first : Conjunction
  more : List Conjunction
  deriving Repr, DecidableEq

def Literal.eval (truth : String → Bool) (l : Literal) : Bool :=
  (!·)^[l.nots] (truth (decode l.value))

def Conjunction.eval (truth : String → Bool) (c : Conjunction) : Bool :=
  c.first.eval truth && c.more.all fun l => l.2.eval truth

@[grind] def FlatFormula.eval (truth : String → Bool) (f : FlatFormula) : Bool :=
  f.first.eval truth || f.more.any fun c => c.eval truth

def Literal.symbols (l : Literal) : List Symbol :=
  List.replicate l.nots .notOp ++ [.phrase (decode l.value)]

def Conjunction.symbols (c : Conjunction) : List Symbol :=
  c.first.symbols ++
    c.more.flatMap fun l => (if l.1 then [.andOp] else []) ++ l.2.symbols

@[grind] def FlatFormula.symbols (f : FlatFormula) : List Symbol :=
  f.first.symbols ++ f.more.flatMap fun c => .orOp :: c.symbols

def Literal.text (l : Literal) : List UInt8 :=
  (List.replicate l.nots (encode "NOT ")).flatten ++ quotedText l.value

def Conjunction.text (c : Conjunction) : List UInt8 :=
  c.first.text ++
    c.more.flatMap fun l => encode (if l.1 then " AND " else " ") ++ l.2.text

@[grind] def FlatFormula.text (f : FlatFormula) : List UInt8 :=
  f.first.text ++ f.more.flatMap fun c => encode " OR " ++ c.text

/-! ## What the grammar has for them -/

/-- The filter has the truth value, whatever phrases are true. -/
def MeansSame (e : FilterExpr) (value : (String → Bool) → Bool) : Prop :=
  ∀ truth : PredExpr → Bool, e.eval truth = value fun text => truth ⟨"", .contains, text⟩

theorem kind_of_symbol {t : Token} {s : Symbol} (h : symbol t = some s) :
    match s with
    | .phrase text => t.kind = .quoted ∧ t.text = text
    | .lparen => t.kind = .lparen
    | .rparen => t.kind = .rparen
    | .andOp => t.kind = .andOp
    | .orOp => t.kind = .orOp
    | .notOp => t.kind = .notOp := by
  rw [symbol] at h
  split at h <;> simp_all <;> subst h <;> simp_all

theorem eval_conjunction (truth : PredExpr → Bool) (es : List FilterExpr) :
    (conjunction es).eval truth = es.all fun e => e.eval truth := by
  rcases es with _ | ⟨e, _ | ⟨e', es⟩⟩ <;> simp [conjunction, BoolTree.eval, evalAll_eq]

theorem eval_addAlternative (truth : PredExpr → Bool) (left right : FilterExpr) :
    (addAlternative left right).eval truth = (left.eval truth || right.eval truth) := by
  cases left <;> simp [addAlternative, BoolTree.eval, evalAny_eq]

theorem eval_foldl_addAlternative (truth : PredExpr → Bool) (es : List FilterExpr)
    (e : FilterExpr) :
    (es.foldl addAlternative e).eval truth = (e.eval truth || es.any fun r => r.eval truth) := by
  induction es generalizing e with
  | nil => simp
  | cons r es ih => simp [ih, eval_addAlternative, Bool.or_assoc]

theorem reads_phrase {t : Token} {text : String} (h : symbol t = some (.phrase text)) :
    Reads lib False [t] (.unit (.leaf ⟨"", .contains, text⟩)) := by
  obtain ⟨hkind, htext⟩ := kind_of_symbol h
  rw [← htext]
  exact .leaf (.quoted hkind)

/-- An operand in parentheses. -/
theorem reads_group {l r : Token} {ts : List Token} {e : FilterExpr}
    (hl : symbol l = some .lparen) (hr : symbol r = some .rparen)
    (h : Reads lib False ts (.query e)) : Reads lib False (l :: ts ++ [r]) (.unit e) := by
  have hopen : l.kind = .lparen := kind_of_symbol hl
  have hclose : r.kind = .rparen := kind_of_symbol hr
  exact .group hopen h hclose

/-- Every token list of the symbols in parentheses stands for the formula. -/
theorem Formula.reads (lib : SearchLib) (f : Formula) {ts : List Token}
    (h : ts.map symbol = f.symbols.map some) :
    ∃ e, Reads lib False ts (.unit e) ∧ MeansSame e f.eval := by
  induction f generalizing ts with
  | phrase v =>
      obtain ⟨t, hts, ht⟩ := List.map_eq_singleton_iff.mp h
      rw [hts]
      exact ⟨_, reads_phrase ht, fun truth => rfl⟩
  | not a iha =>
      simp only [Formula.symbols, List.cons_append, List.map_cons, List.map_append,
        List.map_nil] at h
      obtain ⟨l, ts, rfl, hl, h⟩ := List.map_eq_cons_iff.mp h
      obtain ⟨t, ts, rfl, ht, h⟩ := List.map_eq_cons_iff.mp h
      obtain ⟨us, rs, rfl, ha, hr⟩ := List.map_eq_append_iff.mp h
      obtain ⟨r, rfl, hclose⟩ := List.map_eq_singleton_iff.mp hr
      obtain ⟨e, hread, hmeans⟩ := iha ha
      have hnot : t.kind = .notOp := kind_of_symbol ht
      have hquery : Reads lib False (t :: us) (.query (.not e)) := by
        have halone : Reads lib False (t :: us ++ [] ++ []) _ :=
          .query (.conj (.not hnot hread) .noMore) .noAlternative
        simpa [conjunction] using halone
      refine ⟨.not e, reads_group hl hclose hquery, fun truth => ?_⟩
      rw [BoolTree.eval, hmeans truth]
      rfl
  | and a b iha ihb =>
      simp only [Formula.symbols, List.cons_append, List.map_cons, List.map_append,
        List.map_nil] at h
      obtain ⟨l, ts, rfl, hl, h⟩ := List.map_eq_cons_iff.mp h
      obtain ⟨us, ts, rfl, ha, h⟩ := List.map_eq_append_iff.mp h
      obtain ⟨t, ts, rfl, ht, h⟩ := List.map_eq_cons_iff.mp h
      obtain ⟨vs, rs, rfl, hb, hr⟩ := List.map_eq_append_iff.mp h
      obtain ⟨r, rfl, hclose⟩ := List.map_eq_singleton_iff.mp hr
      obtain ⟨e, hread, hmeans⟩ := iha ha
      obtain ⟨e', hread', hmeans'⟩ := ihb hb
      have hand : t.kind = .andOp := kind_of_symbol ht
      have hquery : Reads lib False (us ++ t :: vs) (.query (.and [e, e'])) := by
        have hboth : Reads lib False (us ++ (t :: vs ++ []) ++ []) _ :=
          .query (.conj hread (.joined hand hread' .noMore)) .noAlternative
        simpa [conjunction] using hboth
      have hgroup := reads_group hl hclose hquery
      rw [List.cons_append, List.append_assoc, List.cons_append] at hgroup
      refine ⟨_, hgroup, fun truth => ?_⟩
      simp [BoolTree.eval, evalAll_eq, hmeans truth, hmeans' truth, Formula.eval]
  | or a b iha ihb =>
      simp only [Formula.symbols, List.cons_append, List.map_cons, List.map_append,
        List.map_nil] at h
      obtain ⟨l, ts, rfl, hl, h⟩ := List.map_eq_cons_iff.mp h
      obtain ⟨us, ts, rfl, ha, h⟩ := List.map_eq_append_iff.mp h
      obtain ⟨t, ts, rfl, ht, h⟩ := List.map_eq_cons_iff.mp h
      obtain ⟨vs, rs, rfl, hb, hr⟩ := List.map_eq_append_iff.mp h
      obtain ⟨r, rfl, hclose⟩ := List.map_eq_singleton_iff.mp hr
      obtain ⟨e, hread, hmeans⟩ := iha ha
      obtain ⟨e', hread', hmeans'⟩ := ihb hb
      have hor : t.kind = .orOp := kind_of_symbol ht
      have hquery : Reads lib False (us ++ t :: vs) (.query (addAlternative e e')) := by
        have hboth : Reads lib False (us ++ [] ++ (t :: (vs ++ []) ++ [])) _ :=
          .query (.conj hread .noMore) (.alternative hor (.conj hread' .noMore) .noAlternative)
        simpa [conjunction] using hboth
      have hgroup := reads_group hl hclose hquery
      rw [List.cons_append, List.append_assoc, List.cons_append] at hgroup
      refine ⟨_, hgroup, fun truth => ?_⟩
      rw [eval_addAlternative, hmeans truth, hmeans' truth]
      rfl

theorem Literal.reads (l : Literal) {ts : List Token}
    (h : ts.map symbol = l.symbols.map some) :
    ∃ e, Reads lib False ts (.unit e) ∧ MeansSame e fun truth => l.eval truth := by
  obtain ⟨nots, v⟩ := l
  induction nots generalizing ts with
  | zero =>
      obtain ⟨t, hts, ht⟩ := List.map_eq_singleton_iff.mp h
      rw [hts]
      exact ⟨_, reads_phrase ht, fun truth => rfl⟩
  | succ n ih =>
      obtain ⟨t, ts, rfl, ht, h⟩ := List.map_eq_cons_iff.mp h
      obtain ⟨e, hread, hmeans⟩ := ih h
      have hnot : t.kind = .notOp := kind_of_symbol ht
      refine ⟨.not e, .not hnot hread, fun truth => ?_⟩
      rw [BoolTree.eval, hmeans truth]
      exact (Function.iterate_succ_apply' _ n _).symm

theorem reads_more (more : List (Bool × Literal)) {ts : List Token}
    (h : ts.map symbol =
      (more.flatMap fun l => (if l.1 then [.andOp] else []) ++ l.2.symbols).map some) :
    ∃ es, Reads lib False ts (.more es) ∧ ∀ truth : PredExpr → Bool,
      (es.all fun e => e.eval truth) =
        more.all fun l => l.2.eval fun text => truth ⟨"", .contains, text⟩ := by
  induction more generalizing ts with
  | nil =>
      rw [List.flatMap_nil, List.map_nil, List.map_eq_nil_iff] at h
      rw [h]
      exact ⟨[], .noMore, fun truth => rfl⟩
  | cons l more ih =>
      obtain ⟨written, l⟩ := l
      rw [List.flatMap_cons, List.map_append] at h
      obtain ⟨us, vs, rfl, hl, hmore⟩ := List.map_eq_append_iff.mp h
      obtain ⟨es, hreads, hall⟩ := ih hmore
      cases written with
      | false =>
          obtain ⟨e, hread, hmeans⟩ := l.reads hl
          refine ⟨e :: es, .juxtaposed hread hreads, fun truth => ?_⟩
          rw [List.all_cons, List.all_cons, hmeans truth, hall truth]
      | true =>
          obtain ⟨t, us, rfl, ht, hl⟩ := List.map_eq_cons_iff.mp hl
          obtain ⟨e, hread, hmeans⟩ := l.reads hl
          have hand : t.kind = .andOp := kind_of_symbol ht
          refine ⟨e :: es, .joined hand hread hreads, fun truth => ?_⟩
          rw [List.all_cons, List.all_cons, hmeans truth, hall truth]

theorem Conjunction.reads (c : Conjunction) {ts : List Token}
    (h : ts.map symbol = c.symbols.map some) :
    ∃ e, Reads lib False ts (.conj e) ∧ MeansSame e fun truth => c.eval truth := by
  rw [Conjunction.symbols, List.map_append] at h
  obtain ⟨us, vs, rfl, hfirst, hmore⟩ := List.map_eq_append_iff.mp h
  obtain ⟨e, hread, hmeans⟩ := c.first.reads hfirst
  obtain ⟨es, hreads, hall⟩ := reads_more c.more hmore
  refine ⟨_, .conj hread hreads, fun truth => ?_⟩
  rw [eval_conjunction, List.all_cons, hmeans truth, hall truth]
  rfl

theorem reads_alternatives (more : List Conjunction) {ts : List Token}
    (h : ts.map symbol = (more.flatMap fun c => .orOp :: c.symbols).map some) :
    ∃ es, Reads lib False ts (.alternatives es) ∧ ∀ truth : PredExpr → Bool,
      (es.any fun e => e.eval truth) =
        more.any fun c => c.eval fun text => truth ⟨"", .contains, text⟩ := by
  induction more generalizing ts with
  | nil =>
      rw [List.flatMap_nil, List.map_nil, List.map_eq_nil_iff] at h
      rw [h]
      exact ⟨[], .noAlternative, fun truth => rfl⟩
  | cons c more ih =>
      rw [List.flatMap_cons, List.map_append] at h
      obtain ⟨us, vs, rfl, hc, hmore⟩ := List.map_eq_append_iff.mp h
      obtain ⟨t, us, rfl, ht, hc⟩ := List.map_eq_cons_iff.mp hc
      obtain ⟨e, hread, hmeans⟩ := c.reads hc
      obtain ⟨es, hreads, hany⟩ := ih hmore
      have hor : t.kind = .orOp := kind_of_symbol ht
      refine ⟨e :: es, .alternative hor hread hreads, fun truth => ?_⟩
      rw [List.any_cons, List.any_cons, hmeans truth, hany truth]

/-- Without parentheses `NOT` binds first, then what is joined, then `OR`. -/
theorem FlatFormula.reads (lib : SearchLib) (f : FlatFormula) {ts : List Token}
    (h : ts.map symbol = f.symbols.map some) :
    ∃ e, Reads lib False ts (.query e) ∧ MeansSame e fun truth => f.eval truth := by
  rw [FlatFormula.symbols, List.map_append] at h
  obtain ⟨us, vs, rfl, hfirst, hmore⟩ := List.map_eq_append_iff.mp h
  obtain ⟨e, hread, hmeans⟩ := f.first.reads hfirst
  obtain ⟨es, hreads, hany⟩ := reads_alternatives f.more hmore
  refine ⟨_, .query hread hreads, fun truth => ?_⟩
  rw [eval_foldl_addAlternative, hmeans truth, hany truth]
  rfl

/-! ## What the parser makes of them -/

/-- The tokens of a text of phrases can be read, and are no words. -/
theorem readable_of_symbols (lib : SearchLib) {ts : List Token} {symbols : List Symbol}
    (h : ts.map symbol = symbols.map some) :
    (∀ t ∈ ts, Readable lib t) ∧ ∀ t ∈ ts, t.kind ≠ .word := by
  have hsome : ∀ t ∈ ts, ∃ s, symbol t = some s := by
    intro t ht
    have hmem : symbol t ∈ symbols.map some := by
      rw [← h]
      exact List.mem_map_of_mem ht
    obtain ⟨s, -, hs⟩ := List.mem_map.mp hmem
    exact ⟨s, hs.symm⟩
  have hkind : ∀ t ∈ ts, t.kind ≠ .eof ∧ t.kind ≠ .regex ∧ t.kind ≠ .word := by
    intro t ht
    obtain ⟨s, hs⟩ := hsome t ht
    refine ⟨?_, ?_, ?_⟩ <;> intro hk <;> simp [symbol, hk] at hs
  exact ⟨fun t ht => ⟨(hkind t ht).1, fun hk => absurd hk (hkind t ht).2.1⟩,
    fun t ht => (hkind t ht).2.2⟩

/-- A search spelled as the tokens of a filter is that filter. -/
theorem parseSearch_of_spelled {q : List UInt8} {symbols : List Symbol}
    (h : SpelledAs q symbols) {e : FilterExpr}
    (hread : Reads lib False (searchTokens q) (.query e)) :
    parseSearch lib q = .ok (some e, []) := by
  obtain ⟨⟨search, hsplit⟩, hsymbols⟩ := h
  obtain ⟨hgood, hword⟩ := readable_of_symbols lib hsymbols
  have hplain : NoFields lib (searchTokens q) := fun t ht hk => absurd hk (hword t ht)
  have hstar : trimSpaceBytes q ≠ ['*'.toUInt8] := by
    intro hstar
    have htokens : searchTokens q = [⟨.word, "*"⟩] := by
      rw [searchTokens, hstar]
      rfl
    exact hword ⟨.word, "*"⟩ (by simp [htokens]) rfl
  have hne : searchTokens q ≠ [] := by
    intro hnil
    rw [hnil] at hread
    obtain ⟨-, hbegins, -⟩ := hread.joined_of_strict .eof .eof
    simp [headKind, beginsOperand] at hbegins
  exact parseSearch_of_searchTokens hstar hsplit rfl hne hgood (hread.parses hplain)

theorem Formula.parse (f : Formula) {q : List UInt8} (h : SpelledAs q f.symbols) :
    ∃ e, parseSearch lib q = .ok (some e, []) ∧ MeansSame e fun truth => f.eval truth := by
  obtain ⟨e, hread, hmeans⟩ := f.reads lib h.2
  have hquery : Reads lib False (searchTokens q) (.query e) := by
    have halone : Reads lib False (searchTokens q ++ [] ++ []) _ :=
      .query (.conj hread .noMore) .noAlternative
    simpa [conjunction] using halone
  exact ⟨e, parseSearch_of_spelled h hquery, hmeans⟩

theorem FlatFormula.parse (f : FlatFormula) {q : List UInt8} (h : SpelledAs q f.symbols) :
    ∃ e, parseSearch lib q = .ok (some e, []) ∧ MeansSame e fun truth => f.eval truth := by
  obtain ⟨e, hread, hmeans⟩ := f.reads lib h.2
  exact ⟨e, parseSearch_of_spelled h hread, hmeans⟩

/-! ## Their texts -/

/-- The tokens of the text are the symbols, whatever comes after it. -/
def Spells (text : List UInt8) (symbols : List Symbol) : Prop :=
  ∀ rest, (tokens (text ++ rest)).map symbol = symbols.map some ++ (tokens rest).map symbol

theorem Spells.append {text more : List UInt8} {symbols symbols' : List Symbol}
    (h : Spells text symbols) (h' : Spells more symbols') :
    Spells (text ++ more) (symbols ++ symbols') := by
  intro rest
  rw [List.append_assoc, h, h', List.map_append, List.append_assoc]

theorem spells_nil : Spells [] [] := fun _ => rfl

theorem spells_quotedText (v : List UInt8) : Spells (quotedText v) [.phrase (decode v)] := by
  intro rest
  rw [tokens_quotedText]
  rfl

theorem tokens_parenthesis {b : UInt8} (h : b = '('.toUInt8 ∨ b = ')'.toUInt8)
    (rest : List UInt8) : tokens (b :: rest) = (lexeme b rest).1 :: tokens rest := by
  have hspace : isSpaceByte b = false := by
    rcases h with rfl | rfl <;> decide
  have hskip : skipSpace (b :: rest) = b :: rest := by simp [skipSpace, hspace]
  rw [tokens_of_skipSpace hskip]
  rcases h with rfl | rfl <;> rfl

theorem spells_lparen : Spells ['('.toUInt8] [.lparen] := by
  intro rest
  rw [List.singleton_append, tokens_parenthesis (Or.inl rfl)]
  rfl

theorem spells_rparen : Spells [')'.toUInt8] [.rparen] := by
  intro rest
  rw [List.singleton_append, tokens_parenthesis (Or.inr rfl)]
  rfl

theorem spells_space : Spells [' '.toUInt8] [] := by
  intro rest
  have hspace : isSpaceByte ' '.toUInt8 = true := by decide
  rw [List.singleton_append, tokens_space hspace]
  rfl

/-- A keyword with a blank behind it. -/
theorem spells_keyword {word : List UInt8} {s : Symbol} (hne : word ≠ [])
    (hword : ∀ b ∈ word, endsWord b = false)
    (hsymbol : symbol ⟨wordKind (decode word), decode word⟩ = some s) :
    Spells (word ++ [' '.toUInt8]) [s] := by
  intro rest
  have hends : endsWord ' '.toUInt8 = true := by decide
  have hspace : isSpaceByte ' '.toUInt8 = true := by decide
  rw [List.append_assoc, List.singleton_append,
    tokens_word hne hword (by simpa using hends), tokens_space hspace, List.map_cons, hsymbol]
  rfl

theorem spells_not : Spells (encode "NOT ") [.notOp] := by
  have htext : encode "NOT " = encode "NOT" ++ [' '.toUInt8] := by decide
  rw [htext]
  exact spells_keyword (by decide) (by decide) (by rw [decode_encode]; decide)

theorem spells_and : Spells (encode " AND ") [.andOp] := by
  have htext : encode " AND " = [' '.toUInt8] ++ (encode "AND" ++ [' '.toUInt8]) := by
    decide
  rw [htext]
  exact spells_space.append
    (spells_keyword (by decide) (by decide) (by rw [decode_encode]; decide))

theorem spells_or : Spells (encode " OR ") [.orOp] := by
  have htext : encode " OR " = [' '.toUInt8] ++ (encode "OR" ++ [' '.toUInt8]) := by
    decide
  rw [htext]
  exact spells_space.append
    (spells_keyword (by decide) (by decide) (by rw [decode_encode]; decide))

/-- The first byte is of ASCII and no white space. -/
def Begins (text : List UInt8) : Prop :=
  ∃ b rest, text = b :: rest ∧ IsAscii b ∧ isSpace (Char.ofNat b.toNat) = false

/-- The last byte is of ASCII and no white space. -/
def Ends (text : List UInt8) : Prop :=
  ∃ before b, text = before ++ [b] ∧ IsAscii b ∧ isSpace (Char.ofNat b.toNat) = false

theorem Begins.append {text : List UInt8} (h : Begins text) (more : List UInt8) :
    Begins (text ++ more) := by
  obtain ⟨b, rest, rfl, hb, hspace⟩ := h
  exact ⟨b, rest ++ more, rfl, hb, hspace⟩

theorem Ends.append {text : List UInt8} (h : Ends text) (before : List UInt8) :
    Ends (before ++ text) := by
  obtain ⟨init, b, rfl, hb, hspace⟩ := h
  exact ⟨before ++ init, b, by rw [List.append_assoc], hb, hspace⟩

theorem ends_flatMap {α : Type*} {text : List UInt8} (h : Ends text) {parts : List α}
    {part : α → List UInt8} (hparts : ∀ x ∈ parts, Ends (part x)) :
    Ends (text ++ parts.flatMap part) := by
  induction parts generalizing text with
  | nil => simpa using h
  | cons x parts ih =>
      rw [List.flatMap_cons, ← List.append_assoc]
      exact ih ((hparts x List.mem_cons_self).append text)
        fun y hy => hparts y (List.mem_cons_of_mem _ hy)

def Bounded (text : List UInt8) : Prop := Begins text ∧ Ends text

theorem Bounded.trim {text : List UInt8} (h : Bounded text) : trimSpaceBytes text = text := by
  obtain ⟨⟨b, rest, hfirst, hb, hbs⟩, before, d, hlast, hd, hds⟩ := h
  refine trimSpaceBytes_eq_self ?_ ?_
  · rw [hfirst, runes_ascii hb]
    simp [hbs]
  · rw [hlast, runes_append_ascii before hd, runes_nil]
    simp [hds]

theorem spelledAs_of_text {text : List UInt8} {symbols : List Symbol}
    (hspells : Spells text symbols) (hpasses : PassesPipes text) (hbounded : Bounded text) :
    SpelledAs text symbols := by
  have htrim := hbounded.trim
  have hsplit := splitPipes_of_passes hpasses htrim
  refine ⟨⟨text, by rw [htrim, hsplit]⟩, ?_⟩
  have htokens : searchTokens text = tokens text := by
    rw [searchTokens, htrim, hsplit]
    dsimp only
    rw [htrim]
  have hall := hspells []
  rw [List.append_nil] at hall
  rw [htokens, hall]
  exact List.append_nil _

theorem begins_quotedText (v : List UInt8) : Begins (quotedText v) :=
  ⟨_, _, rfl, by decide, isSpace_quote⟩

theorem ends_quotedText (v : List UInt8) : Ends (quotedText v) :=
  ⟨'"'.toUInt8 :: escapeBytes v, _, rfl, by decide, isSpace_quote⟩

/-- A part of a text of phrases: what it spells, how it passes the pipe splitter. -/
structure IsPart (text : List UInt8) (symbols : List Symbol) : Prop where
  spells : Spells text symbols
  passes : PassesPipes text

theorem IsPart.append {text more : List UInt8} {symbols symbols' : List Symbol}
    (h : IsPart text symbols) (h' : IsPart more symbols') :
    IsPart (text ++ more) (symbols ++ symbols') :=
  ⟨h.spells.append h'.spells, h.passes.append h'.passes⟩

theorem isPart_quotedText (v : List UInt8) : IsPart (quotedText v) [.phrase (decode v)] :=
  ⟨spells_quotedText v, passesPipes_quotedText v⟩

theorem isPart_encode {s : String} {symbols : List Symbol} (h : Spells (encode s) symbols)
    (hbytes : ∀ b ∈ encode s, b ≠ '"'.toUInt8 ∧ b ≠ '/'.toUInt8 ∧ b ≠ '|'.toUInt8) :
    IsPart (encode s) symbols :=
  ⟨h, passesPipes_of_forall hbytes⟩

theorem isPart_not : IsPart (encode "NOT ") [.notOp] := isPart_encode spells_not (by decide)

theorem isPart_and : IsPart (encode " AND ") [.andOp] :=
  isPart_encode spells_and (by decide)

theorem isPart_or : IsPart (encode " OR ") [.orOp] := isPart_encode spells_or (by decide)

theorem isPart_space : IsPart (encode " ") [] := by
  refine isPart_encode ?_ (by decide)
  rw [encode_space]
  exact spells_space

theorem isPart_lparen : IsPart (encode "(") [.lparen] := by
  refine isPart_encode ?_ (by decide)
  have htext : encode "(" = ['('.toUInt8] := by decide
  rw [htext]
  exact spells_lparen

theorem isPart_rparen : IsPart (encode ")") [.rparen] := by
  refine isPart_encode ?_ (by decide)
  have htext : encode ")" = [')'.toUInt8] := by decide
  rw [htext]
  exact spells_rparen

theorem begins_lparen : Begins (encode "(") :=
  ⟨'('.toUInt8, [], by decide, by decide, by decide⟩

theorem ends_rparen : Ends (encode ")") :=
  ⟨[], ')'.toUInt8, by decide, by decide, by decide⟩

theorem encode_not : encode "(NOT " = encode "(" ++ encode "NOT " := by decide

theorem Formula.isPart (f : Formula) : IsPart f.text f.symbols := by
  induction f with
  | phrase v => exact isPart_quotedText v
  | not a iha =>
      rw [Formula.text, encode_not]
      exact ((isPart_lparen.append isPart_not).append iha).append isPart_rparen
  | and a b iha ihb =>
      have hpart := (((isPart_lparen.append iha).append isPart_and).append ihb).append isPart_rparen
      simpa [Formula.text, Formula.symbols] using hpart
  | or a b iha ihb =>
      have hpart := (((isPart_lparen.append iha).append isPart_or).append ihb).append isPart_rparen
      simpa [Formula.text, Formula.symbols] using hpart

theorem Formula.bounded (f : Formula) : Bounded f.text := by
  cases f with
  | phrase v => exact ⟨begins_quotedText v, ends_quotedText v⟩
  | not a =>
      rw [Formula.text, encode_not]
      exact ⟨((begins_lparen.append _).append _).append _, ends_rparen.append _⟩
  | and a b =>
      exact ⟨(((begins_lparen.append _).append _).append _).append _, ends_rparen.append _⟩
  | or a b =>
      exact ⟨(((begins_lparen.append _).append _).append _).append _, ends_rparen.append _⟩

theorem Formula.spelled (f : Formula) : SpelledAs f.text f.symbols :=
  spelledAs_of_text f.isPart.spells f.isPart.passes f.bounded

theorem isPart_nil : IsPart [] [] := ⟨spells_nil, fun buf rest => by simp⟩

theorem isPart_flatMap {α : Type*} {parts : List α} {text : α → List UInt8}
    {symbols : α → List Symbol} (h : ∀ x ∈ parts, IsPart (text x) (symbols x)) :
    IsPart (parts.flatMap text) (parts.flatMap symbols) := by
  induction parts with
  | nil => exact isPart_nil
  | cons x parts ih =>
      rw [List.flatMap_cons, List.flatMap_cons]
      exact (h x List.mem_cons_self).append (ih fun y hy => h y (List.mem_cons_of_mem _ hy))

theorem Literal.isPart (l : Literal) : IsPart l.text l.symbols := by
  obtain ⟨nots, v⟩ := l
  rw [Literal.text, Literal.symbols]
  induction nots with
  | zero => exact isPart_quotedText v
  | succ n ih =>
      rw [List.replicate_succ, List.replicate_succ, List.flatten_cons, List.append_assoc]
      exact isPart_not.append ih

theorem Literal.bounded (l : Literal) : Bounded l.text := by
  obtain ⟨nots, v⟩ := l
  refine ⟨?_, (ends_quotedText v).append _⟩
  cases nots with
  | zero => exact begins_quotedText v
  | succ n =>
      have hnot : Begins (encode "NOT ") :=
        ⟨'N'.toUInt8, encode "OT ", by decide, by decide, by decide⟩
      rw [Literal.text, List.replicate_succ, List.flatten_cons, List.append_assoc]
      exact hnot.append _

theorem Conjunction.isPart (c : Conjunction) : IsPart c.text c.symbols := by
  refine c.first.isPart.append (isPart_flatMap fun l _ => ?_)
  obtain ⟨written, l⟩ := l
  cases written with
  | false => exact isPart_space.append l.isPart
  | true => exact isPart_and.append l.isPart

theorem Conjunction.bounded (c : Conjunction) : Bounded c.text :=
  ⟨c.first.bounded.1.append _,
    ends_flatMap c.first.bounded.2 fun l _ => l.2.bounded.2.append _⟩

theorem FlatFormula.isPart (f : FlatFormula) : IsPart f.text f.symbols :=
  f.first.isPart.append (isPart_flatMap fun c _ => isPart_or.append c.isPart)

theorem FlatFormula.bounded (f : FlatFormula) : Bounded f.text :=
  ⟨f.first.bounded.1.append _,
    ends_flatMap f.first.bounded.2 fun c _ => c.bounded.2.append _⟩

theorem FlatFormula.spelled (f : FlatFormula) : SpelledAs f.text f.symbols :=
  spelledAs_of_text f.isPart.spells f.isPart.passes f.bounded

/-- A formula over phrases keeps its meaning: in parentheses, and without where
`NOT` binds tighter than what is joined and this tighter than `OR`, however it
is spelled. -/
theorem formulas_keep_meaning (lib : SearchLib) :
    (∀ f : Formula, SpelledAs f.text f.symbols ∧ ∀ q, SpelledAs q f.symbols →
      ∃ e, parseSearch lib q = .ok (some e, []) ∧ MeansSame e fun truth => f.eval truth) ∧
    (∀ f : FlatFormula, SpelledAs f.text f.symbols ∧ ∀ q, SpelledAs q f.symbols →
      ∃ e, parseSearch lib q = .ok (some e, []) ∧ MeansSame e fun truth => f.eval truth) :=
  ⟨fun f => ⟨f.spelled, fun _ h => f.parse h⟩, fun f => ⟨f.spelled, fun _ h => f.parse h⟩⟩

/-- `("a" AND (NOT "b"))` -/
def nestedExample : Formula := .and (.phrase [97]) (.not (.phrase [98]))

/-- `NOT "a" "b" OR "c"` -/
def flatExample : FlatFormula := ⟨⟨⟨1, [97]⟩, [(false, ⟨0, [98]⟩)]⟩, [⟨⟨0, [99]⟩, []⟩]⟩

theorem formulas_keep_meaning_examples :
    nestedExample.text = encode "(\"a\" AND (NOT \"b\"))" ∧
      flatExample.text = encode "NOT \"a\" \"b\" OR \"c\"" ∧
      (∃ e, parseSearch asciiLib nestedExample.text = .ok (some e, []) ∧
        MeansSame e fun truth => nestedExample.eval truth) ∧
      ∃ e, parseSearch asciiLib flatExample.text = .ok (some e, []) ∧
        MeansSame e fun truth => flatExample.eval truth := by
  obtain ⟨hnested, hflat⟩ := formulas_keep_meaning asciiLib
  refine ⟨by decide, by decide, ?_, ?_⟩
  · exact (hnested nestedExample).2 _ (hnested nestedExample).1
  · exact (hflat flatExample).2 _ (hflat flatExample).1

end GoSite.Observability
