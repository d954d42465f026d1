import GoSite.SearchTokens

/-!
# The grammar of searches

Which filters a list of tokens stands for. `NOT` binds its operand, operands
that follow each other or are joined by `AND` are a conjunction, and `OR` stands
between conjunctions. The parser also reads an `AND` that joins nothing, which
is the loose form of the grammar.
-/
namespace GoSite.Observability
open BooleanTrees GoStrings

/-- The predicate of a word that is no operator with a value behind it. -/
def wordPredicate (lib : SearchLib) (word : String) : PredExpr :=
  (parseFieldPredicate lib word).getD ⟨"", .contains, word⟩

/-- A field with an operator, to be followed by its value. -/
def opensField (lib : SearchLib) (word field : String) (op : Op) : Prop :=
  parseFieldPredicate lib word = none ∧ fieldOpSuffix lib word = some (field, op)

/-- A predicate and its tokens. -/
inductive Leaf (lib : SearchLib) : List Token → PredExpr → Prop where
  | quoted {t : Token} : t.kind = .quoted → Leaf lib [t] ⟨"", .contains, t.text⟩
  | regex {t : Token} : t.kind = .regex → Leaf lib [t] ⟨"", .regexp, t.text⟩
  | word {t : Token} : t.kind = .word → Leaf lib [t] (wordPredicate lib t.text)
  | fieldRegex {w t : Token} {field : String} {op : Op} : w.kind = .word → t.kind = .regex →
      opensField lib w.text field op → Leaf lib [w, t] ⟨field, .regexp, t.text⟩
  | fieldValue {w t : Token} {field : String} {op : Op} : w.kind = .word →
      t.kind = .quoted ∨ t.kind = .word → opensField lib w.text field op →
      Leaf lib [w, t] ⟨field, likeIfStar op t.text, t.text⟩

/-- What a part of a search stands for. `more` is what may follow in a
conjunction, and `alternatives` what may follow it. -/
inductive Phrase where
  | unit (e : FilterExpr)
  | more (es : List FilterExpr)
  | conj (e : FilterExpr)
  | alternatives (es : List FilterExpr)
  | query (e : FilterExpr)

def conjunction : List FilterExpr → FilterExpr
  | [e] => e
  | es => .and es

/-- The tokens of a phrase. Only the loose form has an `AND` without operands. -/
inductive Reads (lib : SearchLib) (loose : Prop) : List Token → Phrase → Prop where
  | leaf {ts : List Token} {p : PredExpr} : Leaf lib ts p → Reads lib loose ts (.unit (.leaf p))
  | not {t : Token} {ts : List Token} {e : FilterExpr} : t.kind = .notOp →
      Reads lib loose ts (.unit e) → Reads lib loose (t :: ts) (.unit (.not e))
  | group {l r : Token} {ts : List Token} {e : FilterExpr} : l.kind = .lparen →
      Reads lib loose ts (.query e) → r.kind = .rparen →
      Reads lib loose (l :: ts ++ [r]) (.unit e)
  | noMore : Reads lib loose [] (.more [])
  | trailing {t : Token} : loose → t.kind = .andOp → Reads lib loose [t] (.more [])
  | juxtaposed {ts us : List Token} {e : FilterExpr} {es : List FilterExpr} :
      Reads lib loose ts (.unit e) → Reads lib loose us (.more es) →
      Reads lib loose (ts ++ us) (.more (e :: es))
  | joined {t : Token} {ts us : List Token} {e : FilterExpr} {es : List FilterExpr} :
      t.kind = .andOp → Reads lib loose ts (.unit e) → Reads lib loose us (.more es) →
      Reads lib loose (t :: ts ++ us) (.more (e :: es))
  | conj {ts us : List Token} {e : FilterExpr} {es : List FilterExpr} :
      Reads lib loose ts (.unit e) → Reads lib loose us (.more es) →
      Reads lib loose (ts ++ us) (.conj (conjunction (e :: es)))
  | leading {t : Token} {ts us : List Token} {e : FilterExpr} {es : List FilterExpr} :
      loose → t.kind = .andOp → Reads lib loose ts (.unit e) → Reads lib loose us (.more es) →
      Reads lib loose (t :: ts ++ us) (.conj (conjunction (e :: es)))
  | noAlternative : Reads lib loose [] (.alternatives [])
  | alternative {t : Token} {ts us : List Token} {e : FilterExpr} {es : List FilterExpr} :
      t.kind = .orOp → Reads lib loose ts (.conj e) → Reads lib loose us (.alternatives es) →
      Reads lib loose (t :: ts ++ us) (.alternatives (e :: es))
  | query {ts us : List Token} {e : FilterExpr} {es : List FilterExpr} :
      Reads lib loose ts (.conj e) → Reads lib loose us (.alternatives es) →
      Reads lib loose (ts ++ us) (.query (es.foldl addAlternative e))

variable {lib : SearchLib}

/-! ## What the parser reads -/

/-- A result of the parser: readable tokens that stand for it, which are all the
tokens up to the rest where every token is readable. -/
def ReadsOff (lib : SearchLib) (P : List Token → FilterExpr → Prop) (input : List UInt8)
    (result : Except SearchError (FilterExpr × List UInt8)) : Prop :=
  ∀ e rest, result = .ok (e, rest) → ∃ used, (∀ t ∈ used, Readable lib t) ∧ P used e ∧
    ((∀ t ∈ tokens input, Readable lib t) → tokens input = used ++ tokens rest)

theorem ReadsOff.error {P : List Token → FilterExpr → Prop} {input : List UInt8}
    {err : SearchError} : ReadsOff lib P input (.error err) := by
  intro e rest h
  cases h

theorem readable_peek {input : List UInt8} (h : (peek lib input).1.kind ≠ .eof) :
    Readable lib (peek lib input).1 :=
  ⟨h, valid_of_peek⟩

theorem tokens_peek {input : List UInt8} (h : ∀ t ∈ tokens input, Readable lib t) :
    tokens (peek lib input).2 = tokens input :=
  (peek_readable h).1

theorem readable_rest {input rest : List UInt8} {used : List Token}
    (h : ∀ t ∈ tokens input, Readable lib t) (heq : tokens input = used ++ tokens rest) :
    ∀ t ∈ tokens rest, Readable lib t :=
  fun t ht => h t (by rw [heq]; exact List.mem_append_right _ ht)

theorem ReadsOff.peeked {P : List Token → FilterExpr → Prop} {input : List UInt8}
    {result : Except SearchError (FilterExpr × List UInt8)}
    (h : ReadsOff lib P (peek lib input).2 result) : ReadsOff lib P input result := by
  intro e rest hresult
  obtain ⟨used, hused, hP, hall⟩ := h e rest hresult
  refine ⟨used, hused, hP, fun hgood => ?_⟩
  rw [← tokens_peek hgood]
  exact hall (by rwa [tokens_peek hgood])

/-- Two results behind each other. -/
theorem ReadsOff.andThen {P Q R : List Token → FilterExpr → Prop} {input rest : List UInt8}
    {e : FilterExpr} {first result : Except SearchError (FilterExpr × List UInt8)}
    (hfirst : ReadsOff lib P input first) (hok : first = .ok (e, rest))
    (hsecond : ReadsOff lib Q rest result)
    (himp : ∀ us vs e', P us e → Q vs e' → R (us ++ vs) e') : ReadsOff lib R input result := by
  intro e' rest' hresult
  obtain ⟨us, hus, hP, hall⟩ := hfirst e rest hok
  obtain ⟨vs, hvs, hQ, hall'⟩ := hsecond e' rest' hresult
  refine ⟨us ++ vs, ?_, himp us vs e' hP hQ, ?_⟩
  · intro t ht
    rcases List.mem_append.mp ht with ht | ht
    · exact hus t ht
    · exact hvs t ht
  · intro hgood
    have heq := hall hgood
    rw [heq, hall' (readable_rest hgood heq), List.append_assoc]

/-- One token and a result behind it. -/
theorem ReadsOff.cons {P Q : List Token → FilterExpr → Prop} {input : List UInt8}
    {result : Except SearchError (FilterExpr × List UInt8)}
    (hkind : (peek lib input).1.kind ≠ .eof)
    (h : ReadsOff lib P (next lib (peek lib input).2).2 result)
    (himp : ∀ used e, P used e → Q ((peek lib input).1 :: used) e) :
    ReadsOff lib Q input result := by
  intro e rest hresult
  obtain ⟨used, hused, hP, hall⟩ := h e rest hresult
  refine ⟨(peek lib input).1 :: used, ?_, himp used e hP, ?_⟩
  · intro t ht
    rcases List.mem_cons.mp ht with rfl | ht
    · exact readable_peek hkind
    · exact hused t ht
  · intro hgood
    have hcons := tokens_eq_cons hgood hkind
    have hrest := hall fun t ht => hgood t (by rw [hcons]; exact List.mem_cons_of_mem _ ht)
    rw [hcons, hrest]
    rfl

theorem ReadsOff.mono {P Q : List Token → FilterExpr → Prop} {input : List UInt8}
    {result : Except SearchError (FilterExpr × List UInt8)} (h : ReadsOff lib P input result)
    (himp : ∀ used e, P used e → Q used e) : ReadsOff lib Q input result := by
  intro e rest hresult
  obtain ⟨used, hused, hP, hall⟩ := h e rest hresult
  exact ⟨used, hused, himp used e hP, hall⟩

/-- Nothing is read. -/
theorem ReadsOff.nothing {P : List Token → FilterExpr → Prop} {input : List UInt8}
    {e : FilterExpr} (h : P [] e) : ReadsOff lib P input (.ok (e, input)) := by
  intro e' rest hresult
  obtain ⟨rfl, rfl⟩ := Prod.mk.inj (Except.ok.inj hresult)
  exact ⟨[], by simp, h, fun _ => rfl⟩

/-- The next token is looked at and stays. -/
theorem ReadsOff.looked {P : List Token → FilterExpr → Prop} {input : List UInt8}
    {e : FilterExpr} (h : P [] e) : ReadsOff lib P input (.ok (e, (peek lib input).2)) := by
  intro e' rest hresult
  obtain ⟨rfl, rfl⟩ := Prod.mk.inj (Except.ok.inj hresult)
  exact ⟨[], by simp, h, fun hgood => (tokens_peek hgood).symm⟩

/-- The token that was looked at is all that is read. -/
theorem ReadsOff.token {P : List Token → FilterExpr → Prop} {input : List UInt8} {e : FilterExpr}
    (hkind : (peek lib input).1.kind ≠ .eof) (h : P [(peek lib input).1] e) :
    ReadsOff lib P input (.ok (e, (next lib (peek lib input).2).2)) := by
  have hnothing : ReadsOff lib (fun used e' => used = [] ∧ e' = e)
      (next lib (peek lib input).2).2 (.ok (e, (next lib (peek lib input).2).2)) :=
    ReadsOff.nothing ⟨rfl, rfl⟩
  refine hnothing.cons hkind ?_
  rintro used e' ⟨rfl, rfl⟩
  exact h

theorem next_peek_fst {input : List UInt8} (h : (peek lib input).1.kind ≠ .eof) :
    (next lib (peek lib input).2).1 = (peek lib input).1 := by
  rw [(next_peek h).1, (next_peek h).2.1]

theorem peek_fst_eq_next (input : List UInt8) : (peek lib input).1 = (next lib input).1 := by
  cases hskip : skipSpace input with
  | nil => simp [peek, next, read, hskip]
  | cons ch rest =>
      rw [peek, next, read, read, hskip]
      dsimp only
      split_ifs <;> simp_all

theorem wordPredicate_of_some {word : String} {pred : PredExpr}
    (h : parseFieldPredicate lib word = some pred) : wordPredicate lib word = pred := by
  rw [wordPredicate, h]
  rfl

theorem wordPredicate_of_none {word : String} (h : parseFieldPredicate lib word = none) :
    wordPredicate lib word = ⟨"", .contains, word⟩ := by
  rw [wordPredicate, h]
  rfl

/-- A word with the value behind it, if it needs one and there is one. -/
theorem parseWordPredicate_readsOff {input : List UInt8} (hkind : (peek lib input).1.kind = .word) :
    ReadsOff lib (fun used e => Reads lib True used (.unit e)) input
      (.ok (.leaf (parseWordPredicate lib (peek lib input).1.text (peek lib input).2).1,
        (parseWordPredicate lib (peek lib input).1.text (peek lib input).2).2)) := by
  have heof : (peek lib input).1.kind ≠ .eof := by simp [hkind]
  have halone : Reads lib True [(peek lib input).1]
      (.unit (.leaf (wordPredicate lib (peek lib input).1.text))) := .leaf (.word hkind)
  rw [parseWordPredicate]
  dsimp only
  cases hpred : parseFieldPredicate lib (peek lib input).1.text with
  | some pred =>
      rw [wordPredicate_of_some hpred] at halone
      exact ReadsOff.token heof halone
  | none =>
      rw [wordPredicate_of_none hpred] at halone
      cases hsuffix : fieldOpSuffix lib (peek lib input).1.text with
      | none => exact ReadsOff.token heof halone
      | some field_op =>
          obtain ⟨field, op⟩ := field_op
          have hopens : opensField lib (peek lib input).1.text field op := ⟨hpred, hsuffix⟩
          dsimp only
          have hvalue : ∀ {p : PredExpr}, (peek lib (next lib (peek lib input).2).2).1.kind ≠ .eof →
              Leaf lib [(peek lib input).1, (peek lib (next lib (peek lib input).2).2).1] p →
              ReadsOff lib (fun used e => Reads lib True used (.unit e)) input
                (.ok (.leaf p, (next lib (peek lib (next lib (peek lib input).2).2).2).2)) := by
            intro p hnext hleaf
            have htoken : ReadsOff lib (fun used e =>
                Reads lib True ((peek lib input).1 :: used) (.unit e))
                (next lib (peek lib input).2).2
                (.ok (.leaf p, (next lib (peek lib (next lib (peek lib input).2).2).2).2)) :=
              ReadsOff.token hnext (.leaf hleaf)
            exact htoken.cons heof fun _ _ h => h
          split
          · rename_i hnext
            have heof' : (peek lib (next lib (peek lib input).2).2).1.kind ≠ .eof := by simp [hnext]
            rw [next_peek_fst heof']
            exact hvalue heof' (.fieldRegex hkind hnext hopens)
          · rename_i hnext
            have heof' : (peek lib (next lib (peek lib input).2).2).1.kind ≠ .eof := by simp [hnext]
            rw [next_peek_fst heof']
            exact hvalue heof' (.fieldValue hkind (Or.inl hnext) hopens)
          · rename_i hnext
            have heof' : (peek lib (next lib (peek lib input).2).2).1.kind ≠ .eof := by simp [hnext]
            rw [next_peek_fst heof']
            exact hvalue heof' (.fieldValue hkind (Or.inr hnext) hopens)
          · have hlooked : ReadsOff lib (fun used e => used = [] ∧
                e = .leaf ⟨"", .contains, (peek lib input).1.text⟩) (next lib (peek lib input).2).2
                (.ok (.leaf ⟨"", .contains, (peek lib input).1.text⟩,
                  (peek lib (next lib (peek lib input).2).2).2)) :=
              ReadsOff.looked ⟨rfl, rfl⟩
            refine hlooked.cons heof ?_
            rintro used e ⟨rfl, rfl⟩
            exact halone

theorem finishAnd_eq (parts : List FilterExpr) (input : List UInt8) :
    finishAnd parts input =
      if parts = [] then .error (.search "expected search term")
      else .ok (conjunction parts, input) := by
  cases parts with
  | nil => rfl
  | cons p parts => cases parts <;> rfl

/-- The operands of a conjunction, with an `AND` that may stand before them. -/
theorem Reads.conj_of_more {us : List Token} {es : List FilterExpr}
    (h : Reads lib True us (.more es)) (hne : es ≠ []) :
    Reads lib True us (.conj (conjunction es)) := by
  cases h with
  | noMore => exact absurd rfl hne
  | trailing => exact absurd rfl hne
  | juxtaposed hunit hmore => exact .conj hunit hmore
  | joined hand hunit hmore => exact .leading trivial hand hunit hmore

/-- The part that stands next in a conjunction, and what follows it. -/
theorem readsOff_part {lib : SearchLib} {n : ℕ}
    (hunary : ∀ input, ReadsOff lib (fun us e => Reads lib True us (.unit e)) input
      (parseUnary lib n input))
    (hand : ∀ parts input, ReadsOff lib
      (fun us e => ∃ es, Reads lib True us (.more es) ∧ parts ++ es ≠ [] ∧
        e = conjunction (parts ++ es))
      input (parseAnd lib n parts input))
    (parts : List FilterExpr) (input : List UInt8) :
    ReadsOff lib (fun us e => ∃ part es ts vs, us = ts ++ vs ∧ Reads lib True ts (.unit part) ∧
      Reads lib True vs (.more es) ∧ e = conjunction (parts ++ part :: es)) input
      (match parseUnary lib n (peek lib input).2 with
        | .error err => .error err
        | .ok (part, input) => parseAnd lib n (parts ++ [part]) input) := by
  cases hresult : parseUnary lib n (peek lib input).2 with
  | error err => exact ReadsOff.error
  | ok result =>
      refine (hunary _).peeked.andThen hresult (hand (parts ++ [result.1]) result.2) ?_
      rintro us vs e hread ⟨es, hmore, -, rfl⟩
      exact ⟨result.1, es, us, vs, rfl, hread, hmore, by simp⟩

/-- What each level of the parser reads, with `n` steps. -/
theorem parsers_readsOff (lib : SearchLib) (n : ℕ) :
    (∀ input, ReadsOff lib (fun us e => Reads lib True us (.query e)) input (parseOr lib n input)) ∧
    (∀ left input, ReadsOff lib
      (fun us e => ∃ es, Reads lib True us (.alternatives es) ∧ e = es.foldl addAlternative left)
      input (parseOrLoop lib n left input)) ∧
    (∀ parts input, ReadsOff lib
      (fun us e => ∃ es, Reads lib True us (.more es) ∧ parts ++ es ≠ [] ∧
        e = conjunction (parts ++ es))
      input (parseAnd lib n parts input)) ∧
    (∀ input, ReadsOff lib (fun us e => Reads lib True us (.unit e)) input
      (parseUnary lib n input)) ∧
    (∀ input, ReadsOff lib (fun us e => Reads lib True us (.unit e)) input
      (parsePrimary lib n input)) := by
  induction n with
  | zero =>
      refine ⟨?_, ?_, ?_, ?_, ?_⟩ <;> intros <;>
        simp only [parseOr, parseOrLoop, parseAnd, parseUnary, parsePrimary] <;>
        exact ReadsOff.error
  | succ n ih =>
      obtain ⟨hor, horLoop, hand, hunary, hprimary⟩ := ih
      refine ⟨?_, ?_, ?_, ?_, ?_⟩
      · intro input
        rw [parseOr]
        cases hresult : parseAnd lib n [] input with
        | error err => exact ReadsOff.error
        | ok result =>
            refine (hand [] input).andThen hresult (horLoop result.1 result.2) ?_
            rintro us vs e ⟨es, hread, hne, hleft⟩ ⟨alts, halts, rfl⟩
            rw [hleft]
            exact .query (hread.conj_of_more hne) halts
      · intro left input
        rw [parseOrLoop]
        by_cases hkind : (peek lib input).1.kind = .orOp
        · simp only [hkind, ne_eq, not_true_eq_false, if_false]
          cases hresult : parseAnd lib n [] (next lib (peek lib input).2).2 with
          | error err => exact ReadsOff.error
          | ok result =>
              have hboth : ReadsOff lib (fun us e => ∃ r es ts vs, us = ts ++ vs ∧
                  Reads lib True ts (.conj r) ∧ Reads lib True vs (.alternatives es) ∧
                  e = es.foldl addAlternative (addAlternative left r))
                  (next lib (peek lib input).2).2
                  (parseOrLoop lib n (addAlternative left result.1) result.2) := by
                refine (hand [] _).andThen hresult (horLoop _ result.2) ?_
                rintro us vs e ⟨es, hread, hne, hright⟩ ⟨alts, halts, rfl⟩
                exact ⟨result.1, alts, us, vs, rfl, hright ▸ hread.conj_of_more hne, halts, rfl⟩
              refine hboth.cons (by simp [hkind]) ?_
              rintro us e ⟨r, es, ts, vs, rfl, hconj, halts, rfl⟩
              exact ⟨r :: es, .alternative hkind hconj halts, rfl⟩
        · simp only [ne_eq, hkind, not_false_eq_true, if_true]
          exact ReadsOff.looked ⟨[], .noAlternative, rfl⟩
      · intro parts input
        have hfinish : ∀ input, ReadsOff lib (fun us e => us = [] ∧ parts ≠ [] ∧
            e = conjunction parts) input (finishAnd parts (peek lib input).2) := by
          intro input
          rw [finishAnd_eq]
          split_ifs with hparts
          · exact ReadsOff.error
          · exact ReadsOff.looked ⟨rfl, hparts, rfl⟩
        have hstep := fun input => readsOff_part hunary hand parts input
        rw [parseAnd]
        dsimp only
        by_cases hend : endsAnd (peek lib input).1.kind = true
        · rw [if_pos hend]
          refine (hfinish input).mono ?_
          rintro us e ⟨rfl, hparts, rfl⟩
          exact ⟨[], .noMore, by simpa using hparts, by simp⟩
        · rw [if_neg hend]
          by_cases hkind : (peek lib input).1.kind = .andOp
          · simp only [hkind, if_true]
            have heof : (peek lib input).1.kind ≠ .eof := by simp [hkind]
            split_ifs with hend'
            · refine (hfinish _).cons heof ?_
              rintro us e ⟨rfl, hparts, rfl⟩
              exact ⟨[], .trailing trivial hkind, by simpa using hparts, by simp⟩
            · refine (hstep _).cons heof ?_
              rintro us e ⟨part, es, ts, vs, rfl, hunit, hmore, rfl⟩
              exact ⟨part :: es, .joined hkind hunit hmore, by simp, rfl⟩
          · simp only [hkind, if_false]
            split_ifs with hend'
            · refine (hfinish _).peeked.mono ?_
              rintro us e ⟨rfl, hparts, rfl⟩
              exact ⟨[], .noMore, by simpa using hparts, by simp⟩
            · refine (hstep _).peeked.mono ?_
              rintro us e ⟨part, es, ts, vs, rfl, hunit, hmore, rfl⟩
              exact ⟨part :: es, .juxtaposed hunit hmore, by simp, rfl⟩
      · intro input
        rw [parseUnary]
        by_cases hkind : (peek lib input).1.kind = .notOp
        · simp only [hkind, if_true]
          have hchild := hunary (next lib (peek lib input).2).2
          cases hresult : parseUnary lib n (next lib (peek lib input).2).2 with
          | error err => exact ReadsOff.error
          | ok result =>
              have hnot : ReadsOff lib (fun us e => ∃ c, Reads lib True us (.unit c) ∧ e = .not c)
                  (next lib (peek lib input).2).2 (.ok (.not result.1, result.2)) := by
                refine hchild.andThen hresult (ReadsOff.nothing (P := fun us e =>
                  us = [] ∧ e = .not result.1) ⟨rfl, rfl⟩) ?_
                rintro us vs e hread ⟨rfl, rfl⟩
                exact ⟨result.1, by simpa using hread, rfl⟩
              refine hnot.cons (by simp [hkind]) ?_
              rintro us e ⟨c, hread, rfl⟩
              exact .not hkind hread
        · simp only [hkind, if_false]
          exact (hprimary _).peeked
      · intro input
        rw [parsePrimary]
        dsimp only
        split
        · rename_i hkind
          have hinner := hor (next lib (peek lib input).2).2
          cases hresult : parseOr lib n (next lib (peek lib input).2).2 with
          | error err => exact ReadsOff.error
          | ok result =>
              dsimp only
              split_ifs with hclose
              · exact ReadsOff.error
              · have hkind' : (peek lib result.2).1.kind = .rparen := by
                  rw [peek_fst_eq_next]
                  exact not_not.mp hclose
                have heof : (peek lib result.2).1.kind ≠ .eof := by simp [hkind']
                have hr : ReadsOff lib (fun us e => ∃ r, us = [r] ∧ r.kind = .rparen ∧
                    e = result.1) result.2 (.ok (result.1, (next lib result.2).2)) := by
                  rw [← (next_peek heof).1]
                  exact ReadsOff.token heof ⟨_, rfl, hkind', rfl⟩
                have hboth : ReadsOff lib (fun us e => ∃ r ts, us = ts ++ [r] ∧
                    Reads lib True ts (.query e) ∧ r.kind = .rparen)
                    (next lib (peek lib input).2).2 (.ok (result.1, (next lib result.2).2)) := by
                  refine hinner.andThen hresult hr ?_
                  rintro us vs e hread ⟨r, rfl, hr, rfl⟩
                  exact ⟨r, us, rfl, hread, hr⟩
                refine hboth.cons (by simp [hkind]) ?_
                rintro us e ⟨r, ts, rfl, hread, hr⟩
                exact .group hkind hread hr
        · rename_i hkind
          exact ReadsOff.token (by simp [hkind]) (.leaf (.quoted hkind))
        · rename_i hkind
          exact ReadsOff.token (by simp [hkind]) (.leaf (.regex hkind))
        · rename_i hkind
          exact parseWordPredicate_readsOff hkind
        · exact ReadsOff.error

end GoSite.Observability
