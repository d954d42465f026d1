import GoSite.SearchReadings

/-!
# Every text of the grammar is read

Where no word waits for a value, the parser gives the filter that the grammar
has for the tokens, and leaves the tokens behind them.
-/
namespace GoSite.Observability
open BooleanTrees GoStrings

variable {lib : SearchLib} {loose : Prop}

/-- Too few steps were allowed, or the filter with some tokens left. -/
def Gives (result : Except SearchError (FilterExpr × List UInt8)) (e : FilterExpr)
    (left : List Token) : Prop :=
  result = .error .outOfFuel ∨ ∃ rest, result = .ok (e, rest) ∧ tokens rest = left

theorem peek_of_tokens {input : List UInt8} {t : Token} {ts : List Token}
    (hgood : ∀ t ∈ tokens input, Readable lib t) (h : tokens input = t :: ts) :
    (peek lib input).1 = t ∧ tokens (peek lib input).2 = t :: ts ∧
      tokens (next lib (peek lib input).2).2 = ts := by
  have hkind : (peek lib input).1.kind ≠ .eof := by
    rw [ne_eq, peek_eof_iff hgood, h]
    simp
  have hcons := tokens_eq_cons hgood hkind
  rw [h] at hcons
  obtain ⟨ht, hts⟩ := List.cons.inj hcons
  exact ⟨ht.symm, by rw [tokens_peek hgood, h], hts.symm⟩

/-- The kind of the first token, which the parser looks at. -/
theorem peek_kind {input : List UInt8} (hgood : ∀ t ∈ tokens input, Readable lib t) :
    (peek lib input).1.kind = headKind (tokens input) .eof := by
  cases htokens : tokens input with
  | nil => exact (peek_eof_iff hgood).mpr htokens
  | cons t ts => rw [(peek_of_tokens hgood htokens).1]; rfl

/-- No word of the tokens waits for a value. -/
def NoFields (lib : SearchLib) (ts : List Token) : Prop :=
  ∀ t ∈ ts, t.kind = .word → fieldOpSuffix lib t.text = none

/-- What the parser does with the tokens of a phrase. -/
def Parses (lib : SearchLib) (us : List Token) : Phrase → Prop
  | .unit e => ∀ n input vs, (∀ t ∈ tokens input, Readable lib t) → tokens input = us ++ vs →
      Gives (parseUnary lib n input) e vs
  | .more es => ∀ n parts input vs, (∀ t ∈ tokens input, Readable lib t) →
      tokens input = us ++ vs → endsAnd (headKind vs .eof) = true → parts ++ es ≠ [] →
      Gives (parseAnd lib n parts input) (conjunction (parts ++ es)) vs
  | .conj e => ∀ n input vs, (∀ t ∈ tokens input, Readable lib t) → tokens input = us ++ vs →
      endsAnd (headKind vs .eof) = true → Gives (parseAnd lib n [] input) e vs
  | .alternatives es => ∀ n left input vs, (∀ t ∈ tokens input, Readable lib t) →
      tokens input = us ++ vs → headKind vs .eof = .eof ∨ headKind vs .eof = .rparen →
      Gives (parseOrLoop lib n left input) (es.foldl addAlternative left) vs
  | .query e => ∀ n input vs, (∀ t ∈ tokens input, Readable lib t) → tokens input = us ++ vs →
      headKind vs .eof = .eof ∨ headKind vs .eof = .rparen → Gives (parseOr lib n input) e vs

theorem parsePrimary_leaf {ts : List Token} {p : PredExpr} (h : Leaf lib ts p)
    (hplain : ∀ t, ts = [t] → NoFields lib ts) {n : ℕ} {input : List UInt8} {vs : List Token}
    (hgood : ∀ t ∈ tokens input, Readable lib t) (htokens : tokens input = ts ++ vs) :
    Gives (parsePrimary lib n input) (.leaf p) vs := by
  cases n with
  | zero => exact Or.inl (by rw [parsePrimary])
  | succ n =>
      refine Or.inr ?_
      rw [parsePrimary]
      cases h with
      | quoted hk =>
          obtain ⟨hpeek, -, hnext⟩ := peek_of_tokens hgood htokens
          dsimp only
          rw [hpeek, hk]
          exact ⟨_, rfl, hnext⟩
      | regex hk =>
          obtain ⟨hpeek, -, hnext⟩ := peek_of_tokens hgood htokens
          dsimp only
          rw [hpeek, hk]
          exact ⟨_, rfl, hnext⟩
      | word hk =>
          rename_i t
          obtain ⟨hpeek, -, hnext⟩ := peek_of_tokens hgood htokens
          have hsuffix : fieldOpSuffix lib t.text = none := hplain t rfl t (by simp) hk
          have hword : parseWordPredicate lib t.text (peek lib input).2 =
              (wordPredicate lib t.text, (next lib (peek lib input).2).2) := by
            rw [parseWordPredicate, hsuffix, wordPredicate]
            cases parseFieldPredicate lib t.text <;> rfl
          dsimp only
          rw [hpeek, hk]
          dsimp only
          rw [hword]
          exact ⟨_, rfl, hnext⟩
      | fieldRegex hw hk hopens =>
          rename_i w t field op
          obtain ⟨hpeek, -, hnext⟩ := peek_of_tokens hgood htokens
          have hgood' : ∀ t ∈ tokens (next lib (peek lib input).2).2, Readable lib t := by
            rw [hnext]
            exact fun t ht => hgood t (by rw [htokens]; exact List.mem_cons_of_mem _ ht)
          obtain ⟨hpeek', -, hnext'⟩ := peek_of_tokens hgood' hnext
          have hvalue : (next lib (peek lib (next lib (peek lib input).2).2).2).1 = t := by
            rw [next_peek_fst (by simp [hpeek', hk]), hpeek']
          have hword : parseWordPredicate lib w.text (peek lib input).2 =
              (⟨field, .regexp, t.text⟩,
                (next lib (peek lib (next lib (peek lib input).2).2).2).2) := by
            rw [parseWordPredicate, hopens.1, hopens.2]
            simp only [hpeek', hk, hvalue]
          dsimp only
          rw [hpeek, hw]
          dsimp only
          rw [hword]
          exact ⟨_, rfl, hnext'⟩
      | fieldValue hw hk hopens =>
          rename_i w t field op
          obtain ⟨hpeek, -, hnext⟩ := peek_of_tokens hgood htokens
          have hgood' : ∀ t ∈ tokens (next lib (peek lib input).2).2, Readable lib t := by
            rw [hnext]
            exact fun t ht => hgood t (by rw [htokens]; exact List.mem_cons_of_mem _ ht)
          obtain ⟨hpeek', -, hnext'⟩ := peek_of_tokens hgood' hnext
          have hvalue : (next lib (peek lib (next lib (peek lib input).2).2).2).1 = t := by
            rw [next_peek_fst (by rcases hk with hk | hk <;> simp [hpeek', hk]), hpeek']
          have hword : parseWordPredicate lib w.text (peek lib input).2 =
              (⟨field, likeIfStar op t.text, t.text⟩,
                (next lib (peek lib (next lib (peek lib input).2).2).2).2) := by
            rw [parseWordPredicate, hopens.1, hopens.2]
            rcases hk with hk | hk <;> simp only [hpeek', hk, hvalue]
          dsimp only
          rw [hpeek, hw]
          dsimp only
          rw [hword]
          exact ⟨_, rfl, hnext'⟩

theorem Reads.unit_head {ts : List Token} {e : FilterExpr} (h : Reads lib loose ts (.unit e)) :
    ∃ t ts', ts = t :: ts' ∧ beginsOperand t.kind = true := by
  cases h with
  | leaf hleaf =>
      cases hleaf with
      | quoted hk => exact ⟨_, _, rfl, by simp [beginsOperand, hk]⟩
      | regex hk => exact ⟨_, _, rfl, by simp [beginsOperand, hk]⟩
      | word hk => exact ⟨_, _, rfl, by simp [beginsOperand, hk]⟩
      | fieldRegex hw => exact ⟨_, _, rfl, by simp [beginsOperand, hw]⟩
      | fieldValue hw => exact ⟨_, _, rfl, by simp [beginsOperand, hw]⟩
  | not hk => exact ⟨_, _, rfl, by simp [beginsOperand, hk]⟩
  | group hl => exact ⟨_, _, rfl, by simp [beginsOperand, hl]⟩

theorem Reads.alternatives_ends {us vs : List Token} {es : List FilterExpr}
    (h : Reads lib loose us (.alternatives es))
    (hvs : headKind vs .eof = .eof ∨ headKind vs .eof = .rparen) :
    endsAnd (headKind (us ++ vs) .eof) = true := by
  cases h with
  | noAlternative => rcases hvs with hvs | hvs <;> simp [endsAnd, hvs]
  | alternative hor => simp [headKind, endsAnd, hor]

/-- An operand is taken and the conjunction goes on. -/
theorem parseAnd_unit {ts ws : List Token} {e : FilterExpr}
    (hunit : Parses lib ts (.unit e)) (n : ℕ) (parts : List FilterExpr) (input : List UInt8)
    (hgood : ∀ t ∈ tokens input, Readable lib t) (htokens : tokens input = ts ++ ws) :
    (match parseUnary lib n (peek lib input).2 with
      | .error err => .error err
      | .ok (part, input) => parseAnd lib n (parts ++ [part]) input) =
        (.error .outOfFuel : Except SearchError (FilterExpr × List UInt8)) ∨
      ∃ rest, (∀ t ∈ tokens rest, Readable lib t) ∧ tokens rest = ws ∧
        (match parseUnary lib n (peek lib input).2 with
          | .error err => .error err
          | .ok (part, input) => parseAnd lib n (parts ++ [part]) input) =
          parseAnd lib n (parts ++ [e]) rest := by
  have hpeek := tokens_peek hgood
  rcases hunit n (peek lib input).2 ws (by rwa [hpeek]) (by rw [hpeek, htokens]) with
    hfuel | ⟨rest, hok, hrest⟩
  · exact Or.inl (by rw [hfuel])
  · refine Or.inr ⟨rest, ?_, hrest, by rw [hok]⟩
    exact readable_rest hgood (by rw [htokens, hrest])

/-- `parseAnd` at an operand, with or without `AND` before it. -/
theorem parseAnd_more {ts us vs : List Token} {e : FilterExpr} {es : List FilterExpr}
    (hread : Reads lib loose ts (.unit e)) (hunit : Parses lib ts (.unit e))
    (hmore : Parses lib us (.more es)) {joins : List Token}
    (hjoins : joins = [] ∨ ∃ t, joins = [t] ∧ t.kind = .andOp) (n : ℕ) (parts : List FilterExpr)
    (input : List UInt8) (hgood : ∀ t ∈ tokens input, Readable lib t)
    (htokens : tokens input = joins ++ ts ++ us ++ vs)
    (hvs : endsAnd (headKind vs .eof) = true) :
    Gives (parseAnd lib n parts input) (conjunction (parts ++ e :: es)) vs := by
  obtain ⟨first, ts', hts, hbegins⟩ := hread.unit_head
  have hnotEnd : endsAnd first.kind = false := by
    cases hk : first.kind <;> simp [hk, beginsOperand] at hbegins <;> rfl
  have hnotAnd : first.kind ≠ .andOp := by
    intro hk
    simp [hk, beginsOperand] at hbegins
  cases n with
  | zero => exact Or.inl (by rw [parseAnd])
  | succ n =>
      have hstep : ∀ input, (∀ t ∈ tokens input, Readable lib t) →
          tokens input = ts ++ (us ++ vs) →
          Gives (match parseUnary lib n (peek lib input).2 with
            | .error err => .error err
            | .ok (part, input) => parseAnd lib n (parts ++ [part]) input)
            (conjunction (parts ++ e :: es)) vs := by
        intro input hgood htokens
        rcases parseAnd_unit hunit n parts input hgood htokens with
          hfuel | ⟨rest, hgood', hrest, heq⟩
        · exact Or.inl hfuel
        · rw [heq]
          have hgives := hmore n (parts ++ [e]) rest vs hgood' hrest hvs (by simp)
          simpa using hgives
      rw [parseAnd]
      dsimp only
      rcases hjoins with rfl | ⟨t, rfl, hand⟩
      · have hcons : tokens input = first :: (ts' ++ us ++ vs) := by
          rw [htokens, hts]
          simp
        obtain ⟨hpeek, hsame, -⟩ := peek_of_tokens hgood hcons
        have hgood' : ∀ t ∈ tokens (peek lib input).2, Readable lib t := by
          rwa [tokens_peek hgood]
        have hpeek' := (peek_of_tokens hgood' hsame).1
        rw [hpeek, hnotEnd]
        simp only [Bool.false_eq_true, if_false, hnotAnd]
        rw [hpeek', hnotEnd]
        simp only [Bool.false_eq_true, if_false]
        exact hstep _ hgood' (by rw [tokens_peek hgood, htokens]; simp)
      · have hcons : tokens input = t :: (ts ++ (us ++ vs)) := by
          rw [htokens]
          simp
        obtain ⟨hpeek, -, hnext⟩ := peek_of_tokens hgood hcons
        have hgood' : ∀ t ∈ tokens (next lib (peek lib input).2).2, Readable lib t := by
          rw [hnext]
          exact fun t ht => hgood t (by rw [hcons]; exact List.mem_cons_of_mem _ ht)
        have hpeek' : (peek lib (next lib (peek lib input).2).2).1 = first :=
          (peek_of_tokens hgood' (by rw [hnext, hts]; rfl)).1
        have hnotEnd' : endsAnd TokenKind.andOp = false := rfl
        rw [hpeek, hand, hnotEnd']
        simp only [Bool.false_eq_true, if_false, if_true]
        rw [hpeek', hnotEnd]
        simp only [Bool.false_eq_true, if_false]
        exact hstep _ hgood' hnext

theorem NoFields.left {ts us : List Token} (h : NoFields lib (ts ++ us)) : NoFields lib ts :=
  fun t ht => h t (List.mem_append_left _ ht)

theorem NoFields.right {ts us : List Token} (h : NoFields lib (ts ++ us)) : NoFields lib us :=
  fun t ht => h t (List.mem_append_right _ ht)

theorem NoFields.tail {t : Token} {ts : List Token} (h : NoFields lib (t :: ts)) :
    NoFields lib ts :=
  fun t ht => h t (List.mem_cons_of_mem _ ht)

theorem parses_leaf {ts : List Token} {p : PredExpr} (hleaf : Leaf lib ts p)
    (hplain : ∀ t, ts = [t] → NoFields lib ts) : Parses lib ts (.unit (.leaf p)) := by
  intro n input vs hgood htokens
  cases n with
  | zero => exact Or.inl (by rw [parseUnary])
  | succ n =>
      have hpeek := tokens_peek hgood
      have hnot : (peek lib input).1.kind ≠ .notOp := by
        rw [peek_kind hgood, htokens]
        cases hleaf <;> simp [headKind, *]
      rw [parseUnary]
      simp only [hnot, if_false]
      exact parsePrimary_leaf hleaf hplain (by rwa [hpeek]) (by rw [hpeek, htokens])

theorem parses_not {t : Token} {ts : List Token} {e : FilterExpr} (hnot : t.kind = .notOp)
    (h : Parses lib ts (.unit e)) : Parses lib (t :: ts) (.unit (.not e)) := by
  intro n input vs hgood htokens
  cases n with
  | zero => exact Or.inl (by rw [parseUnary])
  | succ n =>
      obtain ⟨hpeek, -, hnext⟩ := peek_of_tokens hgood htokens
      have hgood' : ∀ t ∈ tokens (next lib (peek lib input).2).2, Readable lib t := by
        rw [hnext]
        exact fun t ht => hgood t (by rw [htokens]; exact List.mem_cons_of_mem _ ht)
      rw [parseUnary]
      simp only [hpeek, hnot, if_true]
      rcases h n _ vs hgood' hnext with hfuel | ⟨rest, hok, hrest⟩
      · exact Or.inl (by rw [hfuel])
      · exact Or.inr ⟨rest, by rw [hok], hrest⟩

theorem parses_group {l r : Token} {ts : List Token} {e : FilterExpr} (hl : l.kind = .lparen)
    (h : Parses lib ts (.query e)) (hr : r.kind = .rparen) :
    Parses lib (l :: ts ++ [r]) (.unit e) := by
  intro n input vs hgood htokens
  cases n with
  | zero => exact Or.inl (by rw [parseUnary])
  | succ n =>
      have hcons : tokens input = l :: (ts ++ r :: vs) := by
        rw [htokens]
        simp
      obtain ⟨hpeek, hsame, -⟩ := peek_of_tokens hgood hcons
      have hgood' : ∀ t ∈ tokens (peek lib input).2, Readable lib t := by
        rwa [tokens_peek hgood]
      rw [parseUnary]
      simp only [hpeek, hl]
      simp only [reduceCtorEq, if_false]
      cases n with
      | zero => exact Or.inl (by rw [parsePrimary])
      | succ n =>
          obtain ⟨hpeek', -, hnext⟩ := peek_of_tokens hgood' hsame
          have hgood'' : ∀ t ∈ tokens (next lib (peek lib (peek lib input).2).2).2,
              Readable lib t := by
            rw [hnext]
            exact fun t ht => hgood' t (by rw [hsame]; exact List.mem_cons_of_mem _ ht)
          have hinner := h n _ (r :: vs) hgood'' hnext
            (Or.inr (by rw [headKind, hr]))
          rw [parsePrimary]
          simp only [hpeek', hl]
          rcases hinner with hfuel | ⟨rest, hok, hrest⟩
          · exact Or.inl (by rw [hfuel])
          · have hgoodRest : ∀ t ∈ tokens rest, Readable lib t :=
              readable_rest hgood'' (by rw [hnext, hrest])
            obtain ⟨hclose, -, hleft⟩ := peek_of_tokens hgoodRest hrest
            have heof : (peek lib rest).1.kind ≠ .eof := by simp [hclose, hr]
            rw [(next_peek heof).1] at hleft
            rw [peek_fst_eq_next] at hclose
            refine Or.inr ⟨(next lib rest).2, ?_, hleft⟩
            rw [hok]
            simp only [hclose, hr, ne_eq, not_true_eq_false, if_false]

theorem parses_noMore : Parses lib [] (.more []) := by
  intro n parts input vs hgood htokens hvs hparts
  cases n with
  | zero => exact Or.inl (by rw [parseAnd])
  | succ n =>
      have hend : endsAnd (peek lib input).1.kind = true := by rwa [peek_kind hgood, htokens]
      rw [parseAnd]
      simp only [hend, if_true, finishAnd_eq]
      rw [List.append_nil] at hparts ⊢
      rw [if_neg hparts]
      exact Or.inr ⟨_, rfl, by rw [tokens_peek hgood, htokens]; rfl⟩

theorem parses_trailing {t : Token} (hand : t.kind = .andOp) : Parses lib [t] (.more []) := by
  intro n parts input vs hgood htokens hvs hparts
  cases n with
  | zero => exact Or.inl (by rw [parseAnd])
  | succ n =>
      obtain ⟨hpeek, -, hnext⟩ := peek_of_tokens hgood htokens
      have hgood' : ∀ t ∈ tokens (next lib (peek lib input).2).2, Readable lib t := by
        rw [hnext]
        exact fun t ht => hgood t (by rw [htokens]; exact List.mem_cons_of_mem _ ht)
      have hend : endsAnd (peek lib (next lib (peek lib input).2).2).1.kind = true := by
        rwa [peek_kind hgood', hnext]
      have hnotEnd : endsAnd TokenKind.andOp = false := rfl
      rw [parseAnd]
      dsimp only
      rw [hpeek, hand, hnotEnd]
      simp only [Bool.false_eq_true, if_false, if_true, hend, finishAnd_eq]
      rw [List.append_nil] at hparts ⊢
      rw [if_neg hparts]
      exact Or.inr ⟨_, rfl, by rw [tokens_peek hgood', hnext]; rfl⟩

theorem parses_noAlternative : Parses lib [] (.alternatives []) := by
  intro n left input vs hgood htokens hvs
  cases n with
  | zero => exact Or.inl (by rw [parseOrLoop])
  | succ n =>
      have hnot : (peek lib input).1.kind ≠ .orOp := by
        rw [peek_kind hgood, htokens, List.nil_append]
        rcases hvs with hvs | hvs <;> simp [hvs]
      rw [parseOrLoop]
      simp only [ne_eq, hnot, not_false_eq_true, if_true]
      exact Or.inr ⟨_, rfl, by rw [tokens_peek hgood, htokens]; rfl⟩

theorem parses_alternative {t : Token} {ts us : List Token} {e : FilterExpr}
    {es : List FilterExpr} (hor : t.kind = .orOp) (hconj : Parses lib ts (.conj e))
    (halts : Reads lib loose us (.alternatives es)) (hmore : Parses lib us (.alternatives es)) :
    Parses lib (t :: ts ++ us) (.alternatives (e :: es)) := by
  intro n left input vs hgood htokens hvs
  cases n with
  | zero => exact Or.inl (by rw [parseOrLoop])
  | succ n =>
      have hcons : tokens input = t :: (ts ++ (us ++ vs)) := by
        rw [htokens]
        simp
      obtain ⟨hpeek, -, hnext⟩ := peek_of_tokens hgood hcons
      have hgood' : ∀ t ∈ tokens (next lib (peek lib input).2).2, Readable lib t := by
        rw [hnext]
        exact fun t ht => hgood t (by rw [hcons]; exact List.mem_cons_of_mem _ ht)
      rw [parseOrLoop]
      simp only [hpeek, hor, ne_eq, not_true_eq_false, if_false]
      rcases hconj n _ (us ++ vs) hgood' hnext
          (halts.alternatives_ends hvs) with hfuel | ⟨rest, hok, hrest⟩
      · exact Or.inl (by rw [hfuel])
      · rw [hok]
        exact hmore n _ rest vs
          (readable_rest hgood' (by rw [hnext, hrest])) hrest hvs

theorem parses_conj {ts us : List Token} {e : FilterExpr} {es : List FilterExpr}
    (hread : Reads lib loose ts (.unit e)) (hunit : Parses lib ts (.unit e))
    (hmore : Parses lib us (.more es)) :
    Parses lib (ts ++ us) (.conj (conjunction (e :: es))) := by
  intro n input vs hgood htokens hvs
  exact parseAnd_more hread hunit hmore (Or.inl rfl) n [] input hgood htokens hvs

theorem parses_query {ts us : List Token} {e : FilterExpr} {es : List FilterExpr}
    (hconj : Parses lib ts (.conj e)) (halts : Reads lib loose us (.alternatives es))
    (hmore : Parses lib us (.alternatives es)) :
    Parses lib (ts ++ us) (.query (es.foldl addAlternative e)) := by
  intro n input vs hgood htokens hvs
  cases n with
  | zero => exact Or.inl (by rw [parseOr])
  | succ n =>
      rw [List.append_assoc] at htokens
      rw [parseOr]
      rcases hconj n input (us ++ vs) hgood htokens
          (halts.alternatives_ends hvs) with hfuel | ⟨rest, hok, hrest⟩
      · exact Or.inl (by rw [hfuel])
      · rw [hok]
        exact hmore n e rest vs
          (readable_rest hgood (by rw [htokens, hrest])) hrest hvs

/-- An operand alone is a query. -/
theorem parses_alone {ts : List Token} {e : FilterExpr} (hread : Reads lib loose ts (.unit e))
    (hunit : Parses lib ts (.unit e)) : Parses lib ts (.query e) := by
  have hconj : Parses lib (ts ++ []) (.conj (conjunction [e])) :=
    parses_conj hread hunit parses_noMore
  have halts : Reads lib loose [] (.alternatives []) := .noAlternative
  have hquery := parses_query hconj halts parses_noAlternative
  simpa [conjunction] using hquery

theorem Reads.parses {ts : List Token} {ph : Phrase} (h : Reads lib loose ts ph)
    (hplain : NoFields lib ts) : Parses lib ts ph := by
  induction h with
  | leaf hleaf => exact parses_leaf hleaf fun _ _ => hplain
  | not hnot _ ih => exact parses_not hnot (ih hplain.tail)
  | group hl _ hr ih => exact parses_group hl (ih hplain.tail.left) hr
  | noMore => exact parses_noMore
  | trailing _ hand => exact parses_trailing hand
  | juxtaposed hunit hmore ih ih' =>
      intro n parts input vs hgood htokens hvs hparts
      exact parseAnd_more hunit (ih hplain.left) (ih' hplain.right) (Or.inl rfl) n parts input
        hgood htokens hvs
  | joined hand hunit hmore ih ih' =>
      intro n parts input vs hgood htokens hvs hparts
      exact parseAnd_more hunit (ih hplain.tail.left) (ih' hplain.tail.right)
        (Or.inr ⟨_, rfl, hand⟩) n parts input hgood htokens hvs
  | conj hunit _ ih ih' => exact parses_conj hunit (ih hplain.left) (ih' hplain.right)
  | leading _ hand hunit hmore ih ih' =>
      intro n input vs hgood htokens hvs
      exact parseAnd_more hunit (ih hplain.tail.left) (ih' hplain.tail.right)
        (Or.inr ⟨_, rfl, hand⟩) n [] input hgood htokens hvs
  | noAlternative => exact parses_noAlternative
  | alternative hor _ halts ih ih' =>
      exact parses_alternative hor (ih hplain.tail.left) halts (ih' hplain.tail.right)
  | query _ halts ih ih' => exact parses_query (ih hplain.left) halts (ih' hplain.right)

/-- A search that is a query is read as it says. -/
theorem parseSearch_of_searchTokens {q search : List UInt8} {parts : List (List UInt8)}
    {pipes : List PipeCmd} {e : FilterExpr} (hstar : trimSpaceBytes q ≠ ['*'.toUInt8])
    (hsplit : splitPipes (trimSpaceBytes q) = .ok (search, parts))
    (hpipes : parts.mapM (parsePipe lib) = .ok pipes) (hne : searchTokens q ≠ [])
    (hgood : ∀ t ∈ searchTokens q, Readable lib t)
    (hparses : Parses lib (searchTokens q) (.query e)) :
    parseSearch lib q = .ok (some e, pipes) := by
  have htokens : searchTokens q = tokens (trimSpaceBytes search) := by rw [searchTokens, hsplit]
  have hsearch : trimSpaceBytes search ≠ [] := by
    intro hnil
    rw [htokens, hnil] at hne
    exact hne rfl
  have hq : trimSpaceBytes q ≠ [] := by
    intro hnil
    rw [searchTokens, hnil] at hne
    exact hne rfl
  have hfuel := parseSearch_ne_outOfFuel lib q
  rw [htokens] at hgood hparses
  have hgives := hparses (parseFuel (trimSpaceBytes search)) (trimSpaceBytes search) [] hgood
    (by simp) (Or.inl rfl)
  rw [parseSearch] at hfuel ⊢
  simp only [hq, hstar, or_self, if_false, hsplit, hpipes, hsearch] at hfuel ⊢
  rcases hgives with hout | ⟨rest, hok, hrest⟩
  · rw [hout] at hfuel
    exact absurd rfl hfuel
  · have hnil : (peek lib rest).1.kind = .eof :=
      (peek_eof_iff (by simp [hrest])).mpr hrest
    rw [hok]
    simp [hnil]

/-- A search without pipes and without white space around it. -/
theorem parseSearch_of_parses {q : List UInt8} {ts : List Token} {e : FilterExpr}
    (hstar : q ≠ ['*'.toUInt8]) (hne : ts ≠ []) (htrim : trimSpaceBytes q = q)
    (hsplit : splitPipes q = .ok (q, [])) (htokens : tokens q = ts)
    (hgood : ∀ t ∈ ts, Readable lib t) (hparses : Parses lib ts (.query e)) :
    parseSearch lib q = .ok (some e, []) := by
  rw [← htrim] at hsplit
  have hsearch : searchTokens q = ts := by
    rw [searchTokens, hsplit]
    dsimp only
    rw [htrim, htrim, htokens]
  rw [← hsearch] at hne hgood hparses
  exact parseSearch_of_searchTokens (by rwa [htrim]) hsplit rfl hne hgood hparses

theorem parseSearch_of_reads {q : List UInt8} {ts : List Token} {e : FilterExpr}
    (hstar : q ≠ ['*'.toUInt8]) (hne : ts ≠ []) (htrim : trimSpaceBytes q = q)
    (hsplit : splitPipes q = .ok (q, [])) (htokens : tokens q = ts)
    (hgood : ∀ t ∈ ts, Readable lib t) (hread : Reads lib loose ts (.query e))
    (hplain : NoFields lib ts) : parseSearch lib q = .ok (some e, []) :=
  parseSearch_of_parses hstar hne htrim hsplit htokens hgood (hread.parses hplain)

end GoSite.Observability
