import GoSite.SearchGrammar

/-!
# Which tokens a filter stands for

The words, phrases and expressions of a search are the predicates of its filter,
in the order in which they stand. The strict form of the grammar is the loose
one where every `AND` has an operand on both sides.
-/
namespace GoSite.Observability
open BooleanTrees GoStrings

variable {lib : SearchLib} {loose : Prop}

/-! ## Predicates and their tokens -/

def isOperand (t : Token) : Bool := t.kind = .word || t.kind = .quoted || t.kind = .regex

@[grind] def Phrase.leaves : Phrase → List PredExpr
  | .unit e => e.leaves
  | .more es => es.flatMap BoolTree.leaves
  | .conj e => e.leaves
  | .alternatives es => es.flatMap BoolTree.leaves
  | .query e => e.leaves

theorem conjunction_leaves (es : List FilterExpr) :
    (conjunction es).leaves = es.flatMap BoolTree.leaves := by
  rcases es with _ | ⟨e, _ | ⟨e', es⟩⟩ <;> simp [conjunction, BoolTree.leaves, leavesAll_eq]

theorem addAlternative_leaves (left right : FilterExpr) :
    (addAlternative left right).leaves = left.leaves ++ right.leaves := by
  cases left <;> simp [addAlternative, BoolTree.leaves, leavesAll_eq]

theorem foldl_addAlternative_leaves (es : List FilterExpr) (e : FilterExpr) :
    (es.foldl addAlternative e).leaves = e.leaves ++ es.flatMap BoolTree.leaves := by
  induction es generalizing e with
  | nil => simp
  | cons r es ih => simp [ih, addAlternative_leaves]

/-- The operands are cut into the tokens of the predicates. -/
def Cut (lib : SearchLib) (ts : List Token) (ps : List PredExpr) : Prop :=
  ∃ groups : List (List Token × PredExpr), (∀ g ∈ groups, Leaf lib g.1 g.2) ∧
    ts.filter isOperand = groups.flatMap Prod.fst ∧ ps = groups.map Prod.snd

theorem Cut.nil : Cut lib [] [] := ⟨[], by simp, rfl, rfl⟩

theorem Cut.append {ts us : List Token} {ps qs : List PredExpr} (h : Cut lib ts ps)
    (h' : Cut lib us qs) : Cut lib (ts ++ us) (ps ++ qs) := by
  obtain ⟨gs, hleaf, hts, rfl⟩ := h
  obtain ⟨gs', hleaf', hus, rfl⟩ := h'
  refine ⟨gs ++ gs', ?_, by simp [hts, hus], by simp⟩
  intro g hg
  rcases List.mem_append.mp hg with hg | hg
  · exact hleaf g hg
  · exact hleaf' g hg

/-- An operator or a parenthesis is no part of a predicate. -/
theorem Cut.operator {t : Token} (ht : isOperand t = false) : Cut lib [t] [] :=
  ⟨[], by simp, by simp [ht], rfl⟩

theorem Leaf.isOperand {ts : List Token} {p : PredExpr} (h : Leaf lib ts p) :
    ∀ t ∈ ts, Observability.isOperand t = true := by
  cases h with
  | quoted ht => simp [Observability.isOperand, ht]
  | regex ht => simp [Observability.isOperand, ht]
  | word ht => simp [Observability.isOperand, ht]
  | fieldRegex hw ht => simp [Observability.isOperand, hw, ht]
  | fieldValue hw ht => rcases ht with ht | ht <;> simp [Observability.isOperand, hw, ht]

theorem Leaf.cut {ts : List Token} {p : PredExpr} (h : Leaf lib ts p) : Cut lib ts [p] := by
  refine ⟨[(ts, p)], by simpa using h, ?_, rfl⟩
  rw [List.filter_eq_self.mpr h.isOperand]
  simp

theorem not_isOperand {t : Token} (h : t.kind = .andOp ∨ t.kind = .orOp ∨ t.kind = .notOp ∨
    t.kind = .lparen ∨ t.kind = .rparen) : isOperand t = false := by
  rcases h with h | h | h | h | h <;> rw [isOperand, h] <;> rfl

theorem Reads.cut {ts : List Token} {ph : Phrase} (h : Reads lib loose ts ph) :
    Cut lib ts ph.leaves := by
  induction h with
  | leaf hleaf => exact hleaf.cut
  | not hnot _ ih => exact (Cut.operator (not_isOperand (by simp [hnot]))).append ih
  | group hl _ hr ih =>
      have hopen := (Cut.operator (not_isOperand (Or.inr (Or.inr (Or.inr (Or.inl hl)))))).append ih
      have hclose : Cut lib [_] [] :=
        Cut.operator (not_isOperand (Or.inr (Or.inr (Or.inr (Or.inr hr)))))
      simpa [Phrase.leaves] using hopen.append hclose
  | noMore => exact Cut.nil
  | trailing _ hand => exact Cut.operator (not_isOperand (by simp [hand]))
  | juxtaposed _ _ ih ih' => exact ih.append ih'
  | joined hand _ _ ih ih' =>
      exact (Cut.operator (not_isOperand (by simp [hand]))).append (ih.append ih')
  | conj _ _ ih ih' =>
      rw [Phrase.leaves, conjunction_leaves]
      exact ih.append ih'
  | leading _ hand _ _ ih ih' =>
      rw [Phrase.leaves, conjunction_leaves]
      exact (Cut.operator (not_isOperand (by simp [hand]))).append (ih.append ih')
  | noAlternative => exact Cut.nil
  | alternative hor _ _ ih ih' =>
      exact (Cut.operator (not_isOperand (by simp [hor]))).append (ih.append ih')
  | query _ _ ih ih' =>
      rw [Phrase.leaves, foldl_addAlternative_leaves]
      exact ih.append ih'

theorem Leaf.of_regex {ts : List Token} {p : PredExpr} (h : Leaf lib ts p) {t : Token}
    (ht : t ∈ ts) (hkind : t.kind = .regex) : ∃ field, p = ⟨field, .regexp, t.text⟩ := by
  cases h with
  | quoted hk =>
      rw [List.mem_singleton.mp ht] at hkind
      simp [hkind] at hk
  | regex hk => exact ⟨"", by rw [List.mem_singleton.mp ht]⟩
  | word hk =>
      rw [List.mem_singleton.mp ht] at hkind
      simp [hkind] at hk
  | fieldRegex hw hk =>
      rename_i w r field op hopens
      rcases List.mem_cons.mp ht with rfl | ht
      · simp [hkind] at hw
      · exact ⟨field, by rw [List.mem_singleton.mp ht]⟩
  | fieldValue hw hk =>
      rcases List.mem_cons.mp ht with rfl | ht
      · simp [hkind] at hw
      · rw [List.mem_singleton.mp ht] at hkind
        simp [hkind] at hk

/-- An expression between slashes is a predicate of the filter. -/
theorem Cut.regex {ts : List Token} {ps : List PredExpr} (h : Cut lib ts ps) {t : Token}
    (ht : t ∈ ts) (hkind : t.kind = .regex) : ∃ field, ⟨field, .regexp, t.text⟩ ∈ ps := by
  obtain ⟨gs, hleaf, hts, rfl⟩ := h
  have hmem : t ∈ ts.filter Observability.isOperand :=
    List.mem_filter.mpr ⟨ht, by simp [Observability.isOperand, hkind]⟩
  rw [hts, List.mem_flatMap] at hmem
  obtain ⟨g, hg, htg⟩ := hmem
  obtain ⟨field, hp⟩ := (hleaf g hg).of_regex htg hkind
  exact ⟨field, List.mem_map.mpr ⟨g, hg, hp⟩⟩

theorem parseFieldPredicateLoop_regexp {word : List Char} {ops : List (String × Op)}
    (hops : ∀ sep_op ∈ ops, sep_op.2 ≠ .regexp) {pred : PredExpr}
    (h : parseFieldPredicateLoop lib word ops = some pred) (hop : pred.op = .regexp) :
    validRegexp lib pred.value = true := by
  induction ops with
  | nil => simp [parseFieldPredicateLoop] at h
  | cons sep_op ops ih =>
      obtain ⟨sep, op⟩ := sep_op
      have hrest := ih fun so hso => hops so (List.mem_cons_of_mem _ hso)
      rw [parseFieldPredicateLoop] at h
      cases hindex : index word sep.toList with
      | none =>
          rw [hindex] at h
          exact hrest h
      | some k =>
          rw [hindex] at h
          cases k with
          | zero => exact hrest h
          | succ i =>
              dsimp only at h
              split_ifs at h with hvalid hvalue hregex hpattern
              · rw [← Option.some.inj h]
                exact hpattern
              · rw [← Option.some.inj h, likeIfStar] at hop
                have hne := hops _ List.mem_cons_self
                dsimp only at hop hne
                split_ifs at hop
                exact absurd hop hne
              · exact hrest h

theorem fieldOps_ne_regexp : ∀ sep_op ∈ fieldOps, sep_op.2 ≠ .regexp := by decide

theorem fieldOpSuffixLoop_op {word : List Char} {ops : List (String × Op)} {field : String}
    {op : Op} (h : fieldOpSuffixLoop lib word ops = some (field, op)) :
    ∃ sep, (sep, op) ∈ ops := by
  induction ops with
  | nil => simp [fieldOpSuffixLoop] at h
  | cons sep_op ops ih =>
      obtain ⟨sep, op'⟩ := sep_op
      rw [fieldOpSuffixLoop] at h
      dsimp only at h
      split_ifs at h with hsuffix hvalid
      · obtain ⟨-, rfl⟩ := Prod.mk.inj (Option.some.inj h)
        exact ⟨sep, List.mem_cons_self⟩
      · obtain ⟨sep', hmem⟩ := ih h
        exact ⟨sep', List.mem_cons_of_mem _ hmem⟩
      · obtain ⟨sep', hmem⟩ := ih h
        exact ⟨sep', List.mem_cons_of_mem _ hmem⟩

/-- A predicate of readable tokens has no expression that does not compile. -/
theorem Leaf.valid {ts : List Token} {p : PredExpr} (h : Leaf lib ts p)
    (hts : ∀ t ∈ ts, Readable lib t) (hop : p.op = .regexp) : validRegexp lib p.value = true := by
  cases h with
  | quoted => simp at hop
  | regex hk => exact (hts _ (by simp)).2 hk
  | word hk =>
      rename_i t
      cases hpred : parseFieldPredicate lib t.text with
      | none => simp [wordPredicate_of_none hpred] at hop
      | some pred =>
          rw [wordPredicate_of_some hpred] at hop ⊢
          exact parseFieldPredicateLoop_regexp fieldOps_ne_regexp hpred hop
  | fieldRegex hw hk => exact (hts _ (by simp)).2 hk
  | fieldValue hw hk hopens =>
      obtain ⟨sep, hmem⟩ := fieldOpSuffixLoop_op hopens.2
      have hne := fieldOps_ne_regexp _ hmem
      dsimp only [likeIfStar] at hop
      split_ifs at hop
      exact absurd hop hne

theorem Cut.valid {ts : List Token} {ps : List PredExpr} (h : Cut lib ts ps)
    (hts : ∀ t ∈ ts, Readable lib t) {p : PredExpr} (hp : p ∈ ps) (hop : p.op = .regexp) :
    validRegexp lib p.value = true := by
  obtain ⟨gs, hleaf, hcut, rfl⟩ := h
  obtain ⟨g, hg, rfl⟩ := List.mem_map.mp hp
  refine (hleaf g hg).valid (fun t ht => hts t ?_) hop
  have hmem : t ∈ ts.filter Observability.isOperand := by
    rw [hcut]
    exact List.mem_flatMap.mpr ⟨g, hg, ht⟩
  exact (List.mem_filter.mp hmem).1

/-! ## Operands on both sides of `AND` -/

def beginsOperand (kind : TokenKind) : Bool :=
  kind = .word || kind = .quoted || kind = .regex || kind = .lparen || kind = .notOp

def endsOperand (kind : TokenKind) : Bool :=
  kind = .word || kind = .quoted || kind = .regex || kind = .rparen

def headKind (ts : List Token) (after : TokenKind) : TokenKind :=
  match ts with
  | [] => after
  | t :: _ => t.kind

@[grind] def lastKind (before : TokenKind) : List Token → TokenKind
  | [] => before
  | t :: ts => lastKind t.kind ts

/-- Every `AND` between `before` and `after` has an operand on both sides. -/
@[grind] def andsJoin (before after : TokenKind) : List Token → Bool
  | [] => true
  | t :: ts =>
      (t.kind ≠ .andOp || endsOperand before && beginsOperand (headKind ts after)) &&
        andsJoin t.kind after ts

@[simp] theorem headKind_append (ts us : List Token) (after : TokenKind) :
    headKind (ts ++ us) after = headKind ts (headKind us after) := by
  cases ts <;> rfl

@[simp] theorem lastKind_append (before : TokenKind) (ts us : List Token) :
    lastKind before (ts ++ us) = lastKind (lastKind before ts) us := by
  induction ts generalizing before with
  | nil => rfl
  | cons t ts ih => exact ih t.kind

@[simp] theorem andsJoin_append (before after : TokenKind) (ts us : List Token) :
    andsJoin before after (ts ++ us) =
      (andsJoin before (headKind us after) ts && andsJoin (lastKind before ts) after us) := by
  induction ts generalizing before with
  | nil => simp [andsJoin, lastKind]
  | cons t ts ih => simp [andsJoin, lastKind, ih, Bool.and_assoc]

theorem lastKind_leaf {ts : List Token} {p : PredExpr} (h : Leaf lib ts p)
    (before after : TokenKind) : andsJoin before after ts = true ∧
      beginsOperand (headKind ts after) = true ∧ endsOperand (lastKind before ts) = true := by
  cases h with
  | quoted ht => simp [andsJoin, headKind, lastKind, beginsOperand, endsOperand, ht]
  | regex ht => simp [andsJoin, headKind, lastKind, beginsOperand, endsOperand, ht]
  | word ht => simp [andsJoin, headKind, lastKind, beginsOperand, endsOperand, ht]
  | fieldRegex hw ht => simp [andsJoin, headKind, lastKind, beginsOperand, endsOperand, hw, ht]
  | fieldValue hw ht =>
      rcases ht with ht | ht <;>
        simp [andsJoin, headKind, lastKind, beginsOperand, endsOperand, hw, ht]

/-- How the tokens of a phrase of the strict form stand between others. -/
def Joined (ts : List Token) : Phrase → Prop
  | .unit _ | .conj _ | .query _ => ∀ before after, andsJoin before after ts = true ∧
      beginsOperand (headKind ts after) = true ∧ endsOperand (lastKind before ts) = true
  | .more _ | .alternatives _ => ∀ before after, endsOperand before = true →
      andsJoin before after ts = true ∧ endsOperand (lastKind before ts) = true

theorem Reads.joined_of_strict {ts : List Token} {ph : Phrase} (h : Reads lib False ts ph) :
    Joined ts ph := by
  induction h with
  | leaf hleaf => exact lastKind_leaf hleaf
  | not hnot _ ih =>
      intro before after
      obtain ⟨hands, -, hlast⟩ := ih .notOp after
      simp [andsJoin, headKind, lastKind, hnot, beginsOperand, hands, hlast]
  | group hl _ hr ih =>
      intro before after
      obtain ⟨hands, -, -⟩ := ih .lparen .rparen
      simp [andsJoin, headKind, lastKind, hl, hr, beginsOperand, endsOperand, hands]
  | noMore => exact fun before after hbefore => ⟨rfl, hbefore⟩
  | trailing hloose => exact hloose.elim
  | juxtaposed _ _ ih ih' =>
      rename_i ts us e es _ _
      intro before after hbefore
      obtain ⟨hands, -, hlast⟩ := ih before (headKind us after)
      obtain ⟨hands', hlast'⟩ := ih' _ after hlast
      simp [hands, hands', hlast']
  | joined hand _ _ ih ih' =>
      rename_i t ts us e es _ _
      intro before after hbefore
      obtain ⟨hands, hhead, hlast⟩ := ih .andOp (headKind us after)
      obtain ⟨hands', hlast'⟩ := ih' _ after hlast
      simp [andsJoin, lastKind, hand, hbefore, hhead, hands, hands', hlast']
  | conj _ _ ih ih' =>
      rename_i ts us e es _ _
      intro before after
      obtain ⟨hands, hhead, hlast⟩ := ih before (headKind us after)
      obtain ⟨hands', hlast'⟩ := ih' _ after hlast
      simp [hands, hhead, hands', hlast']
  | leading hloose => exact hloose.elim
  | noAlternative => exact fun before after hbefore => ⟨rfl, hbefore⟩
  | alternative hor _ _ ih ih' =>
      rename_i t ts us e es _ _
      intro before after hbefore
      obtain ⟨hands, hhead, hlast⟩ := ih .orOp (headKind us after)
      obtain ⟨hands', hlast'⟩ := ih' _ after hlast
      simp [andsJoin, lastKind, hor, hands, hands', hlast']
  | query _ _ ih ih' =>
      rename_i ts us e es _ _
      intro before after
      obtain ⟨hands, hhead, hlast⟩ := ih before (headKind us after)
      obtain ⟨hands', hlast'⟩ := ih' _ after hlast
      simp [hands, hhead, hands', hlast']

theorem Reads.alternatives_head {ts : List Token} {es : List FilterExpr}
    (h : Reads lib loose ts (.alternatives es)) {after : TokenKind}
    (hafter : beginsOperand after = false) : beginsOperand (headKind ts after) = false := by
  cases h with
  | noAlternative => exact hafter
  | alternative hor => simp [headKind, hor, beginsOperand]

/-- What must not stand around a phrase for it to be whole. -/
def Enclosed (before after : TokenKind) : Phrase → Prop
  | .unit _ => True
  | .more _ | .alternatives _ => beginsOperand after = false
  | .conj _ | .query _ => beginsOperand after = false ∧ endsOperand before = false

/-- Where every `AND` joins two operands, none of them is extra. -/
theorem Reads.strict {ts : List Token} {ph : Phrase} (h : Reads lib loose ts ph)
    {before after : TokenKind} (hands : andsJoin before after ts = true)
    (hends : Enclosed before after ph) : Reads lib False ts ph := by
  induction h generalizing before after with
  | leaf hleaf => exact .leaf hleaf
  | not hnot _ ih =>
      rw [andsJoin, Bool.and_eq_true] at hands
      exact .not hnot (ih hands.2 trivial)
  | group hl _ hr ih =>
      simp only [List.cons_append, andsJoin, andsJoin_append, Bool.and_eq_true] at hands
      exact .group hl (ih hands.2.1 ⟨by simp [headKind, hr, beginsOperand],
        by simp [hl, endsOperand]⟩) hr
  | noMore => exact .noMore
  | trailing _ hand =>
      have hafter : beginsOperand after = false := hends
      simp [andsJoin, hand, headKind, hafter] at hands
  | juxtaposed _ _ ih ih' =>
      rw [andsJoin_append, Bool.and_eq_true] at hands
      exact .juxtaposed (ih hands.1 trivial) (ih' hands.2 hends)
  | joined hand _ _ ih ih' =>
      simp only [List.cons_append, andsJoin, andsJoin_append, Bool.and_eq_true] at hands
      exact .joined hand (ih hands.2.1 trivial) (ih' hands.2.2 hends)
  | conj _ _ ih ih' =>
      rw [andsJoin_append, Bool.and_eq_true] at hands
      exact .conj (ih hands.1 trivial) (ih' hands.2 hends.1)
  | leading _ hand =>
      simp [andsJoin, hand, hends.2] at hands
  | noAlternative => exact .noAlternative
  | alternative hor _ halts ih ih' =>
      simp only [List.cons_append, andsJoin, andsJoin_append, Bool.and_eq_true] at hands
      exact .alternative hor (ih hands.2.1 ⟨halts.alternatives_head hends,
        by simp [hor, endsOperand]⟩) (ih' hands.2.2 hends)
  | query _ halts ih ih' =>
      rw [andsJoin_append, Bool.and_eq_true] at hands
      exact .query (ih hands.1 ⟨halts.alternatives_head hends.1, hends.2⟩) (ih' hands.2 hends.1)

end GoSite.Observability
