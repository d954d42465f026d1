import GoSite.ParserProgress

/-!
# The text of a compiled search

The WHERE text of an accepted search is put together from words of the compiler.
What the user wrote reaches the database as arguments only, and binding them to
the placeholders from left to right gives every predicate its own.
-/
namespace GoSite.Observability
open BooleanTrees GoStrings

/-- The conditions of a filter as one text. -/
def SQLFilter.whereText (f : SQLFilter) : String := join " AND " f.wheres

/-- A statement with its arguments in the place of the placeholders. It is left
out when their numbers differ. -/
@[grind] def bindPlaceholders : List Char → List String → Option (List (Char ⊕ String))
  | [], args => if args = [] then some [] else none
  | c :: cs, args =>
      if c = '?' then
        args.head?.bind fun arg => (bindPlaceholders cs args.tail).map (.inr arg :: ·)
      else (bindPlaceholders cs args).map (.inl c :: ·)

/-- A comparison with its own argument. -/
def SqlAtom.bound (a : SqlAtom) : List (Char ⊕ String) :=
  a.text.toList.map fun c => if c = '?' then .inr a.arg else .inl c

/-- Text without placeholders. -/
def plainBound (s : String) : List (Char ⊕ String) := s.toList.map .inl

/-- `join` of texts that are bound. -/
@[grind] def joinBound (sep : String) : List (List (Char ⊕ String)) → List (Char ⊕ String)
  | [] => []
  | [s] => s
  | s :: t :: rest => s ++ plainBound sep ++ joinBound sep (t :: rest)

mutual
/-- A condition in which every comparison has its own argument. -/
@[grind] def sqlBound : SqlExpr → List (Char ⊕ String)
  | .leaf a => a.bound
  | .and cs => plainBound "(" ++ joinBound " AND " (sqlBounds cs) ++ plainBound ")"
  | .or cs => plainBound "(" ++ joinBound " OR " (sqlBounds cs) ++ plainBound ")"
  | .not c => plainBound "(NOT (" ++ sqlBound c ++ plainBound "))"

@[grind] def sqlBounds : List SqlExpr → List (List (Char ⊕ String))
  | [] => []
  | c :: cs => sqlBound c :: sqlBounds cs
end

/-- The condition of a filter with the arguments of its predicates. -/
def boundText (kind : SourceKind) (filter : Option FilterExpr) : List (Char ⊕ String) :=
  match filter with
  | none => []
  | some e =>
      if ¬ exprApplicable kind e then []
      else match nodeSql kind e with
        | none => []
        | some s => sqlBound s

/-- The arguments of one predicate. -/
def predArgs (kind : SourceKind) (p : PredExpr) : List String :=
  match compilePred p kind with
  | .ok (_, args) => args
  | .error _ => []

/-- The columns and keywords that the compiler writes. -/
def sqlWords : List String :=
  ["(", ")", " AND ", " OR ", "(NOT (", "))", "CAST(", " AS TEXT)", " AS INTEGER)", " = ?", " != ?",
    " > ?", " >= ?", " < ?", " <= ?", " LIKE ?", " LIKE ? ESCAPE '\\'", " REGEXP ?", "user_email",
    "action", "resource_type", "resource_id", "domain", "status", "message", "job_type", "name",
    "output", "error", "site", "status_code", "raw_preview"]

/-- Text that is put together from these words. -/
def FixedText (s : String) : Prop :=
  ∃ words : List String, (∀ w ∈ words, w ∈ sqlWords) ∧ s.toList = words.flatMap String.toList

/-- What a compiled search is to the database. -/
structure ClosedSql (kind : SourceKind) (filter : Option FilterExpr) (f : SQLFilter) : Prop where
  placeholders : f.whereText.toList.count '?' = f.args.length
  bound : bindPlaceholders f.whereText.toList f.args = some (boundText kind filter)
  args : f.applicable = true →
    f.args = (filter.elim [] BoolTree.leaves).flatMap (predArgs kind)
  fixed : FixedText f.whereText
  nonempty : filter ≠ none → f.applicable = true → f.whereText ≠ ""

/-! ## Binding the placeholders -/

theorem count_of_bindPlaceholders {s : List Char} {args : List String} {t : List (Char ⊕ String)}
    (h : bindPlaceholders s args = some t) : s.count '?' = args.length := by
  induction s generalizing args t with
  | nil =>
      rw [bindPlaceholders] at h
      split_ifs at h with hargs
      simp [hargs]
  | cons c cs ih =>
      rw [bindPlaceholders] at h
      by_cases hc : c = '?'
      · rw [if_pos hc] at h
        cases args with
        | nil => simp at h
        | cons arg args =>
            obtain ⟨t', ht', -⟩ := Option.map_eq_some_iff.mp h
            simp [hc, ih ht']
      · rw [if_neg hc] at h
        obtain ⟨t', ht', -⟩ := Option.map_eq_some_iff.mp h
        rw [List.count_cons_of_ne hc, ih ht']

theorem bindPlaceholders_append {s s' : List Char} {args args' : List String}
    {t t' : List (Char ⊕ String)} (h : bindPlaceholders s args = some t)
    (h' : bindPlaceholders s' args' = some t') :
    bindPlaceholders (s ++ s') (args ++ args') = some (t ++ t') := by
  induction s generalizing args t with
  | nil =>
      rw [bindPlaceholders] at h
      split_ifs at h with hargs
      rw [← Option.some.inj h, hargs]
      exact h'
  | cons c cs ih =>
      rw [bindPlaceholders] at h
      rw [List.cons_append, bindPlaceholders]
      by_cases hc : c = '?'
      · rw [if_pos hc] at h ⊢
        cases args with
        | nil => simp at h
        | cons arg args =>
            obtain ⟨u, hu, rfl⟩ := Option.map_eq_some_iff.mp h
            rw [List.tail_cons] at hu
            simp [ih hu]
      · rw [if_neg hc] at h ⊢
        obtain ⟨u, hu, rfl⟩ := Option.map_eq_some_iff.mp h
        simp [ih hu]

theorem bindPlaceholders_plain {s : String} (h : '?' ∉ s.toList) :
    bindPlaceholders s.toList [] = some (plainBound s) := by
  rw [plainBound]
  generalize s.toList = cs at h
  induction cs with
  | nil => rfl
  | cons c cs ih =>
      simp only [List.mem_cons, not_or] at h
      rw [bindPlaceholders, if_neg (Ne.symm h.1), ih h.2]
      rfl

theorem column_text_plain (col : Column) : '?' ∉ col.text.toList := by
  cases col <;> decide

theorem operand_text_plain (lhs : Operand) : '?' ∉ lhs.text.toList := by
  cases lhs with
  | column col => exact column_text_plain col
  | castText col => simp [Operand.text, column_text_plain]
  | castInteger col => simp [Operand.text, column_text_plain]

/-- Every operator has one placeholder. -/
theorem op_bound (op : SqlOp) (arg : String) :
    bindPlaceholders op.text.toList [arg] =
      some (op.text.toList.map fun c => if c = '?' then .inr arg else .inl c) := by
  cases op <;> rfl

theorem atom_bound (a : SqlAtom) : bindPlaceholders a.text.toList [a.arg] = some a.bound := by
  have hlhs := bindPlaceholders_plain (operand_text_plain a.lhs)
  have happ := bindPlaceholders_append hlhs (op_bound a.op a.arg)
  rw [SqlAtom.bound, SqlAtom.text, String.toList_append, List.map_append]
  have hplain : (a.lhs.text.toList.map fun c => if c = '?' then Sum.inr a.arg else Sum.inl c) =
      plainBound a.lhs.text := by
    rw [plainBound]
    apply List.map_congr_left
    intro c hc
    rw [if_neg]
    rintro rfl
    exact operand_text_plain a.lhs hc
  rw [hplain]
  simpa using happ

theorem join_bound {sep : String} (hsep : '?' ∉ sep.toList) (cs : List SqlExpr)
    (h : ∀ c ∈ cs, bindPlaceholders (sqlText c).toList (sqlArgs c) = some (sqlBound c)) :
    bindPlaceholders (join sep (cs.map sqlText)).toList (cs.flatMap sqlArgs) =
      some (joinBound sep (cs.map sqlBound)) := by
  induction cs with
  | nil => rfl
  | cons c cs ih =>
      have hc := h c List.mem_cons_self
      have hcs := ih fun d hd => h d (List.mem_cons_of_mem c hd)
      cases cs with
      | nil => simpa [join, joinBound] using hc
      | cons d ds =>
          have happ := bindPlaceholders_append (bindPlaceholders_append hc
            (bindPlaceholders_plain hsep)) hcs
          simpa [join, joinBound] using happ

@[simp] theorem sqlBounds_eq (cs : List SqlExpr) : sqlBounds cs = cs.map sqlBound := by
  induction cs with
  | nil => simp [sqlBounds]
  | cons c cs ih => simp [sqlBounds, ih]

theorem sqlArgs_children (cs : List SqlExpr) :
    sqlArgs (.and cs) = cs.flatMap sqlArgs ∧ sqlArgs (.or cs) = cs.flatMap sqlArgs := by
  rw [sqlArgs, sqlArgs, BoolTree.leaves, BoolTree.leaves, leavesAll_eq, List.map_flatMap]
  exact ⟨rfl, rfl⟩

/-- Binding gives every comparison its own argument. -/
theorem sqlText_bound (s : SqlExpr) :
    bindPlaceholders (sqlText s).toList (sqlArgs s) = some (sqlBound s) := by
  induction s using BoolTree.induction with
  | leaf a => simpa [sqlText, sqlArgs, BoolTree.leaves, sqlBound] using atom_bound a
  | and cs ih =>
      have happ := bindPlaceholders_append (bindPlaceholders_append
        (bindPlaceholders_plain (s := "(") (by decide)) (@join_bound " AND " (by decide) cs ih))
        (bindPlaceholders_plain (s := ")") (by decide))
      rw [(sqlArgs_children cs).1]
      simpa [sqlText, sqlBound] using happ
  | or cs ih =>
      have happ := bindPlaceholders_append (bindPlaceholders_append
        (bindPlaceholders_plain (s := "(") (by decide)) (@join_bound " OR " (by decide) cs ih))
        (bindPlaceholders_plain (s := ")") (by decide))
      rw [(sqlArgs_children cs).2]
      simpa [sqlText, sqlBound] using happ
  | not c ih =>
      have happ := bindPlaceholders_append (bindPlaceholders_append
        (bindPlaceholders_plain (s := "(NOT (") (by decide)) ih)
        (bindPlaceholders_plain (s := "))") (by decide))
      simpa [sqlText, sqlBound, sqlArgs, BoolTree.leaves] using happ

/-! ## Words of the compiler -/

theorem fixedText_empty : FixedText "" := ⟨[], by simp, by simp⟩

theorem fixedText_word {w : String} (h : w ∈ sqlWords) : FixedText w :=
  ⟨[w], by simpa using h, by simp⟩

theorem FixedText.append {s t : String} (hs : FixedText s) (ht : FixedText t) :
    FixedText (s ++ t) := by
  obtain ⟨ws, hws, hs⟩ := hs
  obtain ⟨wt, hwt, ht⟩ := ht
  refine ⟨ws ++ wt, ?_, by simp [hs, ht]⟩
  intro w hw
  rcases List.mem_append.mp hw with hw | hw
  · exact hws w hw
  · exact hwt w hw

theorem fixedText_join {sep : String} (hsep : FixedText sep) {ss : List String}
    (hss : ∀ s ∈ ss, FixedText s) : FixedText (join sep ss) := by
  induction ss with
  | nil => exact fixedText_empty
  | cons s ss ih =>
      have hs := hss s List.mem_cons_self
      have hrest := ih fun t ht => hss t (List.mem_cons_of_mem s ht)
      cases ss with
      | nil => exact hs
      | cons t ss => exact (hs.append hsep).append hrest

theorem atom_fixed (a : SqlAtom) : FixedText a.text := by
  have hcol : ∀ col : Column, FixedText col.text := fun col =>
    fixedText_word (by cases col <;> decide)
  have hop : FixedText a.op.text := fixedText_word (by cases a.op <;> decide)
  refine FixedText.append ?_ hop
  cases a.lhs with
  | column col => exact hcol col
  | castText col =>
      exact ((fixedText_word (by decide)).append (hcol col)).append (fixedText_word (by decide))
  | castInteger col =>
      exact ((fixedText_word (by decide)).append (hcol col)).append (fixedText_word (by decide))

/-- The text of a condition has words of the compiler only. -/
theorem sqlText_fixed (s : SqlExpr) : FixedText (sqlText s) := by
  induction s using BoolTree.induction with
  | leaf a =>
      rw [sqlText]
      exact atom_fixed a
  | and cs ih =>
      rw [sqlText, sqlTexts_eq]
      refine ((fixedText_word (by decide)).append (fixedText_join (fixedText_word (by decide)) ?_)).append
        (fixedText_word (by decide))
      intro t ht
      obtain ⟨c, hc, rfl⟩ := List.mem_map.mp ht
      exact ih c hc
  | or cs ih =>
      rw [sqlText, sqlTexts_eq]
      refine ((fixedText_word (by decide)).append (fixedText_join (fixedText_word (by decide)) ?_)).append
        (fixedText_word (by decide))
      intro t ht
      obtain ⟨c, hc, rfl⟩ := List.mem_map.mp ht
      exact ih c hc
  | not c ih =>
      rw [sqlText]
      exact ((fixedText_word (by decide)).append ih).append (fixedText_word (by decide))

/-! ## Accepted searches -/

theorem sqlArgs_graft {f : PredExpr → SqlExpr} (e : FilterExpr) :
    sqlArgs (e.graft f) = e.leaves.flatMap fun p => sqlArgs (f p) := by
  induction e using BoolTree.induction with
  | leaf p => simp [BoolTree.graft, BoolTree.leaves]
  | and cs ih =>
      rw [BoolTree.graft, graftAll_eq, (sqlArgs_children _).1, List.flatMap_map, BoolTree.leaves,
        leavesAll_eq, List.flatMap_assoc]
      exact List.flatMap_congr ih
  | or cs ih =>
      rw [BoolTree.graft, graftAll_eq, (sqlArgs_children _).2, List.flatMap_map, BoolTree.leaves,
        leavesAll_eq, List.flatMap_assoc]
      exact List.flatMap_congr ih
  | not c ih => simpa [BoolTree.graft, BoolTree.leaves, sqlArgs] using ih

/-- The leaves of a pruned tree, in their order. -/
theorem leaves_prune_eq {α : Type*} {keep : α → Bool} (e : BoolTree α) :
    (e.prune keep).elim [] BoolTree.leaves = e.leaves.filter keep := by
  have hchildren : ∀ cs : List (BoolTree α),
      (∀ c ∈ cs, (c.prune keep).elim [] BoolTree.leaves = c.leaves.filter keep) →
      (cs.filterMap (BoolTree.prune keep)).flatMap BoolTree.leaves =
        cs.flatMap fun c => c.leaves.filter keep := by
    intro cs h
    induction cs with
    | nil => rfl
    | cons c cs ih =>
        have hc := h c List.mem_cons_self
        have hcs := ih fun d hd => h d (List.mem_cons_of_mem c hd)
        cases hprune : c.prune keep with
        | none =>
            rw [hprune, Option.elim_none] at hc
            simp [hprune, ← hc, hcs]
        | some k =>
            rw [hprune, Option.elim_some] at hc
            simp [hprune, hc, hcs]
  induction e using BoolTree.induction with
  | leaf a => cases h : keep a <;> simp [BoolTree.prune, BoolTree.leaves, h]
  | and cs ih =>
      rw [filter_leaves_and, ← hchildren cs ih, BoolTree.prune, pruneAll_eq]
      cases cs.filterMap (BoolTree.prune keep) <;> simp [BoolTree.leaves]
  | or cs ih =>
      rw [filter_leaves_or, ← hchildren cs ih, BoolTree.prune, pruneAll_eq]
      cases cs.filterMap (BoolTree.prune keep) <;> simp [BoolTree.leaves]
  | not c ih =>
      rw [BoolTree.leaves, ← ih, BoolTree.prune]
      cases c.prune keep <;> simp [BoolTree.leaves]

theorem predArgs_of_applicable {kind : SourceKind} {p : PredExpr} (herr : freeTextError p = false)
    (happ : predApplicable kind p = true) : predArgs kind p = sqlArgs (predSql kind p) := by
  rw [predArgs, compilePred_eq]
  simp [herr, happ, render]

theorem predArgs_of_not_applicable {kind : SourceKind} {p : PredExpr}
    (herr : freeTextError p = false) (happ : predApplicable kind p = false) :
    predArgs kind p = [] := by
  rw [predArgs, compilePred_eq]
  simp [herr, happ, render]

/-- The arguments of a condition are those of the predicates of its filter. -/
theorem sqlArgs_eq_predArgs {kind : SourceKind} {e k : FilterExpr}
    (herr : ∀ p ∈ e.leaves, freeTextError p = false) (hk : e.prune (predApplicable kind) = some k) :
    sqlArgs (k.graft (predSql kind)) = e.leaves.flatMap (predArgs kind) := by
  have hleaves : (e.prune (predApplicable kind)).elim [] BoolTree.leaves =
      e.leaves.filter (predApplicable kind) := leaves_prune_eq e
  rw [hk, Option.elim_some] at hleaves
  rw [sqlArgs_graft, hleaves]
  clear hleaves hk
  generalize e.leaves = ps at herr
  induction ps with
  | nil => rfl
  | cons p ps ih =>
      have hp := herr p List.mem_cons_self
      have hps := ih fun q hq => herr q (List.mem_cons_of_mem p hq)
      cases happ : predApplicable kind p with
      | true => simp [happ, hps, predArgs_of_applicable hp happ]
      | false => simp [happ, hps, predArgs_of_not_applicable hp happ]

theorem closedSql_empty {kind : SourceKind} {filter : Option FilterExpr} {applicable : Bool}
    (hfilter : boundText kind filter = []) (hnone : filter = none ∨ applicable = false) :
    ClosedSql kind filter ⟨[], [], applicable⟩ where
  placeholders := rfl
  bound := by rw [hfilter]; rfl
  args happ := by
    rcases hnone with rfl | hfalse
    · rfl
    · exact absurd happ (by simp [hfalse])
  fixed := fixedText_empty
  nonempty hne happ := by
    rcases hnone with rfl | hfalse
    · exact absurd rfl hne
    · exact absurd happ (by simp [hfalse])

/-- An accepted search compiles for every source, to text that the user has no
part in. -/
theorem compiled_search_closed (lib : SearchLib) (q : List UInt8) (filter : Option FilterExpr)
    (pipes : List PipeCmd) (kind : SourceKind) (h : parseSearch lib q = .ok (filter, pipes)) :
    ∃ f, compileFilter filter kind = .ok f ∧ ClosedSql kind filter f := by
  have hparsed := parsed_of_parseSearch h
  cases filter with
  | none => exact ⟨⟨[], [], true⟩, rfl, closedSql_empty rfl (Or.inl rfl)⟩
  | some e =>
      have herr := (hparsed e rfl).no_freeTextError
      by_cases happ : exprApplicable kind e = true
      · obtain ⟨k, hk, hcompile⟩ := compileTree_of_applicable happ herr
        refine ⟨(⟨some k, true⟩ : CompiledFilter).render kind, by rw [compileFilter_eq, hcompile]; rfl,
          ?_⟩
        have htext : ((⟨some k, true⟩ : CompiledFilter).render kind).whereText =
            sqlText (k.graft (predSql kind)) := rfl
        have hbound := sqlText_bound (k.graft (predSql kind))
        refine ⟨?_, ?_, ?_, ?_, ?_⟩
        · rw [htext]
          exact count_of_bindPlaceholders hbound
        · rw [htext, boundText, nodeSql, hk, Option.map_some, if_neg (by simp [happ])]
          exact hbound
        · intro _
          refine sqlArgs_eq_predArgs (fun p hp => ?_) hk
          exact freeTextError_of_parsable ((hparsed e rfl).parsable p hp)
        · rw [htext]
          exact sqlText_fixed _
        · intro _ _
          rw [htext]
          exact sqlText_ne_empty _
      · refine ⟨⟨[], [], false⟩, by rw [compileFilter, if_pos happ], closedSql_empty ?_ (Or.inr rfl)⟩
        rw [boundText, if_pos happ]

/-- The tables on ASCII text. -/
def asciiLib : SearchLib where
  toLower := Char.toLower
  isLetter := Char.isAlpha
  isDigit := Char.isDigit
  compiles pattern := '[' ∉ pattern.toList
  toLower_ascii := asciiText.toLower_ascii
  isLetter_ascii _ _ := rfl
  isDigit_ascii _ _ := rfl

/-- `status>=3 a`, as bytes. -/
def exampleSearch : List UInt8 := [115, 116, 97, 116, 117, 115, 62, 61, 51, 32, 97]

theorem compiled_search_closed_example :
    parseSearch asciiLib exampleSearch =
        .ok (some (.and [.leaf ⟨"status", .gte, "3"⟩, .leaf ⟨"", .contains, "a"⟩]), []) ∧
      ∃ f, compileFilter (some (.and [.leaf ⟨"status", .gte, "3"⟩, .leaf ⟨"", .contains, "a"⟩]))
        .logAccess = .ok f ∧
        ClosedSql .logAccess
          (some (.and [.leaf ⟨"status", .gte, "3"⟩, .leaf ⟨"", .contains, "a"⟩])) f :=
  ⟨by rfl, compiled_search_closed asciiLib exampleSearch _ [] .logAccess (by rfl)⟩

end GoSite.Observability
