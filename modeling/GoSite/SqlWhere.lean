import GoSite.SearchFilter

/-!
# The conditions behind the compiled text

The compiler writes text. The same conditions as trees over comparisons of one
column with one argument are what SQLite parses that text to, and they have a
meaning. The text and the argument list of a filter are the rendering of its
tree.
-/
namespace GoSite.Observability
open BooleanTrees GoStrings

/-- The left side of a comparison. -/
inductive Operand where
  | column (col : Column)
  | castText (col : Column)
  | castInteger (col : Column)
  deriving Repr, DecidableEq

inductive SqlOp where
  | eq
  | ne
  | gt
  | gte
  | lt
  | lte
  | like
  | likeEscape
  | regexp
  deriving Repr, DecidableEq

/-- A comparison of a column with the argument of a placeholder. -/
structure SqlAtom where
  lhs : Operand
  op : SqlOp
  arg : String
  deriving Repr, DecidableEq

abbrev SqlExpr := BoolTree SqlAtom

def Operand.text : Operand → String
  | .column col => col.text
  | .castText col => "CAST(" ++ col.text ++ " AS TEXT)"
  | .castInteger col => "CAST(" ++ col.text ++ " AS INTEGER)"

def SqlOp.text : SqlOp → String
  | .eq => " = ?"
  | .ne => " != ?"
  | .gt => " > ?"
  | .gte => " >= ?"
  | .lt => " < ?"
  | .lte => " <= ?"
  | .like => " LIKE ?"
  | .likeEscape => " LIKE ? ESCAPE '\\'"
  | .regexp => " REGEXP ?"

def SqlAtom.text (a : SqlAtom) : String := a.lhs.text ++ a.op.text

mutual
@[grind] def sqlText : SqlExpr → String
  | .leaf a => a.text
  | .and cs => "(" ++ join " AND " (sqlTexts cs) ++ ")"
  | .or cs => "(" ++ join " OR " (sqlTexts cs) ++ ")"
  | .not c => "(NOT (" ++ sqlText c ++ "))"

@[grind] def sqlTexts : List SqlExpr → List String
  | [] => []
  | c :: cs => sqlText c :: sqlTexts cs
end

def sqlArgs (s : SqlExpr) : List String := s.leaves.map SqlAtom.arg

/-- No condition renders as the empty text. -/
def render : Option SqlExpr → Fragment
  | none => ("", [])
  | some s => (sqlText s, sqlArgs s)

def textOperand (col : Column) : Operand :=
  if col = .statusCode then .castText col else .column col

def likeAtom (col : Column) (pattern : String) : SqlAtom :=
  if hasStar pattern then ⟨textOperand col, .likeEscape, escapeLike pattern⟩
  else ⟨textOperand col, .eq, pattern⟩

def containsAtom (op : Op) (value : String) (col : Column) : SqlAtom :=
  if op = .like ∨ hasStar value then likeAtom col value
  else ⟨.column col, .like, "%" ++ value ++ "%"⟩

def comparisonOp : Op → SqlOp
  | .gt => .gt
  | .gte => .gte
  | .lt => .lt
  | _ => .lte

/-- The condition of a predicate on a column. -/
def columnAtom (col : Column) (op : Op) (value : String) : SqlAtom :=
  match op with
  | .regexp => ⟨textOperand col, .regexp, value⟩
  | .like => likeAtom col value
  | .eq =>
      if hasStar value then likeAtom col value
      else if col = .rawPreview then ⟨.column col, .like, "%" ++ value ++ "%"⟩
      else ⟨.column col, .eq, value⟩
  | .ne => ⟨.column col, .ne, value⟩
  | .gt | .gte | .lt | .lte => ⟨.castInteger col, comparisonOp op, value⟩
  | .contains => containsAtom .contains value col

/-- The condition of a predicate that is applicable. -/
def predSql (kind : SourceKind) (p : PredExpr) : SqlExpr :=
  if p.field = "" then
    match p.op with
    | .regexp => .or ((freeTextColumns kind).map fun col => .leaf ⟨textOperand col, .regexp, p.value⟩)
    | _ => .or ((freeTextColumns kind).map fun col => .leaf (containsAtom p.op p.value col))
  else
    match fieldColumn kind p.field with
    | none => .or []
    | some col =>
        match p.op with
        | .contains => .or [.leaf (containsAtom .contains p.value col)]
        | op => .leaf (columnAtom col op p.value)

/-- The operators that free text does not have. -/
def freeTextError (p : PredExpr) : Bool :=
  p.field = "" ∧ ¬ (p.op = .regexp ∨ p.op = .contains ∨ p.op = .like ∨ p.op = .eq)

/-- The condition of a filter, after the leaves that are not applicable have
been dropped. -/
def nodeSql (kind : SourceKind) (e : FilterExpr) : Option SqlExpr :=
  (e.prune (predApplicable kind)).map (BoolTree.graft (predSql kind))

@[simp] theorem sqlTexts_eq (cs : List SqlExpr) : sqlTexts cs = cs.map sqlText := by
  induction cs with
  | nil => simp [sqlTexts]
  | cons c cs ih => simp [sqlTexts, ih]

theorem SqlAtom.text_ne_empty (a : SqlAtom) : a.text ≠ "" := by
  have hop : a.op.text ≠ "" := by cases a.op <;> decide
  intro h
  exact hop (String.append_eq_empty_iff.mp h).2

theorem sqlText_ne_empty (s : SqlExpr) : sqlText s ≠ "" := by
  cases s with
  | leaf a => exact a.text_ne_empty
  | and cs => simp [sqlText]
  | or cs => simp [sqlText]
  | not c => simp [sqlText]

theorem likeSQL_eq (col : Column) (pattern : String) :
    likeSQL col pattern = ((likeAtom col pattern).text, (likeAtom col pattern).arg) := by
  unfold likeSQL likeAtom textOperand
  by_cases hs : hasStar pattern = true <;> cases col <;> simp [hs] <;> rfl

theorem containsSQL_eq (op : Op) (value : String) (col : Column) :
    containsSQL op value col =
      ((containsAtom op value col).text, (containsAtom op value col).arg) := by
  unfold containsSQL containsAtom
  split_ifs with h
  · exact likeSQL_eq col value
  · rfl

theorem regexpSQL_eq (col : Column) : regexpSQL col = (textOperand col).text := by
  cases col <;> rfl

theorem render_or_leaves (cols : List Column) (f : Column → SqlAtom) :
    render (some (.or (cols.map fun col => .leaf (f col)))) =
      ("(" ++ join " OR " (cols.map fun col => (f col).text) ++ ")",
        cols.map fun col => (f col).arg) := by
  have htext : (cols.map fun col => BoolTree.leaf (f col)).map sqlText =
      cols.map fun col => (f col).text := by
    simp [Function.comp_def, sqlText]
  have hleaves : (cols.map fun col => BoolTree.leaf (f col)).flatMap BoolTree.leaves = cols.map f := by
    rw [List.flatMap_map, List.map_eq_flatMap]
    simp [BoolTree.leaves]
  simp only [render, sqlText, sqlTexts_eq, htext, sqlArgs, BoolTree.leaves, leavesAll_eq, hleaves,
    List.map_map]
  rfl

theorem freeTextContains_eq (cols : List Column) (value : String) (op : Op) :
    freeTextContains cols value op =
      render (some (.or (cols.map fun col => .leaf (containsAtom op value col)))) := by
  rw [render_or_leaves]
  simp [freeTextContains, containsSQL_eq, Function.comp_def]

theorem freeTextRegexp_eq (cols : List Column) (pattern : String) :
    freeTextRegexp cols pattern = render
      (some (.or (cols.map fun col => .leaf ⟨textOperand col, .regexp, pattern⟩))) := by
  rw [render_or_leaves]
  simp [freeTextRegexp, regexpSQL_eq, SqlAtom.text, SqlOp.text]

theorem render_leaf (a : SqlAtom) : render (some (.leaf a)) = (a.text, [a.arg]) := by
  simp [render, sqlText, sqlArgs, BoolTree.leaves]

theorem comparisonSQL_eq (op : Op) (value : String) (h : isComparison op = true) :
    "CAST(" ++ Column.statusCode.text ++ " AS INTEGER) " ++ comparisonSQL op ++ " ?" =
      SqlAtom.text ⟨.castInteger .statusCode, comparisonOp op, value⟩ := by
  cases op <;> first | rfl | cases h

/-- A predicate is compiled to its condition, or to nothing. -/
theorem compilePred_eq (p : PredExpr) (kind : SourceKind) :
    compilePred p kind =
      if freeTextError p then .error "unsupported free-text operator"
      else .ok (render (if predApplicable kind p then some (predSql kind p) else none)) := by
  obtain ⟨field, op, value⟩ := p
  by_cases hf : field = ""
  · cases op <;>
      simp [compilePred, predSql, predApplicable, freeTextError, hf, freeTextContains_eq,
        freeTextRegexp_eq]
  · simp only [compilePred, predSql, predApplicable, freeTextError, hf, if_false, false_and,
      decide_false, Bool.false_eq_true]
    cases hcol : fieldColumn kind field with
    | none => rfl
    | some col =>
        cases op with
        | regexp => simp [isComparison, columnAtom, render_leaf, regexpSQL_eq, SqlAtom.text, SqlOp.text]
        | like => simp [isComparison, columnAtom, render_leaf, likeSQL_eq]
        | contains => simp [isComparison, freeTextContains_eq]
        | ne => simp [isComparison, columnAtom, render_leaf, SqlAtom.text, Operand.text, SqlOp.text]
        | eq =>
            by_cases hs : hasStar value = true
            · simp [isComparison, columnAtom, render_leaf, likeSQL_eq, hs]
            · cases col <;>
                simp [isComparison, columnAtom, render_leaf, hs, SqlAtom.text, Operand.text,
                  SqlOp.text]
        | gt | gte | lt | lte =>
            by_cases hstatus : col = .statusCode
            · subst hstatus
              simp [isComparison, columnAtom, render_leaf, comparisonSQL_eq .gt value rfl,
                comparisonSQL_eq .gte value rfl, comparisonSQL_eq .lt value rfl,
                comparisonSQL_eq .lte value rfl]
            · simp [isComparison, hstatus, render]

/-- A filter is compiled to the rendering of its condition. The only error is
an operator that free text does not have. -/
theorem compileNode_eq (kind : SourceKind) (e : FilterExpr) :
    compileNode kind e =
      if e.leaves.any freeTextError then .error "unsupported free-text operator"
      else .ok (render (nodeSql kind e)) := by
  have hchildren : ∀ cs : List FilterExpr,
      (∀ c ∈ cs, compileNode kind c =
        if c.leaves.any freeTextError then .error "unsupported free-text operator"
        else .ok (render (nodeSql kind c))) →
      compileChildren kind cs =
        if (cs.flatMap BoolTree.leaves).any freeTextError then
          .error "unsupported free-text operator"
        else .ok ((cs.filterMap (nodeSql kind)).map sqlText,
          (cs.filterMap (nodeSql kind)).flatMap sqlArgs) := by
    intro cs h
    induction cs with
    | nil => simp [compileChildren]
    | cons c cs ih =>
        have hcs := ih fun d hd => h d (List.mem_cons_of_mem c hd)
        rw [compileChildren, h c List.mem_cons_self, hcs]
        by_cases herr : c.leaves.any freeTextError = true
        · simp [herr]
        · by_cases hrest : (cs.flatMap BoolTree.leaves).any freeTextError = true
          · simp [herr, hrest]
          · cases hsql : nodeSql kind c with
            | none => simp [herr, hrest, hsql, render]
            | some s => simp [herr, hrest, hsql, render, sqlText_ne_empty]
  induction e using BoolTree.induction with
  | leaf p =>
      rw [compileNode, compilePred_eq]
      by_cases happ : predApplicable kind p = true <;>
        simp [BoolTree.leaves, nodeSql, BoolTree.prune, happ, BoolTree.graft]
  | and cs ih =>
      rw [compileNode, hchildren cs ih, BoolTree.leaves, leavesAll_eq]
      by_cases herr : (cs.flatMap BoolTree.leaves).any freeTextError = true
      · simp [herr]
      · have hkids : (cs.filterMap (nodeSql kind)) =
            (cs.filterMap (BoolTree.prune (predApplicable kind))).map (BoolTree.graft (predSql kind)) := by
          rw [List.map_filterMap]
          rfl
        simp only [herr, nodeSql, BoolTree.prune, pruneAll_eq, hkids]
        cases cs.filterMap (BoolTree.prune (predApplicable kind)) with
        | nil => simp [render]
        | cons k ks =>
            simp [render, BoolTree.graft, graftAll_eq, sqlText, sqlArgs, BoolTree.leaves,
              List.map_flatMap, List.flatMap_map]
  | or cs ih =>
      rw [compileNode, hchildren cs ih, BoolTree.leaves, leavesAll_eq]
      by_cases herr : (cs.flatMap BoolTree.leaves).any freeTextError = true
      · simp [herr]
      · have hkids : (cs.filterMap (nodeSql kind)) =
            (cs.filterMap (BoolTree.prune (predApplicable kind))).map (BoolTree.graft (predSql kind)) := by
          rw [List.map_filterMap]
          rfl
        simp only [herr, nodeSql, BoolTree.prune, pruneAll_eq, hkids]
        cases cs.filterMap (BoolTree.prune (predApplicable kind)) with
        | nil => simp [render]
        | cons k ks =>
            simp [render, BoolTree.graft, graftAll_eq, sqlText, sqlArgs, BoolTree.leaves,
              List.map_flatMap, List.flatMap_map]
  | not c ih =>
      rw [compileNode, ih, BoolTree.leaves]
      by_cases herr : c.leaves.any freeTextError = true
      · simp [herr]
      · simp only [herr, nodeSql, BoolTree.prune, Option.map_map]
        cases c.prune (predApplicable kind) with
        | none => simp [render]
        | some k => simp [render, sqlText_ne_empty, sqlText, BoolTree.graft, sqlArgs, BoolTree.leaves]

end GoSite.Observability
