import GoSite.LeafColumns

/-!
# Conditions under which a leaf means the same

For every predicate of the search language that a source has, the condition is
stated under which the compiled fragment selects exactly the rows whose events
the evaluator accepts. On text columns it is proved here, one operator at a time.
-/
namespace GoSite.Observability
open BooleanTrees GoStrings TextFolding

/-- The predicates the parser makes: free text is contained or a regular
expression, and equality with a star in its value is made a wildcard. -/
def Parsable (p : PredExpr) : Prop :=
  if p.field = "" then p.op = .contains ∨ p.op = .regexp
  else p.op ≠ .contains ∧ (p.op = .eq → hasStar p.value = false) ∧
    (p.op = .like → hasStar p.value = true)

section
variable (g : GoText) (db : Sqlite)

/-- The fragment of the predicate is true on the row exactly when the evaluator
accepts the event of the row. -/
def LeafAgrees (p : PredExpr) (row : StoredRow) : Prop :=
  (predSql row.kind p).eval3 (row.truth g db) = some true ↔ evalPred g p row.event row.kind = true

/-- The two comparisons of an operator, on the text of a column and on the text
of the event. -/
def TextAgrees (col : Column) (op : Op) (v s s' : String) : Prop :=
  compareText g (columnAtom col op v).op s (columnAtom col op v).arg = true ↔
    evalOp g op s' v = true

/-- Agreement on a column whose text reaches the event. -/
def textExact (op : Op) (v : String) : Prop :=
  match op with
  | .ne => Caseless g v
  | .regexp => v = "" ∨ g.isMatch v "" = false
  | _ => False

/-- Agreement on a column with the text of one line. -/
def lineExact (op : Op) (v : String) : Prop :=
  match op with
  | .eq => '\n' ∈ v.toList ∨ (NoLikeChar v ∧ LowersAscii g v ∧ FoldsAscii g v)
  | .like => '\n' ∈ v.toList ∨ ('\\' ∉ v.toList ∧ LowersAscii g v)
  | .ne => '\n' ∈ v.toList ∨ Caseless g v
  | .regexp => v = "" ∨ g.isMatch v "" = false
  | _ => False

/-- Agreement on a column with a status. -/
def statusExact (allowed : List String) (op : Op) (v : String) : Prop :=
  match op with
  | .eq => ∀ s ∈ allowed,
      (g.equalFold s v || containsText (g.lower s) (g.lower v)) = true → s = v
  | .ne => ∀ s ∈ allowed, g.equalFold s v = true → s = v
  | .like => ∀ s ∈ allowed,
      (sqlLike (some '\\') s (escapeLike v) = true ↔ matchWildcard g s v = true)
  | _ => True

/-- Agreement on a column of a job that the event has its message for. -/
def messageExact (op : Op) (v : String) : Prop :=
  match op with
  | .regexp => v = "" ∨ ∀ s, g.isMatch v s = false
  | _ => False

/-- Agreement on the status code, a number in SQL and its digits in memory. -/
def codeExact (op : Op) (v : String) : Prop :=
  match op with
  | .regexp => v ≠ ""
  | .eq => ∀ n : ℤ, IsStatusCode n → (db.numeric v = some (n : ℚ) ↔
      v.toList <:+: (toString n).toList)
  | .ne => ∀ n : ℤ, IsStatusCode n → (db.numeric v = some (n : ℚ) ↔ toString n = v)
  | .like => ∀ n : ℤ, IsStatusCode n →
      (sqlLike (some '\\') (toString n) (escapeLike v) = true ↔
        matchWildcard g (toString n) v = true)
  | op => ∀ n : ℤ, IsStatusCode n → (compareInt db (comparisonOp op) n v = true ↔
      ∃ k, atoi (trimSpaceChars v.toList) = (k, none) ∧ compareNumbers op n k = true)

/-- Agreement of free text. -/
def freeExact (kind : SourceKind) (op : Op) (v : String) : Prop :=
  match kind, op with
  | .job, .regexp => v = "" ∨ ∀ s, g.isMatch v s = false
  | _, .regexp => v = "" ∨ g.isMatch v "" = false
  | .job, _ => v = ""
  | _, _ => hasStar v = false ∧ NoLikeChar v ∧ LowersAscii g v

def fieldExact (kind : SourceKind) (col : Column) (op : Op) (v : String) : Prop :=
  match carrier kind col with
  | .text => textExact g op v
  | .line => lineExact g op v
  | .status allowed => statusExact g allowed op v
  | .message => messageExact g op v
  | .code => codeExact g db op v

/-- The condition under which a predicate means the same in SQL and in memory. -/
def leafExact (kind : SourceKind) (p : PredExpr) : Prop :=
  if p.field = "" then freeExact g kind p.op p.value
  else match fieldColumn kind p.field with
    | none => False
    | some col => fieldExact g db kind col p.op p.value

end

variable {g : GoText} {db : Sqlite}

/-! ## Text columns -/

theorem textOperand_value {row : StoredRow} {col : Column} {s : String}
    (h : row.column col = .text s) : (textOperand col).value row = .text s := by
  rw [textOperand]
  split_ifs <;> simp [Operand.value, h, SqlValue.asText]

theorem likeAtom_lhs (col : Column) (v : String) : (likeAtom col v).lhs = textOperand col := by
  rw [likeAtom]
  split_ifs <;> rfl

/-- On a text column every operator compares the text of the column. -/
theorem columnAtom_value {row : StoredRow} {col : Column} {s : String}
    (h : row.column col = .text s) (op : Op) (v : String) :
    (columnAtom col op v).lhs.value row = .text s := by
  cases op with
  | regexp => exact textOperand_value h
  | like => rw [columnAtom, likeAtom_lhs, textOperand_value h]
  | eq =>
      rw [columnAtom]
      split_ifs
      · rw [likeAtom_lhs, textOperand_value h]
      · exact h
      · exact h
  | contains =>
      by_cases hstar : hasStar v = true
      · simp [columnAtom, containsAtom, hstar, likeAtom_lhs, textOperand_value h]
      · simp only [columnAtom, containsAtom, hstar]
        exact h
  | ne | gt | gte | lt | lte => exact h

theorem predSql_of_field {kind : SourceKind} {p : PredExpr} {col : Column} (hf : p.field ≠ "")
    (hop : p.op ≠ .contains) (h : fieldColumn kind p.field = some col) :
    predSql kind p = .leaf (columnAtom col p.op p.value) := by
  simp only [predSql, if_neg hf, h]

theorem evalPred_of_field {p : PredExpr} {row : StoredRow} {col : Column} (hf : p.field ≠ "")
    (h : fieldColumn row.kind p.field = some col) :
    evalPred g p row.event row.kind =
      match row.eventText col with
      | none => false
      | some value => evalOp g p.op value p.value := by
  rw [evalPred, if_neg hf, h, eventFieldValue_eq g h]
  rfl

theorem leafAgrees_text {p : PredExpr} {row : StoredRow} {col : Column} {s s' : String}
    (hf : p.field ≠ "") (hop : p.op ≠ .contains) (h : fieldColumn row.kind p.field = some col)
    (hs : row.column col = .text s) (hs' : row.eventText col = some s') :
    LeafAgrees g db p row ↔ TextAgrees g col p.op p.value s s' := by
  rw [LeafAgrees, predSql_of_field hf hop h, evalPred_of_field hf h, hs', BoolTree.eval3,
    StoredRow.truth, columnAtom_value hs, SqlValue.truth, TextAgrees, Option.some.injEq]

theorem exists_texts {row : StoredRow} {field : String} {col : Column}
    (h : fieldColumn row.kind field = some col) (hcol : carrier row.kind col ≠ .code) :
    ∃ s s', row.column col = .text s ∧ row.eventText col = some s' := by
  have hmem := mem_of_fieldColumn h
  cases row <;> cases col <;>
    simp_all [carrier, fieldsForKind, StoredRow.kind, auditFields, jobFields, logAccessFields,
      logErrorFields, StoredRow.column, StoredRow.eventText]

/-- Over the rows of a kind, a text column takes all its pairs of texts. -/
theorem forall_leafAgrees_iff {kind : SourceKind} {p : PredExpr} {col : Column} (hf : p.field ≠ "")
    (hop : p.op ≠ .contains) (h : fieldColumn kind p.field = some col)
    (hcol : carrier kind col ≠ .code) :
    (∀ row, StoredRow.kind row = kind → LeafAgrees g db p row) ↔
      ∀ s s', ColumnTexts kind col s s' → TextAgrees g col p.op p.value s s' := by
  constructor
  · rintro hall s s' ⟨row, rfl, hs, hs'⟩
    exact (leafAgrees_text hf hop h hs hs').mp (hall row rfl)
  · rintro hall row rfl
    obtain ⟨s, s', hs, hs'⟩ := exists_texts h hcol
    exact (leafAgrees_text hf hop h hs hs').mpr (hall s s' ⟨row, rfl, hs, hs'⟩)

/-! ## One operator at a time -/

theorem textAgrees_ne (col : Column) (v s s' : String) :
    TextAgrees g col .ne v s s' ↔ (decide (s ≠ v) = true ↔ (!g.equalFold s' v) = true) :=
  Iff.rfl

theorem textAgrees_regexp (col : Column) (v s s' : String) :
    TextAgrees g col .regexp v s s' ↔ (regexpSQLFn g v s = true ↔ g.isMatch v s' = true) :=
  Iff.rfl

theorem textAgrees_like {v : String} (hstar : hasStar v = true) (col : Column) (s s' : String) :
    TextAgrees g col .like v s s' ↔
      (sqlLike (some '\\') s (escapeLike v) = true ↔ matchWildcard g s' v = true) := by
  rw [TextAgrees, columnAtom, likeAtom, if_pos hstar]
  rfl

theorem evalOp_eq {v : String} (hstar : hasStar v = false) (s : String) :
    evalOp g .eq s v = (g.equalFold s v || containsText (g.lower s) (g.lower v)) := by
  simp [evalOp, hstar]

theorem textAgrees_eq {v : String} (hstar : hasStar v = false) {col : Column}
    (hcol : col ≠ .rawPreview) (s s' : String) :
    TextAgrees g col .eq v s s' ↔ (decide (s = v) = true ↔
      (g.equalFold s' v || containsText (g.lower s') (g.lower v)) = true) := by
  rw [TextAgrees, evalOp_eq hstar, columnAtom, hstar, if_neg (by simp), if_neg hcol]
  rfl

theorem textAgrees_eq_preview {v : String} (hstar : hasStar v = false) (s s' : String) :
    TextAgrees g .rawPreview .eq v s s' ↔ (sqlLike none s ("%" ++ v ++ "%") = true ↔
      (g.equalFold s' v || containsText (g.lower s') (g.lower v)) = true) := by
  rw [TextAgrees, evalOp_eq hstar, columnAtom, hstar, if_neg (by simp), if_pos rfl]
  rfl

/-- Comparisons are made on the status code only. -/
theorem column_of_comparison {kind : SourceKind} {p : PredExpr} {col : Column} (hf : p.field ≠ "")
    (h : fieldColumn kind p.field = some col) (happ : predApplicable kind p = true)
    (hcmp : isComparison p.op = true) : col = .statusCode := by
  rw [predApplicable, if_neg hf, h] at happ
  by_contra hcol
  simp [hcmp, hcol] at happ

theorem textExact_iff {col : Column} {op : Op} {v : String} (hcol : col ≠ .rawPreview)
    (heq : op = .eq → hasStar v = false) (hlike : op = .like → hasStar v = true)
    (hop : op ≠ .contains) (hcmp : isComparison op = false) :
    (∀ s, TextAgrees g col op v s s) ↔ textExact g op v := by
  cases op with
  | eq =>
      simp only [textExact, iff_false, not_forall]
      refine ⟨v ++ "x", ?_⟩
      rw [textAgrees_eq (heq rfl) hcol]
      exact eq_disagrees g v
  | ne => exact ⟨fun h => of_ne_agrees fun s _ => h s, ne_agrees⟩
  | like =>
      simp only [textExact, iff_false, not_forall]
      obtain ⟨s, hs⟩ := like_text_disagrees (g := g) (hlike rfl)
      refine ⟨s, ?_⟩
      rw [textAgrees_like (hlike rfl)]
      exact hs
  | regexp => exact ⟨fun h => of_regexp_agrees (h ""), regexp_agrees⟩
  | contains => exact absurd rfl hop
  | gt | gte | lt | lte => simp [isComparison] at hcmp

theorem lineExact_iff {op : Op} {v : String}
    (heq : op = .eq → hasStar v = false) (hlike : op = .like → hasStar v = true)
    (hop : op ≠ .contains) (hcmp : isComparison op = false) :
    (∀ s, '\n' ∉ s.toList → TextAgrees g .rawPreview op v s s) ↔ lineExact g op v := by
  cases op with
  | eq =>
      simp only [textAgrees_eq_preview (heq rfl), lineExact]
      by_cases hnew : '\n' ∈ v.toList
      · refine iff_of_true ?_ (Or.inl hnew)
        intro s hs
        obtain ⟨hlike, hfold, hfound⟩ := newline_not_contained (g := g) hnew hs
        simp [hlike, hfold, hfound]
      · simp only [hnew, false_or]
        constructor
        · intro h
          exact of_contains_or_fold_agrees fun s hs => h s (hs hnew)
        · rintro ⟨hplain, hlow, hfold⟩ s _
          exact contains_or_fold_agrees hplain hlow hfold s
  | ne =>
      simp only [textAgrees_ne, lineExact]
      by_cases hnew : '\n' ∈ v.toList
      · refine iff_of_true ?_ (Or.inl hnew)
        intro s hs
        have hne : s ≠ v := by
          rintro rfl
          exact hs hnew
        simp [hne, (newline_not_contained (g := g) hnew hs).2.1]
      · simp only [hnew, false_or]
        constructor
        · intro h
          exact of_ne_agrees fun s hs => h s (hs hnew)
        · intro h s _
          exact ne_agrees h s
  | like =>
      simp only [textAgrees_like (hlike rfl), lineExact]
      exact like_line_agrees_iff (hlike rfl)
  | regexp => exact ⟨fun h => of_regexp_agrees (h "" (by simp)), fun h s _ => regexp_agrees h s⟩
  | contains => exact absurd rfl hop
  | gt | gte | lt | lte => simp [isComparison] at hcmp

theorem statusExact_iff {allowed : List String} {op : Op} {v : String}
    (hne : ∀ s ∈ allowed, s ≠ "")
    (heq : op = .eq → hasStar v = false) (hlike : op = .like → hasStar v = true)
    (hop : op ≠ .contains) (hcmp : isComparison op = false) :
    (∀ s ∈ allowed, TextAgrees g .status op v s s) ↔ statusExact g allowed op v := by
  cases op with
  | eq =>
      simp only [textAgrees_eq (heq rfl) (show Column.status ≠ .rawPreview by decide), statusExact]
      refine forall₂_congr fun s hs => ?_
      constructor
      · intro h hloose
        simpa using h.mpr hloose
      · intro h
        refine ⟨?_, fun hloose => decide_eq_true (h hloose)⟩
        intro hs
        obtain rfl := of_decide_eq_true hs
        rw [containsText_lower_self, Bool.or_true]
  | ne =>
      simp only [textAgrees_ne, statusExact]
      refine forall₂_congr fun s hs => ?_
      have hself : g.equalFold v v = true := by simp [GoText.equalFold]
      constructor
      · intro h hfold
        by_contra hsv
        have := h.mp (decide_eq_true hsv)
        simp [hfold] at this
      · intro h
        by_cases hsv : s = v
        · simp [hsv, hself]
        · simp [hsv, Bool.eq_false_iff.mpr fun hfold => hsv (h hfold)]
  | like =>
      simp only [textAgrees_like (hlike rfl), statusExact]
  | regexp =>
      simp only [textAgrees_regexp, statusExact, iff_true]
      intro s hs
      rw [regexpSQLFn]
      split_ifs with hv
      · simp [hv, g.isMatch_empty]
      · exact absurd ‹s = ""› (hne s hs)
      · exact Iff.rfl
  | contains => exact absurd rfl hop
  | gt | gte | lt | lte => simp [isComparison] at hcmp

theorem messageExact_iff {kind : SourceKind} {field : String} {col : Column} {op : Op} {v : String}
    (h : fieldColumn kind field = some col) (hcol : carrier kind col = .message)
    (heq : op = .eq → hasStar v = false) (hlike : op = .like → hasStar v = true)
    (hop : op ≠ .contains) (hcmp : isComparison op = false) :
    (∀ s s', ColumnTexts kind col s s' → TextAgrees g col op v s s') ↔ messageExact g op v := by
  have hpreview : col ≠ .rawPreview := by
    rintro rfl
    simp [carrier] at hcol
  have hpairs := columnTexts_message h hcol
  cases op with
  | eq =>
      simp only [messageExact, iff_false]
      intro hall
      have := hall _ _ (hpairs (v ++ "x")).1
      rw [textAgrees_eq (heq rfl) hpreview] at this
      exact eq_disagrees g v this
  | ne =>
      simp only [messageExact, iff_false]
      intro hall
      by_cases hv : v = ""
      · have := hall _ _ (hpairs "x").2
        rw [textAgrees_ne, hv] at this
        simp [GoText.equalFold] at this
      · have := hall _ _ (hpairs v).2
        rw [textAgrees_ne] at this
        simp [GoText.equalFold, Ne.symm hv] at this
  | like =>
      simp only [messageExact, iff_false]
      intro hall
      obtain ⟨s, hs⟩ := like_text_disagrees (g := g) (hlike rfl)
      have := hall _ _ (hpairs s).1
      rw [textAgrees_like (hlike rfl)] at this
      exact hs this
  | regexp =>
      simp only [textAgrees_regexp, messageExact]
      by_cases hv : v = ""
      · simp [hv, regexpSQLFn, g.isMatch_empty]
      · simp only [hv, false_or]
        constructor
        · intro hall s
          have := hall _ _ (hpairs s).2
          simpa [regexpSQLFn, hv] using this
        · intro hno s s' _
          simp only [regexpSQLFn, hv, hno, if_false]
          split_ifs <;> simp
  | contains => exact absurd rfl hop
  | gt | gte | lt | lte => simp [isComparison] at hcmp

end GoSite.Observability
