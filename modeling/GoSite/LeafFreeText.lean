import GoSite.LeafConditions

/-!
# Free text

Free text is looked for in several columns. In memory the columns of a job are
all its message.
-/
namespace GoSite.Observability
open BooleanTrees GoStrings TextFolding

variable {g : GoText} {db : Sqlite}

/-- The comparison of free text with one column. -/
def freeSql (g : GoText) (op : Op) (s v : String) : Bool :=
  match op with
  | .regexp => regexpSQLFn g v s
  | _ => if hasStar v then sqlLike (some '\\') s (escapeLike v) else sqlLike none s ("%" ++ v ++ "%")

def freeAtom (op : Op) (v : String) (col : Column) : SqlAtom :=
  match op with
  | .regexp => ⟨textOperand col, .regexp, v⟩
  | _ => containsAtom op v col

theorem freeAtom_truth {row : StoredRow} {op : Op} (hop : op = .contains ∨ op = .regexp)
    {col : Column} {s : String} (h : row.column col = .text s) (v : String) :
    row.truth g db (freeAtom op v col) = some (freeSql g op s v) := by
  obtain rfl | rfl := hop
  · by_cases hstar : hasStar v = true
    · simp [freeAtom, containsAtom, likeAtom, hstar, StoredRow.truth, textOperand_value h,
        SqlValue.truth, compareText, freeSql]
    · simp [freeAtom, containsAtom, hstar, StoredRow.truth, Operand.value, h, SqlValue.truth,
        compareText, freeSql]
  · simp [freeAtom, StoredRow.truth, textOperand_value h, SqlValue.truth, compareText, freeSql]

theorem predSql_of_free {kind : SourceKind} {p : PredExpr} (hf : p.field = "")
    (hop : p.op = .contains ∨ p.op = .regexp) :
    predSql kind p = .or ((freeTextColumns kind).map fun col => .leaf (freeAtom p.op p.value col)) := by
  obtain hp | hp := hop <;> simp [predSql, hf, hp, freeAtom]

/-- A disjunction of comparisons that have a truth value. -/
theorem eval3_or_leaves {cols : List Column} {a : Column → SqlAtom} {b : Column → Bool}
    {truth : SqlAtom → Option Bool} (h : ∀ col ∈ cols, truth (a col) = some (b col)) :
    (BoolTree.or (cols.map fun col => .leaf (a col))).eval3 truth = some (cols.any b) := by
  rw [BoolTree.eval3]
  induction cols with
  | nil => rfl
  | cons col cols ih =>
      rw [List.map_cons, BoolTree.eval3Any, BoolTree.eval3, h col List.mem_cons_self,
        ih fun c hc => h c (List.mem_cons_of_mem _ hc), List.any_cons]
      cases b col <;> cases cols.any b <;> rfl

def StoredRow.columnText (row : StoredRow) (col : Column) : String :=
  match row.column col with
  | .text s => s
  | _ => ""

theorem column_of_freeText {row : StoredRow} {col : Column} (h : col ∈ freeTextColumns row.kind) :
    row.column col = .text (row.columnText col) := by
  cases row <;> cases col <;>
    simp_all [freeTextColumns, StoredRow.kind, StoredRow.columnText, StoredRow.column]

theorem leafAgrees_free {row : StoredRow} {p : PredExpr} (hf : p.field = "")
    (hop : p.op = .contains ∨ p.op = .regexp) :
    LeafAgrees g db p row ↔
      ((freeTextColumns row.kind).any (fun col => freeSql g p.op (row.columnText col) p.value) =
        true ↔ evalFreeText g p row.event row.kind = true) := by
  rw [LeafAgrees, predSql_of_free hf hop,
    eval3_or_leaves fun col hcol => freeAtom_truth hop (column_of_freeText hcol) p.value,
    Option.some.injEq, evalPred, if_pos hf]

section
variable {p : PredExpr} (hf : p.field = "") (hop : p.op = .contains ∨ p.op = .regexp)
include hf hop

theorem leafAgrees_free_audit (row : AuditLog) :
    LeafAgrees g db p (.audit row) ↔
      ((∃ s ∈ [row.userEmail, row.action, row.message], freeSql g p.op s p.value = true) ↔
        ∃ s ∈ [row.userEmail, row.action, row.message],
          evalFreeTextOp g p.op s p.value = true) := by
  rw [leafAgrees_free hf hop]
  simp [freeTextColumns, StoredRow.kind, evalFreeText, eventColumnValue, StoredRow.event,
    mapAuditEvent, StoredRow.columnText, StoredRow.column]

theorem leafAgrees_free_access (row : LogEvent) :
    LeafAgrees g db p (.access row) ↔
      ((∃ s ∈ [row.site, row.rawPreview], freeSql g p.op s p.value = true) ↔
        ∃ s ∈ [row.site, row.rawPreview], evalFreeTextOp g p.op s p.value = true) := by
  rw [leafAgrees_free hf hop]
  cases row with | mk ts site code bytes preview hc hp =>
  cases code <;> cases bytes <;>
    simp [freeTextColumns, StoredRow.kind, evalFreeText, eventColumnValue, StoredRow.event,
      mapLogEvent, StoredRow.columnText, StoredRow.column, List.lookup]

theorem leafAgrees_free_error (row : LogEvent) :
    LeafAgrees g db p (.error row) ↔
      ((∃ s ∈ [row.site, row.rawPreview], freeSql g p.op s p.value = true) ↔
        ∃ s ∈ [row.site, row.rawPreview], evalFreeTextOp g p.op s p.value = true) := by
  rw [leafAgrees_free hf hop]
  cases row with | mk ts site code bytes preview hc hp =>
  cases code <;> cases bytes <;>
    simp [freeTextColumns, StoredRow.kind, evalFreeText, eventColumnValue, StoredRow.event,
      mapLogEvent, StoredRow.columnText, StoredRow.column, List.lookup]

theorem leafAgrees_free_job (row : JobRun) :
    LeafAgrees g db p (.job row) ↔
      ((∃ s ∈ [row.name, row.output, row.error, row.jobType], freeSql g p.op s p.value = true) ↔
        evalFreeTextOp g p.op (jobMessage row) p.value = true) := by
  rw [leafAgrees_free hf hop]
  simp [freeTextColumns, StoredRow.kind, evalFreeText, eventColumnValue, StoredRow.event,
    mapJobEvent, StoredRow.columnText, StoredRow.column]

end

/-- The condition for free text on one column. -/
def plainText (g : GoText) (op : Op) (v : String) : Prop :=
  match op with
  | .regexp => v = "" ∨ g.isMatch v "" = false
  | _ => hasStar v = false ∧ NoLikeChar v ∧ LowersAscii g v

theorem freeSql_contains (s v : String) :
    freeSql g .contains s v =
      if hasStar v then sqlLike (some '\\') s (escapeLike v)
      else sqlLike none s ("%" ++ v ++ "%") := rfl

theorem evalFreeTextOp_contains (s v : String) :
    evalFreeTextOp g .contains s v = containsText (g.lower s) (g.lower v) := rfl

theorem free_agrees {op : Op} {v : String} (hop : op = .contains ∨ op = .regexp)
    (h : plainText g op v) (s : String) :
    freeSql g op s v = true ↔ evalFreeTextOp g op s v = true := by
  obtain rfl | rfl := hop
  · obtain ⟨hstar, hlike, hlow⟩ := h
    rw [freeSql_contains, evalFreeTextOp_contains, hstar, if_neg Bool.false_ne_true]
    exact contains_agrees hlike hlow s
  · exact regexp_agrees h s

theorem of_free_agrees {op : Op} {v : String} (hop : op = .contains ∨ op = .regexp)
    (h : ∀ s, AddsNoNewline v s → (freeSql g op s v = true ↔ evalFreeTextOp g op s v = true)) :
    plainText g op v := by
  obtain rfl | rfl := hop
  · simp only [freeSql_contains, evalFreeTextOp_contains] at h
    cases hstar : hasStar v with
    | true =>
        exfalso
        obtain ⟨s, hs, hdis⟩ := free_star_disagrees (g := g) hstar
        simp only [hstar, if_true] at h
        exact hdis (h s hs)
    | false =>
        simp only [hstar, Bool.false_eq_true, if_false] at h
        exact ⟨hstar, of_contains_agrees h⟩
  · exact of_regexp_agrees (h "" fun _ => by simp)

/-- Nothing is found in the empty text for a value with a line feed. -/
theorem free_empty {v : String} (hnew : '\n' ∈ v.toList) :
    freeSql g .contains "" v = false ∧ evalFreeTextOp g .contains "" v = false := by
  obtain ⟨hlike, -, hfound⟩ := newline_not_contained (g := g) (s := "") hnew (by simp)
  rw [freeSql_contains, evalFreeTextOp_contains]
  refine ⟨?_, hfound⟩
  split_ifs with hstar
  · exact (newline_not_liked (g := g) hstar hnew (by simp)).1
  · exact hlike

/-- The site of a log row can hold a line feed and its preview cannot. -/
theorem of_log_agrees {op : Op} {v : String} (hop : op = .contains ∨ op = .regexp)
    (h : ∀ site preview : String, '\n' ∉ preview.toList →
      ((∃ s ∈ [site, preview], freeSql g op s v = true) ↔
        ∃ s ∈ [site, preview], evalFreeTextOp g op s v = true)) :
    plainText g op v := by
  obtain rfl | rfl := hop
  · refine of_free_agrees (Or.inl rfl) fun s hs => ?_
    by_cases hline : '\n' ∈ s.toList
    · have hnew : '\n' ∈ v.toList := by
        by_contra hno
        exact hs hno hline
      obtain ⟨hsql, heval⟩ := free_empty (g := g) hnew
      simpa [hsql, heval] using h s "" (by simp)
    · simpa using h s s hline
  · have hagree : freeSql g .regexp "" v = true ↔ evalFreeTextOp g .regexp "" v = true := by
      simpa using h "" "" (by simp)
    exact of_regexp_agrees hagree

theorem evalFreeTextOp_empty {v : String} (hv : v ≠ "") :
    evalFreeTextOp g .contains "" v = false := by
  rw [evalFreeTextOp_contains, Bool.eq_false_iff, ne_eq, containsText_lower]
  simpa using hv

/-- A value is found in some text, or in none. -/
theorem exists_found_or_never (g : GoText) (v : String) :
    (∃ s, freeSql g .contains s v = true) ∨ ∀ s, freeSql g .contains s v = false := by
  by_cases h : ∃ s, freeSql g .contains s v = true
  · exact Or.inl h
  · right
    intro s
    rw [Bool.eq_false_iff]
    exact fun hs => h ⟨s, hs⟩

theorem job_contains_iff (v : String) :
    (∀ row : JobRun, (∃ s ∈ [row.name, row.output, row.error, row.jobType],
        freeSql g .contains s v = true) ↔
      evalFreeTextOp g .contains (jobMessage row) v = true) ↔ v = "" := by
  constructor
  · intro h
    by_contra hv
    obtain ⟨s, hs⟩ | hnever := exists_found_or_never g v
    · have hagree := (h ⟨0, s, "", "ok", "", "", by decide⟩).mp ⟨s, by simp, hs⟩
      simp [jobMessage, evalFreeTextOp_empty hv] at hagree
    · have hagree := (h ⟨0, "", v, "ok", "", "", by decide⟩).mpr
        (by simp [jobMessage, evalFreeTextOp_contains, containsText_lower_self])
      simp [hnever] at hagree
  · rintro rfl row
    have heval : ∀ s, evalFreeTextOp g .contains s "" = true := by
      intro s
      simp [evalFreeTextOp_contains, containsText, GoText.lower]
    have hsql : ∀ s, freeSql g .contains s "" = true := by
      intro s
      rw [free_agrees (Or.inl rfl) ⟨rfl, by simp [NoLikeChar], by simp [LowersAscii]⟩, heval]
    simp [heval, hsql]

theorem job_regexp_iff (v : String) :
    (∀ row : JobRun, (∃ s ∈ [row.name, row.output, row.error, row.jobType],
        freeSql g .regexp s v = true) ↔
      evalFreeTextOp g .regexp (jobMessage row) v = true) ↔
      v = "" ∨ ∀ s, g.isMatch v s = false := by
  have hsql : ∀ s, freeSql g .regexp s v = regexpSQLFn g v s := fun _ => rfl
  have heval : ∀ s, evalFreeTextOp g .regexp s v = g.isMatch v s := fun _ => rfl
  simp only [hsql, heval]
  by_cases hv : v = ""
  · simp [hv, regexpSQLFn, g.isMatch_empty]
  · simp only [hv, false_or]
    constructor
    · intro h
      have hempty : g.isMatch v "" = false := by
        simpa [regexpSQLFn, hv, jobMessage] using h ⟨0, "", "", "ok", "", "", by decide⟩
      intro s
      by_cases hs : s = ""
      · rw [hs, hempty]
      · simpa [regexpSQLFn, hv, hs, jobMessage, hempty] using
          h ⟨0, s, "", "ok", "", "", by decide⟩
    · intro hno row
      simp [regexpSQLFn, hv, hno]

theorem freeExact_iff {kind : SourceKind} {p : PredExpr} (hf : p.field = "")
    (hop : p.op = .contains ∨ p.op = .regexp) :
    (∀ row, StoredRow.kind row = kind → LeafAgrees g db p row) ↔ freeExact g kind p.op p.value := by
  cases kind with
  | audit =>
      have hcond : freeExact g .audit p.op p.value = plainText g p.op p.value := by
        obtain hp | hp := hop <;> rw [hp] <;> rfl
      rw [hcond]
      constructor
      · intro hall
        refine of_free_agrees hop fun s _ => ?_
        have hagree := (leafAgrees_free_audit hf hop _).mp
          (hall (auditRow s "ok" (by decide)) rfl)
        simpa using hagree
      · rintro hplain row hkind
        cases row with
        | audit row =>
            rw [leafAgrees_free_audit hf hop]
            simp only [free_agrees hop hplain]
        | job row | access row | error row => simp [StoredRow.kind] at hkind
  | logAccess =>
      have hcond : freeExact g .logAccess p.op p.value = plainText g p.op p.value := by
        obtain hp | hp := hop <;> rw [hp] <;> rfl
      rw [hcond]
      constructor
      · intro hall
        refine of_log_agrees hop fun site preview hline => ?_
        exact (leafAgrees_free_access hf hop _).mp
          (hall (accessRow site preview none (by simp) hline) rfl)
      · rintro hplain row hkind
        cases row with
        | access row =>
            rw [leafAgrees_free_access hf hop]
            simp only [free_agrees hop hplain]
        | audit row | job row | error row => simp [StoredRow.kind] at hkind
  | logError =>
      have hcond : freeExact g .logError p.op p.value = plainText g p.op p.value := by
        obtain hp | hp := hop <;> rw [hp] <;> rfl
      rw [hcond]
      constructor
      · intro hall
        refine of_log_agrees hop fun site preview hline => ?_
        exact (leafAgrees_free_error hf hop _).mp (hall (errorRow site preview hline) rfl)
      · rintro hplain row hkind
        cases row with
        | error row =>
            rw [leafAgrees_free_error hf hop]
            simp only [free_agrees hop hplain]
        | audit row | job row | access row => simp [StoredRow.kind] at hkind
  | job =>
      have hjob : (∀ row, StoredRow.kind row = .job → LeafAgrees g db p row) ↔
          ∀ row : JobRun, LeafAgrees g db p (.job row) := by
        constructor
        · intro hall row
          exact hall _ rfl
        · rintro hall row hkind
          cases row with
          | job row => exact hall row
          | audit row | access row | error row => simp [StoredRow.kind] at hkind
      simp only [hjob, leafAgrees_free_job hf hop]
      obtain hp | hp := hop
      · rw [hp]
        exact job_contains_iff p.value
      · rw [hp]
        exact job_regexp_iff p.value

end GoSite.Observability
