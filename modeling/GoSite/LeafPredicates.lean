import GoSite.LeafCodes
import GoSite.LeafFreeText

/-!
# Leaf predicates in SQL and in memory

The conditions on single columns and on free text together decide, for every
predicate the parser makes and a source has, whether stored rows and their events
are selected alike.
-/
namespace GoSite.Observability
open BooleanTrees GoStrings TextFolding

variable {g : GoText} {db : Sqlite}

theorem status_ne_empty {kind : SourceKind} {col : Column} {allowed : List String}
    (h : carrier kind col = .status allowed) : ∀ s ∈ allowed, s ≠ "" := by
  have hcol : col = .status := by
    cases col <;> simp_all [carrier]
  subst hcol
  rw [carrier, Carrier.status.injEq] at h
  rw [← h]
  split_ifs <;> decide

theorem fieldExact_iff {kind : SourceKind} {p : PredExpr} {col : Column} (hf : p.field ≠ "")
    (hop : p.op ≠ .contains) (heq : p.op = .eq → hasStar p.value = false)
    (hlike : p.op = .like → hasStar p.value = true)
    (h : fieldColumn kind p.field = some col) (happ : predApplicable kind p = true) :
    (∀ row, StoredRow.kind row = kind → LeafAgrees g db p row) ↔
      fieldExact g db kind col p.op p.value := by
  by_cases hcode : col = .statusCode
  · subst hcode
    exact codeExact_iff hf hop heq hlike h
  · have hcmp : isComparison p.op = false := by
      by_contra hcmp
      exact hcode (column_of_comparison hf h happ (by simpa using hcmp))
    have hcarrier : carrier kind col ≠ .code := by
      cases col <;> simp_all [carrier]
    rw [forall_leafAgrees_iff hf hop h hcarrier, fieldExact]
    cases hcar : carrier kind col with
    | text =>
        have hpreview : col ≠ .rawPreview := by
          rintro rfl
          simp [carrier] at hcar
        simp only [columnTexts_text h hcar, forall_eq]
        exact textExact_iff hpreview heq hlike hop hcmp
    | line =>
        have hpreview : col = .rawPreview := by
          cases col <;> simp_all [carrier]
        subst hpreview
        simp only [columnTexts_line h hcar, and_imp, forall_eq]
        exact lineExact_iff heq hlike hop hcmp
    | status allowed =>
        have hstatus : col = .status := by
          cases col <;> simp_all [carrier]
        subst hstatus
        simp only [columnTexts_status h hcar, and_imp, forall_eq]
        exact statusExact_iff (status_ne_empty hcar) heq hlike hop hcmp
    | message => exact messageExact_iff h hcar heq hlike hop hcmp
    | code => exact absurd hcar hcarrier

/-- The compiled fragment of a predicate that a source has selects exactly the
rows of the source whose events the evaluator accepts, if and only if the
condition for its column and operator holds. -/
theorem leaf_agrees_iff (g : GoText) (db : Sqlite) (kind : SourceKind) (p : PredExpr)
    (hparse : Parsable p) (happ : predApplicable kind p = true) :
    compilePred p kind = .ok (render (some (predSql kind p))) ∧
      ((∀ row : StoredRow, row.kind = kind →
        ((predSql kind p).eval3 (row.truth g db) = some true ↔
          evalPred g p row.event kind = true)) ↔ leafExact g db kind p) := by
  have hleaf : (∀ row : StoredRow, row.kind = kind →
      ((predSql kind p).eval3 (row.truth g db) = some true ↔
        evalPred g p row.event kind = true)) ↔
      ∀ row, StoredRow.kind row = kind → LeafAgrees g db p row := by
    constructor
    · rintro hall row rfl
      exact hall row rfl
    · rintro hall row rfl
      exact hall row rfl
  rw [hleaf]
  by_cases hf : p.field = ""
  · rw [Parsable, if_pos hf] at hparse
    have hcompile : freeTextError p = false := by
      obtain hp | hp := hparse <;> simp [freeTextError, hp]
    refine ⟨by rw [compilePred_eq]; simp [hcompile, happ], ?_⟩
    rw [leafExact, if_pos hf]
    exact freeExact_iff hf hparse
  · rw [Parsable, if_neg hf] at hparse
    obtain ⟨hop, heq, hlike⟩ := hparse
    have hcompile : freeTextError p = false := by simp [freeTextError, hf]
    refine ⟨by rw [compilePred_eq]; simp [hcompile, happ], ?_⟩
    obtain ⟨col, hcol⟩ : ∃ col, fieldColumn kind p.field = some col := by
      rw [predApplicable, if_neg hf] at happ
      cases hcol : fieldColumn kind p.field with
      | none => simp [hcol] at happ
      | some col => exact ⟨col, rfl⟩
    rw [leafExact, if_neg hf, hcol]
    exact fieldExact_iff hf hop heq hlike hcol happ

/-- A word looked for in log previews is found alike in both. -/
theorem leaf_agrees_iff_preview :
    Parsable ⟨"preview", .eq, "GET"⟩ ∧ predApplicable .logAccess ⟨"preview", .eq, "GET"⟩ = true ∧
      ∀ row : StoredRow, row.kind = .logAccess →
        ((predSql .logAccess ⟨"preview", .eq, "GET"⟩).eval3 (row.truth asciiText ⟨fun _ => none⟩) =
          some true ↔ evalPred asciiText ⟨"preview", .eq, "GET"⟩ row.event .logAccess = true) := by
  have hparse : Parsable ⟨"preview", .eq, "GET"⟩ := by
    rw [Parsable, if_neg (by decide)]
    exact ⟨by decide, by decide, by decide⟩
  have happ : predApplicable .logAccess ⟨"preview", .eq, "GET"⟩ = true := by decide
  refine ⟨hparse, happ, ?_⟩
  refine (leaf_agrees_iff asciiText ⟨fun _ => none⟩ .logAccess _ hparse happ).2.mpr ?_
  have hsame : ∀ c, SameClass Char.toLower Char.toLower c := fun _ _ => Iff.rfl
  rw [leafExact, if_neg (by decide)]
  refine Or.inr ⟨?_, fun c _ => hsame c, fun c _ => hsame c⟩
  simp [NoLikeChar]

def subdomainRow : AuditLog where
  timestamp := 0
  userEmail := "root"
  action := "website.create"
  resourceType := "website"
  resourceID := "1"
  domain := "example.com.au"
  status := "ok"
  message := ""
  metadata := []
  status_mem := ok_mem_auditStatuses

/-- `domain=example.com` is an exact comparison in SQL and finds a part in
memory. -/
theorem equality_means_containment_in_memory :
    ¬ ∀ (g : GoText) (db : Sqlite) (kind : SourceKind) (p : PredExpr),
      Parsable p → predApplicable kind p = true → ∀ row : StoredRow, row.kind = kind →
        ((predSql kind p).eval3 (row.truth g db) = some true ↔
          evalPred g p row.event kind = true) := by
  intro h
  have hparse : Parsable ⟨"domain", .eq, "example.com"⟩ := by
    rw [Parsable, if_neg (by decide)]
    exact ⟨by decide, by decide, by decide⟩
  have hagree := h asciiText ⟨fun _ => none⟩ .audit ⟨"domain", .eq, "example.com"⟩ hparse (by decide)
    (.audit subdomainRow) rfl
  exact absurd (hagree.mpr (by decide)) (by decide)

end GoSite.Observability
