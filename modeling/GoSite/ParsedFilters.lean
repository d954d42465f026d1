import GoSite.BooleanStructure
import GoSite.LeafConditions

/-!
# Filters as the parser makes them

A node of a parsed filter has at least two children, and its leaves are the
predicates the grammar has. Every such filter compiles.
-/
namespace GoSite.Observability
open BooleanTrees

inductive Parsed : FilterExpr → Prop where
  | leaf {p : PredExpr} : Parsable p → Parsed (.leaf p)
  | and {cs : List FilterExpr} : 2 ≤ cs.length → (∀ c ∈ cs, Parsed c) → Parsed (.and cs)
  | or {cs : List FilterExpr} : 2 ≤ cs.length → (∀ c ∈ cs, Parsed c) → Parsed (.or cs)
  | not {c : FilterExpr} : Parsed c → Parsed (.not c)

/-- The filter of a query. An empty query has none. -/
structure ParsedFilter where
  expr : Option FilterExpr
  parsed : ∀ e ∈ expr, Parsed e

theorem Parsed.parsable {e : FilterExpr} (h : Parsed e) : ∀ p ∈ e.leaves, Parsable p := by
  induction h with
  | leaf hp => simpa [BoolTree.leaves] using hp
  | and _ _ ih =>
      intro p hp
      simp only [BoolTree.leaves, leavesAll_eq, List.mem_flatMap] at hp
      obtain ⟨c, hc, hpc⟩ := hp
      exact ih c hc p hpc
  | or _ _ ih =>
      intro p hp
      simp only [BoolTree.leaves, leavesAll_eq, List.mem_flatMap] at hp
      obtain ⟨c, hc, hpc⟩ := hp
      exact ih c hc p hpc
  | not _ ih => simpa [BoolTree.leaves] using ih

theorem freeTextError_of_parsable {p : PredExpr} (h : Parsable p) : freeTextError p = false := by
  by_cases hfield : p.field = ""
  · rw [Parsable, if_pos hfield] at h
    rcases h with h | h <;> simp [freeTextError, h]
  · simp [freeTextError, hfield]

theorem Parsed.no_freeTextError {e : FilterExpr} (h : Parsed e) :
    e.leaves.any freeTextError = false := by
  rw [List.any_eq_false]
  intro p hp
  simpa using freeTextError_of_parsable (h.parsable p hp)

/-- The filter is applicable, and what is left of it is true. -/
def Holds (kind : SourceKind) (truth : SqlAtom → Option Bool) (e : FilterExpr) : Prop :=
  exprApplicable kind e = true ∧
    ∃ k, e.prune (predApplicable kind) = some k ∧ (k.graft (predSql kind)).eval3 truth = some true

/-- A filter with the operators that free text has compiles, and selects the
rows it holds of. -/
theorem compileTree_of_no_error {e : FilterExpr} (kind : SourceKind)
    (h : e.leaves.any freeTextError = false) :
    ∃ f, compileTree (some e) kind = .ok f ∧
      ∀ truth, f.selects kind truth = true ↔ Holds kind truth e := by
  by_cases happ : exprApplicable kind e = true
  · obtain ⟨k, hk, hcompile⟩ := compileTree_of_applicable happ h
    refine ⟨_, hcompile, ?_⟩
    intro truth
    simp [CompiledFilter.selects, Holds, happ, hk]
  · refine ⟨⟨none, false⟩, by simp [compileTree, happ], ?_⟩
    intro truth
    simp [CompiledFilter.selects, Holds, happ]

theorem ParsedFilter.compiles (filter : ParsedFilter) (kind : SourceKind) :
    ∃ f, compileTree filter.expr kind = .ok f ∧
      ∀ truth, f.selects kind truth = true ↔ ∀ e ∈ filter.expr, Holds kind truth e := by
  obtain ⟨expr, hparsed⟩ := filter
  cases expr with
  | none => exact ⟨⟨none, true⟩, rfl, fun truth => by simp [CompiledFilter.selects]⟩
  | some e =>
      obtain ⟨f, hf, hiff⟩ := compileTree_of_no_error kind (hparsed e rfl).no_freeTextError
      exact ⟨f, hf, fun truth => by simpa using hiff truth⟩

theorem and3_eq_true {x y : Option Bool} : and3 x y = some true ↔ x = some true ∧ y = some true := by
  rcases x with _ | _ | _ <;> rcases y with _ | _ | _ <;> simp [and3]

theorem eval3_and_eq_true {α : Type*} {v : α → Option Bool} {cs : List (BoolTree α)} :
    (BoolTree.and cs).eval3 v = some true ↔ ∀ c ∈ cs, c.eval3 v = some true := by
  rw [BoolTree.eval3]
  induction cs with
  | nil => simp [BoolTree.eval3All]
  | cons c cs ih => rw [BoolTree.eval3All, and3_eq_true, ih, List.forall_mem_cons]

/-- A conjunction holds when each part of it does. -/
theorem holds_and {kind : SourceKind} {truth : SqlAtom → Option Bool} {cs : List FilterExpr}
    (hne : cs ≠ []) : Holds kind truth (.and cs) ↔ ∀ c ∈ cs, Holds kind truth c := by
  have happ : exprApplicable kind (.and cs) = true ↔ ∀ c ∈ cs, exprApplicable kind c = true := by
    rw [exprApplicable, if_neg (by simpa using hne), allApplicable_eq, List.all_eq_true]
  rw [Holds, happ]
  constructor
  · rintro ⟨hall, k, hk, htrue⟩ c hc
    refine ⟨hall c hc, ?_⟩
    obtain ⟨kc, hkc⟩ := Option.ne_none_iff_exists'.mp (prune_ne_none_of_applicable (hall c hc))
    obtain ⟨-, rfl⟩ := prune_and_eq_some.mp hk
    refine ⟨kc, hkc, ?_⟩
    rw [BoolTree.graft, graftAll_eq, eval3_and_eq_true] at htrue
    exact htrue _ (List.mem_map_of_mem (List.mem_filterMap.mpr ⟨c, hc, hkc⟩))
  · intro hall
    refine ⟨fun c hc => (hall c hc).1, .and (cs.filterMap (BoolTree.prune (predApplicable kind))),
      ?_, ?_⟩
    · rw [prune_and_eq_some]
      obtain ⟨c, hc⟩ := List.exists_mem_of_ne_nil cs hne
      obtain ⟨-, k, hk, -⟩ := hall c hc
      exact ⟨List.ne_nil_of_mem (List.mem_filterMap.mpr ⟨c, hc, hk⟩), rfl⟩
    · rw [BoolTree.graft, graftAll_eq, eval3_and_eq_true]
      intro s hs
      obtain ⟨k, hk, rfl⟩ := List.mem_map.mp hs
      obtain ⟨c, hc, hck⟩ := List.mem_filterMap.mp hk
      obtain ⟨-, k', hk', htrue⟩ := hall c hc
      rw [hck, Option.some.injEq] at hk'
      exact hk' ▸ htrue

theorem Parsed.flattenAnd_ne_nil {e : FilterExpr} (h : Parsed e) : flattenAnd e ≠ [] := by
  cases h with
  | and hlen _ =>
      rw [flattenAnd]
      exact List.ne_nil_of_length_pos (by omega)
  | leaf _ => simp [flattenAnd]
  | or _ _ => simp [flattenAnd]
  | not _ => simp [flattenAnd]

theorem Parsed.holds_flattenAnd {kind : SourceKind} {truth : SqlAtom → Option Bool} {e : FilterExpr}
    (h : Parsed e) : (∀ c ∈ flattenAnd e, Holds kind truth c) ↔ Holds kind truth e := by
  have hne := h.flattenAnd_ne_nil
  cases e with
  | and cs => exact (holds_and (by simpa [flattenAnd] using hne)).symm
  | leaf p => simp [flattenAnd]
  | or cs => simp [flattenAnd]
  | not c => simp [flattenAnd]

theorem leaves_flattenAnd (e : FilterExpr) : (flattenAnd e).flatMap BoolTree.leaves = e.leaves := by
  cases e <;> simp [flattenAnd, BoolTree.leaves]

end GoSite.Observability
