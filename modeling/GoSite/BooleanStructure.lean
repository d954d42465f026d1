import GoSite.RowConditions

/-!
# The Boolean structure of compiled and evaluated filters

The compiler decides whether a filter is applicable, and writes its condition,
in two separate recursions. A dropped leaf takes the nodes with it that have no
other leaf; the evaluator counts it as false and goes on.
-/
namespace GoSite.Observability
open BooleanTrees

/-- What `CompileFilter` returns, before it is written as text: the part of the
filter that is compiled. -/
structure CompiledFilter where
  kept : Option FilterExpr
  applicable : Bool

def compileTree (expr : Option FilterExpr) (kind : SourceKind) : Except String CompiledFilter :=
  match expr with
  | none => .ok ⟨none, true⟩
  | some e =>
      if ¬ exprApplicable kind e then .ok ⟨none, false⟩
      else if e.leaves.any freeTextError then .error "unsupported free-text operator"
      else .ok ⟨e.prune (predApplicable kind), true⟩

/-- The text of a compiled filter. -/
def CompiledFilter.render (kind : SourceKind) (f : CompiledFilter) : SQLFilter :=
  match f.kept with
  | none => ⟨[], [], f.applicable⟩
  | some k =>
      let s := k.graft (predSql kind)
      ⟨[sqlText s], sqlArgs s, f.applicable⟩

/-- Which rows a compiled filter selects, by the truth of its conditions. -/
def CompiledFilter.selects (kind : SourceKind) (f : CompiledFilter)
    (truth : SqlAtom → Option Bool) : Bool :=
  f.applicable && match f.kept with
    | none => true
    | some k => (k.graft (predSql kind)).eval3 truth = some true

/-- The same over truth values given to the leaves. -/
def CompiledFilter.selectsLeaves (f : CompiledFilter) (v : PredExpr → Bool) : Bool :=
  f.applicable && match f.kept with
    | none => true
    | some k => k.eval v

/-- `EvalFilter` over truth values given to the leaves. -/
def evalLeaves (kind : SourceKind) (e : FilterExpr) (v : PredExpr → Bool) : Bool :=
  if ¬ exprApplicable kind e then false else e.eval v

/-- `CompileFilter` writes out the compiled tree. -/
theorem compileFilter_eq (expr : Option FilterExpr) (kind : SourceKind) :
    compileFilter expr kind = (compileTree expr kind).map (CompiledFilter.render kind) := by
  cases expr with
  | none => rfl
  | some e =>
      simp only [compileFilter, compileTree, compileNode_eq]
      by_cases happ : exprApplicable kind e = true
      · by_cases herr : e.leaves.any freeTextError = true
        · simp [happ, herr, Except.map]
        · cases hk : e.prune (predApplicable kind) with
          | none =>
              simp [happ, herr, nodeSql, hk, render, Except.map, CompiledFilter.render]
          | some k =>
              simp [happ, herr, nodeSql, hk, render, Except.map, CompiledFilter.render,
                sqlText_ne_empty]
      · simp [happ, Except.map, CompiledFilter.render]

theorem allApplicable_eq (kind : SourceKind) (cs : List FilterExpr) :
    allApplicable kind cs = cs.all (exprApplicable kind) := by
  induction cs with
  | nil => rfl
  | cons c cs ih => cases h : exprApplicable kind c <;> simp [allApplicable, h, ih]

theorem anyApplicable_eq (kind : SourceKind) (cs : List FilterExpr) :
    anyApplicable kind cs = cs.any (exprApplicable kind) := by
  induction cs with
  | nil => rfl
  | cons c cs ih => cases h : exprApplicable kind c <;> simp [anyApplicable, h, ih]

/-- An applicable filter keeps a leaf. -/
theorem prune_ne_none_of_applicable {kind : SourceKind} {e : FilterExpr}
    (h : exprApplicable kind e = true) : e.prune (predApplicable kind) ≠ none := by
  induction e using BoolTree.induction with
  | leaf p => simpa [BoolTree.prune, exprApplicable] using h
  | and cs ih =>
      rw [exprApplicable, allApplicable_eq] at h
      rw [ne_eq, prune_and_eq_none]
      intro hnone
      cases cs with
      | nil => simp at h
      | cons c cs =>
          simp only [List.length_cons, Nat.add_eq_zero_iff, one_ne_zero, and_false, if_false,
            List.all_eq_true] at h
          exact ih c List.mem_cons_self (h c List.mem_cons_self) (hnone c List.mem_cons_self)
  | or cs ih =>
      rw [exprApplicable, anyApplicable_eq, List.any_eq_true] at h
      obtain ⟨c, hc, happ⟩ := h
      rw [ne_eq, prune_or_eq_none]
      intro hnone
      exact ih c hc happ (hnone c hc)
  | not c ih =>
      rw [exprApplicable] at h
      simpa [BoolTree.prune] using ih h

/-- The compiled filter means what the evaluated one does: the source has none
of it, or every operator compiles and what is dropped was neutral where it
stood. -/
def CompilesExactly (kind : SourceKind) (e : FilterExpr) : Bool :=
  !exprApplicable kind e ||
    (!e.leaves.any freeTextError && e.neutral (predApplicable kind))

/-- Each leaf with a condition has the truth value on the row that it has on the
event. -/
def LeavesAgree (g : GoText) (kind : SourceKind) (e : FilterExpr)
    (truth : SqlAtom → Option Bool) (ev : QueryEvent) : Prop :=
  ∀ p ∈ e.leaves, ∀ w args, compilePred p kind = .ok (w, args) → w ≠ "" →
    (predSql kind p).eval3 truth = some (evalPred g p ev kind)

/-- Each leaf that is not applicable is false on the event. -/
def InapplicableFalse (g : GoText) (kind : SourceKind) (e : FilterExpr) (ev : QueryEvent) :
    Prop :=
  ∀ p ∈ e.leaves, predApplicable kind p = false → evalPred g p ev kind = false

theorem compilePred_of_applicable {kind : SourceKind} {p : PredExpr}
    (herr : freeTextError p = false) (happ : predApplicable kind p = true) :
    ∃ w args, compilePred p kind = .ok (w, args) ∧ w ≠ "" := by
  refine ⟨sqlText (predSql kind p), sqlArgs (predSql kind p), ?_, sqlText_ne_empty _⟩
  rw [compilePred_eq]
  simp [herr, happ, render]

theorem compileTree_of_applicable {kind : SourceKind} {e : FilterExpr}
    (happ : exprApplicable kind e = true) (herr : e.leaves.any freeTextError = false) :
    ∃ k, e.prune (predApplicable kind) = some k ∧
      compileTree (some e) kind = .ok ⟨some k, true⟩ := by
  obtain ⟨k, hk⟩ := Option.ne_none_iff_exists'.mp (prune_ne_none_of_applicable happ)
  exact ⟨k, hk, by simp [compileTree, happ, herr, hk]⟩

/-- An exact filter selects the rows whose events it holds of. -/
theorem selects_iff_of_exact {g : GoText} {kind : SourceKind} {e : FilterExpr}
    (h : CompilesExactly kind e = true) :
    ∃ f, compileTree (some e) kind = .ok f ∧ ∀ truth ev, LeavesAgree g kind e truth ev →
      InapplicableFalse g kind e ev →
        (f.selects kind truth = true ↔ evalFilter g (some e) ev kind = true) := by
  by_cases happ : exprApplicable kind e = true
  · simp only [CompilesExactly, happ, Bool.not_true, Bool.false_or, Bool.and_eq_true,
      Bool.not_eq_true'] at h
    obtain ⟨herr, hneutral⟩ := h
    obtain ⟨k, hk, hcompile⟩ := compileTree_of_applicable happ herr
    refine ⟨⟨some k, true⟩, hcompile, ?_⟩
    intro truth ev hagree hinapp
    let v : PredExpr → Bool := fun p => predApplicable kind p && evalPred g p ev kind
    have hv : Proper (predApplicable kind) v := by
      intro p hp
      simp [v, hp]
    have hleaves : ∀ p ∈ e.leaves, evalPred g p ev kind = v p := by
      intro p hp
      cases hpa : predApplicable kind p with
      | true => simp [v, hpa]
      | false => simp [v, hpa, hinapp p hp hpa]
    have htruth : ∀ p ∈ k.leaves, (predSql kind p).eval3 truth = some (v p) := by
      intro p hp
      obtain ⟨hpe, hpa⟩ := leaves_prune hk p hp
      have hperr : freeTextError p = false := by
        rw [List.any_eq_false] at herr
        simpa using herr p hpe
      obtain ⟨w, args, hw, hne⟩ := compilePred_of_applicable hperr hpa
      rw [hagree p hpe w args hw hne, hleaves p hpe]
    have hsql : (k.graft (predSql kind)).eval3 truth = some (k.eval v) := by
      rw [eval3_graft]
      exact eval3_eq_some k htruth
    have heval : evalNode g e ev kind = e.eval v := eval_congr e hleaves
    have hsame := eval_prune hv hneutral hk
    simp [CompiledFilter.selects, hsql, evalFilter, happ, heval, hsame]
  · refine ⟨⟨none, false⟩, by simp [compileTree, happ], ?_⟩
    intro truth ev _ _
    simp [CompiledFilter.selects, evalFilter, happ]

/-- A filter that repeats no leaf and is not exact selects wrongly for some
truth values of its leaves. -/
theorem exact_of_selects_iff {kind : SourceKind} {e : FilterExpr}
    (hnd : (e.leaves.filter (predApplicable kind)).Nodup)
    (h : ∃ f, compileTree (some e) kind = .ok f ∧ ∀ v, Proper (predApplicable kind) v →
      (f.selectsLeaves v = true ↔ evalLeaves kind e v = true)) :
    CompilesExactly kind e = true := by
  obtain ⟨f, hf, hv⟩ := h
  by_cases happ : exprApplicable kind e = true
  · have herr : e.leaves.any freeTextError = false := by
      by_contra herr
      rw [Bool.not_eq_false] at herr
      simp [compileTree, happ, herr] at hf
    obtain ⟨k, hk, hcompile⟩ := compileTree_of_applicable happ herr
    rw [hf, Except.ok.injEq] at hcompile
    subst hcompile
    simp only [CompilesExactly, happ, herr, Bool.not_true, Bool.false_or, Bool.not_false,
      Bool.true_and]
    by_contra hneutral
    rw [Bool.not_eq_true] at hneutral
    obtain ⟨v, hproper, hne⟩ := exists_eval_prune_ne hk hnd hneutral
    have hiff := hv v hproper
    simp only [CompiledFilter.selectsLeaves, evalLeaves, happ, Bool.true_and, not_true_eq_false,
      if_false] at hiff
    exact hne (Bool.eq_iff_iff.mpr hiff)
  · simp [CompilesExactly, happ]

/-- Compiled and evaluated filters agree where the compiler drops only neutral
parts. For filters that repeat no leaf this is the exact condition. -/
theorem boolean_structure_agrees (g : GoText) (kind : SourceKind) (e : FilterExpr) :
    (CompilesExactly kind e = true →
      ∃ f, compileTree (some e) kind = .ok f ∧
        compileFilter (some e) kind = .ok (f.render kind) ∧
        ∀ truth ev, LeavesAgree g kind e truth ev → InapplicableFalse g kind e ev →
          (f.selects kind truth = true ↔ evalFilter g (some e) ev kind = true)) ∧
    ((e.leaves.filter (predApplicable kind)).Nodup →
      (∃ f, compileTree (some e) kind = .ok f ∧ ∀ v, Proper (predApplicable kind) v →
        (f.selectsLeaves v = true ↔ evalLeaves kind e v = true)) →
      CompilesExactly kind e = true) := by
  refine ⟨fun h => ?_, exact_of_selects_iff⟩
  obtain ⟨f, hf, hiff⟩ := selects_iff_of_exact (g := g) h
  refine ⟨f, hf, ?_, hiff⟩
  rw [compileFilter_eq, hf]
  rfl

/-- `NOT bogus=x OR action=login`. -/
def notBogusOrLogin : FilterExpr :=
  .or [.not (.leaf ⟨"bogus", .eq, "x"⟩), .leaf ⟨"action", .eq, "login"⟩]

def logoutRow : AuditLog where
  timestamp := 0
  userEmail := "root"
  action := "logout"
  resourceType := ""
  resourceID := ""
  domain := ""
  status := "ok"
  message := ""
  metadata := []
  status_mem := ok_mem_auditStatuses

/-- The negation of a dropped leaf holds of every event, but it is dropped with
the leaf. -/
theorem dropped_negation_selects_wrongly :
    ¬ ∀ (g : GoText) (db : Sqlite) (e : FilterExpr) (row : StoredRow),
      LeavesAgree g row.kind e (row.truth g db) row.event →
      (∀ ev, InapplicableFalse g row.kind e ev) →
      ∃ f, compileTree (some e) row.kind = .ok f ∧
        (f.selects row.kind (row.truth g db) = true ↔
          evalFilter g (some e) row.event row.kind = true) := by
  intro h
  let row : StoredRow := .audit logoutRow
  have hleaves : notBogusOrLogin.leaves =
      [⟨"bogus", .eq, "x"⟩, ⟨"action", .eq, "login"⟩] := rfl
  have hagree : LeavesAgree asciiText row.kind notBogusOrLogin
      (row.truth asciiText ⟨fun _ => none⟩) row.event := by
    intro p hp w args hw hne
    rw [hleaves, List.mem_pair] at hp
    obtain rfl | rfl := hp
    · have hdropped : compilePred ⟨"bogus", .eq, "x"⟩ row.kind = .ok ("", []) := rfl
      rw [hdropped, Except.ok.injEq, Prod.mk.injEq] at hw
      exact absurd hw.1.symm hne
    · decide
  have hinapp : ∀ ev, InapplicableFalse asciiText row.kind notBogusOrLogin ev := by
    intro ev p hp happ
    rw [hleaves, List.mem_pair] at hp
    obtain rfl | rfl := hp
    · rfl
    · exact absurd happ (by decide)
  obtain ⟨f, hf, hiff⟩ := h asciiText ⟨fun _ => none⟩ notBogusOrLogin row hagree hinapp
  have hkept : compileTree (some notBogusOrLogin) row.kind =
      .ok ⟨some (.or [.leaf ⟨"action", .eq, "login"⟩]), true⟩ := by rfl
  rw [hkept, Except.ok.injEq] at hf
  subst hf
  exact absurd (hiff.mpr (by rfl)) (by decide)

end GoSite.Observability
