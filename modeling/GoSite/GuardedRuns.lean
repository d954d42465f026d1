import Mathlib

/-!
# Runs of a partial step function

A transition system is a step function that says which actions are enabled. A
run is a list of actions taken one after the other. Two predicates on a run are
used throughout: a property holding in every state the run visits, and a guard
met by every step it takes. The rules below turn step lemmas into run lemmas.
-/
namespace GoSite.GuardedRuns

variable {σ α : Type*}

/-- The state after a run, or nothing when some action of it is not enabled. -/
@[grind] def run (step : σ → α → Option σ) : σ → List α → Option σ
  | s, [] => some s
  | s, a :: as => (step s a).bind (fun t => run step t as)

/-- `P` holds in the first state of the run and in every state it visits. -/
@[grind] def Along (step : σ → α → Option σ) (P : σ → Prop) : σ → List α → Prop
  | s, [] => P s
  | s, a :: as => P s ∧ ∀ t, step s a = some t → Along step P t as

/-- Every step the run takes meets `good` in the state it is taken from. -/
@[grind] def Guarded (step : σ → α → Option σ) (good : σ → α → Prop) : σ → List α → Prop
  | _, [] => True
  | s, a :: as => ∀ t, step s a = some t → good s a ∧ Guarded step good t as

/-- Guards that can be tested can be tested along a run. -/
instance decidableGuarded (step : σ → α → Option σ) (good : σ → α → Prop)
    [∀ s a, Decidable (good s a)] : ∀ s as, Decidable (Guarded step good s as)
  | _, [] => .isTrue trivial
  | s, a :: as =>
      match h : step s a with
      | none => .isTrue (fun t ht => by rw [h] at ht; cases ht)
      | some t =>
          have := decidableGuarded step good t as
          decidable_of_iff (good s a ∧ Guarded step good t as)
            ⟨fun hg u hu => by rw [h, Option.some.injEq] at hu; exact hu ▸ hg, fun hg => hg t h⟩

/-- A system in which only actions that meet a premise are taken. -/
def restrict (step : σ → α → Option σ) (ok : σ → α → Prop) [∀ s a, Decidable (ok s a)] (s : σ)
    (a : α) : Option σ :=
  if ok s a then step s a else none

theorem restrict_eq_some {step : σ → α → Option σ} {ok : σ → α → Prop}
    [∀ s a, Decidable (ok s a)] {s t : σ} {a : α} :
    restrict step ok s a = some t ↔ ok s a ∧ step s a = some t := by
  rw [restrict]
  split_ifs with h <;> simp [h]

@[simp] theorem run_nil (step : σ → α → Option σ) (s : σ) : run step s [] = some s := rfl

@[simp] theorem run_cons (step : σ → α → Option σ) (s : σ) (a : α) (as : List α) :
    run step s (a :: as) = (step s a).bind (fun t => run step t as) := rfl

theorem run_append (step : σ → α → Option σ) (s : σ) (as bs : List α) :
    run step s (as ++ bs) = (run step s as).bind (fun t => run step t bs) := by
  induction as generalizing s with
  | nil => rfl
  | cons a as ih =>
      cases h : step s a with
      | none => simp [h]
      | some t => simp [h, ih]

@[simp] theorem along_nil (step : σ → α → Option σ) (P : σ → Prop) (s : σ) :
    Along step P s [] ↔ P s := Iff.rfl

@[simp] theorem along_cons (step : σ → α → Option σ) (P : σ → Prop) (s : σ) (a : α)
    (as : List α) :
    Along step P s (a :: as) ↔ P s ∧ ∀ t, step s a = some t → Along step P t as := Iff.rfl

@[simp] theorem guarded_nil (step : σ → α → Option σ) (good : σ → α → Prop) (s : σ) :
    Guarded step good s [] := trivial

@[simp] theorem guarded_cons (step : σ → α → Option σ) (good : σ → α → Prop) (s : σ) (a : α)
    (as : List α) :
    Guarded step good s (a :: as) ↔
      ∀ t, step s a = some t → good s a ∧ Guarded step good t as := Iff.rfl

theorem Along.head {step : σ → α → Option σ} {P : σ → Prop} {s : σ} {as : List α}
    (h : Along step P s as) : P s := by
  cases as with
  | nil => exact h
  | cons a as => exact h.1

/-- The last state of a run is one of the states it visits. -/
theorem Along.last {step : σ → α → Option σ} {P : σ → Prop} {s t : σ} {as : List α}
    (h : Along step P s as) (hr : run step s as = some t) : P t := by
  induction as generalizing s with
  | nil =>
      simp only [run_nil, Option.some.injEq] at hr
      exact hr ▸ h
  | cons a as ih =>
      obtain ⟨u, hu, hr⟩ := Option.bind_eq_some_iff.mp hr
      exact ih (h.2 u hu) hr

/-- An invariant that guarded steps preserve holds along every guarded run. -/
theorem along_of_guarded {step : σ → α → Option σ} {good : σ → α → Prop} {I : σ → Prop}
    (hstep : ∀ s a t, I s → good s a → step s a = some t → I t)
    {s : σ} {as : List α} (hs : I s) (hg : Guarded step good s as) :
    Along step I s as := by
  induction as generalizing s with
  | nil => exact hs
  | cons a as ih =>
      refine ⟨hs, ?_⟩
      intro t ht
      obtain ⟨hgood, hrest⟩ := hg t ht
      exact ih (hstep s a t hs hgood ht) hrest

/-- An invariant of every step holds along every run. -/
theorem along_of_invariant {step : σ → α → Option σ} {I : σ → Prop}
    (hstep : ∀ s a t, I s → step s a = some t → I t) {s : σ} (as : List α) (hs : I s) :
    Along step I s as := by
  induction as generalizing s with
  | nil => exact hs
  | cons a as ih => exact ⟨hs, fun t ht => ih (hstep s a t hs ht)⟩

/-- What a state says about every step from it is a guard of the run. -/
theorem Along.guarded {step : σ → α → Option σ} {P : σ → Prop} {good : σ → α → Prop} {s : σ}
    {as : List α} (h : Along step P s as) (hgood : ∀ s a, P s → good s a) :
    Guarded step good s as := by
  induction as generalizing s with
  | nil => trivial
  | cons a as ih => exact fun t ht => ⟨hgood s a h.1, ih (h.2 t ht)⟩

theorem Guarded.and {step : σ → α → Option σ} {good good' : σ → α → Prop} {s : σ}
    {as : List α} (h : Guarded step good s as) (h' : Guarded step good' s as) :
    Guarded step (fun s a => good s a ∧ good' s a) s as := by
  induction as generalizing s with
  | nil => trivial
  | cons a as ih =>
      intro t ht
      obtain ⟨hg, hrest⟩ := h t ht
      obtain ⟨hg', hrest'⟩ := h' t ht
      exact ⟨⟨hg, hg'⟩, ih hrest hrest'⟩

theorem Guarded.mono {step : σ → α → Option σ} {good good' : σ → α → Prop}
    (hgood : ∀ s a, good s a → good' s a) {s : σ} {as : List α} (h : Guarded step good s as) :
    Guarded step good' s as := by
  induction as generalizing s with
  | nil => trivial
  | cons a as ih => exact fun t ht => ⟨hgood s a (h t ht).1, ih (h t ht).2⟩

/-- The last step of a guarded run meets the guard in the state before it. -/
theorem Guarded.last {step : σ → α → Option σ} {good : σ → α → Prop} {s t u : σ}
    {as : List α} {a : α} (h : Guarded step good s (as ++ [a]))
    (hr : run step s as = some t) (hu : step t a = some u) : good t a := by
  induction as generalizing s with
  | nil =>
      simp only [run_nil, Option.some.injEq] at hr
      subst hr
      exact (h u hu).1
  | cons b as ih =>
      obtain ⟨v, hv, hr⟩ := Option.bind_eq_some_iff.mp hr
      exact ih (h v hv).2 hr

/-- A guarded run starts with a guarded run. -/
theorem Guarded.init {step : σ → α → Option σ} {good : σ → α → Prop} {s : σ}
    {as bs : List α} (h : Guarded step good s (as ++ bs)) : Guarded step good s as := by
  induction as generalizing s with
  | nil => trivial
  | cons a as ih => exact fun t ht => ⟨(h t ht).1, ih (h t ht).2⟩

theorem Along.mono {step : σ → α → Option σ} {P Q : σ → Prop} (hpq : ∀ s, P s → Q s)
    {s : σ} {as : List α} (h : Along step P s as) : Along step Q s as := by
  induction as generalizing s with
  | nil => exact hpq s h
  | cons a as ih => exact ⟨hpq s h.1, fun t ht => ih (h.2 t ht)⟩

/-- When a step that misses the guard always breaks `P`, the guard is exactly
what a run needs for `P` to hold in every state of it. -/
theorem along_iff_guarded {step : σ → α → Option σ} {good : σ → α → Prop} {I P : σ → Prop}
    (hP : ∀ s, I s → P s)
    (hgood : ∀ s a t, I s → good s a → step s a = some t → I t)
    (hbad : ∀ s a t, I s → ¬ good s a → step s a = some t → ¬ P t)
    {s : σ} {as : List α} (hs : I s) :
    Along step P s as ↔ Guarded step good s as := by
  constructor
  · intro h
    induction as generalizing s with
    | nil => trivial
    | cons a as ih =>
        intro t ht
        have hg : good s a := by
          by_contra hn
          exact hbad s a t hs hn ht (h.2 t ht).head
        exact ⟨hg, ih (hgood s a t hs hg ht) (h.2 t ht)⟩
  · intro h
    exact (along_of_guarded hgood hs h).mono hP

end GoSite.GuardedRuns
