import Mathlib

/-!
# Boolean trees, with and without some of their leaves

A tree of conjunctions, disjunctions and negations over leaves, read with two
truth values or with the three of SQL. Pruning drops the leaves that are not
kept, and every node that has no kept leaf below it. What a dropped part stood
for is lost, so the pruned tree means the same only where the dropped parts were
neutral: true in a conjunction and false in a disjunction.
-/
namespace GoSite.BooleanTrees

variable {α : Type*}

inductive BoolTree (α : Type*) where
  | leaf (a : α)
  | and (children : List (BoolTree α))
  | or (children : List (BoolTree α))
  | not (child : BoolTree α)

/-- Every child of a conjunction or disjunction comes with its hypothesis. -/
@[elab_as_elim]
theorem BoolTree.induction {P : BoolTree α → Prop} (leaf : ∀ a, P (.leaf a))
    (and : ∀ cs, (∀ c ∈ cs, P c) → P (.and cs)) (or : ∀ cs, (∀ c ∈ cs, P c) → P (.or cs))
    (not : ∀ c, P c → P (.not c)) (e : BoolTree α) : P e := by
  refine BoolTree.rec (motive_2 := fun cs => ∀ c ∈ cs, P c) leaf and or not ?_ ?_ e
  · simp
  · intro c cs hc hcs d hd
    rcases List.mem_cons.mp hd with rfl | hd
    · exact hc
    · exact hcs d hd

mutual
/-- The truth value of a tree. -/
@[grind] def BoolTree.eval (v : α → Bool) : BoolTree α → Bool
  | .leaf a => v a
  | .and cs => BoolTree.evalAll v cs
  | .or cs => BoolTree.evalAny v cs
  | .not c => !c.eval v

@[grind] def BoolTree.evalAll (v : α → Bool) : List (BoolTree α) → Bool
  | [] => true
  | c :: cs => c.eval v && BoolTree.evalAll v cs

@[grind] def BoolTree.evalAny (v : α → Bool) : List (BoolTree α) → Bool
  | [] => false
  | c :: cs => c.eval v || BoolTree.evalAny v cs
end

/-- `AND` of SQL: false beats unknown. -/
def and3 : Option Bool → Option Bool → Option Bool
  | some false, _ => some false
  | _, some false => some false
  | some true, some true => some true
  | _, _ => none

/-- `OR` of SQL: true beats unknown. -/
def or3 : Option Bool → Option Bool → Option Bool
  | some true, _ => some true
  | _, some true => some true
  | some false, some false => some false
  | _, _ => none

mutual
/-- The truth value of a tree when some leaves are unknown. -/
@[grind] def BoolTree.eval3 (v : α → Option Bool) : BoolTree α → Option Bool
  | .leaf a => v a
  | .and cs => BoolTree.eval3All v cs
  | .or cs => BoolTree.eval3Any v cs
  | .not c => (c.eval3 v).map (!·)

@[grind] def BoolTree.eval3All (v : α → Option Bool) : List (BoolTree α) → Option Bool
  | [] => some true
  | c :: cs => and3 (c.eval3 v) (BoolTree.eval3All v cs)

@[grind] def BoolTree.eval3Any (v : α → Option Bool) : List (BoolTree α) → Option Bool
  | [] => some false
  | c :: cs => or3 (c.eval3 v) (BoolTree.eval3Any v cs)
end

mutual
/-- The leaves from left to right. -/
@[grind] def BoolTree.leaves : BoolTree α → List α
  | .leaf a => [a]
  | .and cs => BoolTree.leavesAll cs
  | .or cs => BoolTree.leavesAll cs
  | .not c => c.leaves

@[grind] def BoolTree.leavesAll : List (BoolTree α) → List α
  | [] => []
  | c :: cs => c.leaves ++ BoolTree.leavesAll cs
end

mutual
/-- Drop the leaves that are not kept and the nodes without a kept leaf. -/
@[grind] def BoolTree.prune (keep : α → Bool) : BoolTree α → Option (BoolTree α)
  | .leaf a => if keep a then some (.leaf a) else none
  | .and cs => match BoolTree.pruneAll keep cs with
      | [] => none
      | k :: ks => some (.and (k :: ks))
  | .or cs => match BoolTree.pruneAll keep cs with
      | [] => none
      | k :: ks => some (.or (k :: ks))
  | .not c => (c.prune keep).map .not

@[grind] def BoolTree.pruneAll (keep : α → Bool) : List (BoolTree α) → List (BoolTree α)
  | [] => []
  | c :: cs => match c.prune keep with
      | none => BoolTree.pruneAll keep cs
      | some k => k :: BoolTree.pruneAll keep cs
end

mutual
/-- Put a tree in the place of each leaf. -/
@[grind] def BoolTree.graft {β : Type*} (f : α → BoolTree β) : BoolTree α → BoolTree β
  | .leaf a => f a
  | .and cs => .and (BoolTree.graftAll f cs)
  | .or cs => .or (BoolTree.graftAll f cs)
  | .not c => .not (c.graft f)

@[grind]
def BoolTree.graftAll {β : Type*} (f : α → BoolTree β) : List (BoolTree α) → List (BoolTree β)
  | [] => []
  | c :: cs => c.graft f :: BoolTree.graftAll f cs
end

/-- A dropped part as a constant: none of its leaves holds. -/
def BoolTree.constant (e : BoolTree α) : Bool := e.eval fun _ => false

mutual
/-- Below each node that stays, the dropped children are neutral. -/
@[grind] def BoolTree.neutral (keep : α → Bool) : BoolTree α → Bool
  | .leaf _ => true
  | .and cs => BoolTree.neutralAll keep true cs
  | .or cs => BoolTree.neutralAll keep false cs
  | .not c => c.neutral keep

@[grind] def BoolTree.neutralAll (keep : α → Bool) (unit : Bool) : List (BoolTree α) → Bool
  | [] => true
  | c :: cs => (match c.prune keep with
      | none => c.constant == unit
      | some _ => c.neutral keep) && BoolTree.neutralAll keep unit cs
end

section
variable (v : α → Bool) (keep : α → Bool)

@[simp] theorem evalAll_eq (cs : List (BoolTree α)) : BoolTree.evalAll v cs = cs.all (·.eval v) := by
  induction cs with
  | nil => simp [BoolTree.evalAll]
  | cons c cs ih => simp [BoolTree.evalAll, ih]

@[simp] theorem evalAny_eq (cs : List (BoolTree α)) : BoolTree.evalAny v cs = cs.any (·.eval v) := by
  induction cs with
  | nil => simp [BoolTree.evalAny]
  | cons c cs ih => simp [BoolTree.evalAny, ih]

@[simp] theorem leavesAll_eq (cs : List (BoolTree α)) :
    BoolTree.leavesAll cs = cs.flatMap BoolTree.leaves := by
  induction cs with
  | nil => simp [BoolTree.leavesAll]
  | cons c cs ih => simp [BoolTree.leavesAll, ih]

@[simp] theorem pruneAll_eq (cs : List (BoolTree α)) :
    BoolTree.pruneAll keep cs = cs.filterMap (BoolTree.prune keep) := by
  induction cs with
  | nil => simp [BoolTree.pruneAll]
  | cons c cs ih =>
      cases h : c.prune keep <;> simp [BoolTree.pruneAll, h, ih]

@[simp] theorem neutralAll_eq_true (unit : Bool) (cs : List (BoolTree α)) :
    BoolTree.neutralAll keep unit cs = true ↔
      ∀ c ∈ cs, (c.prune keep = none → c.constant = unit) ∧
        (c.prune keep ≠ none → c.neutral keep = true) := by
  induction cs with
  | nil => simp [BoolTree.neutralAll]
  | cons c cs ih =>
      cases h : c.prune keep <;> simp [BoolTree.neutralAll, h, ih]

theorem eval_leaf (a : α) : (BoolTree.leaf a).eval v = v a := by simp [BoolTree.eval]

theorem eval_and (cs : List (BoolTree α)) : (BoolTree.and cs).eval v = cs.all (·.eval v) := by
  simp [BoolTree.eval]

theorem eval_or (cs : List (BoolTree α)) : (BoolTree.or cs).eval v = cs.any (·.eval v) := by
  simp [BoolTree.eval]

theorem eval_not (c : BoolTree α) : (BoolTree.not c).eval v = !c.eval v := by simp [BoolTree.eval]

end

/-- A tree looks at nothing but its leaves. -/
theorem eval_congr {v w : α → Bool} (e : BoolTree α) (h : ∀ a ∈ e.leaves, v a = w a) :
    e.eval v = e.eval w := by
  induction e using BoolTree.induction with
  | leaf a =>
      rw [eval_leaf, eval_leaf]
      exact h a (by simp [BoolTree.leaves])
  | and cs ih =>
      have hcs : ∀ c ∈ cs, c.eval v = c.eval w := fun c hc => ih c hc fun a ha =>
        h a (by simpa [BoolTree.leaves] using ⟨c, hc, ha⟩)
      rw [eval_and, eval_and, Bool.eq_iff_iff, List.all_eq_true, List.all_eq_true]
      exact forall₂_congr fun c hc => by rw [hcs c hc]
  | or cs ih =>
      have hcs : ∀ c ∈ cs, c.eval v = c.eval w := fun c hc => ih c hc fun a ha =>
        h a (by simpa [BoolTree.leaves] using ⟨c, hc, ha⟩)
      rw [eval_or, eval_or, Bool.eq_iff_iff, List.any_eq_true, List.any_eq_true]
      exact exists_congr fun c => and_congr_right fun hc => by rw [hcs c hc]
  | not c ih =>
      rw [eval_not, eval_not, ih]
      simpa [BoolTree.leaves] using h

/-- Where every leaf is known the three values are two. -/
theorem eval3_eq_some {u : α → Option Bool} {v : α → Bool} (e : BoolTree α)
    (h : ∀ a ∈ e.leaves, u a = some (v a)) : e.eval3 u = some (e.eval v) := by
  induction e using BoolTree.induction with
  | leaf a =>
      rw [eval_leaf, BoolTree.eval3]
      exact h a (by simp [BoolTree.leaves])
  | and cs ih =>
      have hcs : ∀ c ∈ cs, c.eval3 u = some (c.eval v) := fun c hc => ih c hc fun a ha =>
        h a (by simpa [BoolTree.leaves] using ⟨c, hc, ha⟩)
      clear ih h
      rw [eval_and, BoolTree.eval3]
      induction cs with
      | nil => rfl
      | cons c cs ih =>
          rw [BoolTree.eval3All, hcs c List.mem_cons_self,
            ih fun d hd => hcs d (List.mem_cons_of_mem c hd), List.all_cons]
          cases c.eval v <;> cases cs.all (·.eval v) <;> rfl
  | or cs ih =>
      have hcs : ∀ c ∈ cs, c.eval3 u = some (c.eval v) := fun c hc => ih c hc fun a ha =>
        h a (by simpa [BoolTree.leaves] using ⟨c, hc, ha⟩)
      clear ih h
      rw [eval_or, BoolTree.eval3]
      induction cs with
      | nil => rfl
      | cons c cs ih =>
          rw [BoolTree.eval3Any, hcs c List.mem_cons_self,
            ih fun d hd => hcs d (List.mem_cons_of_mem c hd), List.any_cons]
          cases c.eval v <;> cases cs.any (·.eval v) <;> rfl
  | not c ih =>
      rw [eval_not, BoolTree.eval3, ih (by simpa [BoolTree.leaves] using h)]
      rfl

theorem graftAll_eq {β : Type*} (f : α → BoolTree β) (cs : List (BoolTree α)) :
    BoolTree.graftAll f cs = cs.map (BoolTree.graft f) := by
  induction cs with
  | nil => simp [BoolTree.graftAll]
  | cons c cs ih => simp [BoolTree.graftAll, ih]

/-- A grafted tree means what the tree means over the values of the grafts. -/
theorem eval3_graft {β : Type*} (f : α → BoolTree β) (v : β → Option Bool) (e : BoolTree α) :
    (e.graft f).eval3 v = e.eval3 fun a => (f a).eval3 v := by
  induction e using BoolTree.induction with
  | leaf a => simp [BoolTree.graft, BoolTree.eval3]
  | and cs ih =>
      rw [BoolTree.graft, BoolTree.eval3, BoolTree.eval3]
      induction cs with
      | nil => rfl
      | cons c cs ihcs =>
          rw [BoolTree.graftAll, BoolTree.eval3All, BoolTree.eval3All, ih c List.mem_cons_self,
            ihcs fun d hd => ih d (List.mem_cons_of_mem c hd)]
  | or cs ih =>
      rw [BoolTree.graft, BoolTree.eval3, BoolTree.eval3]
      induction cs with
      | nil => rfl
      | cons c cs ihcs =>
          rw [BoolTree.graftAll, BoolTree.eval3Any, BoolTree.eval3Any, ih c List.mem_cons_self,
            ihcs fun d hd => ih d (List.mem_cons_of_mem c hd)]
  | not c ih => rw [BoolTree.graft, BoolTree.eval3, BoolTree.eval3, ih]

section
variable {keep : α → Bool}

theorem prune_and_eq_some {cs : List (BoolTree α)} {f : BoolTree α} :
    (BoolTree.and cs).prune keep = some f ↔
      cs.filterMap (BoolTree.prune keep) ≠ [] ∧ f = .and (cs.filterMap (BoolTree.prune keep)) := by
  rw [BoolTree.prune, pruneAll_eq]
  cases cs.filterMap (BoolTree.prune keep) with
  | nil => simp
  | cons k ks => simp [eq_comm]

theorem prune_or_eq_some {cs : List (BoolTree α)} {f : BoolTree α} :
    (BoolTree.or cs).prune keep = some f ↔
      cs.filterMap (BoolTree.prune keep) ≠ [] ∧ f = .or (cs.filterMap (BoolTree.prune keep)) := by
  rw [BoolTree.prune, pruneAll_eq]
  cases cs.filterMap (BoolTree.prune keep) with
  | nil => simp
  | cons k ks => simp [eq_comm]

theorem prune_and_eq_none {cs : List (BoolTree α)} :
    (BoolTree.and cs).prune keep = none ↔ ∀ c ∈ cs, c.prune keep = none := by
  rw [BoolTree.prune, pruneAll_eq, ← List.filterMap_eq_nil_iff]
  cases cs.filterMap (BoolTree.prune keep) <;> simp

theorem prune_or_eq_none {cs : List (BoolTree α)} :
    (BoolTree.or cs).prune keep = none ↔ ∀ c ∈ cs, c.prune keep = none := by
  rw [BoolTree.prune, pruneAll_eq, ← List.filterMap_eq_nil_iff]
  cases cs.filterMap (BoolTree.prune keep) <;> simp

theorem prune_not_eq_some {c f : BoolTree α} :
    (BoolTree.not c).prune keep = some f ↔ ∃ k, c.prune keep = some k ∧ f = .not k := by
  rw [BoolTree.prune, Option.map_eq_some_iff]
  simp [eq_comm]

theorem prune_leaf_eq_some {a : α} {f : BoolTree α} :
    (BoolTree.leaf a).prune keep = some f ↔ keep a = true ∧ f = .leaf a := by
  rw [BoolTree.prune]
  split_ifs with h <;> simp [h, eq_comm]

/-- Pruning drops a tree exactly when it keeps none of its leaves. -/
theorem prune_eq_none_iff (e : BoolTree α) :
    e.prune keep = none ↔ ∀ a ∈ e.leaves, keep a = false := by
  induction e using BoolTree.induction with
  | leaf a => simp [BoolTree.prune, BoolTree.leaves]
  | and cs ih =>
      rw [prune_and_eq_none, BoolTree.leaves, leavesAll_eq]
      simp only [List.mem_flatMap]
      constructor
      · rintro h a ⟨c, hc, ha⟩
        exact (ih c hc).mp (h c hc) a ha
      · intro h c hc
        exact (ih c hc).mpr fun a ha => h a ⟨c, hc, ha⟩
  | or cs ih =>
      rw [prune_or_eq_none, BoolTree.leaves, leavesAll_eq]
      simp only [List.mem_flatMap]
      constructor
      · rintro h a ⟨c, hc, ha⟩
        exact (ih c hc).mp (h c hc) a ha
      · intro h c hc
        exact (ih c hc).mpr fun a ha => h a ⟨c, hc, ha⟩
  | not c ih => simp [BoolTree.prune, BoolTree.leaves, ih]

/-- A pruned tree has the kept leaves of the whole one. -/
theorem leaves_prune {e f : BoolTree α} (h : e.prune keep = some f) :
    ∀ a ∈ f.leaves, a ∈ e.leaves ∧ keep a = true := by
  induction e using BoolTree.induction generalizing f with
  | leaf a =>
      obtain ⟨hk, rfl⟩ := prune_leaf_eq_some.mp h
      simp [BoolTree.leaves, hk]
  | and cs ih =>
      obtain ⟨-, rfl⟩ := prune_and_eq_some.mp h
      simp only [BoolTree.leaves, leavesAll_eq, List.mem_flatMap, List.mem_filterMap]
      rintro a ⟨k, ⟨c, hc, hk⟩, ha⟩
      obtain ⟨hac, hkeep⟩ := ih c hc hk a ha
      exact ⟨⟨c, hc, hac⟩, hkeep⟩
  | or cs ih =>
      obtain ⟨-, rfl⟩ := prune_or_eq_some.mp h
      simp only [BoolTree.leaves, leavesAll_eq, List.mem_flatMap, List.mem_filterMap]
      rintro a ⟨k, ⟨c, hc, hk⟩, ha⟩
      obtain ⟨hac, hkeep⟩ := ih c hc hk a ha
      exact ⟨⟨c, hc, hac⟩, hkeep⟩
  | not c ih =>
      obtain ⟨k, hk, rfl⟩ := prune_not_eq_some.mp h
      simpa [BoolTree.leaves] using ih hk

/-- The leaves that are not kept are false. -/
def Proper (keep v : α → Bool) : Prop := ∀ a, keep a = false → v a = false

theorem eval_of_prune_eq_none {v : α → Bool} (hv : Proper keep v) {e : BoolTree α}
    (h : e.prune keep = none) : e.eval v = e.constant := by
  refine eval_congr e fun a ha => ?_
  exact hv a ((prune_eq_none_iff e).mp h a ha)

/-- Dropping neutral parts does not change what a tree means. -/
theorem eval_prune {v : α → Bool} (hv : Proper keep v) {e f : BoolTree α}
    (hn : e.neutral keep = true) (h : e.prune keep = some f) : f.eval v = e.eval v := by
  induction e using BoolTree.induction generalizing f with
  | leaf a =>
      obtain ⟨-, rfl⟩ := prune_leaf_eq_some.mp h
      rfl
  | and cs ih =>
      obtain ⟨-, rfl⟩ := prune_and_eq_some.mp h
      rw [BoolTree.neutral, neutralAll_eq_true] at hn
      rw [eval_and, eval_and, Bool.eq_iff_iff, List.all_eq_true, List.all_eq_true]
      simp only [List.mem_filterMap]
      constructor
      · intro hall c hc
        cases hk : c.prune keep with
        | none =>
            rw [eval_of_prune_eq_none hv hk]
            exact (hn c hc).1 hk
        | some k =>
            rw [← ih c hc ((hn c hc).2 (by simp [hk])) hk]
            exact hall k ⟨c, hc, hk⟩
      · rintro hall k ⟨c, hc, hk⟩
        rw [ih c hc ((hn c hc).2 (by simp [hk])) hk]
        exact hall c hc
  | or cs ih =>
      obtain ⟨-, rfl⟩ := prune_or_eq_some.mp h
      rw [BoolTree.neutral, neutralAll_eq_true] at hn
      rw [eval_or, eval_or, Bool.eq_iff_iff, List.any_eq_true, List.any_eq_true]
      simp only [List.mem_filterMap]
      constructor
      · rintro ⟨k, ⟨c, hc, hk⟩, htrue⟩
        refine ⟨c, hc, ?_⟩
        rw [← ih c hc ((hn c hc).2 (by simp [hk])) hk]
        exact htrue
      · rintro ⟨c, hc, htrue⟩
        cases hk : c.prune keep with
        | none =>
            rw [eval_of_prune_eq_none hv hk, (hn c hc).1 hk] at htrue
            cases htrue
        | some k =>
            refine ⟨k, ⟨c, hc, hk⟩, ?_⟩
            rw [ih c hc ((hn c hc).2 (by simp [hk])) hk]
            exact htrue
  | not c ih =>
      obtain ⟨k, hk, rfl⟩ := prune_not_eq_some.mp h
      rw [eval_not, eval_not, ih (by simpa [BoolTree.neutral] using hn) hk]

/-- Valuations of trees without common kept leaves can be put together. -/
theorem exists_common_valuation (cs : List (BoolTree α))
    (hnd : (cs.flatMap fun c => c.leaves.filter keep).Nodup) (g : BoolTree α → α → Bool)
    (hg : ∀ c ∈ cs, Proper keep (g c)) :
    ∃ v, Proper keep v ∧ ∀ c ∈ cs, ∀ a ∈ c.leaves, v a = g c a := by
  classical
  induction cs with
  | nil => exact ⟨fun _ => false, fun _ _ => rfl, by simp⟩
  | cons c cs ih =>
      rw [List.flatMap_cons, List.nodup_append] at hnd
      obtain ⟨-, hrest, hdisj⟩ := hnd
      obtain ⟨v, hv, hcs⟩ := ih hrest fun d hd => hg d (List.mem_cons_of_mem c hd)
      refine ⟨fun a => if a ∈ c.leaves.filter keep then g c a else v a, ?_, ?_⟩
      · intro a ha
        have hna : a ∉ c.leaves.filter keep := by simp [ha]
        simpa [hna] using hv a ha
      · intro d hd a ha
        rcases List.mem_cons.mp hd with rfl | hd
        · cases hk : keep a with
          | true => simp [ha, hk]
          | false =>
              have hna : a ∉ d.leaves.filter keep := by simp [hk]
              simp only [if_neg hna, hv a hk, hg d List.mem_cons_self a hk]
        · have hna : a ∉ c.leaves.filter keep := by
            intro hac
            have hkeep := (List.mem_filter.mp hac).2
            have had : a ∈ cs.flatMap fun d => d.leaves.filter keep :=
              List.mem_flatMap.mpr ⟨d, hd, List.mem_filter.mpr ⟨ha, hkeep⟩⟩
            exact hdisj a hac a had rfl
          simpa only [if_neg hna] using hcs d hd a ha

theorem filter_leaves_and (cs : List (BoolTree α)) :
    (BoolTree.and cs).leaves.filter keep = cs.flatMap fun c => c.leaves.filter keep := by
  simp [BoolTree.leaves, List.filter_flatMap]

theorem filter_leaves_or (cs : List (BoolTree α)) :
    (BoolTree.or cs).leaves.filter keep = cs.flatMap fun c => c.leaves.filter keep := by
  simp [BoolTree.leaves, List.filter_flatMap]

theorem nodup_of_mem_flatMap {cs : List (BoolTree α)}
    (hnd : (cs.flatMap fun c => c.leaves.filter keep).Nodup) {c : BoolTree α} (hc : c ∈ cs) :
    (c.leaves.filter keep).Nodup :=
  (List.nodup_flatMap.mp hnd).1 c hc

/-- Values of the children, whole and pruned, can be chosen one by one. -/
theorem exists_children_values (cs : List (BoolTree α))
    (hnd : (cs.flatMap fun c => c.leaves.filter keep).Nodup)
    {R : BoolTree α → (α → Bool) → Prop}
    (hR : ∀ c ∈ cs, ∃ w, Proper keep w ∧ R c w)
    (hcongr : ∀ c v w, c.eval v = c.eval w →
      (∀ k, c.prune keep = some k → k.eval v = k.eval w) → R c w → R c v) :
    ∃ v, Proper keep v ∧ ∀ c ∈ cs, R c v := by
  have hchoice : ∀ c, ∃ w, c ∈ cs → Proper keep w ∧ R c w := by
    intro c
    by_cases hc : c ∈ cs
    · obtain ⟨w, hw⟩ := hR c hc
      exact ⟨w, fun _ => hw⟩
    · exact ⟨fun _ => false, fun h => absurd h hc⟩
  choose g hg using hchoice
  obtain ⟨v, hv, hcs⟩ := exists_common_valuation cs hnd g fun c hc => (hg c hc).1
  refine ⟨v, hv, fun c hc => hcongr c v (g c) ?_ ?_ (hg c hc).2⟩
  · exact eval_congr c fun a ha => hcs c hc a ha
  · intro k hk
    exact eval_congr k fun a ha => hcs c hc a (leaves_prune hk a ha).1

/-- The kept children can all be given the same value. -/
theorem exists_kept_eq (cs : List (BoolTree α))
    (hnd : (cs.flatMap fun c => c.leaves.filter keep).Nodup) (b : Bool)
    (h : ∀ c ∈ cs, ∀ k, c.prune keep = some k → ∃ v, Proper keep v ∧ k.eval v = b) :
    ∃ v, Proper keep v ∧ ∀ c ∈ cs, ∀ k, c.prune keep = some k → k.eval v = b := by
  refine exists_children_values cs hnd
    (R := fun c v => ∀ k, c.prune keep = some k → k.eval v = b) ?_ ?_
  · intro c hc
    cases hk : c.prune keep with
    | none => exact ⟨fun _ => false, fun _ _ => rfl, by simp⟩
    | some k =>
        obtain ⟨w, hw, hb⟩ := h c hc k hk
        refine ⟨w, hw, ?_⟩
        rintro k' ⟨⟩
        exact hb
  · intro c v w _ hk hw k hck
    rw [hk k hck]
    exact hw k hck

/-- A tree that repeats no kept leaf can be given either value. -/
theorem exists_eval_prune_eq {e f : BoolTree α} (h : e.prune keep = some f)
    (hnd : (e.leaves.filter keep).Nodup) (b : Bool) :
    ∃ v, Proper keep v ∧ f.eval v = b := by
  classical
  induction e using BoolTree.induction generalizing f b with
  | leaf a =>
      obtain ⟨hk, rfl⟩ := prune_leaf_eq_some.mp h
      refine ⟨fun x => if x = a then b else false, ?_, by simp [eval_leaf]⟩
      intro x hx
      have hne : x ≠ a := by
        rintro rfl
        simp [hk] at hx
      simp [hne]
  | and cs ih =>
      obtain ⟨hne, rfl⟩ := prune_and_eq_some.mp h
      rw [filter_leaves_and] at hnd
      obtain ⟨v, hv, hall⟩ := exists_kept_eq cs hnd b fun c hc k hk =>
        ih c hc hk (nodup_of_mem_flatMap hnd hc) b
      obtain ⟨k, hk⟩ := List.exists_mem_of_ne_nil _ hne
      have hvalues : ∀ k ∈ cs.filterMap (BoolTree.prune keep), k.eval v = b := by
        intro k hk
        obtain ⟨c, hc, hck⟩ := List.mem_filterMap.mp hk
        exact hall c hc k hck
      refine ⟨v, hv, ?_⟩
      rw [eval_and]
      cases b with
      | true => exact List.all_eq_true.mpr hvalues
      | false => exact List.all_eq_false.mpr ⟨k, hk, by simp [hvalues k hk]⟩
  | or cs ih =>
      obtain ⟨hne, rfl⟩ := prune_or_eq_some.mp h
      rw [filter_leaves_or] at hnd
      obtain ⟨v, hv, hall⟩ := exists_kept_eq cs hnd b fun c hc k hk =>
        ih c hc hk (nodup_of_mem_flatMap hnd hc) b
      obtain ⟨k, hk⟩ := List.exists_mem_of_ne_nil _ hne
      have hvalues : ∀ k ∈ cs.filterMap (BoolTree.prune keep), k.eval v = b := by
        intro k hk
        obtain ⟨c, hc, hck⟩ := List.mem_filterMap.mp hk
        exact hall c hc k hck
      refine ⟨v, hv, ?_⟩
      rw [eval_or]
      cases b with
      | true => exact List.any_eq_true.mpr ⟨k, hk, hvalues k hk⟩
      | false => exact List.any_eq_false.mpr fun k hk => by simp [hvalues k hk]
  | not c ih =>
      obtain ⟨k, hk, rfl⟩ := prune_not_eq_some.mp h
      obtain ⟨v, hv, hb⟩ := ih hk (by simpa [BoolTree.leaves] using hnd) (!b)
      exact ⟨v, hv, by simp [eval_not, hb]⟩

/-- One step of the converse, for a node that is `unit` when its children are:
a child that is not neutral, or that differs from its pruned form, can be made
to show. -/
theorem exists_node_differs {cs : List (BoolTree α)} {unit : Bool}
    (hnd : (cs.flatMap fun c => c.leaves.filter keep).Nodup)
    (ih : ∀ c ∈ cs, ∀ k, c.prune keep = some k → c.neutral keep = false →
      ∃ v, Proper keep v ∧ k.eval v ≠ c.eval v)
    (hn : BoolTree.neutralAll keep unit cs = false) :
    ∃ v, Proper keep v ∧
      ((∀ c ∈ cs, ∀ k, c.prune keep = some k → k.eval v = unit) ↔
        ¬ ∀ c ∈ cs, c.eval v = unit) := by
  classical
  have hkept : ∀ c ∈ cs, ∀ k, c.prune keep = some k → ∃ v, Proper keep v ∧ k.eval v = unit :=
    fun c hc k hk => exists_eval_prune_eq hk (nodup_of_mem_flatMap hnd hc) unit
  -- a child that is never `unit` shows when every kept child is made `unit`
  have hstuck : ∀ d ∈ cs, (∀ v, Proper keep v → d.eval v ≠ unit) → ∃ v, Proper keep v ∧
      ((∀ c ∈ cs, ∀ k, c.prune keep = some k → k.eval v = unit) ↔
        ¬ ∀ c ∈ cs, c.eval v = unit) := by
    intro d hd hnever
    obtain ⟨v, hv, hall⟩ := exists_kept_eq cs hnd unit hkept
    exact ⟨v, hv, iff_of_true hall fun h => hnever v hv (h d hd)⟩
  have hbad : ∃ c ∈ cs, (c.prune keep = none ∧ c.constant ≠ unit) ∨
      ∃ k, c.prune keep = some k ∧ c.neutral keep = false := by
    by_contra hgood
    rw [← Bool.not_eq_true, neutralAll_eq_true] at hn
    refine hn fun c hc => ⟨fun hnone => ?_, fun hsome => ?_⟩
    · by_contra hne
      exact hgood ⟨c, hc, Or.inl ⟨hnone, hne⟩⟩
    · obtain ⟨k, hk⟩ := Option.ne_none_iff_exists'.mp hsome
      by_contra hne
      exact hgood ⟨c, hc, Or.inr ⟨k, hk, by simpa using hne⟩⟩
  obtain ⟨c, hc, ⟨hnone, hconst⟩ | ⟨k, hk, hneutral⟩⟩ := hbad
  · refine hstuck c hc fun v hv => ?_
    rw [eval_of_prune_eq_none hv hnone]
    exact hconst
  · obtain ⟨w, hw, hdiff⟩ := ih c hc k hk hneutral
    by_cases hothers : ∀ d ∈ cs, ∃ v, Proper keep v ∧ d.eval v = unit
    · -- the other children follow `c`: pruned ones when it is pruned to `unit`, whole ones else
      obtain ⟨v, hv, hvals⟩ := exists_children_values cs hnd
        (R := fun d v => (d = c → d.eval v = c.eval w ∧
            ∀ k, d.prune keep = some k → k.eval v = k.eval w) ∧
          (d ≠ c → (k.eval w = unit → ∀ k', d.prune keep = some k' → k'.eval v = unit) ∧
            (k.eval w ≠ unit → d.eval v = unit)))
        (by
          intro d hd
          by_cases hdc : d = c
          · exact ⟨w, hw, fun _ => ⟨by rw [hdc], fun _ _ => rfl⟩, fun h => absurd hdc h⟩
          · by_cases hku : k.eval w = unit
            · cases hd' : d.prune keep with
              | none =>
                  exact ⟨fun _ => false, fun _ _ => rfl, fun h => absurd h hdc, fun _ =>
                    ⟨by simp, fun h => absurd hku h⟩⟩
              | some k' =>
                  obtain ⟨u, hu, hval⟩ := hkept d hd k' hd'
                  refine ⟨u, hu, fun h => absurd h hdc, fun _ => ⟨fun _ => ?_, fun h =>
                    absurd hku h⟩⟩
                  rintro k'' ⟨⟩
                  exact hval
            · obtain ⟨u, hu, hval⟩ := hothers d hd
              exact ⟨u, hu, fun h => absurd h hdc, fun _ => ⟨fun h => absurd h hku, fun _ =>
                hval⟩⟩)
        (by
          rintro d v u hdv hkv ⟨heq, hne⟩
          refine ⟨fun h => ⟨hdv.trans (heq h).1, fun k' hk' =>
            (hkv k' hk').trans ((heq h).2 k' hk')⟩, fun h => ⟨fun hku k' hk' =>
            (hkv k' hk').trans ((hne h).1 hku k' hk'), fun hku => hdv.trans ((hne h).2 hku)⟩⟩)
      have hcv := (hvals c hc).1 rfl
      have hkv := hcv.2 k hk
      refine ⟨v, hv, ?_⟩
      by_cases hku : k.eval w = unit
      · refine iff_of_true ?_ ?_
        · intro d hd k' hk'
          by_cases hdc : d = c
          · subst hdc
            rw [hk, Option.some.injEq] at hk'
            subst hk'
            exact hkv.trans hku
          · exact ((hvals d hd).2 hdc).1 hku k' hk'
        · intro hall
          exact hdiff (hku.trans (hcv.1.symm.trans (hall c hc)).symm)
      · refine iff_of_false ?_ ?_
        · intro hall
          exact hku (hkv.symm.trans (hall c hc k hk))
        · rw [not_not]
          intro d hd
          by_cases hdc : d = c
          · subst hdc
            rw [hcv.1]
            by_contra hne
            exact hdiff ((Bool.eq_not_of_ne hku).trans (Bool.eq_not_of_ne hne).symm)
          · exact ((hvals d hd).2 hdc).2 hku
    · simp only [not_forall, not_exists, not_and] at hothers
      obtain ⟨d, hd, hnever⟩ := hothers
      exact hstuck d hd hnever

/-- Where no kept leaf is repeated, dropping a part that is not neutral changes
what the tree means. -/
theorem exists_eval_prune_ne {e f : BoolTree α} (h : e.prune keep = some f)
    (hnd : (e.leaves.filter keep).Nodup) (hn : e.neutral keep = false) :
    ∃ v, Proper keep v ∧ f.eval v ≠ e.eval v := by
  induction e using BoolTree.induction generalizing f with
  | leaf a => simp [BoolTree.neutral] at hn
  | and cs ih =>
      obtain ⟨-, rfl⟩ := prune_and_eq_some.mp h
      rw [filter_leaves_and] at hnd
      obtain ⟨v, hv, hiff⟩ := exists_node_differs hnd
        (fun c hc k hk hcn => ih c hc hk (nodup_of_mem_flatMap hnd hc) hcn) hn
      refine ⟨v, hv, fun heq => ?_⟩
      have hpruned : (BoolTree.and (cs.filterMap (BoolTree.prune keep))).eval v = true ↔
          ∀ c ∈ cs, ∀ k, c.prune keep = some k → k.eval v = true := by
        rw [eval_and, List.all_eq_true]
        simp only [List.mem_filterMap]
        exact ⟨fun h c hc k hk => h k ⟨c, hc, hk⟩, fun h k ⟨c, hc, hk⟩ => h c hc k hk⟩
      have hwhole : (BoolTree.and cs).eval v = true ↔ ∀ c ∈ cs, c.eval v = true := by
        rw [eval_and, List.all_eq_true]
      rw [← hpruned, ← hwhole, heq] at hiff
      exact iff_not_self hiff
  | or cs ih =>
      obtain ⟨-, rfl⟩ := prune_or_eq_some.mp h
      rw [filter_leaves_or] at hnd
      obtain ⟨v, hv, hiff⟩ := exists_node_differs hnd
        (fun c hc k hk hcn => ih c hc hk (nodup_of_mem_flatMap hnd hc) hcn) hn
      refine ⟨v, hv, fun heq => ?_⟩
      have hpruned : (BoolTree.or (cs.filterMap (BoolTree.prune keep))).eval v = false ↔
          ∀ c ∈ cs, ∀ k, c.prune keep = some k → k.eval v = false := by
        rw [eval_or, List.any_eq_false]
        simp only [List.mem_filterMap, Bool.not_eq_true]
        exact ⟨fun h c hc k hk => h k ⟨c, hc, hk⟩, fun h k ⟨c, hc, hk⟩ => h c hc k hk⟩
      have hwhole : (BoolTree.or cs).eval v = false ↔ ∀ c ∈ cs, c.eval v = false := by
        rw [eval_or, List.any_eq_false]
        simp
      rw [← hpruned, ← hwhole, heq] at hiff
      exact iff_not_self hiff
  | not c ih =>
      obtain ⟨k, hk, rfl⟩ := prune_not_eq_some.mp h
      obtain ⟨v, hv, hne⟩ := ih hk (by simpa [BoolTree.leaves] using hnd)
        (by simpa [BoolTree.neutral] using hn)
      refine ⟨v, hv, ?_⟩
      rw [eval_not, eval_not]
      simpa using hne

end

end GoSite.BooleanTrees
