import Mathlib

/-!
# Stable sorting in blocks

Blocks of twenty elements are sorted by insertion, and neighbouring blocks are
merged by splitting both at positions found by halving, until one block is left.
What the result is follows from what the comparison says about a later and an
earlier element, also for a comparison that is no strict order.
-/
namespace StableSorts

section
variable {α : Type*} (less : α → α → Bool)

/-- The position at which halving the positions from `i` to `j` ends. -/
@[grind] def search (p : ℕ → Bool) (i j : ℕ) : ℕ :=
  if i < j then
    if p ((i + j) / 2) then search p ((i + j) / 2 + 1) j else search p i ((i + j) / 2)
  else i
termination_by j - i

/-- Insert an element into a sorted block that is given last element first. -/
@[grind] def insertBack (x : α) : List α → List α
  | [] => [x]
  | y :: ys => if less x y then y :: insertBack x ys else x :: y :: ys

def insertionSort (block : List α) : List α :=
  (block.foldl (fun done x => insertBack less x done) []).reverse

/-- The comparison of the elements at two positions. -/
def lessAt : Option α → Option α → Bool
  | some y, some x => less y x
  | _, _ => false

/-- How many elements of the left block stay in the first half. -/
def symStart (l r : List α) : ℕ :=
  let mid := (l.length + r.length) / 2
  search (fun c => !lessAt less r[mid - 1 - c]? l[c]?)
    (if l.length > mid then mid - r.length else 0)
    (if l.length > mid then mid else l.length)

/-- Merge two neighbouring sorted blocks. One element is inserted; otherwise the
end of the left block and the beginning of the right block change places such
that the halves are merged apart. -/
@[grind] def symMerge (l r : List α) : List α :=
  if l.length = 1 then
    let i := search (fun h => lessAt less r[h]? l[0]?) 0 r.length
    r.take i ++ l ++ r.drop i
  else if r.length = 1 then
    let i := search (fun h => !lessAt less r[0]? l[h]?) 0 l.length
    l.take i ++ r ++ l.drop i
  else
    let mid := (l.length + r.length) / 2
    let start := symStart less l r
    (if 0 < start ∧ start < mid then symMerge (l.take start) (r.take (mid - start))
      else l.take start ++ r.take (mid - start)) ++
    (if start < l.length ∧ mid - start < r.length then
        symMerge (l.drop start) (r.drop (mid - start))
      else l.drop start ++ r.drop (mid - start))
termination_by l.length + r.length
decreasing_by
  · simp only [List.length_take]
    omega
  · simp only [List.length_drop]
    omega

@[grind] def mergePairs : List (List α) → List (List α)
  | a :: b :: rest => symMerge less a b :: mergePairs rest
  | bs => bs

theorem length_mergePairs (bs : List (List α)) :
    (mergePairs less bs).length = (bs.length + 1) / 2 := by
  induction bs using mergePairs.induct with
  | case1 a b rest ih =>
      simp only [mergePairs, List.length_cons, ih]
      omega
  | case2 bs h =>
      rw [mergePairs]
      · match bs with
        | [] => simp
        | [a] => simp
        | a :: b :: rest => exact (h a b rest rfl).elim
      · exact h

/-- Blocks of growing size are merged until one is left. -/
@[grind] def mergeBlocks : List (List α) → List α
  | [] => []
  | [b] => b
  | a :: b :: rest => mergeBlocks (mergePairs less (a :: b :: rest))
termination_by bs => bs.length
decreasing_by
  rw [length_mergePairs]
  simp only [List.length_cons]
  omega

/-- Consecutive blocks of one size; the last one may be shorter. -/
@[grind] def blocks (size : ℕ) (l : List α) : List (List α) :=
  if l = [] ∨ size = 0 then [] else l.take size :: blocks size (l.drop size)
termination_by l.length
decreasing_by
  rename_i h
  rw [not_or] at h
  have hpos := List.length_pos_iff.mpr h.1
  rw [List.length_drop]
  omega

def blockSize : ℕ := 20

def stable (l : List α) : List α :=
  mergeBlocks less ((blocks blockSize l).map (insertionSort less))

end

/-- A comparison that respects the order `P` of a sorted block: what it says
about an element of a later block and one of an earlier block carries over to
the elements after the one and before the other. -/
structure Arranging {α : Type*} (less : α → α → Bool) (P : α → α → Prop) : Prop where
  keep_left : ∀ {x x' y}, P x x' → less y x' = false → less y x = false
  keep_right : ∀ {x y y'}, P y y' → less y x = false → less y' x = false
  of_keep : ∀ {x y}, less y x = false → P x y
  of_move : ∀ {x y}, less y x = true → P y x

/-- `m` is a sorted merge of `l` and `r`. Among elements that the comparison never
tells apart those of `l` stay before those of `r`, or change places with them. -/
structure Merged {α : Type*} (less : α → α → Bool) (P : α → α → Prop) (l r m : List α) : Prop where
  perm : m.Perm (l ++ r)
  sorted : m.Pairwise P
  filter : ∀ (K : α → Bool) (flag : Bool),
    (∀ x ∈ l, ∀ y ∈ r, K x = true → K y = true → less y x = flag) →
    m.filter K = if flag then r.filter K ++ l.filter K else l.filter K ++ r.filter K

/-- `m` is `l` sorted. -/
structure Arranged {α : Type*} (less : α → α → Bool) (P : α → α → Prop) (l m : List α) : Prop where
  perm : m.Perm l
  sorted : m.Pairwise P
  filter : ∀ (K : α → Bool) (flag : Bool),
    (∀ x ∈ l, ∀ y ∈ l, K x = true → K y = true → less y x = flag) →
    m.filter K = if flag then (l.filter K).reverse else l.filter K

/-- Everything in the first halves goes before everything in the second ones. -/
structure Split {α : Type*} (less : α → α → Bool) (l₁ l₂ r₁ r₂ : List α) : Prop where
  keep : ∀ x ∈ l₁, ∀ y ∈ r₂, less y x = false
  move : ∀ x ∈ l₂, ∀ y ∈ r₁, less y x = true

section
variable {α : Type*} {less : α → α → Bool} {P : α → α → Prop} {l l₁ l₂ r r₁ r₂ m m₁ m₂ : List α}

/-! ## Halving -/

/-- The predicate holds just before the position found, and not at it. -/
theorem search_spec (p : ℕ → Bool) {i j : ℕ} (h : i ≤ j) :
    i ≤ search p i j ∧ search p i j ≤ j ∧ (i < search p i j → p (search p i j - 1) = true) ∧
      (search p i j < j → p (search p i j) = false) := by
  fun_induction search p i j with
  | case1 i j hij hp ih =>
      obtain ⟨hlow, hhigh, hbefore, hat⟩ := ih (by omega)
      refine ⟨by omega, hhigh, ?_, hat⟩
      intro _
      by_cases hlt : (i + j) / 2 + 1 < search p ((i + j) / 2 + 1) j
      · exact hbefore hlt
      · have heq : search p ((i + j) / 2 + 1) j - 1 = (i + j) / 2 := by omega
        rw [heq]
        exact hp
  | case2 i j hij hp ih =>
      obtain ⟨hlow, hhigh, hbefore, hat⟩ := ih (by omega)
      refine ⟨hlow, by omega, hbefore, ?_⟩
      intro _
      by_cases hlt : search p i ((i + j) / 2) < (i + j) / 2
      · exact hat hlt
      · have heq : search p i ((i + j) / 2) = (i + j) / 2 := by omega
        rw [heq]
        exact Bool.eq_false_iff.mpr hp
  | case3 i j hij =>
      refine ⟨Nat.le_refl i, h, ?_, ?_⟩
      · intro hlt
        omega
      · intro hlt
        omega

/-! ## Merging -/

theorem merged_nil_right (hl : l.Pairwise P) : Merged less P l [] l where
  perm := by simp
  sorted := hl
  filter K flag _ := by cases flag <;> simp

theorem merged_nil_left (hr : r.Pairwise P) : Merged less P [] r r where
  perm := by simp
  sorted := hr
  filter K flag _ := by cases flag <;> simp

theorem Split.of_filter (h : Split less l₁ l₂ r₁ r₂) {K : α → Bool} {flag : Bool}
    (hK : ∀ x ∈ l₁ ++ l₂, ∀ y ∈ r₁ ++ r₂, K x = true → K y = true → less y x = flag) :
    if flag then l₁.filter K = [] ∨ r₂.filter K = [] else l₂.filter K = [] ∨ r₁.filter K = [] := by
  simp only [List.filter_eq_nil_iff]
  cases flag with
  | true =>
      rw [if_pos rfl]
      by_contra hno
      push Not at hno
      obtain ⟨⟨x, hx, hxK⟩, ⟨y, hy, hyK⟩⟩ := hno
      have htrue := hK x (List.mem_append_left _ hx) y (List.mem_append_right _ hy) hxK hyK
      rw [h.keep x hx y hy] at htrue
      simp at htrue
  | false =>
      rw [if_neg (by simp)]
      by_contra hno
      push Not at hno
      obtain ⟨⟨x, hx, hxK⟩, ⟨y, hy, hyK⟩⟩ := hno
      have hfalse := hK x (List.mem_append_right _ hx) y (List.mem_append_left _ hy) hxK hyK
      rw [h.move x hx y hy] at hfalse
      simp at hfalse

/-- Merging two pairs of blocks apart merges the blocks they are halves of. -/
theorem Merged.append (ha : Arranging less P) (hl : (l₁ ++ l₂).Pairwise P)
    (hr : (r₁ ++ r₂).Pairwise P) (hsplit : Split less l₁ l₂ r₁ r₂) (h₁ : Merged less P l₁ r₁ m₁)
    (h₂ : Merged less P l₂ r₂ m₂) : Merged less P (l₁ ++ l₂) (r₁ ++ r₂) (m₁ ++ m₂) := by
  refine ⟨?_, ?_, ?_⟩
  · refine (h₁.perm.append h₂.perm).trans ?_
    rw [List.append_assoc, List.append_assoc]
    refine List.Perm.append_left _ ?_
    rw [← List.append_assoc, ← List.append_assoc]
    exact List.Perm.append_right _ List.perm_append_comm
  · rw [List.pairwise_append]
    refine ⟨h₁.sorted, h₂.sorted, ?_⟩
    intro x hx y hy
    rw [List.pairwise_append] at hl hr
    obtain hx | hx := List.mem_append.mp (h₁.perm.subset hx)
    · obtain hy | hy := List.mem_append.mp (h₂.perm.subset hy)
      · exact hl.2.2 x hx y hy
      · exact ha.of_keep (hsplit.keep x hx y hy)
    · obtain hy | hy := List.mem_append.mp (h₂.perm.subset hy)
      · exact ha.of_move (hsplit.move y hy x hx)
      · exact hr.2.2 x hx y hy
  · intro K flag hK
    have hnone := hsplit.of_filter hK
    rw [List.filter_append, h₁.filter K flag (fun x hx y hy => hK x (List.mem_append_left _ hx) y
        (List.mem_append_left _ hy)), h₂.filter K flag (fun x hx y hy => hK x
        (List.mem_append_right _ hx) y (List.mem_append_right _ hy))]
    cases flag with
    | true =>
        rw [if_pos rfl] at hnone
        obtain hnil | hnil := hnone <;> simp [hnil]
    | false =>
        rw [if_neg (by simp)] at hnone
        obtain hnil | hnil := hnone <;> simp [hnil]

/-- Blocks that are in order already. -/
theorem merged_append (ha : Arranging less P) (hl : l.Pairwise P) (hr : r.Pairwise P)
    (hkeep : ∀ x ∈ l, ∀ y ∈ r, less y x = false) : Merged less P l r (l ++ r) := by
  have hsplit : Split less l [] [] r := ⟨hkeep, by simp⟩
  have h := Merged.append ha (by simpa using hl) (by simpa using hr) hsplit
    (merged_nil_right hl) (merged_nil_left hr)
  simpa using h

/-- It is enough to compare the elements at the two cuts. -/
theorem split_of_ends (ha : Arranging less P) (hl : (l₁ ++ l₂).Pairwise P)
    (hr : (r₁ ++ r₂).Pairwise P)
    (hkeep : ∀ x ∈ l₁.getLast?, ∀ y ∈ r₂.head?, less y x = false)
    (hmove : ∀ x ∈ l₂.head?, ∀ y ∈ r₁.getLast?, less y x = true) : Split less l₁ l₂ r₁ r₂ := by
  have hlast : ∀ {s : List α}, s.Pairwise P → ∀ x ∈ s, ∃ z ∈ s.getLast?, x = z ∨ P x z := by
    intro s hs x hx
    obtain ⟨init, z, rfl⟩ := List.eq_nil_or_concat' s |>.resolve_left (List.ne_nil_of_mem hx)
    refine ⟨z, by simp, ?_⟩
    rw [List.mem_append, List.mem_singleton] at hx
    rw [List.pairwise_append] at hs
    obtain hx | rfl := hx
    · exact Or.inr (hs.2.2 x hx z (by simp))
    · exact Or.inl rfl
  have hhead : ∀ {s : List α}, s.Pairwise P → ∀ x ∈ s, ∃ z ∈ s.head?, x = z ∨ P z x := by
    intro s hs x hx
    cases s with
    | nil => simp at hx
    | cons z s =>
        refine ⟨z, by simp, ?_⟩
        obtain rfl | hx := List.mem_cons.mp hx
        · exact Or.inl rfl
        · exact Or.inr (List.rel_of_pairwise_cons hs hx)
  rw [List.pairwise_append] at hl hr
  refine ⟨?_, ?_⟩
  · intro x hx y hy
    obtain ⟨z, hz, hxz⟩ := hlast hl.1 x hx
    obtain ⟨w, hw, hyw⟩ := hhead hr.2.1 y hy
    have hzw : less w x = false := by
      obtain rfl | hxz := hxz
      · exact hkeep x hz w hw
      · exact ha.keep_left hxz (hkeep z hz w hw)
    obtain rfl | hyw := hyw
    · exact hzw
    · exact ha.keep_right hyw hzw
  · intro x hx y hy
    obtain ⟨z, hz, hxz⟩ := hhead hl.2.1 x hx
    obtain ⟨w, hw, hyw⟩ := hlast hr.1 y hy
    by_contra hno
    rw [Bool.not_eq_true] at hno
    have hyz : less y z = false := by
      obtain rfl | hxz := hxz
      · exact hno
      · exact ha.keep_left hxz hno
    have hwz : less w z = false := by
      obtain rfl | hyw := hyw
      · exact hyz
      · exact ha.keep_right hyw hyz
    rw [hmove z hz w hw] at hwz
    simp at hwz

/-- Where the left block is split, and what the comparison says at the two cuts. -/
theorem symStart_spec (less : α → α → Bool) (l r : List α) {mid : ℕ}
    (hm : mid = (l.length + r.length) / 2) :
    symStart less l r ≤ l.length ∧ symStart less l r ≤ mid ∧
      mid - symStart less l r ≤ r.length ∧
      (0 < symStart less l r → mid - symStart less l r < r.length →
        lessAt less r[mid - symStart less l r]? l[symStart less l r - 1]? = false) ∧
      (symStart less l r < l.length → 0 < mid - symStart less l r →
        lessAt less r[mid - symStart less l r - 1]? l[symStart less l r]? = true) := by
  obtain ⟨hlow, hhigh, hbefore, hat⟩ := search_spec
    (fun c => !lessAt less r[mid - 1 - c]? l[c]?)
    (i := if l.length > mid then mid - r.length else 0)
    (j := if l.length > mid then mid else l.length) (by split_ifs <;> omega)
  subst hm
  rw [← symStart.eq_1] at hlow hhigh hbefore hat
  generalize symStart less l r = start at *
  refine ⟨?_, ?_, ?_, ?_, ?_⟩
  · split_ifs at hhigh <;> omega
  · split_ifs at hhigh <;> omega
  · split_ifs at hlow <;> omega
  · intro hpos hlt
    have hp := hbefore (by split_ifs at hlow ⊢ <;> omega)
    have hindex : (l.length + r.length) / 2 - 1 - (start - 1) =
        (l.length + r.length) / 2 - start := by omega
    rw [hindex] at hp
    simpa using hp
  · intro hlt hpos
    have hp := hat (by split_ifs at hhigh ⊢ <;> omega)
    rw [Nat.sub_right_comm] at hp
    simpa using hp

/-- The position found splits both blocks. -/
theorem split_symStart (ha : Arranging less P) (hl : l.Pairwise P) (hr : r.Pairwise P) {mid : ℕ}
    (hm : mid = (l.length + r.length) / 2) :
    Split less (l.take (symStart less l r)) (l.drop (symStart less l r))
      (r.take (mid - symStart less l r)) (r.drop (mid - symStart less l r)) := by
  obtain ⟨hstart, -, hright, hbefore, hat⟩ := symStart_spec less l r hm
  generalize symStart less l r = start at *
  refine split_of_ends ha (by simpa using hl) (by simpa using hr) ?_ ?_
  · intro x hx y hy
    rw [List.getLast?_take] at hx
    rw [List.head?_drop] at hy
    by_cases hzero : start = 0
    · simp [hzero] at hx
    · have hx' : l[start - 1]? = some x := by
        rw [if_neg hzero, List.getElem?_eq_getElem (by omega)] at hx
        rw [List.getElem?_eq_getElem (by omega)]
        simpa using hx
      have hp := hbefore (by omega) (List.getElem?_eq_some_iff.mp hy).1
      rw [hx', hy] at hp
      simpa [lessAt] using hp
  · intro x hx y hy
    rw [List.head?_drop] at hx
    rw [List.getLast?_take] at hy
    by_cases hzero : mid - start = 0
    · simp [hzero] at hy
    · have hy' : r[mid - start - 1]? = some y := by
        rw [if_neg hzero, List.getElem?_eq_getElem (by omega)] at hy
        rw [List.getElem?_eq_getElem (by omega)]
        simpa using hy
      have hp := hat (List.getElem?_eq_some_iff.mp hx).1 (by omega)
      rw [hx, hy'] at hp
      simpa [lessAt] using hp

/-- A left block of one element goes before the first element it is not after. -/
theorem merged_single_left (ha : Arranging less P) {x : α} (hr : r.Pairwise P) {i : ℕ}
    (hi : i = search (fun h => lessAt less r[h]? [x][0]?) 0 r.length) :
    Merged less P [x] r (r.take i ++ [x] ++ r.drop i) := by
  obtain ⟨-, hlen, hbefore, hat⟩ := search_spec (fun h => lessAt less r[h]? [x][0]?)
    (Nat.zero_le r.length)
  rw [← hi] at hlen hbefore hat
  have hsplit : Split less [] [x] (r.take i) (r.drop i) := by
    refine split_of_ends ha (by simp) (by simpa using hr) (by simp) ?_
    intro z hz y hy
    rw [List.getLast?_take] at hy
    by_cases hzero : i = 0
    · simp [hzero] at hy
    · have hy' : r[i - 1]? = some y := by
        rw [if_neg hzero, List.getElem?_eq_getElem (by omega)] at hy
        rw [List.getElem?_eq_getElem (by omega)]
        simpa using hy
      have hp := hbefore (by omega)
      rw [hy'] at hp
      simp only [Option.mem_def, List.head?_cons, Option.some.injEq] at hz
      subst hz
      simpa [lessAt] using hp
  have hkeep : ∀ z ∈ [x], ∀ y ∈ r.drop i, less y z = false := by
    have hcut : Split less [x] [] [] (r.drop i) := by
      refine split_of_ends ha (by simp) (by simpa using hr.sublist (List.drop_sublist i r)) ?_
        (by simp)
      intro z hz y hy
      rw [List.head?_drop] at hy
      have hp := hat (List.getElem?_eq_some_iff.mp hy).1
      rw [hy] at hp
      simp only [Option.mem_def, List.getLast?_singleton, Option.some.injEq] at hz
      subst hz
      simpa [lessAt] using hp
    exact hcut.keep
  have hdrop : (r.drop i).Pairwise P := hr.sublist (List.drop_sublist i r)
  have h := Merged.append ha (by simp) (by simpa using hr) hsplit
    (merged_nil_left (hr.sublist (List.take_sublist i r)))
    (merged_append ha (by simp) hdrop hkeep)
  simpa using h

theorem merged_single_right (ha : Arranging less P) {y : α} (hl : l.Pairwise P) {i : ℕ}
    (hi : i = search (fun h => !lessAt less [y][0]? l[h]?) 0 l.length) :
    Merged less P l [y] (l.take i ++ [y] ++ l.drop i) := by
  obtain ⟨-, hlen, hbefore, hat⟩ := search_spec (fun h => !lessAt less [y][0]? l[h]?)
    (Nat.zero_le l.length)
  rw [← hi] at hlen hbefore hat
  have hsplit : Split less (l.take i) (l.drop i) [y] [] := by
    refine split_of_ends ha (by simpa using hl) (by simp) (by simp) ?_
    intro x hx z hz
    rw [List.head?_drop] at hx
    have hp := hat (List.getElem?_eq_some_iff.mp hx).1
    rw [hx] at hp
    simp only [Option.mem_def, List.getLast?_singleton, Option.some.injEq] at hz
    subst hz
    simpa [lessAt] using hp
  have htake : (l.take i).Pairwise P := hl.sublist (List.take_sublist i l)
  have hkeep : ∀ x ∈ l.take i, ∀ z ∈ [y], less z x = false := by
    have hcut : Split less (l.take i) [] [] [y] := by
      refine split_of_ends ha (by simpa using htake) (by simp) ?_ (by simp)
      intro x hx z hz
      rw [List.getLast?_take] at hx
      by_cases hzero : i = 0
      · simp [hzero] at hx
      · have hx' : l[i - 1]? = some x := by
          rw [if_neg hzero, List.getElem?_eq_getElem (by omega)] at hx
          rw [List.getElem?_eq_getElem (by omega)]
          simpa using hx
        have hp := hbefore (by omega)
        rw [hx'] at hp
        simp only [Option.mem_def, List.head?_cons, Option.some.injEq] at hz
        subst hz
        simpa [lessAt] using hp
    exact hcut.keep
  have h := Merged.append ha (by simpa using hl) (by simp) hsplit
    (merged_append ha htake (by simp) hkeep)
    (merged_nil_right (hl.sublist (List.drop_sublist i l)))
  simpa using h

theorem merged_symMerge (ha : Arranging less P) (hl : l.Pairwise P) (hr : r.Pairwise P) :
    Merged less P l r (symMerge less l r) := by
  fun_induction symMerge less l r with
  | case1 l r hone i =>
      obtain ⟨x, rfl⟩ := List.length_eq_one_iff.mp hone
      exact merged_single_left ha hr rfl
  | case2 l r hone hother i =>
      obtain ⟨y, rfl⟩ := List.length_eq_one_iff.mp hother
      exact merged_single_right ha hl rfl
  | case3 l r hone hother mid start ih₁ ih₂ =>
      have hlt := hl.sublist (List.take_sublist start l)
      have hrt := hr.sublist (List.take_sublist (mid - start) r)
      have hld := hl.sublist (List.drop_sublist start l)
      have hrd := hr.sublist (List.drop_sublist (mid - start) r)
      have hfirst : Merged less P (l.take start) (r.take (mid - start))
          (if 0 < start ∧ start < mid then symMerge less (l.take start) (r.take (mid - start))
            else l.take start ++ r.take (mid - start)) := by
        by_cases hcase : 0 < start ∧ start < mid
        · rw [if_pos hcase]
          exact ih₁ hcase hlt hrt
        · rw [if_neg hcase]
          refine merged_append ha hlt hrt ?_
          -- one of the two parts is empty
          intro x hx y hy
          have hstart := List.length_pos_of_mem hx
          have hrest := List.length_pos_of_mem hy
          rw [List.length_take] at hstart hrest
          omega
      have hsecond : Merged less P (l.drop start) (r.drop (mid - start))
          (if start < l.length ∧ mid - start < r.length then
              symMerge less (l.drop start) (r.drop (mid - start))
            else l.drop start ++ r.drop (mid - start)) := by
        by_cases hcase : start < l.length ∧ mid - start < r.length
        · rw [if_pos hcase]
          exact ih₂ hcase hld hrd
        · rw [if_neg hcase]
          refine merged_append ha hld hrd ?_
          intro x hx y hy
          have hstart := List.length_pos_of_mem hx
          have hrest := List.length_pos_of_mem hy
          rw [List.length_drop] at hstart hrest
          omega
      have h := Merged.append ha (by simpa using hl) (by simpa using hr)
        (split_symStart ha hl hr rfl) hfirst hsecond
      simpa only [List.take_append_drop] using h

/-! ## Sorting a block -/

theorem merged_insertBack (ha : Arranging less P) (x : α) {done : List α}
    (hdone : done.reverse.Pairwise P) :
    Merged less P done.reverse [x] (insertBack less x done).reverse := by
  induction done with
  | nil => exact merged_nil_left (by simp)
  | cons y ys ih =>
      rw [List.reverse_cons] at hdone ⊢
      have hys := (List.pairwise_append.mp hdone).1
      rw [insertBack]
      split_ifs with hless
      · rw [List.reverse_cons]
        have hsplit : Split less ys.reverse [y] [x] [] := ⟨by simp, by simpa using hless⟩
        exact Merged.append ha hdone (by simp) hsplit (ih hys) (merged_nil_right (by simp))
      · rw [List.reverse_cons, List.reverse_cons]
        refine merged_append ha hdone (by simp) ?_
        intro z hz w hw
        obtain rfl := List.mem_singleton.mp hw
        rw [Bool.not_eq_true] at hless
        obtain hz | hz := List.mem_append.mp hz
        · exact ha.keep_left ((List.pairwise_append.mp hdone).2.2 z hz y (by simp)) hless
        · rwa [List.mem_singleton.mp hz]

theorem arranged_nil : Arranged less P [] [] := ⟨.refl _, .nil, by simp⟩

/-- Merging what two lists are sorted to sorts the list they make up. -/
theorem Arranged.append (h₁ : Arranged less P l₁ m₁) (h₂ : Arranged less P l₂ m₂)
    (h : Merged less P m₁ m₂ m) : Arranged less P (l₁ ++ l₂) m := by
  refine ⟨h.perm.trans (h₁.perm.append h₂.perm), h.sorted, ?_⟩
  intro K flag hK
  rw [h.filter K flag, h₁.filter K flag, h₂.filter K flag]
  · cases flag <;> simp
  · intro x hx y hy
    exact hK x (List.mem_append_right _ hx) y (List.mem_append_right _ hy)
  · intro x hx y hy
    exact hK x (List.mem_append_left _ hx) y (List.mem_append_left _ hy)
  · intro x hx y hy
    exact hK x (List.mem_append_left _ (h₁.perm.subset hx)) y
      (List.mem_append_right _ (h₂.perm.subset hy))

theorem arranged_singleton (x : α) : Arranged less P [x] [x] where
  perm := .refl _
  sorted := by simp
  filter K flag _ := by
    cases flag
    · rfl
    · cases hK : K x <;> simp [hK]

/-- Insertion sorts a block. The induction is on the elements still to insert. -/
theorem arranged_insertionSort (ha : Arranging less P) (block : List α) :
    Arranged less P block (insertionSort less block) := by
  have key : ∀ (rest seen done : List α), Arranged less P seen done.reverse →
      Arranged less P (seen ++ rest)
        (rest.foldl (fun done x => insertBack less x done) done).reverse := by
    intro rest
    induction rest with
    | nil =>
        intro seen done h
        simpa using h
    | cons x rest ih =>
        intro seen done h
        have hstep := h.append (arranged_singleton x) (merged_insertBack ha x h.sorted)
        simpa using ih (seen ++ [x]) (insertBack less x done) hstep
  exact key block [] [] arranged_nil

/-! ## Merging the blocks -/

theorem flatten_blocks {size : ℕ} (hsize : size ≠ 0) (l : List α) :
    (blocks size l).flatten = l := by
  fun_induction blocks size l with
  | case1 l h => simp [h.resolve_right hsize]
  | case2 l h ih => rw [List.flatten_cons, ih, List.take_append_drop]

theorem arranged_mergePairs (ha : Arranging less P) {ls bs : List (List α)}
    (h : List.Forall₂ (Arranged less P) ls bs) :
    ∃ ls', ls'.flatten = ls.flatten ∧ List.Forall₂ (Arranged less P) ls' (mergePairs less bs) := by
  induction bs using mergePairs.induct generalizing ls with
  | case1 a b rest ih =>
      cases h with
      | cons hfirst h =>
          cases h with
          | cons hsecond hrest =>
              obtain ⟨ls', hflat, hpairs⟩ := ih hrest
              rename_i l₁ l₂ _
              refine ⟨(l₁ ++ l₂) :: ls', by simp [hflat], ?_⟩
              rw [mergePairs]
              exact .cons (hfirst.append hsecond
                (merged_symMerge ha hfirst.sorted hsecond.sorted)) hpairs
  | case2 bs hshort =>
      refine ⟨ls, rfl, ?_⟩
      rwa [mergePairs]
      exact hshort

theorem arranged_mergeBlocks (ha : Arranging less P) {ls bs : List (List α)}
    (h : List.Forall₂ (Arranged less P) ls bs) :
    Arranged less P ls.flatten (mergeBlocks less bs) := by
  fun_induction mergeBlocks less bs generalizing ls with
  | case1 =>
      cases h
      exact arranged_nil
  | case2 b =>
      cases h with
      | cons hfirst h =>
          cases h
          simpa using hfirst
  | case3 a b rest ih =>
      obtain ⟨ls', hflat, hpairs⟩ := arranged_mergePairs ha h
      rw [← hflat]
      exact ih hpairs

/-- The result is sorted. Elements the comparison never tells apart stay in
order if it says no of them, and change to the opposite order if it says yes. -/
theorem arranged_stable (ha : Arranging less P) (l : List α) :
    Arranged less P l (stable less l) := by
  have hblocks : List.Forall₂ (Arranged less P) (blocks blockSize l)
      ((blocks blockSize l).map (insertionSort less)) := by
    rw [List.forall₂_map_right_iff, List.forall₂_same]
    intro block _
    exact arranged_insertionSort ha block
  have h := arranged_mergeBlocks ha hblocks
  rwa [flatten_blocks (by decide)] at h

/-! ## Sorting by a key -/

section
variable {κ : Type*} [LinearOrder κ] (key : α → κ)

theorem arranging_key :
    Arranging (fun a b => decide (key a < key b)) fun a b => key a ≤ key b where
  keep_left hx hy := by
    rw [decide_eq_false_iff_not, not_lt] at hy ⊢
    exact hx.trans hy
  keep_right hy hx := by
    rw [decide_eq_false_iff_not, not_lt] at hx ⊢
    exact hx.trans hy
  of_keep h := by simpa using h
  of_move h := by simpa using (of_decide_eq_true h).le

/-- The negated comparison sorts in descending order. -/
theorem arranging_not_key :
    Arranging (fun a b => !decide (key a < key b)) fun a b => key b ≤ key a where
  keep_left hx hy := by
    simp only [Bool.not_eq_false', decide_eq_true_eq] at hy ⊢
    exact hy.trans_le hx
  keep_right hy hx := by
    simp only [Bool.not_eq_false', decide_eq_true_eq] at hx ⊢
    exact hy.trans_lt hx
  of_keep h := by
    simp only [Bool.not_eq_false', decide_eq_true_eq] at h
    exact h.le
  of_move h := by simpa using h

end

end

end StableSorts
