import Mathlib

/-!
# Substituting bracketed keys

A key is a word between an opening and a closing symbol that has no bracket inside. Two
occurrences of keys in a text never overlap, so a text around a key is substituted in
two halves. A template is read as a list of symbols and keys, and filling all of it at
once is compared with substituting one key after the other.
-/
namespace GoSite.Substitution

/-- Bracketed names. -/
structure Keys (ι α : Type*) where
  opening : α
  closing : α
  name : ι → List α
  opening_ne : opening ≠ closing
  opening_notMem : ∀ p, opening ∉ name p
  closing_notMem : ∀ p, closing ∉ name p
  injective : Function.Injective name

/-- A name with its brackets. -/
def Keys.key (K : Keys ι α) (p : ι) : List α := K.opening :: (K.name p ++ [K.closing])

section
variable {α ι : Type*} {K : Keys ι α} {p q : ι} {s x y : List α}

theorem opening_notMem_tail (K : Keys ι α) (p : ι) : K.opening ∉ K.name p ++ [K.closing] := by
  rw [List.mem_append, List.mem_singleton, not_or]
  exact ⟨K.opening_notMem p, K.opening_ne⟩

/-- An occurrence that begins before a key ends before it. -/
theorem key_prefix_before {c : α} :
    K.key p <+: c :: (x ++ (K.key q ++ y)) ↔ K.key p <+: c :: x := by
  constructor
  · intro h
    have hx : c :: x <+: c :: (x ++ (K.key q ++ y)) := ⟨K.key q ++ y, rfl⟩
    rcases List.prefix_or_prefix_of_prefix h hx with hshort | ⟨r, hr⟩
    · exact hshort
    · cases r with
      | nil => exact ⟨[], by rw [List.append_nil, ← hr, List.append_nil]⟩
      | cons d r =>
          exfalso
          rw [← hr, List.cons_append, List.cons_prefix_cons] at h
          have htail := (List.prefix_append_right_inj x).mp h.2
          have hd : d = K.opening := (List.cons_prefix_cons.mp htail).1
          have hmem := (List.cons.inj hr).2
          exact opening_notMem_tail K p (hmem ▸ by simp [hd])
  · exact fun h => h.trans ⟨K.key q ++ y, rfl⟩

theorem key_not_first {c : α} (hc : c ≠ K.opening) : ¬ K.key p <+: c :: s :=
  fun h => hc (List.cons_prefix_cons.mp h).1.symm

end

variable {α ι : Type*} [DecidableEq α]

/-- Replaces the occurrences of a word from left to right. The number counts the symbols
still to be skipped. -/
@[grind] def substitute (k v : List α) : ℕ → List α → List α
  | _, [] => []
  | skip + 1, _ :: cs => substitute k v skip cs
  | 0, c :: cs =>
      if k <+: c :: cs then v ++ substitute k v (k.length - 1) cs
      else c :: substitute k v 0 cs

/-- How often a word stands in a text. -/
@[grind] def occurrences (k : List α) : List α → ℕ
  | [] => 0
  | c :: cs => (if k <+: c :: cs then 1 else 0) + occurrences k cs

section
variable {K : Keys ι α} {p q : ι} {v s x y : List α}

theorem substitute_skip (k v : List α) (n : ℕ) (s : List α) :
    substitute k v n s = substitute k v 0 (s.drop n) := by
  induction n generalizing s with
  | zero => rfl
  | succ n ih =>
      cases s with
      | nil => simp [substitute]
      | cons c cs => rw [substitute, ih, List.drop_succ_cons]

theorem substitute_key (v y : List α) :
    substitute (K.key p) v 0 (K.key p ++ y) = v ++ substitute (K.key p) v 0 y := by
  have hpre : K.key p <+: K.opening :: (K.name p ++ [K.closing] ++ y) := ⟨y, rfl⟩
  have hdrop : (K.name p ++ [K.closing] ++ y).drop ((K.key p).length - 1) = y := by
    rw [show (K.key p).length - 1 = (K.name p ++ [K.closing]).length from rfl]
    exact List.drop_left
  rw [show K.key p ++ y = K.opening :: (K.name p ++ [K.closing] ++ y) from rfl, substitute,
    if_pos hpre, substitute_skip, hdrop]

theorem substitute_cons {c : α} (h : ¬ K.key p <+: c :: s) :
    substitute (K.key p) v 0 (c :: s) = c :: substitute (K.key p) v 0 s := by
  rw [substitute, if_neg h]

/-- A text that begins with a key begins with no other. -/
theorem key_prefix_key : K.key p <+: K.key q ++ y ↔ p = q := by
  constructor
  · rintro ⟨r, hr⟩
    have htail : K.name p ++ K.closing :: r = K.name q ++ K.closing :: y := by
      simpa [Keys.key] using hr
    have htake : ∀ (p : ι) (r : List α),
        (K.name p ++ K.closing :: r).takeWhile (fun d => decide (d ≠ K.closing)) = K.name p := by
      intro p r
      have hall : ∀ d ∈ K.name p, decide (d ≠ K.closing) = true := by
        intro d hd
        rw [decide_eq_true_eq]
        exact fun heq => K.closing_notMem p (heq ▸ hd)
      rw [List.takeWhile_append_of_pos hall]
      simp
    exact K.injective ((htake p r).symm.trans (htail ▸ htake q y))
  · rintro rfl
    exact ⟨y, rfl⟩

/-! ## Texts around a key -/

theorem occurrences_inside (hs : K.opening ∉ s) (y : List α) :
    occurrences (K.key p) (s ++ y) = occurrences (K.key p) y := by
  induction s with
  | nil => rfl
  | cons c s ih =>
      rw [List.mem_cons, not_or] at hs
      rw [List.cons_append, occurrences, if_neg (key_not_first (Ne.symm hs.1)), ih hs.2,
        Nat.zero_add]

theorem substitute_inside (hs : K.opening ∉ s) (v y : List α) :
    substitute (K.key p) v 0 (s ++ y) = s ++ substitute (K.key p) v 0 y := by
  induction s with
  | nil => rfl
  | cons c s ih =>
      rw [List.mem_cons, not_or] at hs
      rw [List.cons_append, substitute_cons (key_not_first (Ne.symm hs.1)), ih hs.2,
        List.cons_append]

theorem occurrences_around [DecidableEq ι] (p q : ι) (x y : List α) :
    occurrences (K.key p) (x ++ (K.key q ++ y)) =
      occurrences (K.key p) x + ((if p = q then 1 else 0) + occurrences (K.key p) y) := by
  induction x with
  | nil =>
      have hfirst : K.key p <+: K.opening :: (K.name q ++ [K.closing] ++ y) ↔ p = q :=
        key_prefix_key
      rw [List.nil_append, occurrences, Nat.zero_add,
        show K.key q ++ y = K.opening :: (K.name q ++ [K.closing] ++ y) from rfl, occurrences,
        occurrences_inside (opening_notMem_tail K q)]
      simp only [hfirst]
  | cons c x ih =>
      rw [List.cons_append, occurrences, occurrences, ih, Nat.add_assoc]
      simp only [key_prefix_before]

theorem substitute_around [DecidableEq ι] (p q : ι) (v x y : List α) :
    substitute (K.key p) v 0 (x ++ (K.key q ++ y)) =
      substitute (K.key p) v 0 x ++
        ((if p = q then v else K.key q) ++ substitute (K.key p) v 0 y) := by
  induction hn : x.length using Nat.strong_induction_on generalizing x with
  | _ n ih =>
      subst hn
      cases x with
      | nil =>
          rw [List.nil_append, show substitute (K.key p) v 0 [] = [] from rfl, List.nil_append]
          split_ifs with heq
          · rw [heq, substitute_key]
          · have hfirst : ¬ K.key p <+: K.opening :: (K.name q ++ [K.closing] ++ y) :=
              fun h => heq (key_prefix_key.mp h)
            rw [show K.key q ++ y = K.opening :: (K.name q ++ [K.closing] ++ y) from rfl,
              substitute_cons hfirst, substitute_inside (opening_notMem_tail K q)]
            rfl
      | cons c x =>
          by_cases hpre : K.key p <+: c :: x
          · obtain ⟨rest, hrest⟩ := hpre
            have hlen : rest.length < (c :: x).length := by
              rw [← hrest]
              simp only [List.length_append, Keys.key, List.length_cons]
              omega
            rw [← hrest, List.append_assoc, substitute_key, substitute_key, ih _ hlen rest rfl,
              List.append_assoc]
          · have hpre' : ¬ K.key p <+: c :: (x ++ (K.key q ++ y)) :=
              fun h => hpre (key_prefix_before.mp h)
            rw [List.cons_append, substitute_cons hpre', substitute_cons hpre,
              ih x.length (by simp) x rfl, List.cons_append]

/-- A text has no occurrence of a key, or it has a first one. -/
theorem key_cases (p : ι) (s : List α) :
    occurrences (K.key p) s = 0 ∨ ∃ a b, s = a ++ (K.key p ++ b) ∧ occurrences (K.key p) a = 0 := by
  classical
  induction s with
  | nil => exact .inl rfl
  | cons c s ih =>
      by_cases hpre : K.key p <+: c :: s
      · obtain ⟨b, hb⟩ := hpre
        exact .inr ⟨[], b, hb.symm, rfl⟩
      · rcases ih with hnone | ⟨a, b, rfl, ha⟩
        · rw [occurrences, if_neg hpre, hnone]
          exact .inl rfl
        · refine .inr ⟨c :: a, b, rfl, ?_⟩
          rw [occurrences, ha, if_neg fun h => hpre (key_prefix_before.mpr h)]

/-- Induction over the occurrences of a key. -/
theorem key_induction (p : ι) {motive : List α → Prop}
    (none : ∀ s, occurrences (K.key p) s = 0 → motive s)
    (some : ∀ a b, occurrences (K.key p) a = 0 → motive b → motive (a ++ (K.key p ++ b)))
    (s : List α) : motive s := by
  induction hn : s.length using Nat.strong_induction_on generalizing s with
  | _ n ih =>
      subst hn
      rcases key_cases (K := K) p s with hs | ⟨a, b, rfl, ha⟩
      · exact none s hs
      · refine some a b ha (ih b.length ?_ b rfl)
        simp only [List.length_append, Keys.key, List.length_cons]
        omega

/-! ## What a substitution keeps -/

theorem le_occurrences_append (k x y : List α) :
    occurrences k x + occurrences k y ≤ occurrences k (x ++ y) := by
  induction x with
  | nil => simp [occurrences]
  | cons c x ih =>
      rw [List.cons_append, occurrences, occurrences]
      have hmono : (if k <+: c :: x then 1 else 0) ≤ if k <+: c :: (x ++ y) then 1 else 0 := by
        split_ifs with h hnot
        · exact le_rfl
        · exact absurd (h.trans ⟨y, rfl⟩) hnot
        · exact Nat.zero_le _
        · exact le_rfl
      omega

theorem substitute_of_absent (h : occurrences (K.key p) s = 0) :
    substitute (K.key p) v 0 s = s := by
  induction s with
  | nil => rfl
  | cons c s ih =>
      rw [occurrences, Nat.add_eq_zero_iff] at h
      have hpre : ¬ K.key p <+: c :: s := fun hpre => by simp [hpre] at h
      rw [substitute_cons hpre, ih h.2]

variable [DecidableEq ι]

theorem substitute_self (s : List α) : substitute (K.key p) (K.key p) 0 s = s := by
  induction s using key_induction (K := K) p with
  | none s hs => exact substitute_of_absent hs
  | some a b ha ih => rw [substitute_around, if_pos rfl, ih, substitute_of_absent ha]

theorem length_substitute (s : List α) :
    (substitute (K.key p) v 0 s).length + occurrences (K.key p) s * (K.key p).length =
      s.length + occurrences (K.key p) s * v.length := by
  induction s using key_induction (K := K) p with
  | none s hs => rw [substitute_of_absent hs, hs, Nat.zero_mul, Nat.zero_mul]
  | some a b ha ih =>
      rw [substitute_around, occurrences_around, substitute_of_absent ha, ha, if_pos rfl,
        if_pos rfl]
      simp only [List.length_append] at ih ⊢
      linarith

/-- A symbol that is in no key is counted by the values put in. -/
theorem count_substitute {c : α} (hc : c ∉ K.key p) (s : List α) :
    (substitute (K.key p) v 0 s).count c = s.count c + occurrences (K.key p) s * v.count c := by
  induction s using key_induction (K := K) p with
  | none s hs => rw [substitute_of_absent hs, hs, Nat.zero_mul, Nat.add_zero]
  | some a b ha ih =>
      rw [substitute_around, occurrences_around, substitute_of_absent ha, ha, if_pos rfl,
        if_pos rfl]
      simp only [List.count_append, List.count_eq_zero_of_not_mem hc] at ih ⊢
      rw [ih]
      ring

/-- Substituting one key removes no other. -/
theorem occurrences_le_substitute (hpq : q ≠ p) (s : List α) :
    occurrences (K.key q) s ≤ occurrences (K.key q) (substitute (K.key p) v 0 s) := by
  induction s using key_induction (K := K) p with
  | none s hs => rw [substitute_of_absent hs]
  | some a b ha ih =>
      rw [substitute_around, if_pos rfl, substitute_of_absent ha, occurrences_around, if_neg hpq]
      have houter := le_occurrences_append (K.key q) a (v ++ substitute (K.key p) v 0 b)
      have hinner := le_occurrences_append (K.key q) v (substitute (K.key p) v 0 b)
      omega

end

end GoSite.Substitution
