import GoSite.BracketedKeys

/-!
# Filling templates

A template is a list of symbols and keys. Filling some of its keys is compared with
substituting them one by one, where a value can bring in new occurrences of the other
keys. No order of substitution errs exactly when no value does so.
-/
namespace GoSite.Substitution

variable {α ι : Type*}

section
variable [DecidableEq α]

/-- A template read from left to right. The number counts the symbols still to be
skipped. -/
@[grind] def pieces (K : Keys ι α) (names : List ι) : ℕ → List α → List (α ⊕ ι)
  | _, [] => []
  | skip + 1, _ :: cs => pieces K names skip cs
  | 0, c :: cs =>
      match names.find? (fun p => K.key p <+: c :: cs) with
      | some p => .inr p :: pieces K names ((K.key p).length - 1) cs
      | none => .inl c :: pieces K names 0 cs

/-- The keys are substituted one after the other. -/
def substituteAll (K : Keys ι α) (v : ι → List α) (order : List ι) (s : List α) : List α :=
  order.foldl (fun s p => substitute (K.key p) (v p) 0 s) s

variable {K : Keys ι α} {names : List ι}

theorem pieces_skip (n : ℕ) (s : List α) : pieces K names n s = pieces K names 0 (s.drop n) := by
  induction n generalizing s with
  | zero => rfl
  | succ n ih =>
      cases s with
      | nil => simp [pieces]
      | cons c cs => rw [pieces, ih, List.drop_succ_cons]

theorem pieces_cons {c : α} {t : List α} (h : ∀ p, ¬ K.key p <+: c :: t) :
    pieces K names 0 (c :: t) = .inl c :: pieces K names 0 t := by
  have hfind : names.find? (fun p => K.key p <+: c :: t) = none :=
    List.find?_eq_none.mpr fun p _ => by simpa using h p
  rw [pieces, hfind]

end

section
variable [DecidableEq ι]

/-- One piece, when the keys of the set are filled. -/
def fill (K : Keys ι α) (v : ι → List α) (A : Finset ι) : α ⊕ ι → List α
  | .inl c => [c]
  | .inr p => if p ∈ A then v p else K.key p

def filled (K : Keys ι α) (v : ι → List α) (A : Finset ι) (w : List (α ⊕ ι)) : List α :=
  w.flatMap (fill K v A)

/-- How often the template has the key. -/
@[grind] def standing (q : ι) : List (α ⊕ ι) → ℕ
  | [] => 0
  | .inl _ :: w => standing q w
  | .inr p :: w => (if q = p then 1 else 0) + standing q w

variable {K : Keys ι α} {v : ι → List α} {A B : Finset ι} {p q : ι} {w : List (α ⊕ ι)}

@[simp] theorem filled_nil : filled K v A [] = [] := rfl

theorem filled_cons (piece : α ⊕ ι) (w : List (α ⊕ ι)) :
    filled K v A (piece :: w) = fill K v A piece ++ filled K v A w := rfl

theorem fill_mem (hp : p ∈ A) : fill K v A (.inr p) = v p := if_pos hp

theorem fill_notMem (hp : p ∉ A) : fill K v A (.inr p) = K.key p := if_neg hp

/-- Nothing is left to fill of the piece. -/
def Done (A : Finset ι) (piece : α ⊕ ι) : Prop := ∀ p, piece = .inr p → p ∈ A

/-- Induction over the keys that are not filled yet. -/
theorem filled_induction (A : Finset ι) {motive : List (α ⊕ ι) → Prop} (nil : motive [])
    (done : ∀ piece w, Done A piece → motive w → motive (piece :: w))
    (todo : ∀ p w, p ∉ A → motive w → motive (.inr p :: w)) (w : List (α ⊕ ι)) :
    motive w := by
  induction w with
  | nil => exact nil
  | cons piece w ih =>
      cases piece with
      | inl c => exact done _ w (fun p hp => by cases hp) ih
      | inr p =>
          by_cases hp : p ∈ A
          · exact done _ w (fun q hq => Sum.inr.inj hq ▸ hp) ih
          · exact todo p w hp ih

theorem Done.fill_eq {piece : α ⊕ ι} (h : Done A piece) (hAB : A ⊆ B) :
    fill K v B piece = fill K v A piece := by
  cases piece with
  | inl c => rfl
  | inr p => rw [fill_mem (hAB (h p rfl)), fill_mem (h p rfl)]

theorem Done.standing_cons {piece : α ⊕ ι} (h : Done A piece) (hq : q ∉ A) :
    standing q (piece :: w) = standing q w := by
  cases piece with
  | inl c => rfl
  | inr p => rw [standing, if_neg fun heq : q = p => hq (heq ▸ h p rfl), Nat.zero_add]

theorem filled_insert_self (h : v q = K.key q) :
    filled K v (insert q A) w = filled K v A w := by
  induction w using filled_induction A with
  | nil => rfl
  | done piece w hdone ih =>
      rw [filled_cons, filled_cons, hdone.fill_eq (Finset.subset_insert q A), ih]
  | todo p w hp ih =>
      rw [filled_cons, filled_cons, ih, fill_notMem hp, fill]
      split_ifs with hmem
      · rw [(Finset.mem_insert.mp hmem).resolve_right hp, h]
      · rfl

theorem length_filled_insert (hq : q ∉ A) :
    (filled K v (insert q A) w).length + standing q w * (K.key q).length =
      (filled K v A w).length + standing q w * (v q).length := by
  induction w using filled_induction A with
  | nil => simp [standing]
  | done piece w hdone ih =>
      rw [filled_cons, filled_cons, hdone.fill_eq (Finset.subset_insert q A),
        hdone.standing_cons hq, List.length_append, List.length_append]
      omega
  | todo p w hp ih =>
      rw [filled_cons, filled_cons, fill_notMem hp, standing, List.length_append,
        List.length_append]
      by_cases hpq : q = p
      · subst hpq
        rw [fill_mem (Finset.mem_insert_self _ _), if_pos rfl, Nat.add_mul, Nat.add_mul]
        omega
      · have hmem : p ∉ insert q A := by simp [Ne.symm hpq, hp]
        rw [fill_notMem hmem, if_neg hpq, Nat.zero_add]
        omega

end

variable [DecidableEq α] [DecidableEq ι]

/-- With the keys of the set filled, the key stands only where the template has it, or
its value is the key itself. -/
def Clean (K : Keys ι α) (v : ι → List α) (w : List (α ⊕ ι)) (A : Finset ι) (q : ι) : Prop :=
  occurrences (K.key q) (filled K v A w) = standing q w ∨ v q = K.key q

section
variable {K : Keys ι α} {v : ι → List α} {names : List ι} {A B : Finset ι} {p q : ι}
  {w : List (α ⊕ ι)}

/-! ## Reading a template -/

theorem pieces_key (hp : p ∈ names) (t : List α) :
    pieces K names 0 (K.key p ++ t) = .inr p :: pieces K names 0 t := by
  have hfirst : ∀ q, K.key q <+: K.opening :: (K.name p ++ [K.closing] ++ t) ↔ q = p :=
    fun q => key_prefix_key
  have hfind : names.find? (fun q => K.key q <+: K.opening :: (K.name p ++ [K.closing] ++ t)) =
      some p := by
    simp only [hfirst]
    cases hf : names.find? (fun q => decide (q = p)) with
    | none => exact absurd (List.find?_eq_none.mp hf p hp) (by simp)
    | some q =>
        have hq := List.find?_some (p := fun q => decide (q = p)) hf
        rw [of_decide_eq_true hq]
  have hdrop : (K.name p ++ [K.closing] ++ t).drop ((K.key p).length - 1) = t := by
    rw [show (K.key p).length - 1 = (K.name p ++ [K.closing]).length from rfl]
    exact List.drop_left
  rw [show K.key p ++ t = K.opening :: (K.name p ++ [K.closing] ++ t) from rfl, pieces, hfind]
  dsimp only
  rw [pieces_skip, hdrop]

/-- Induction along the pieces of a template. -/
theorem template_induction (hnames : ∀ p, p ∈ names) {motive : List α → List (α ⊕ ι) → Prop}
    (nil : motive [] [])
    (key : ∀ p t, motive t (pieces K names 0 t) →
      motive (K.key p ++ t) (.inr p :: pieces K names 0 t))
    (symbol : ∀ c t, (∀ p, ¬ K.key p <+: c :: t) → motive t (pieces K names 0 t) →
      motive (c :: t) (.inl c :: pieces K names 0 t))
    (s : List α) : motive s (pieces K names 0 s) := by
  induction hn : s.length using Nat.strong_induction_on generalizing s with
  | _ n ih =>
      subst hn
      cases s with
      | nil => simpa [pieces] using nil
      | cons c t =>
          by_cases hkey : ∃ p, K.key p <+: c :: t
          · obtain ⟨p, rest, hrest⟩ := hkey
            have hlen : rest.length < (c :: t).length := by
              rw [← hrest]
              simp only [List.length_append, Keys.key, List.length_cons]
              omega
            rw [← hrest, pieces_key (hnames p)]
            exact key p rest (ih _ hlen rest rfl)
          · rw [not_exists] at hkey
            rw [pieces_cons hkey]
            exact symbol c t hkey (ih _ (Nat.lt_succ_self _) t rfl)

theorem filled_empty (hnames : ∀ p, p ∈ names) (s : List α) :
    filled K v ∅ (pieces K names 0 s) = s := by
  induction s using template_induction (K := K) hnames with
  | nil => rfl
  | key p t ih => rw [filled_cons, fill_notMem (Finset.notMem_empty p), ih]
  | symbol c t h ih => rw [filled_cons, ih]; rfl

/-- The occurrences of a key in a template are its pieces. -/
theorem occurrences_eq_standing (hnames : ∀ p, p ∈ names) (q : ι) (s : List α) :
    occurrences (K.key q) s = standing q (pieces K names 0 s) := by
  induction s using template_induction (K := K) hnames with
  | nil => rfl
  | key p t ih =>
      have haround := occurrences_around (K := K) q p [] t
      rw [List.nil_append, occurrences, Nat.zero_add, ih] at haround
      exact haround
  | symbol c t h ih => rw [occurrences, if_neg (h q), ih, Nat.zero_add, standing]

theorem clean_empty (hnames : ∀ p, p ∈ names) (q : ι) (s : List α) :
    Clean K v (pieces K names 0 s) ∅ q := by
  refine .inl ?_
  rw [filled_empty hnames, occurrences_eq_standing hnames]

/-! ## Filling more keys -/

theorem standing_le_occurrences (hq : q ∉ A) (x : List α) :
    occurrences (K.key q) x + standing q w ≤
      occurrences (K.key q) (x ++ filled K v A w) := by
  induction w using filled_induction A generalizing x with
  | nil => simp [standing]
  | done piece w hdone ih =>
      rw [hdone.standing_cons hq, filled_cons, ← List.append_assoc]
      have hmore := le_occurrences_append (K.key q) x (fill K v A piece)
      exact Nat.le_trans (by omega) (ih (x ++ fill K v A piece))
  | todo p w hp ih =>
      have hrest := ih []
      rw [List.nil_append, occurrences, Nat.zero_add] at hrest
      rw [filled_cons, fill_notMem hp, occurrences_around, standing]
      omega

/-- Filling more keys makes no occurrence of another key vanish. -/
theorem occurrences_filled_mono (hAB : A ⊆ B) (hq : q ∉ B) (x : List α) :
    occurrences (K.key q) (x ++ filled K v A w) ≤
      occurrences (K.key q) (x ++ filled K v B w) := by
  induction w using filled_induction A generalizing x with
  | nil => exact le_rfl
  | done piece w hdone ih =>
      rw [filled_cons, filled_cons, hdone.fill_eq hAB, ← List.append_assoc, ← List.append_assoc]
      exact ih _
  | todo p w hpA ih =>
      have hrest := ih []
      rw [List.nil_append, List.nil_append] at hrest
      rw [filled_cons, filled_cons, fill_notMem hpA, occurrences_around]
      by_cases hpB : p ∈ B
      · rw [fill_mem hpB, if_neg fun heq : q = p => hq (heq ▸ hpB)]
        have houter := le_occurrences_append (K.key q) x (v p ++ filled K v B w)
        have hinner := le_occurrences_append (K.key q) (v p) (filled K v B w)
        omega
      · rw [fill_notMem hpB, occurrences_around]
        omega

theorem Clean.mono (hAB : A ⊆ B) (hq : q ∉ B) (h : Clean K v w B q) :
    Clean K v w A q := by
  refine h.imp_left fun hcount => ?_
  have hmono := occurrences_filled_mono (K := K) (v := v) (w := w) hAB hq []
  have hle := standing_le_occurrences (K := K) (v := v) (w := w)
    (fun hmem => hq (hAB hmem)) []
  rw [List.nil_append] at hmono hle
  rw [List.nil_append] at hmono
  rw [occurrences, Nat.zero_add] at hle
  omega

/-- A clean key is substituted where the template has it. -/
theorem substitute_filled (hq : q ∉ A) (h : Clean K v w A q) :
    substitute (K.key q) (v q) 0 (filled K v A w) = filled K v (insert q A) w := by
  rcases h with hcount | hself
  · suffices hfronted : ∀ x : List α,
        occurrences (K.key q) (x ++ filled K v A w) = standing q w →
          substitute (K.key q) (v q) 0 (x ++ filled K v A w) =
            x ++ filled K v (insert q A) w from hfronted [] hcount
    clear hcount
    induction w using filled_induction A with
    | nil =>
        intro x hx
        rw [filled_nil, List.append_nil] at hx ⊢
        rw [filled_nil, List.append_nil, substitute_of_absent hx]
    | done piece w hdone ih =>
        intro x hx
        rw [filled_cons, ← List.append_assoc] at hx ⊢
        rw [hdone.standing_cons hq] at hx
        rw [ih _ hx, filled_cons, hdone.fill_eq (Finset.subset_insert q A), List.append_assoc]
    | todo p w hp ih =>
        intro x hx
        have hle := standing_le_occurrences (K := K) (v := v) (w := w) hq []
        rw [List.nil_append, occurrences, Nat.zero_add] at hle
        rw [filled_cons, fill_notMem hp, occurrences_around, standing] at hx
        have habsent : occurrences (K.key q) x = 0 := by omega
        have hrest := ih [] (by rw [List.nil_append]; omega)
        rw [List.nil_append, List.nil_append] at hrest
        rw [filled_cons, filled_cons, fill_notMem hp, substitute_around, hrest,
          substitute_of_absent habsent, fill]
        by_cases hpq : q = p
        · subst hpq
          rw [if_pos rfl, if_pos (Finset.mem_insert_self _ _)]
        · rw [if_neg hpq, if_neg (by simp [Ne.symm hpq, hp])]
  · rw [hself, substitute_self, filled_insert_self hself]

/-- An occurrence of a key beyond those of the template stays where it is when keys are
filled with values of their own lengths. -/
theorem foreign_occurrence (hAB : A ⊆ B)
    (hlen : ∀ p ∈ B, p ∉ A → (v p).length = (K.key p).length) (x : List α)
    (h : standing q w < occurrences (K.key q) (x ++ filled K v A w)) :
    ∃ a b a' b', x ++ filled K v A w = a ++ (K.key q ++ b) ∧
      x ++ filled K v B w = a' ++ (K.key q ++ b') ∧ a.length = a'.length := by
  induction w using filled_induction A generalizing x with
  | nil =>
      rw [filled_nil, List.append_nil] at h ⊢
      rcases key_cases (K := K) q x with hnone | ⟨a, b, hx, _⟩
      · omega
      · exact ⟨a, b, a, b, hx, by rw [filled_nil, List.append_nil, hx], rfl⟩
  | done piece w hdone ih =>
      rw [filled_cons, filled_cons, hdone.fill_eq hAB, ← List.append_assoc, ← List.append_assoc]
      rw [filled_cons, ← List.append_assoc] at h
      refine ih _ (Nat.lt_of_le_of_lt ?_ h)
      cases piece with
      | inl c => exact le_rfl
      | inr p => exact Nat.le_add_left _ _
  | todo p w hp ih =>
      rw [filled_cons, fill_notMem hp] at h ⊢
      rw [occurrences_around, standing] at h
      rw [filled_cons]
      rcases key_cases (K := K) q x with hnone | ⟨a, b, hx, _⟩
      · obtain ⟨a, b, a', b', hA, hB, hab⟩ := ih [] (by rw [List.nil_append]; omega)
        rw [List.nil_append] at hA hB
        refine ⟨x ++ (K.key p ++ a), b, x ++ (fill K v B (.inr p) ++ a'), b', ?_, ?_, ?_⟩
        · rw [hA]
          simp only [List.append_assoc]
        · rw [hB]
          simp only [List.append_assoc]
        · have hfill : (fill K v B (.inr p)).length = (K.key p).length := by
            by_cases hpB : p ∈ B
            · rw [fill_mem hpB, hlen p hpB hp]
            · rw [fill_notMem hpB]
          simp only [List.length_append, hfill, hab]
      · exact ⟨a, b ++ (K.key p ++ filled K v A w), a,
          b ++ (fill K v B (.inr p) ++ filled K v B w), by rw [hx]; simp,
          by rw [hx]; simp, rfl⟩

theorem length_substitute_of_length (hlen : (v p).length = (K.key p).length) (s : List α) :
    (substitute (K.key p) (v p) 0 s).length = s.length := by
  have h := length_substitute (K := K) (p := p) (v := v p) s
  rw [hlen] at h
  omega

/-- Where substituting a key fills the template, the key was clean. -/
theorem clean_of_substitute (hq : q ∉ A)
    (h : substitute (K.key q) (v q) 0 (filled K v A w) =
      filled K v (insert q A) w) : Clean K v w A q := by
  have hle := standing_le_occurrences (K := K) (v := v) (w := w) hq []
  rw [List.nil_append, occurrences, Nat.zero_add] at hle
  rcases hle.eq_or_lt with heq | hlt
  · exact .inl heq.symm
  · have hsub := length_substitute (K := K) (p := q) (v := v q) (filled K v A w)
    have hfill := length_filled_insert (K := K) (v := v) (w := w) hq
    rw [h] at hsub
    have hlen : (v q).length = (K.key q).length := by
      obtain ⟨d, hd⟩ := Nat.exists_eq_add_of_lt hlt
      rw [hd] at hsub
      nlinarith
    have hins : ∀ p ∈ insert q A, p ∉ A → (v p).length = (K.key p).length := by
      intro p hp hpA
      rw [(Finset.mem_insert.mp hp).resolve_right hpA, hlen]
    obtain ⟨a, b, a', b', hA, hB, hab⟩ :=
      foreign_occurrence (Finset.subset_insert q A) hins [] (by rw [List.nil_append]; exact hlt)
    rw [List.nil_append] at hA hB
    rw [hA, hB, substitute_around, if_pos rfl] at h
    have htail := (List.append_inj h ((length_substitute_of_length hlen a).trans hab)).2
    exact .inr (List.append_inj htail hlen).1

theorem count_filled_insert {c : α} (hc : ∀ p, c ∉ K.key p) (hq : q ∉ A) :
    (filled K v (insert q A) w).count c =
      (filled K v A w).count c + standing q w * (v q).count c := by
  induction w using filled_induction A with
  | nil => simp [standing]
  | done piece w hdone ih =>
      rw [filled_cons, filled_cons, hdone.fill_eq (Finset.subset_insert q A),
        hdone.standing_cons hq, List.count_append, List.count_append, ih, Nat.add_assoc]
  | todo p w hp ih =>
      rw [filled_cons, filled_cons, fill_notMem hp, standing, List.count_append,
        List.count_append, ih, List.count_eq_zero_of_not_mem (hc p)]
      by_cases hpq : q = p
      · subst hpq
        rw [fill_mem (Finset.mem_insert_self _ _), if_pos rfl]
        ring
      · have hmem : p ∉ insert q A := by simp [Ne.symm hpq, hp]
        rw [fill_notMem hmem, if_neg hpq, List.count_eq_zero_of_not_mem (hc p),
          Nat.zero_add (standing q w), Nat.zero_add, Nat.zero_add]

theorem count_filled_union {c : α} (hc : ∀ p, c ∉ K.key p) {rest : List ι} (hnodup : rest.Nodup)
    (hrest : ∀ p ∈ rest, p ∉ A) :
    (filled K v (A ∪ rest.toFinset) w).count c =
      (filled K v A w).count c +
        (rest.map fun p => standing p w * (v p).count c).sum := by
  induction rest generalizing A with
  | nil => simp
  | cons q rest ih =>
      obtain ⟨hq, hnodup⟩ := List.nodup_cons.mp hnodup
      have hfresh : ∀ p ∈ rest, p ∉ insert q A := by
        intro p hp hmem
        rcases Finset.mem_insert.mp hmem with rfl | hmem
        · exact hq hp
        · exact hrest p (List.mem_cons_of_mem _ hp) hmem
      rw [List.toFinset_cons, Finset.union_insert, ← Finset.insert_union, ih hnodup hfresh,
        count_filled_insert hc (hrest q List.mem_cons_self), List.map_cons, List.sum_cons,
        Nat.add_assoc]

/-- A symbol of no key is counted at least where it was put in at first. -/
theorem count_le_substituteAll {c : α} (hc : ∀ p, c ∉ K.key p) {order : List ι}
    (hnodup : order.Nodup) (s : List α) :
    s.count c + (order.map fun p => occurrences (K.key p) s * (v p).count c).sum ≤
      (substituteAll K v order s).count c := by
  induction order generalizing s with
  | nil => simp [substituteAll]
  | cons p order ih =>
      obtain ⟨hp, hnodup⟩ := List.nodup_cons.mp hnodup
      have hrest := ih hnodup (substitute (K.key p) (v p) 0 s)
      rw [count_substitute (hc p)] at hrest
      have hsum : (order.map fun q => occurrences (K.key q) s * (v q).count c).sum ≤
          (order.map fun q => occurrences (K.key q) (substitute (K.key p) (v p) 0 s) *
            (v q).count c).sum := by
        refine List.sum_le_sum fun q hq => Nat.mul_le_mul_right _ ?_
        exact occurrences_le_substitute (fun heq : q = p => hp (heq ▸ hq)) s
      rw [List.map_cons, List.sum_cons]
      refine Nat.le_trans ?_ hrest
      omega

/-- A value with a symbol that no key has cannot have been put in too often, when the
rest of the keys comes out right. -/
theorem clean_of_heavy {c : α} (hc : ∀ p, c ∉ K.key p) {rest : List ι} (hnodup : rest.Nodup)
    (hrest : ∀ p ∈ rest, p ∉ A) (hq : q ∈ rest) (hheavy : c ∈ v q)
    (h : substituteAll K v rest (filled K v A w) =
      filled K v (A ∪ rest.toFinset) w) : Clean K v w A q := by
  have hle : ∀ p ∈ rest, standing p w ≤ occurrences (K.key p) (filled K v A w) := by
    intro p hp
    have hle := standing_le_occurrences (K := K) (v := v) (w := w) (hrest p hp) []
    rwa [List.nil_append, occurrences, Nat.zero_add] at hle
  by_contra hnot
  have hlt : standing q w < occurrences (K.key q) (filled K v A w) :=
    lt_of_le_of_ne (hle q hq) fun heq => hnot (.inl heq.symm)
  have hsum : (rest.map fun p => standing p w * (v p).count c).sum <
      (rest.map fun p =>
        occurrences (K.key p) (filled K v A w) * (v p).count c).sum := by
    refine List.sum_lt_sum _ _ (fun p hp => Nat.mul_le_mul_right _ (hle p hp)) ⟨q, hq, ?_⟩
    exact Nat.mul_lt_mul_of_pos_right hlt (List.count_pos_iff.mpr hheavy)
  have hcount := count_le_substituteAll (v := v) hc hnodup (filled K v A w)
  rw [h, count_filled_union hc hnodup hrest] at hcount
  omega

/-- Two keys that both stand too often can come out right only if one value is too short
where the other is too long. -/
theorem balance_of_unclean (hpq : p ≠ q) (hp : p ∉ A) (hq : q ∉ A) (hnp : ¬ Clean K v w A p)
    (hnq : ¬ Clean K v w A q)
    (h : substituteAll K v [p, q] (filled K v A w) =
      filled K v (insert q (insert p A)) w) :
    ∃ f g : ℤ, 0 < f ∧ 0 < g ∧ f * ((v p).length - (K.key p).length) +
      g * ((v q).length - (K.key q).length) = 0 := by
  have hlt : ∀ r, r ∉ A → ¬ Clean K v w A r →
      standing r w < occurrences (K.key r) (filled K v A w) := by
    intro r hr hnot
    have hle := standing_le_occurrences (K := K) (v := v) (w := w) hr []
    rw [List.nil_append, occurrences, Nat.zero_add] at hle
    exact lt_of_le_of_ne hle fun heq => hnot (.inl heq.symm)
  have hltp := hlt p hp hnp
  have hltq := hlt q hq hnq
  have hmono := occurrences_le_substitute (K := K) (v := v p) (Ne.symm hpq)
    (filled K v A w)
  have hsubp := length_substitute (K := K) (p := p) (v := v p) (filled K v A w)
  have hsubq := length_substitute (K := K) (p := q) (v := v q)
    (substitute (K.key p) (v p) 0 (filled K v A w))
  have hfillp := length_filled_insert (K := K) (v := v) (w := w) hp
  have hfillq := length_filled_insert (K := K) (v := v) (w := w)
    (show q ∉ insert p A by simp [Ne.symm hpq, hq])
  rw [show substitute (K.key q) (v q) 0 (substitute (K.key p) (v p) 0
    (filled K v A w)) = filled K v (insert q (insert p A)) w from h] at hsubq
  refine ⟨occurrences (K.key p) (filled K v A w) - standing p w,
    occurrences (K.key q) (substitute (K.key p) (v p) 0 (filled K v A w)) -
      standing q w, by omega, by omega, ?_⟩
  zify at hsubp hsubq hfillp hfillq
  linear_combination hfillp + hfillq - hsubp - hsubq

theorem sign_of_balance {f g a b : ℤ} (hf : 0 < f) (hg : 0 < g) (h : f * a + g * b = 0) :
    (0 < a → b < 0) ∧ (a < 0 → 0 < b) ∧ (a = 0 → b = 0) := by
  refine ⟨fun ha => ?_, fun ha => ?_, fun ha => ?_⟩
  · by_contra hb
    nlinarith [mul_pos hf ha, mul_nonneg hg.le (not_lt.mp hb)]
  · by_contra hb
    nlinarith [mul_neg_of_pos_of_neg hf ha, mul_nonpos_of_nonneg_of_nonpos hg.le (not_lt.mp hb)]
  · rw [ha, mul_zero, zero_add] at h
    exact (mul_eq_zero.mp h).resolve_left hg.ne'

/-- Keys whose values have their own lengths come out right only if they are clean. -/
theorem clean_of_length (hpq : p ≠ q) (hq : q ∉ A)
    (hlenp : (v p).length = (K.key p).length) (hlenq : (v q).length = (K.key q).length)
    (h : substituteAll K v [p, q] (filled K v A w) =
      filled K v (insert q (insert p A)) w) : Clean K v w A q := by
  have hle := standing_le_occurrences (K := K) (v := v) (w := w) hq []
  rw [List.nil_append, occurrences, Nat.zero_add] at hle
  rcases hle.eq_or_lt with heq | hlt
  · exact .inl heq.symm
  · have hsub : A ⊆ insert q (insert p A) :=
      (Finset.subset_insert p A).trans (Finset.subset_insert q _)
    have hlen : ∀ r ∈ insert q (insert p A), r ∉ A → (v r).length = (K.key r).length := by
      intro r hr hrA
      rcases Finset.mem_insert.mp hr with rfl | hr
      · exact hlenq
      · rw [(Finset.mem_insert.mp hr).resolve_right hrA, hlenp]
    obtain ⟨a, b, a', b', hA, hB, hab⟩ :=
      foreign_occurrence hsub hlen [] (by rw [List.nil_append]; exact hlt)
    rw [List.nil_append] at hA hB
    have hsubst : substituteAll K v [p, q] (filled K v A w) =
        substitute (K.key q) (v q) 0 (substitute (K.key p) (v p) 0
          (filled K v A w)) := rfl
    rw [hsubst, hA, hB, substitute_around, if_neg hpq, substitute_around, if_pos rfl] at h
    have hfront := (length_substitute_of_length hlenq
      (substitute (K.key p) (v p) 0 a)).trans (length_substitute_of_length hlenp a)
    exact .inr (List.append_inj (List.append_inj h (hfront.trans hab)).2 hlenq).1

end

/-! ## Orders of substitution -/

/-- The keys substituted so far are those of the template. -/
def Exact (K : Keys ι α) (v : ι → List α) (names : List ι) (T : List α) (order : List ι) :
    Prop :=
  substituteAll K v order T = filled K v order.toFinset (pieces K names 0 T)

/-- Every order of all keys fills the template. -/
def OrderFree (K : Keys ι α) (v : ι → List α) (names : List ι) (T : List α) : Prop :=
  ∀ order : List ι, order.Nodup → (∀ p, p ∈ order) → Exact K v names T order

section
variable {K : Keys ι α} {v : ι → List α} {names : List ι} {T : List α} {l r : List ι}
  {q : ι}

theorem exact_nil (hnames : ∀ p, p ∈ names) : Exact K v names T [] :=
  (filled_empty hnames T).symm

theorem Exact.snoc (h : Exact K v names T l) (hq : q ∉ l)
    (hclean : Clean K v (pieces K names 0 T) l.toFinset q) :
    Exact K v names T (l ++ [q]) := by
  have hsplit : substituteAll K v (l ++ [q]) T =
      substitute (K.key q) (v q) 0 (substituteAll K v l T) := by
    rw [substituteAll, List.foldl_append]
    rfl
  rw [Exact, hsplit, h, substitute_filled (by simpa using hq) hclean, List.toFinset_append,
    List.toFinset_cons, List.toFinset_nil, Finset.union_insert, Finset.union_empty]

/-- The keys that are left fill the rest of the template. -/
theorem OrderFree.rest (h : OrderFree K v names T) (hl : Exact K v names T l)
    (hnodup : (l ++ r).Nodup) (hall : ∀ p, p ∈ l ++ r) :
    substituteAll K v r (filled K v l.toFinset (pieces K names 0 T)) =
      filled K v (l.toFinset ∪ r.toFinset) (pieces K names 0 T) := by
  have hwhole := h (l ++ r) hnodup hall
  rw [Exact, substituteAll, List.foldl_append, List.toFinset_append] at hwhole
  rw [← hwhole, ← hl]
  rfl

/-- Keys whose values are heavy with a symbol of no key are substituted rightly. -/
theorem OrderFree.exact_heavy {c : α} {heavy : List ι} (h : OrderFree K v names T)
    (hc : ∀ p, c ∉ K.key p) (hheavy : ∀ p ∈ heavy, c ∈ v p) (hl : Exact K v names T l)
    (hnodup : (l ++ (heavy ++ r)).Nodup) (hall : ∀ p, p ∈ l ++ (heavy ++ r)) :
    Exact K v names T (l ++ heavy) := by
  induction heavy using List.reverseRecOn generalizing r with
  | nil => rwa [List.append_nil]
  | append_singleton heavy q ih =>
      rw [List.append_assoc] at hnodup hall
      have hexact := ih (fun p hp => hheavy p (List.mem_append_left _ hp)) hnodup hall
      rw [← List.append_assoc, List.singleton_append] at hnodup hall
      have hparts := List.nodup_append.mp hnodup
      have hfresh : ∀ p ∈ q :: r, p ∉ (l ++ heavy).toFinset := by
        intro p hp hmem
        exact hparts.2.2 p (List.mem_toFinset.mp hmem) p hp rfl
      have hclean := clean_of_heavy hc hparts.2.1 hfresh List.mem_cons_self (hheavy q (by simp))
        (h.rest hexact hnodup hall)
      rw [← List.append_assoc]
      refine hexact.snoc (fun hmem => ?_) hclean
      exact hfresh q List.mem_cons_self (List.mem_toFinset.mpr hmem)

end

section
variable {ι : Type*} {x y z : ι} {heavy : List ι}

/-- Three keys and some others are all keys. -/
def Splits (x y z : ι) (heavy : List ι) : Prop :=
  ([x] ++ (heavy ++ [y, z])).Nodup ∧ ∀ p, p ∈ [x] ++ (heavy ++ [y, z])

theorem Splits.of_perm {x' y' z' : ι}
    (hperm : ([x] ++ (heavy ++ [y, z])).Perm ([x'] ++ (heavy ++ [y', z'])))
    (h : Splits x y z heavy) : Splits x' y' z' heavy :=
  ⟨hperm.nodup_iff.mp h.1, fun p => hperm.mem_iff.mp (h.2 p)⟩

theorem Splits.rotate [DecidableEq ι] (h : Splits x y z heavy) : Splits y z x heavy := by
  refine h.of_perm (List.perm_iff_count.mpr fun p => ?_)
  simp only [List.count_append, List.count_cons, List.count_nil]
  omega

theorem Splits.swap [DecidableEq ι] (h : Splits x y z heavy) : Splits y x z heavy := by
  refine h.of_perm (List.perm_iff_count.mpr fun p => ?_)
  simp only [List.count_append, List.count_cons, List.count_nil]
  omega

end

section
variable [Fintype ι] {K : Keys ι α} {v : ι → List α} {names : List ι} {T : List α}
  {l : List ι} {q x y z : ι} {heavy : List ι}

theorem toFinset_eq_erase (hnodup : (l ++ [q]).Nodup) (hall : ∀ p, p ∈ l ++ [q]) :
    l.toFinset = Finset.univ.erase q := by
  ext p
  rw [List.mem_toFinset, Finset.mem_erase, and_iff_left (Finset.mem_univ p)]
  constructor
  · exact fun hp heq => (List.nodup_append.mp hnodup).2.2 p hp q (List.mem_singleton_self q) heq
  · intro hne
    rcases List.mem_append.mp (hall p) with hp | hp
    · exact hp
    · exact absurd (List.mem_singleton.mp hp) hne

theorem OrderFree.clean_last (h : OrderFree K v names T) (hl : Exact K v names T l)
    (hnodup : (l ++ [q]).Nodup) (hall : ∀ p, p ∈ l ++ [q]) :
    Clean K v (pieces K names 0 T) (Finset.univ.erase q) q := by
  have hset := toFinset_eq_erase hnodup hall
  have hrest := h.rest hl hnodup hall
  rw [List.toFinset_cons, List.toFinset_nil, Finset.union_insert, Finset.union_empty,
    hset] at hrest
  exact clean_of_substitute (Finset.notMem_erase q _) hrest

theorem Clean.erase_mono {A : Finset ι} {w : List (α ⊕ ι)} (hq : q ∉ A)
    (h : Clean K v w (Finset.univ.erase q) q) : Clean K v w A q := by
  refine h.mono (fun p hp => ?_) (Finset.notMem_erase q _)
  exact Finset.mem_erase.mpr ⟨fun heq => hq (heq ▸ hp), Finset.mem_univ p⟩

/-- If no key is brought in by the values of the others, each order fills the template. -/
theorem exact_of_clean (hnames : ∀ p, p ∈ names)
    (hclean : ∀ q, Clean K v (pieces K names 0 T) (Finset.univ.erase q) q)
    (hnodup : l.Nodup) : Exact K v names T l := by
  induction l using List.reverseRecOn with
  | nil => exact exact_nil hnames
  | append_singleton l q ih =>
      have hparts := List.nodup_append.mp hnodup
      have hq : q ∉ l := fun hmem => hparts.2.2 q hmem q (List.mem_singleton_self q) rfl
      exact (ih hparts.1).snoc hq ((hclean q).erase_mono (by simpa using hq))

section
variable {c : α} (hc : ∀ p, c ∉ K.key p) (hheavy : ∀ p ∈ heavy, c ∈ v p)
  (h : OrderFree K v names T) (hnames : ∀ p, p ∈ names)
include hc hheavy h hnames

omit [Fintype ι] in
theorem OrderFree.exact_first (hs : Splits x y z heavy) :
    Exact K v names T ([x] ++ heavy) :=
  h.exact_heavy hc hheavy
    ((exact_nil hnames).snoc List.not_mem_nil (clean_empty hnames x T)) hs.1 hs.2

/-- If the last of three keys is not clean, the one before it was not clean either. -/
theorem OrderFree.unclean_before (hs : Splits x y z heavy)
    (hz : ¬ Clean K v (pieces K names 0 T) (Finset.univ.erase z) z) :
    ¬ Clean K v (pieces K names 0 T) ([x] ++ heavy).toFinset y := by
  intro hy
  have hnodup : ([x] ++ heavy ++ [y] ++ [z]).Nodup := by simpa using hs.1
  have hy' : y ∉ [x] ++ heavy := fun hmem =>
    (List.nodup_append.mp (List.nodup_append.mp hnodup).1).2.2 y hmem y
      (List.mem_singleton_self y) rfl
  refine hz (h.clean_last ((h.exact_first hc hheavy hnames hs).snoc hy' hy) hnodup ?_)
  simpa using hs.2

omit [Fintype ι] in
theorem OrderFree.balance (hs : Splits x y z heavy)
    (hy : ¬ Clean K v (pieces K names 0 T) ([x] ++ heavy).toFinset y)
    (hz : ¬ Clean K v (pieces K names 0 T) ([x] ++ heavy).toFinset z) :
    (∃ f g : ℤ, 0 < f ∧ 0 < g ∧ f * ((v y).length - (K.key y).length) +
      g * ((v z).length - (K.key z).length) = 0) ∧
      ¬ ((v y).length = (K.key y).length ∧ (v z).length = (K.key z).length) := by
  have hnodup : (([x] ++ heavy) ++ [y, z]).Nodup := by simpa using hs.1
  have hparts := List.nodup_append.mp hnodup
  have hyz : y ≠ z := by simpa using hparts.2.1
  have hfresh : ∀ p ∈ [y, z], p ∉ ([x] ++ heavy).toFinset := fun p hp hmem =>
    hparts.2.2 p (List.mem_toFinset.mp hmem) p hp rfl
  have hyA := hfresh y (by simp)
  have hzA := hfresh z (by simp)
  have hfill := h.rest (h.exact_first hc hheavy hnames hs) hnodup (by simpa using hs.2)
  have hset : ([x] ++ heavy).toFinset ∪ [y, z].toFinset =
      insert z (insert y ([x] ++ heavy).toFinset) := by
    rw [List.toFinset_cons, List.toFinset_cons, List.toFinset_nil, Finset.union_insert,
      Finset.union_insert, Finset.union_empty, Finset.insert_comm]
  rw [hset] at hfill
  refine ⟨balance_of_unclean hyz hyA hzA hy hz hfill, ?_⟩
  rintro ⟨hleny, hlenz⟩
  exact hz (clean_of_length hyz hzA hleny hlenz hfill)

/-- Three values cannot pairwise make up for each other, one too short and the other too
long. -/
theorem OrderFree.clean_light (hs : Splits x y z heavy) :
    Clean K v (pieces K names 0 T) (Finset.univ.erase z) z := by
  by_contra hz
  have hup : ∀ {x y z : ι}, Splits x y z heavy →
      ¬ Clean K v (pieces K names 0 T) ([x] ++ heavy).toFinset y →
        ¬ Clean K v (pieces K names 0 T) (Finset.univ.erase y) y := by
    intro x y z hs hnot hy
    have hnodup : (([x] ++ heavy) ++ [y, z]).Nodup := by simpa using hs.1
    refine hnot (hy.erase_mono fun hmem => ?_)
    exact (List.nodup_append.mp hnodup).2.2 y (List.mem_toFinset.mp hmem) y (by simp) rfl
  have hxy := h.unclean_before hc hheavy hnames hs hz
  have hyx := h.unclean_before hc hheavy hnames hs.swap hz
  have hy := hup hs hxy
  have hx := hup hs.swap hyx
  have hxz := h.unclean_before hc hheavy hnames hs.rotate.rotate.swap hy
  have hzx := h.unclean_before hc hheavy hnames hs.rotate.rotate hy
  have hyz := h.unclean_before hc hheavy hnames hs.rotate hx
  have hzy := h.unclean_before hc hheavy hnames hs.rotate.swap hx
  obtain ⟨⟨f, g, hf, hg, hfg⟩, hne⟩ := h.balance hc hheavy hnames hs hxy hxz
  obtain ⟨⟨f', g', hf', hg', hfg'⟩, -⟩ := h.balance hc hheavy hnames hs.rotate hyz hyx
  obtain ⟨⟨f'', g'', hf'', hg'', hfg''⟩, -⟩ :=
    h.balance hc hheavy hnames hs.rotate.rotate hzx hzy
  have hyz' := sign_of_balance hf hg hfg
  have hzx' := sign_of_balance hf' hg' hfg'
  have hxy' := sign_of_balance hf'' hg'' hfg''
  have hlenY : ((v y).length : ℤ) - (K.key y).length = 0 := by omega
  exact hne ⟨by omega, by have := hyz'.2.2 hlenY; omega⟩

/-- With the three light keys clean, the heavy ones are clean too. -/
theorem OrderFree.clean_heavy (hs : Splits x y z heavy) (hq : q ∈ heavy) :
    Clean K v (pieces K names 0 T) (Finset.univ.erase q) q := by
  have hz := h.clean_light hc hheavy hnames hs
  have hy := h.clean_light hc hheavy hnames hs.rotate.rotate
  have hperm : ([x] ++ (heavy ++ [y, z])).Perm (([x, y, z] ++ heavy.erase q) ++ [q]) := by
    refine List.perm_iff_count.mpr fun p => ?_
    have herase := List.perm_iff_count.mp (List.perm_cons_erase hq) p
    simp only [List.count_append, List.count_cons, List.count_nil] at herase ⊢
    omega
  have hnodup := hperm.nodup_iff.mp hs.1
  have hall : ∀ p, p ∈ ([x, y, z] ++ heavy.erase q) ++ [q] := fun p =>
    hperm.mem_iff.mp (hs.2 p)
  have hlight : ([x] ++ ([y] ++ [z])).Nodup :=
    (List.nodup_append.mp (List.nodup_append.mp hnodup).1).1
  have hyx : y ∉ [x] := fun hmem =>
    (List.nodup_append.mp hlight).2.2 y hmem y (by simp) rfl
  have hzxy : z ∉ [x] ++ [y] := fun hmem =>
    (List.nodup_append.mp (show ([x] ++ [y] ++ [z]).Nodup from hlight)).2.2 z hmem z
      (List.mem_singleton_self z) rfl
  have hx : Exact K v names T [x] :=
    (exact_nil hnames).snoc List.not_mem_nil (clean_empty hnames x T)
  have hxy : Exact K v names T ([x] ++ [y]) :=
    hx.snoc hyx (hy.erase_mono (by simpa using hyx))
  have hxyz : Exact K v names T ([x] ++ [y] ++ [z]) :=
    hxy.snoc hzxy (hz.erase_mono (by simpa using hzxy))
  refine h.clean_last (h.exact_heavy hc (fun p hp => hheavy p (List.mem_of_mem_erase hp)) hxyz
    (r := [q]) ?_ ?_) hnodup hall
  · simpa using hnodup
  · simpa using hall

end

/-- Where all values but three are heavy with a symbol that no key has, every order fills
the template exactly when no key is brought in by the values of the others. -/
theorem orderFree_iff {c : α} (hc : ∀ p, c ∉ K.key p) (hheavy : ∀ p ∈ heavy, c ∈ v p)
    (hnames : ∀ p, p ∈ names) (hs : Splits x y z heavy) (T : List α) :
    OrderFree K v names T ↔
      ∀ q, Clean K v (pieces K names 0 T) (Finset.univ.erase q) q := by
  constructor
  · intro h q
    have hq := hs.2 q
    simp only [List.mem_append, List.mem_cons, List.not_mem_nil, or_false] at hq
    rcases hq with rfl | hq | rfl | rfl
    · exact h.clean_light hc hheavy hnames hs.rotate
    · exact h.clean_heavy hc hheavy hnames hs hq
    · exact h.clean_light hc hheavy hnames hs.rotate.rotate
    · exact h.clean_light hc hheavy hnames hs
  · exact fun hclean order hnodup _ => exact_of_clean hnames hclean hnodup

end

end GoSite.Substitution
