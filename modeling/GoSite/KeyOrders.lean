import Mathlib

/-!
# Lists in descending order of a key

Sorting by a key leaves the order of equal keys open, and two sorts of one list
may answer differently. What does not depend on that is which keys stand where.
A page of a merge needs no more of each part than the page reaches to.
-/
namespace GoSite.KeyOrders

variable {α β κ : Type*} [LinearOrder κ]

/-- No element stands before one with a greater key. -/
def Descending (key : α → κ) (l : List α) : Prop := l.Pairwise fun a b => key b ≤ key a

/-- One way to sort by a key. -/
structure Sorting (key : α → κ) where
  sort : List α → List α
  perm : ∀ l, (sort l).Perm l
  descending : ∀ l, Descending key (sort l)

/-- The `limit` elements from position `offset` on. -/
def page (offset limit : ℕ) (l : List α) : List α := (l.drop offset).take limit

/-- The order that puts preferred elements before the others of their key. -/
def preferredLe (key : α → κ) (first : α → Bool) (a b : α) : Bool :=
  key b < key a ∨ (key a = key b ∧ (first b = true → first a = true))

section
variable (key : α → κ) (first : α → Bool)

theorem preferredLe_trans (a b c : α) (hab : preferredLe key first a b = true)
    (hbc : preferredLe key first b c = true) : preferredLe key first a c = true := by
  simp only [preferredLe, decide_eq_true_eq] at *
  rcases hab with hab | ⟨hab, hfab⟩
  · rcases hbc with hbc | ⟨hbc, -⟩
    · exact Or.inl (hbc.trans hab)
    · exact Or.inl (hbc ▸ hab)
  · rcases hbc with hbc | ⟨hbc, hfbc⟩
    · exact Or.inl (hab ▸ hbc)
    · exact Or.inr ⟨hab.trans hbc, fun h => hfab (hfbc h)⟩

theorem preferredLe_total (a b : α) :
    (preferredLe key first a b || preferredLe key first b a) = true := by
  simp only [preferredLe, Bool.or_eq_true, decide_eq_true_eq]
  rcases lt_trichotomy (key a) (key b) with h | h | h
  · exact Or.inr (Or.inl h)
  · by_cases hfirst : first b = true → first a = true
    · exact Or.inl (Or.inr ⟨h, hfirst⟩)
    · push Not at hfirst
      exact Or.inr (Or.inr ⟨h.symm, fun _ => hfirst.1⟩)
  · exact Or.inl (Or.inl h)

/-- A sort that puts preferred elements before the others of their key. -/
def Sorting.preferring : Sorting key where
  sort l := l.mergeSort (preferredLe key first)
  perm l := List.mergeSort_perm l _
  descending l := by
    have hsorted := List.pairwise_mergeSort (preferredLe_trans key first)
      (preferredLe_total key first) l
    refine hsorted.imp ?_
    intro a b hab
    simp only [preferredLe, decide_eq_true_eq] at hab
    rcases hab with hab | ⟨hab, -⟩
    · exact hab.le
    · exact hab.ge

end

/-- In a sorted list the elements with an upward closed property come first. -/
theorem eq_filter_append_filter {r : α → α → Prop} {p : α → Bool} {l : List α}
    (hl : l.Pairwise r) (hp : ∀ a b, r a b → p b = true → p a = true) :
    l = l.filter p ++ l.filter (!p ·) := by
  induction l with
  | nil => rfl
  | cons a l ih =>
      rw [List.pairwise_cons] at hl
      by_cases ha : p a = true
      · simpa [ha] using ih hl.2
      · have hnone : ∀ b ∈ l, p b = false := by
          intro b hb
          by_contra hpb
          exact ha (hp a b (hl.1 b hb) (by simpa using hpb))
        have hfilter : l.filter p = [] := by simpa using hnone
        have hrest : l.filter (!p ·) = l := by simpa using hnone
        simp [ha, hfilter, hrest]

section
variable {key : α → κ}

@[simp] theorem Sorting.sort_nil (s : Sorting key) : s.sort [] = [] :=
  (s.perm []).eq_nil

@[simp] theorem Sorting.mem_sort (s : Sorting key) {l : List α} {a : α} : a ∈ s.sort l ↔ a ∈ l :=
  (s.perm l).mem_iff

/-- Where equal keys mean equal elements, there is one order. -/
theorem Descending.eq_of_perm {l l' : List α} (hl : Descending key l) (hl' : Descending key l')
    (hperm : l.Perm l') (htie : ∀ a ∈ l, ∀ b ∈ l, key a = key b → a = b) : l = l' := by
  apply hperm.eq_of_pairwise _ hl hl'
  intro a b ha hb hab hba
  exact htie a ha b (hperm.mem_iff.mpr hb) (le_antisymm hba hab)

theorem Descending.map {key' : β → κ} {f : α → β} {l : List α} (hf : ∀ a, key' (f a) = key a)
    (hl : Descending key l) : Descending key' (l.map f) := by
  rw [Descending, List.pairwise_map]
  simp only [hf]
  exact hl

/-- With enough elements of key `c` or more, the first ones have such keys. -/
theorem Descending.le_key_of_mem_take {l : List α} (hl : Descending key l) {c : κ} {m : ℕ}
    (hcount : m ≤ (l.filter (c ≤ key ·)).length) {a : α} (ha : a ∈ l.take m) : c ≤ key a := by
  have hsplit := eq_filter_append_filter (p := (c ≤ key ·)) hl
    fun a b hba hb => by simpa using (of_decide_eq_true hb).trans hba
  rw [hsplit, List.take_append_of_le_length hcount] at ha
  simpa using (List.mem_filter.mp (List.mem_of_mem_take ha)).2

/-- A beginning that reaches past the keys above `c` has all of them. -/
theorem Descending.filter_take {l : List α} (hl : Descending key l) {c : κ} {m : ℕ}
    (hcount : (l.filter (c < key ·)).length ≤ m) :
    (l.take m).filter (c < key ·) = l.filter (c < key ·) := by
  have hsplit := eq_filter_append_filter (p := (c < key ·)) hl
    fun a b hba hb => by simpa using (of_decide_eq_true hb).trans_le hba
  conv_lhs => rw [hsplit, List.take_append, List.take_of_length_le hcount]
  simp only [List.filter_append, List.filter_filter, Bool.and_self]
  rw [List.append_right_eq_self, List.filter_eq_nil_iff]
  intro a ha
  have := (List.mem_filter.mp (List.mem_of_mem_take ha)).2
  simpa using this

theorem Descending.le_key_take_drop {l : List α} (hl : Descending key l) {m : ℕ} {a b : α}
    (ha : a ∈ l.take m) (hb : b ∈ l.drop m) : key b ≤ key a := by
  rw [Descending, ← List.take_append_drop m l, List.pairwise_append] at hl
  exact hl.2.2 a ha b hb

/-- What stands at the place where the key `c` begins. -/
theorem Sorting.preferring_getElem? {first : α → Bool} {l : List α} {a : α} (ha : a ∈ l)
    (hfirst : first a = true) :
    ∃ b, ((Sorting.preferring key first).sort l)[(l.filter (key a < key ·)).length]? = some b ∧
      b ∈ l ∧ key b = key a ∧ first b = true := by
  let above : α → Bool := fun b => key a < key b
  let early : α → Bool := fun b => key a < key b ∨ (key b = key a ∧ first b = true)
  let s := (Sorting.preferring key first).sort l
  have hperm : s.Perm l := (Sorting.preferring key first).perm l
  have hsorted : s.Pairwise fun a b => preferredLe key first a b = true :=
    List.pairwise_mergeSort (preferredLe_trans key first) (preferredLe_total key first) l
  have hearly : s = s.filter early ++ s.filter (!early ·) := by
    apply eq_filter_append_filter hsorted
    intro b c hbc hc
    simp only [preferredLe, decide_eq_true_eq, early] at hbc hc ⊢
    rcases hbc with hbc | ⟨hbc, himp⟩
    · rcases hc with hc | ⟨hc, -⟩
      · exact Or.inl (hc.trans hbc)
      · exact Or.inl (hc ▸ hbc)
    · rw [hbc]
      exact hc.imp_right fun h => ⟨h.1, himp h.2⟩
  have habove : s.filter early = (s.filter early).filter above ++ (s.filter early).filter (!above ·) := by
    apply eq_filter_append_filter (((Sorting.preferring key first).descending l).filter early)
    intro b c hbc hc
    exact decide_eq_true ((of_decide_eq_true hc).trans_le hbc)
  have hcount : ((s.filter early).filter above).length = (l.filter above).length := by
    have hsame : (s.filter early).filter above = s.filter above := by
      rw [List.filter_filter]
      apply List.filter_congr
      intro b _
      simp only [above, early]
      grind
    rw [hsame]
    exact (hperm.filter above).length_eq
  have hmem : a ∈ (s.filter early).filter (!above ·) := by
    simp [early, above, hperm.mem_iff, ha, hfirst]
  obtain ⟨b, rest, hrest⟩ := List.exists_cons_of_ne_nil (List.ne_nil_of_mem hmem)
  have hb : b ∈ (s.filter early).filter (!above ·) := by simp [hrest]
  refine ⟨b, ?_, ?_⟩
  · change s[(l.filter above).length]? = some b
    rw [hearly, habove, hrest, ← hcount, List.append_assoc, List.getElem?_append_right le_rfl]
    simp
  · simp only [List.mem_filter, hperm.mem_iff, above, early, Bool.not_eq_true',
      decide_eq_true_eq, decide_eq_false_iff_not] at hb
    obtain ⟨⟨hbl, hbe⟩, hba⟩ := hb
    exact ⟨hbl, hbe.resolve_left hba⟩

/-! ## Merging the beginnings of sorted lists -/

theorem flatMap_take_sublist (m : ℕ) (parts : List (List α)) :
    (parts.flatMap (List.take m)).Sublist parts.flatten := by
  induction parts with
  | nil => exact List.Sublist.slnil
  | cons l parts ih =>
      rw [List.flatMap_cons, List.flatten_cons]
      exact (List.take_sublist m l).append ih

/-- A part with more than `m` elements brings `m` of them to the merge. -/
theorem take_sublist_of_mem_drop {parts : List (List α)} {l : List α} (hl : l ∈ parts) {m : ℕ}
    {b : α} (hb : b ∈ l.drop m) :
    (l.take m).length = m ∧ (l.take m).Sublist (parts.flatMap (List.take m)) := by
  have hpos := List.length_pos_of_mem hb
  constructor
  · simp only [List.length_take, List.length_drop] at *
    omega
  · rw [List.flatMap_def]
    exact List.sublist_flatten_of_mem (List.mem_map_of_mem hl)

/-- The first `m` of a sorted merge of the first `m` of each part are the first
`m` of all. -/
theorem take_merge_eq_take {parts : List (List α)} {s t : List α} {m : ℕ}
    (hparts : ∀ l ∈ parts, Descending key l) (hs : Descending key s) (ht : Descending key t)
    (hsp : s.Perm (parts.flatMap (List.take m))) (htp : t.Perm parts.flatten)
    (htie : ∀ a ∈ t, ∀ b ∈ t, key a = key b → a = b) : s.take m = t.take m := by
  let rest := parts.flatMap (List.drop m)
  have hall : (s ++ rest).Perm t := by
    have hsplit : (parts.flatMap (List.take m) ++ rest).Perm parts.flatten := by
      refine (List.flatMap_append_perm parts (List.take m) (List.drop m)).trans ?_
      simp [List.flatMap_id']
    exact ((hsp.append_right rest).trans hsplit).trans htp.symm
  have hfirst : ∀ a ∈ s.take m, ∀ b ∈ rest, key b ≤ key a := by
    intro a ha b hb
    obtain ⟨l, hl, hbl⟩ := List.mem_flatMap.mp hb
    apply hs.le_key_of_mem_take _ ha
    obtain ⟨hfull, hsub⟩ := take_sublist_of_mem_drop hl hbl
    have hge : (l.take m).filter (key b ≤ key ·) = l.take m := by
      rw [List.filter_eq_self]
      intro c hc
      exact decide_eq_true ((hparts l hl).le_key_take_drop hc hbl)
    have := (hsub.filter (key b ≤ key ·)).length_le
    rw [hge, hfull] at this
    rw [(hsp.filter _).length_eq]
    exact this
  by_cases hrest : rest = []
  · rw [hrest, List.append_nil] at hall
    rw [ht.eq_of_perm hs hall.symm htie]
  · let tail := (Sorting.preferring key fun _ => true).sort (s.drop m ++ rest)
    have htail : tail.Perm (s.drop m ++ rest) := (Sorting.preferring key fun _ => true).perm _
    have hsorted : Descending key (s.take m ++ tail) := by
      rw [Descending, List.pairwise_append]
      refine ⟨hs.sublist (List.take_sublist m s),
        (Sorting.preferring key fun _ => true).descending _, ?_⟩
      intro a ha b hb
      rcases List.mem_append.mp (htail.mem_iff.mp hb) with hb | hb
      · exact hs.le_key_take_drop ha hb
      · exact hfirst a ha b hb
    have hperm : t.Perm (s.take m ++ tail) := by
      refine hall.symm.trans ?_
      have := htail.symm.append_left (s.take m)
      rwa [← List.append_assoc, List.take_append_drop] at this
    have hlen : (s.take m).length = m := by
      obtain ⟨b, hb⟩ := List.exists_mem_of_ne_nil rest hrest
      obtain ⟨l, hl, hbl⟩ := List.mem_flatMap.mp hb
      obtain ⟨hfull, hsub⟩ := take_sublist_of_mem_drop hl hbl
      have hle := hsub.length_le
      rw [hfull, ← hsp.length_eq] at hle
      simpa using hle
    rw [ht.eq_of_perm hsorted hperm htie, List.take_append_of_le_length hlen.ge, List.take_take,
      Nat.min_self]

end

theorem page_eq_take_drop (offset limit : ℕ) (l : List α) :
    page offset limit l = (l.take (offset + limit)).drop offset := by
  rw [page, List.drop_take]
  simp

theorem page_one {l : List α} {k : ℕ} {a : α} (h : l[k]? = some a) : page k 1 l = [a] := by
  obtain ⟨hk, rfl⟩ := List.getElem?_eq_some_iff.mp h
  rw [page, List.drop_eq_getElem_cons hk, List.take_succ_cons, List.take_zero]

/-- Pages one after the other are a beginning of the list. -/
theorem flatMap_page (limit n : ℕ) (l : List α) :
    (List.range n).flatMap (fun i => page (i * limit) limit l) = l.take (n * limit) := by
  induction n with
  | zero => simp
  | succ n ih =>
      rw [List.range_succ, List.flatMap_append, ih, Nat.succ_mul, List.take_add]
      simp [page]

end GoSite.KeyOrders
