import Mathlib

/-!
# Texts up to a case map

Comparing texts without regard to case compares their images under a map of
characters. Two maps that have the same class at each character of a text agree
on where that text occurs; one replaced character tells two maps apart.
-/
namespace GoSite.TextFolding

variable {α β γ : Type*} {f : α → β} {h : α → γ}

/-- The two maps identify the same characters with `c`. -/
def SameClass (f : α → β) (h : α → γ) (c : α) : Prop := ∀ d, f d = f c ↔ h d = h c

theorem map_eq_map_iff {v : List α} (hv : ∀ c ∈ v, SameClass f h c) (s : List α) :
    s.map f = v.map f ↔ s.map h = v.map h := by
  induction v generalizing s with
  | nil => simp
  | cons c v ih =>
      cases s with
      | nil => simp
      | cons d s =>
          have hc := hv c List.mem_cons_self d
          have htail := ih (fun x hx => hv x (List.mem_cons_of_mem _ hx)) s
          simp only [List.map_cons, List.cons.injEq]
          rw [hc, htail]

/-- An occurrence up to a map is a part with the same image. -/
theorem infix_map_iff {v s : List α} :
    v.map f <:+: s.map f ↔ ∃ a b c, s = a ++ b ++ c ∧ b.map f = v.map f := by
  constructor
  · rintro ⟨a', c', heq⟩
    obtain ⟨ab, c, rfl, hab, -⟩ := List.map_eq_append_iff.mp heq.symm
    obtain ⟨a, b, rfl, -, hb⟩ := List.map_eq_append_iff.mp hab
    exact ⟨a, b, c, rfl, hb⟩
  · rintro ⟨a, b, c, rfl, hb⟩
    exact ⟨a.map f, c.map f, by simp [hb]⟩

theorem infix_map_congr {v : List α} (hv : ∀ c ∈ v, SameClass f h c) (s : List α) :
    v.map f <:+: s.map f ↔ v.map h <:+: s.map h := by
  rw [infix_map_iff, infix_map_iff]
  constructor
  · rintro ⟨a, b, c, hs, hb⟩
    exact ⟨a, b, c, hs, (map_eq_map_iff hv b).mp hb⟩
  · rintro ⟨a, b, c, hs, hb⟩
    exact ⟨a, b, c, hs, (map_eq_map_iff hv b).mpr hb⟩

/-- A text with one character replaced has the old image only if the characters
have. -/
theorem map_replaced (pre post : List α) (c d : α) :
    (pre ++ d :: post).map f = (pre ++ c :: post).map f ↔ f d = f c := by
  simp

theorem infix_map_replaced (pre post : List α) (c d : α) :
    (pre ++ c :: post).map f <:+: (pre ++ d :: post).map f ↔ f d = f c := by
  rw [← map_replaced (f := f) pre post c d]
  constructor
  · intro hinfix
    exact (List.IsInfix.eq_of_length hinfix (by simp)).symm
  · intro heq
    rw [heq]

/-- A text that occurs up to the map where the map identifies nothing occurs as
it is. -/
theorem infix_of_infix_map {v s : List α} (hs : ∀ c ∈ s, ∀ d, f d = f c → d = c) :
    v.map f <:+: s.map f ↔ v <:+: s := by
  constructor
  · intro hinfix
    obtain ⟨a, b, c, rfl, hb⟩ := infix_map_iff.mp hinfix
    have hbv : b = v := by
      refine List.ext_getElem (by simpa using congrArg List.length hb) ?_
      intro i hi hi'
      have hmem : b[i] ∈ a ++ b ++ c := by simp
      have hget := List.getElem_of_eq hb (i := i) (by simpa using hi)
      simp only [List.getElem_map] at hget
      exact (hs _ hmem _ hget.symm).symm
    exact ⟨a, c, by rw [hbv]⟩
  · rintro ⟨a, c, rfl⟩
    exact ⟨a.map f, c.map f, by simp⟩

end GoSite.TextFolding
