import Mathlib

/-!
# Windows of a byte stream

A stream is a list; a window is the part of it between two positions, and its
tail of length `k` is what a reader sees who kept the newest `k` items. Nothing
here depends on what the items are.
-/
namespace GoSite.StreamWindows

variable {β : Type*}

/-- The items at positions `a, …, b - 1`. -/
def window (xs : List β) (a b : ℕ) : List β := (xs.take b).drop a

/-- The newest `k` items, or all of them when there are fewer. -/
def newest (k : ℕ) (xs : List β) : List β := xs.drop (xs.length - k)

@[simp] theorem length_window (xs : List β) (a b : ℕ) :
    (window xs a b).length = min b xs.length - a := by simp [window]

@[simp] theorem length_newest (k : ℕ) (xs : List β) :
    (newest k xs).length = min k xs.length := by
  simp only [newest, List.length_drop]
  omega

@[simp] theorem window_self (xs : List β) (a : ℕ) : window xs a a = [] := by
  apply List.drop_eq_nil_of_le
  rw [List.length_take]
  omega

@[simp] theorem window_zero (xs : List β) (b : ℕ) : window xs 0 b = xs.take b := by
  simp [window]

theorem newest_eq_window (k : ℕ) (xs : List β) :
    newest k xs = window xs (xs.length - k) xs.length := by simp [newest, window]

@[simp] theorem newest_length_self (xs : List β) : newest xs.length xs = xs := by simp [newest]

/-- A window that ends inside `xs` does not see what is appended later. -/
theorem window_append_left (xs ys : List β) (a b : ℕ) (hb : b ≤ xs.length) :
    window (xs ++ ys) a b = window xs a b := by
  simp [window, List.take_append_of_le_length hb]

/-- Adjacent windows join. -/
theorem window_append_window (xs : List β) {a b c : ℕ} (hab : a ≤ b) (hbc : b ≤ c) :
    window xs a b ++ window xs b c = window xs a c := by
  have hsplit : xs.take c = xs.take b ++ (xs.take c).drop b := by
    have h := List.take_append_drop b (xs.take c)
    rw [List.take_take, Nat.min_eq_left hbc] at h
    exact h.symm
  by_cases hl : b ≤ xs.length
  · have hlen : (xs.take b).length = b := by simp [hl]
    unfold window
    conv_rhs => rw [hsplit]
    rw [List.drop_append_of_le_length (by omega)]
  · have hb : xs.take b = xs := List.take_of_length_le (by omega)
    have hc : xs.take c = xs := List.take_of_length_le (by omega)
    have hd : xs.drop b = [] := List.drop_eq_nil_of_le (by omega)
    simp [window, hb, hc, hd]

/-- The part appended last is the window behind the old end. -/
theorem window_append_right (xs ys : List β) :
    window (xs ++ ys) xs.length (xs.length + ys.length) = ys := by
  rw [← List.length_append, window, List.take_length, List.drop_left]

theorem newest_append (k : ℕ) (xs ys : List β) :
    newest (k + ys.length) (xs ++ ys) = newest k xs ++ ys := by
  unfold newest
  rw [List.length_append]
  have he : xs.length + ys.length - (k + ys.length) = xs.length - k := by omega
  rw [he, List.drop_append_of_le_length (by omega)]

/-- Keeping the newest items twice keeps the fewer of the two. -/
theorem newest_newest (j k : ℕ) (xs : List β) : newest j (newest k xs) = newest (min j k) xs := by
  unfold newest
  rw [List.drop_drop, List.length_drop]
  congr 1
  omega

end GoSite.StreamWindows
