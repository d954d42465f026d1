import GoSite.RollingFile

/-!
# What a rolling file keeps

Whatever the chunks are, a dump file holds the end of all that was appended to
it, no more than its cap, and at least what a rewrite keeps.
-/
namespace GoSite.Terminal
open StreamWindows BinaryRounding

variable {β : Type*}

/-- The file after the chunks are appended one by one. -/
def RollingFile.appendAll (r : RollingFile β) (chunks : List (List β)) : RollingFile β :=
  chunks.foldl RollingFile.append r

/-- The file holds the newest part of a stream, of a size between the bounds. -/
structure RollingFile.Keeps (r : RollingFile β) (stream : List β) : Prop where
  newest : r.readAll = newest r.size stream
  size_le : r.size ≤ r.max
  kept_le : min stream.length (targetKeep r.max) ≤ r.size

theorem keeps_new (max : ℕ) : (newRollingFile max (none : Option (List β))).Keeps [] where
  newest := by simp [RollingFile.readAll, StreamWindows.newest]
  size_le := by simp [RollingFile.size, RollingFile.readAll]
  kept_le := by simp

/-- A rewrite keeps what is to be kept, if there is so much. -/
theorem le_sizeAfter (max size n total : ℕ) (h : min total (targetKeep max) ≤ size) :
    min (total + n) (targetKeep max) ≤ sizeAfter max size n := by
  have hkeep := targetKeep_le max
  unfold sizeAfter
  split_ifs <;> omega

theorem keeps_append {r : RollingFile β} {stream : List β} (h : r.Keeps stream) (p : List β) :
    (r.append p).Keeps (stream ++ p) := by
  by_cases hp : p = []
  · have hr : r.append p = r := if_pos hp
    rw [hr, hp, List.append_nil]
    exact h
  · have hsize := size_append r p hp
    refine ⟨?_, ?_, ?_⟩
    · rw [hsize]
      exact readAll_append_newest r stream p hp h.newest
    · rw [append_max]
      exact size_append_le r p hp
    · rw [append_max, hsize, List.length_append]
      exact le_sizeAfter r.max r.size p.length stream.length h.kept_le

theorem keeps_appendAll {r : RollingFile β} {stream : List β} (h : r.Keeps stream)
    (chunks : List (List β)) : (r.appendAll chunks).Keeps (stream ++ chunks.flatten) := by
  induction chunks generalizing r stream with
  | nil => simpa [RollingFile.appendAll] using h
  | cons p chunks ih =>
      have hrest := ih (keeps_append h p)
      rwa [List.append_assoc, ← List.flatten_cons] at hrest

theorem appendAll_max (r : RollingFile β) (chunks : List (List β)) :
    (r.appendAll chunks).max = r.max := by
  induction chunks generalizing r with
  | nil => rfl
  | cons p chunks ih => exact (ih (r.append p)).trans (append_max r p)

theorem newRollingFile_max (max : ℕ) (contents : Option (List β)) :
    (newRollingFile max contents).max = Nat.max max 1024 := by
  by_cases h : max < 1024
  · rw [newRollingFile, dif_pos h]
    exact (Nat.max_eq_right h.le).symm
  · rw [newRollingFile, dif_neg h]
    exact (Nat.max_eq_left (Nat.le_of_not_lt h)).symm

/-- After the chunks the file is a suffix of all of them, within the two sizes. -/
structure RecentSuffix (most least : ℕ) (r : RollingFile β) (chunks : List (List β)) : Prop where
  suffix : r.readAll <:+ chunks.flatten
  size_le : r.size ≤ most
  le_size : min chunks.flatten.length least ≤ r.size

/-- A new file keeps a recent suffix. The cap is at least 1024, and what a rewrite
keeps is three quarters of it, rounded down, as long as the cap has no more than 51
binary digits. -/
theorem appendAll_recentSuffix (max : ℕ) (chunks : List (List β)) :
    RecentSuffix (Nat.max max 1024) (targetKeep (Nat.max max 1024))
        ((newRollingFile max none).appendAll chunks) chunks ∧
      (max < 2 ^ 51 → targetKeep (Nat.max max 1024) = Nat.max max 1024 * 3 / 4) := by
  have hkeeps := keeps_appendAll (keeps_new (β := β) max) chunks
  rw [List.nil_append] at hkeeps
  have hmax := (appendAll_max _ chunks).trans (newRollingFile_max max (none : Option (List β)))
  refine ⟨⟨?_, ?_, ?_⟩, fun h => targetKeep_of_lt ?_⟩
  · rw [hkeeps.newest]
    exact List.drop_suffix _ _
  · exact hkeeps.size_le.trans_eq hmax
  · rw [← hmax]
    exact hkeeps.kept_le
  · exact Nat.max_lt.mpr ⟨h, by decide⟩

/-- A byte more than the cap makes a rewrite. -/
theorem size_overflow {cap : ℕ} (h : 1024 ≤ cap) {full : List β} (hfull : full.length = cap)
    (b : β) : ((newRollingFile cap none).appendAll [full, [b]]).size =
      min cap (targetKeep cap + 1) := by
  have hne : full ≠ [] := by
    rintro rfl
    simp at hfull
    omega
  have hmax : (newRollingFile cap (none : Option (List β))).max = cap :=
    (newRollingFile_max cap none).trans (Nat.max_eq_left h)
  have hempty : (newRollingFile cap (none : Option (List β))).size = 0 := by
    simp [RollingFile.size, RollingFile.readAll]
  have hcap := targetKeep_le cap
  rw [RollingFile.appendAll, List.foldl_cons, List.foldl_cons, List.foldl_nil,
    size_append _ [b] (List.cons_ne_nil _ _), append_max, size_append _ full hne, hmax, hempty,
    hfull, List.length_singleton, sizeAfter, sizeAfter]
  split_ifs <;> omega

/-- Of a cap just above `2 ^ 60` a rewrite keeps less than three quarters. -/
theorem targetKeep_huge : targetKeep (2 ^ 60 + 2 ^ 7) = 3 * 2 ^ 58 := by decide

/-- Eleven bytes in a file for ten, and a byte more than a huge cap. -/
theorem caps_not_kept :
    (∃ chunks : List (List Bool),
      ¬ RecentSuffix 10 (10 * 3 / 4) ((newRollingFile 10 none).appendAll chunks) chunks) ∧
    ∃ chunks : List (List Bool), ¬ RecentSuffix (2 ^ 60 + 2 ^ 7) ((2 ^ 60 + 2 ^ 7) * 3 / 4)
      ((newRollingFile (2 ^ 60 + 2 ^ 7) none).appendAll chunks) chunks := by
  constructor
  · refine ⟨[[true, true, true, true, true, true, true, true, true, true, true]], fun h => ?_⟩
    exact absurd h.size_le (by decide)
  · obtain ⟨cap, hcap⟩ : ∃ cap, cap = 2 ^ 60 + 2 ^ 7 := ⟨_, rfl⟩
    rw [← hcap]
    refine ⟨[List.replicate cap true, [true]], fun h => ?_⟩
    have hle := h.le_size
    have hkeep : targetKeep cap = 3 * 2 ^ 58 := by rw [hcap, targetKeep_huge]
    rw [size_overflow (by omega) List.length_replicate, hkeep, List.flatten_cons,
      List.length_append, List.length_replicate] at hle
    omega

end GoSite.Terminal
