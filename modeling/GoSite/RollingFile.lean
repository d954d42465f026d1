import GoSite.BinaryRounding
import GoSite.StreamWindows

/-!
# The size-bounded dump file of a terminal session

A rolling file is append-only until an append would pass its cap. Then the file
is rewritten with the newest three quarters of the cap followed by the appended
bytes. The functions never look at a byte, so the byte type is a parameter. The
file operations are taken to succeed.
-/
namespace GoSite.Terminal
open StreamWindows BinaryRounding

variable {β : Type*}

/-- The cap is clamped to at least 1024 when the file is opened. A missing file
is `none`. -/
structure RollingFile (β : Type*) where
  max : ℕ
  contents : Option (List β)
  max_ge : 1024 ≤ max

/-- `NewRollingFile`: the file itself is whatever lies at the path already. -/
def newRollingFile (max : ℕ) (contents : Option (List β)) : RollingFile β :=
  if h : max < 1024 then ⟨1024, contents, le_rfl⟩ else ⟨max, contents, by omega⟩

/-- `ReadAll`: nil for a missing file. -/
def RollingFile.readAll (r : RollingFile β) : List β := r.contents.getD []

def RollingFile.size (r : RollingFile β) : ℕ := r.readAll.length

/-- `int64(float64(max) * 0.75)`. A float has 53 binary digits, so the cap and its
product are rounded, and the conversion back drops the fraction. -/
def targetKeep (max : ℕ) : ℕ := roundEven 53 (3 * roundEven 53 max) / 4

/-- `rewriteTrimmed`: drop the oldest bytes, then write back the tail and the
new bytes. -/
def rewriteTrimmed (max : ℕ) (existing appendage : List β) : List β :=
  let kept :=
    if existing.length > targetKeep max then existing.drop (existing.length - targetKeep max)
    else existing
  let combined := kept ++ appendage
  if combined.length > max then combined.drop (combined.length - max) else combined

/-- `Append`. The file is created by the first write that is not empty. -/
def RollingFile.append (r : RollingFile β) (p : List β) : RollingFile β :=
  if p = [] then r
  else if r.size + p.length > r.max then
    { r with contents := some (rewriteTrimmed r.max r.readAll p) }
  else { r with contents := some (r.readAll ++ p) }

/-- `Remove`: a missing file is no error. -/
def RollingFile.remove (r : RollingFile β) : RollingFile β := { r with contents := none }

@[simp] theorem newRollingFile_contents (max : ℕ) (contents : Option (List β)) :
    (newRollingFile max contents).contents = contents := by
  unfold newRollingFile
  split <;> rfl

@[simp] theorem append_max (r : RollingFile β) (p : List β) : (r.append p).max = r.max := by
  unfold RollingFile.append
  split_ifs <;> rfl

/-- What is kept is close to three quarters of the cap. -/
theorem targetKeep_bounds (max : ℕ) :
    4 * targetKeep max ≤ 3 * max + max / 2 ^ 50 ∧
      3 * max ≤ 4 * targetKeep max + max / 2 ^ 50 + 4 := by
  obtain ⟨hup, hdown⟩ := roundEven_bounds (show 0 < 53 by decide) max
  obtain ⟨hup', hdown'⟩ := roundEven_bounds (show 0 < 53 by decide) (3 * roundEven 53 max)
  unfold targetKeep
  omega

theorem targetKeep_le (max : ℕ) : targetKeep max ≤ max := by
  have h := (targetKeep_bounds max).1
  omega

/-- Below `2 ^ 51` nothing is rounded. -/
theorem targetKeep_of_lt {max : ℕ} (h : max < 2 ^ 51) : targetKeep max = max * 3 / 4 := by
  have hcap : max < 2 ^ 53 := by omega
  have hproduct : 3 * max < 2 ^ 53 := by omega
  rw [targetKeep, roundEven_of_lt (by decide) hcap, roundEven_of_lt (by decide) hproduct,
    Nat.mul_comm]

/-- The rewritten file is the newest part of the old contents and the new bytes. -/
theorem rewriteTrimmed_eq_newest (max : ℕ) (existing appendage : List β) :
    rewriteTrimmed max existing appendage =
      newest (min max (min existing.length (targetKeep max) + appendage.length))
        (existing ++ appendage) := by
  have hkept : (if existing.length > targetKeep max
      then existing.drop (existing.length - targetKeep max) else existing) =
      newest (min existing.length (targetKeep max)) existing := by
    split_ifs with h
    · rw [Nat.min_eq_right (by omega), newest]
    · rw [Nat.min_eq_left (by omega), newest_length_self]
  unfold rewriteTrimmed
  simp only [hkept, ← newest_append]
  split_ifs with h
  · have hdrop : ∀ xs : List β, xs.drop (xs.length - max) = newest max xs := fun _ => rfl
    rw [hdrop, newest_newest]
  · rw [length_newest, List.length_append] at h
    have hle : min existing.length (targetKeep max) + appendage.length ≤ max := by omega
    rw [Nat.min_eq_right hle]

/-- The size after an append: the only place where bytes disappear is a rewrite. -/
def sizeAfter (max size n : ℕ) : ℕ :=
  if size + n > max then min max (min size (targetKeep max) + n) else size + n

/-- Whatever was written before, the file holds the newest part of it. -/
theorem readAll_append (r : RollingFile β) (p : List β) (hp : p ≠ []) :
    (r.append p).readAll = newest (sizeAfter r.max r.size p.length) (r.readAll ++ p) := by
  unfold RollingFile.append sizeAfter
  rw [if_neg hp]
  split_ifs with h
  · simp only [RollingFile.readAll, Option.getD_some]
    exact rewriteTrimmed_eq_newest r.max _ p
  · have hl : r.size + p.length = (r.readAll ++ p).length := by
      simp [RollingFile.size]
    rw [hl, newest_length_self]
    rfl

/-- Below the cap an append only appends. -/
theorem readAll_append_of_le (r : RollingFile β) (p : List β) (h : r.size + p.length ≤ r.max) :
    (r.append p).readAll = r.readAll ++ p := by
  unfold RollingFile.append
  split_ifs with hp hmax
  · rw [hp, List.append_nil]
  · omega
  · rfl

theorem sizeAfter_le (max size n : ℕ) : sizeAfter max size n ≤ max := by
  unfold sizeAfter
  split_ifs <;> omega

theorem sizeAfter_le_add (max size n : ℕ) : sizeAfter max size n ≤ size + n := by
  unfold sizeAfter
  split_ifs <;> omega

/-- Appending to a file that holds the newest `size` bytes of a stream leaves
the newest bytes of the longer stream. -/
theorem readAll_append_newest (r : RollingFile β) (stream p : List β) (hp : p ≠ [])
    (hr : r.readAll = newest r.size stream) :
    (r.append p).readAll = newest (sizeAfter r.max r.size p.length) (stream ++ p) := by
  rw [readAll_append r p hp]
  conv_lhs => rw [hr]
  rw [← newest_append, newest_newest]
  have h := sizeAfter_le_add r.max r.size p.length
  rw [Nat.min_eq_left h]

theorem size_append (r : RollingFile β) (p : List β) (hp : p ≠ []) :
    (r.append p).size = sizeAfter r.max r.size p.length := by
  have h := sizeAfter_le_add r.max r.size p.length
  unfold RollingFile.size at *
  rw [readAll_append r p hp, length_newest, List.length_append]
  exact Nat.min_eq_left h

/-- The cap is an invariant: no append leaves more bytes than it, whatever the
file held before. -/
theorem size_append_le (r : RollingFile β) (p : List β) (hp : p ≠ []) :
    (r.append p).size ≤ r.max := by
  rw [size_append r p hp]
  exact sizeAfter_le _ _ _

end GoSite.Terminal
