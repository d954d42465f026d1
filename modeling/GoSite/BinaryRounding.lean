import Mathlib

/-!
# Rounding to a number of binary digits

A natural number is rounded to the nearest one whose binary digits, without the
zeros at the end, are no more than a given number. Of two that are as near the
one with an even last digit is taken. This is the rounding of the IEEE formats,
as far as the numbers are whole and no exponent is too big.
-/
namespace GoSite.BinaryRounding

/-- How many digits are too many. -/
def excess (bits n : ℕ) : ℕ := n.log2 + 1 - bits

/-- The nearest multiple of the given unit, an even one when there are two. -/
def nearest (unit n : ℕ) : ℕ :=
  if 2 * (n % unit) < unit ∨ 2 * (n % unit) = unit ∧ n / unit % 2 = 0 then n / unit * unit
  else (n / unit + 1) * unit

/-- `n` rounded to so many binary digits. -/
def roundEven (bits n : ℕ) : ℕ := nearest (2 ^ excess bits n) n

theorem nearest_one (n : ℕ) : nearest 1 n = n := by
  simp [nearest, Nat.mod_one]

/-- At most half a unit is lost or won. -/
theorem nearest_bounds {unit : ℕ} (h : 0 < unit) (n : ℕ) :
    2 * nearest unit n ≤ 2 * n + unit ∧ 2 * n ≤ 2 * nearest unit n + unit := by
  have hdiv := Nat.div_add_mod n unit
  have hmod := Nat.mod_lt n h
  have hcomm : n / unit * unit = unit * (n / unit) := Nat.mul_comm _ _
  unfold nearest
  split_ifs with hdown
  · omega
  · rw [Nat.add_mul, Nat.one_mul]
    omega

theorem roundEven_of_lt {bits n : ℕ} (hbits : 0 < bits) (h : n < 2 ^ bits) :
    roundEven bits n = n := by
  have hexcess : excess bits n = 0 := by
    by_cases hn : n = 0
    · subst hn
      simp [excess]
      omega
    · have hlog := (Nat.log2_lt hn).mpr h
      rw [excess]
      omega
  rw [roundEven, hexcess, Nat.pow_zero, nearest_one]

/-- The unit of a number with too many digits is small beside it. -/
theorem unit_le {bits n : ℕ} (h : excess bits n ≠ 0) (hn : n ≠ 0) :
    2 ^ excess bits n * 2 ^ bits ≤ 2 * n := by
  have hsum : excess bits n + bits = n.log2 + 1 := by
    rw [excess] at h ⊢
    omega
  have hlog := Nat.log2_self_le hn
  calc 2 ^ excess bits n * 2 ^ bits = 2 ^ (n.log2 + 1) := by rw [← Nat.pow_add, hsum]
    _ = 2 * 2 ^ n.log2 := by rw [Nat.pow_succ, Nat.mul_comm]
    _ ≤ 2 * n := Nat.mul_le_mul_left 2 hlog

/-- The error is small beside the number. -/
theorem roundEven_bounds {bits : ℕ} (hbits : 0 < bits) (n : ℕ) :
    roundEven bits n * 2 ^ bits ≤ n * 2 ^ bits + n ∧
      n * 2 ^ bits ≤ roundEven bits n * 2 ^ bits + n := by
  by_cases hexcess : excess bits n = 0
  · rw [roundEven, hexcess, Nat.pow_zero, nearest_one]
    omega
  · have hn : n ≠ 0 := by
      rintro rfl
      rw [excess, Nat.log2_zero] at hexcess
      omega
    have hunit := unit_le hexcess hn
    obtain ⟨hup, hdown⟩ := nearest_bounds (Nat.two_pow_pos (excess bits n)) n
    have hup' := Nat.mul_le_mul_right (2 ^ bits) hup
    have hdown' := Nat.mul_le_mul_right (2 ^ bits) hdown
    rw [← roundEven] at hup' hdown'
    rw [Nat.add_mul, Nat.mul_assoc, Nat.mul_assoc] at hup' hdown'
    constructor
    · omega
    · omega

end GoSite.BinaryRounding
