import Mathlib.Tactic.Linarith
import Mathlib.Data.Nat.Log

/-!
# Rounding whole numbers to floating point

A floating point number has a fixed number of significant bits. A whole number that has more
is rounded to the nearest one that has not, and from the middle to the one that is even
(`Lib.roundEven`).
-/

namespace Lib

/-- What the last of `p` significant bits of a number stands for. -/
def ulp (p n : ℕ) : ℕ := 2 ^ (Nat.log2 n + 1 - p)

/-- **A number with `p` significant bits**, to nearest, ties to even. -/
def roundEven (p n : ℕ) : ℕ :=
  if ulp p n < 2 * (n % ulp p n) ∨ ulp p n = 2 * (n % ulp p n) ∧ n / ulp p n % 2 = 1 then
    (n / ulp p n + 1) * ulp p n
  else n / ulp p n * ulp p n

variable {p n : ℕ}

theorem ulp_pos (p n : ℕ) : 0 < ulp p n := Nat.two_pow_pos _

/-- Numbers of at most `p` bits have each of their bits. -/
theorem ulp_of_lt (hp : 0 < p) (h : n < 2 ^ p) : ulp p n = 1 := by
  have hlog : Nat.log2 n + 1 - p = 0 := by
    rcases Nat.eq_zero_or_pos n with rfl | hn
    · rw [Nat.log2_zero]
      omega
    · have hlt : Nat.log2 n < p := (Nat.log2_lt hn.ne').mpr h
      omega
  rw [ulp, hlog, Nat.pow_zero]

/-- The last bit is small beside the number. -/
theorem ulp_mul_le (hp : 0 < p) (h : 2 ^ p ≤ n) : ulp p n * 2 ^ (p - 1) ≤ n := by
  have hn : n ≠ 0 := ((Nat.two_pow_pos p).trans_le h).ne'
  have hle : p ≤ Nat.log2 n := (Nat.le_log2 hn).mpr h
  have hexp : Nat.log2 n + 1 - p + (p - 1) = Nat.log2 n := by omega
  rw [ulp, ← Nat.pow_add, hexp]
  exact Nat.log2_self_le hn

/-- A number of at most `q` bits has a last bit of no more than `2 ^ (q - p)`. -/
theorem ulp_le {q : ℕ} (hq : p ≤ q) (hp : 0 < p) (h : n < 2 ^ q) : ulp p n ≤ 2 ^ (q - p) := by
  refine Nat.pow_le_pow_right Nat.two_pos ?_
  rcases Nat.eq_zero_or_pos n with rfl | hn
  · rw [Nat.log2_zero]
    omega
  · have hlt : Nat.log2 n < q := (Nat.log2_lt hn.ne').mpr h
    omega

/-- **A number that has `p` bits at most is not rounded.** -/
theorem roundEven_of_lt (hp : 0 < p) (h : n < 2 ^ p) : roundEven p n = n := by
  rw [roundEven, ulp_of_lt hp h, Nat.mod_one, if_neg (by omega), Nat.div_one, Nat.mul_one]

/-- **Rounding is off by half of the last bit**, at most. -/
theorem roundEven_near (p n : ℕ) :
    2 * roundEven p n ≤ 2 * n + ulp p n ∧ 2 * n ≤ 2 * roundEven p n + ulp p n := by
  have hmod := Nat.mod_lt n (ulp_pos p n)
  have hdiv : n / ulp p n * ulp p n + n % ulp p n = n := by rw [Nat.mul_comm, Nat.div_add_mod]
  have hnext : (n / ulp p n + 1) * ulp p n = n / ulp p n * ulp p n + ulp p n := Nat.add_one_mul ..
  rw [roundEven]
  split
  · rw [hnext]
    omega
  · omega

end Lib
