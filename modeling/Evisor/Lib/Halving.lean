import Mathlib.Data.Nat.Log
import Mathlib.Data.Rat.Cast.Order
import Mathlib.Order.Bounds.Basic
import Mathlib.Tactic.Linarith

/-!
# Halving until small enough

A frequency is divided by a power of two so that it does not exceed a limit. The best such
division is the one by the *least* power that does it (`Lib.isGreatest_halved`), and when the limit
goes into the frequency the exponent is the binary logarithm of the quotient, rounded up
(`Lib.isGreatest_halved_clog`).
-/

namespace Lib

/-- What dividing by a power of two makes of `b`, as long as it does not exceed `t`. -/
def halved (b t : ℕ) : Set ℚ := {c | (∃ k : ℕ, c = b / 2 ^ k) ∧ c ≤ t}

variable {b t k : ℕ}

/-- A division by a power of two is below the limit when the dividend is below the product. -/
theorem div_pow_le_iff : (b : ℚ) / 2 ^ k ≤ t ↔ b ≤ t * 2 ^ k := by
  rw [div_le_iff₀ (by positivity)]
  norm_cast

/-- **The least power of two that is enough** gives the greatest quotient. -/
theorem isGreatest_halved (hle : b ≤ t * 2 ^ k) (hmin : ∀ j < k, t * 2 ^ j < b) :
    IsGreatest (halved b t) (b / 2 ^ k) := by
  constructor
  · exact ⟨⟨k, rfl⟩, div_pow_le_iff.mpr hle⟩
  · rintro c ⟨⟨j, rfl⟩, hj⟩
    have hbj : b ≤ t * 2 ^ j := div_pow_le_iff.mp hj
    have hkj : k ≤ j := by
      by_contra hlt
      exact absurd hbj (Nat.not_le.mpr (hmin j (Nat.lt_of_not_le hlt)))
    gcongr
    exact one_le_two

/-- The logarithm of the quotient, rounded up, is the exponent when the limit is a divisor. -/
theorem isGreatest_halved_clog (hdvd : t ∣ b) :
    IsGreatest (halved b t) (b / 2 ^ Nat.clog 2 (b / t)) := by
  rcases Nat.eq_zero_or_pos t with rfl | ht
  · obtain rfl := Nat.zero_dvd.mp hdvd
    exact isGreatest_halved (by simp) (by simp)
  · have hle : ∀ j, b ≤ t * 2 ^ j ↔ b / t ≤ 2 ^ j := by
      intro j
      rw [Nat.div_le_iff_le_mul_of_dvd ht.ne' hdvd, Nat.mul_comm]
    refine isGreatest_halved ((hle _).mpr (Nat.le_pow_clog one_lt_two _)) fun j hj => ?_
    refine Nat.lt_of_not_le fun hbj => ?_
    exact absurd ((hle j).mp hbj) (Nat.not_le.mpr (Nat.pow_lt_of_lt_clog hj))

/-- Nothing need be halved that is below the limit. -/
theorem isGreatest_halved_self (hle : b ≤ t) : IsGreatest (halved b t) b := by
  have h := isGreatest_halved (k := 0) (by simpa using hle) (by simp)
  simpa using h

/-- **A quotient by anything else** is not among those by a power of two. -/
theorem div_notMem_halved {n : ℕ} (hb : 0 < b) (hn : ∀ k, n ≠ 2 ^ k) :
    (b : ℚ) / n ∉ halved b t := by
  rintro ⟨⟨k, hk⟩, -⟩
  have hb' : (b : ℚ) ≠ 0 := by exact_mod_cast hb.ne'
  rw [div_eq_mul_inv, div_eq_mul_inv] at hk
  have hn' : (n : ℚ) = 2 ^ k := inv_injective (mul_left_cancel₀ hb' hk)
  exact hn k (by exact_mod_cast hn')

end Lib
