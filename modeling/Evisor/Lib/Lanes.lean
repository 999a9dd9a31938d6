import Mathlib.Data.Nat.Basic
import Mathlib.Logic.Function.Basic

/-!
# Numbers packed into words

An array of words holds an array of smaller numbers: each word has `n` lanes of `ℓ` bits, and
number `i` lies in lane `i % n` of word `i / n` (`Lib.lane`). The numbers are all there is in the
words (`Lib.lane_injective`), and an operation on a word that changes the bits of one lane only
changes one number only (`Lib.lane_update`).
-/

namespace Lib

variable {W ℓ n : ℕ}

/-- Number `i` of those that are packed into the words. -/
def lane (n ℓ : ℕ) (w : ℕ → BitVec W) (i : ℕ) : BitVec ℓ :=
  (w (i / n)).extractLsb' (i % n * ℓ) ℓ

/-- **An operation on a lane**: `g` does to a word what `f` does to the lane from bit `pos` on. -/
structure OnLane (pos : ℕ) (f : BitVec ℓ → BitVec ℓ) (g : BitVec W → BitVec W) : Prop where
  inside : ∀ v, (g v).extractLsb' pos ℓ = f (v.extractLsb' pos ℓ)
  outside : ∀ v k, k < pos ∨ pos + ℓ ≤ k → (g v).getLsbD k = v.getLsbD k

namespace OnLane

variable {pos : ℕ} {f f' : BitVec ℓ → BitVec ℓ} {g g' : BitVec W → BitVec W}

theorem comp (h' : OnLane pos f' g') (h : OnLane pos f g) : OnLane pos (f' ∘ f) (g' ∘ g) :=
  ⟨fun v => by rw [Function.comp_apply, h'.inside, h.inside]; rfl,
    fun v k hk => (h'.outside _ k hk).trans (h.outside v k hk)⟩

/-- Bits of a word that has nothing but a lane. -/
theorem getLsbD_setWidth_shiftLeft (hpos : pos + ℓ ≤ W) (x : BitVec ℓ) (k : ℕ) :
    (x.setWidth W <<< pos).getLsbD k = (decide (pos ≤ k) && x.getLsbD (k - pos)) := by
  rw [BitVec.getLsbD_shiftLeft, BitVec.getLsbD_setWidth]
  by_cases hk : pos ≤ k
  · by_cases hx : k - pos < ℓ
    · simp [hk, show k < W by omega, show k - pos < W by omega]
    · simp [BitVec.getLsbD_of_ge x _ (Nat.le_of_not_lt hx)]
  · simp [hk, Nat.lt_of_not_le hk]

/-- Bits are set. -/
theorem or (hpos : pos + ℓ ≤ W) (x : BitVec ℓ) :
    OnLane pos (· ||| x) (fun v : BitVec W => v ||| x.setWidth W <<< pos) := by
  refine ⟨fun v => BitVec.eq_of_getLsbD_eq fun k hk => ?_, fun v k hk => ?_⟩
  · simp only [BitVec.getLsbD_extractLsb', BitVec.getLsbD_or, getLsbD_setWidth_shiftLeft hpos, hk,
      Nat.le_add_right, decide_true, Bool.true_and, Nat.add_sub_cancel_left]
  · rw [BitVec.getLsbD_or, getLsbD_setWidth_shiftLeft hpos]
    rcases hk with hk | hk
    · simp [Nat.not_le.mpr hk]
    · simp [BitVec.getLsbD_of_ge x (k - pos) (by omega)]

/-- Bits are cleared. -/
theorem andNot (hpos : pos + ℓ ≤ W) (x : BitVec ℓ) :
    OnLane pos (· &&& ~~~x) (fun v : BitVec W => v &&& ~~~(x.setWidth W <<< pos)) := by
  refine ⟨fun v => BitVec.eq_of_getLsbD_eq fun k hk => ?_, fun v k hk => ?_⟩
  · simp only [BitVec.getLsbD_extractLsb', BitVec.getLsbD_and, BitVec.getLsbD_not,
      getLsbD_setWidth_shiftLeft hpos, hk, show pos + k < W by omega, Nat.le_add_right, decide_true,
      Bool.true_and, Nat.add_sub_cancel_left]
  · rw [BitVec.getLsbD_and, BitVec.getLsbD_not, getLsbD_setWidth_shiftLeft hpos]
    have hzero : (decide (pos ≤ k) && x.getLsbD (k - pos)) = false := by
      rcases hk with hk | hk
      · simp [Nat.not_le.mpr hk]
      · simp [BitVec.getLsbD_of_ge x (k - pos) (by omega)]
    rw [hzero]
    by_cases hW : k < W
    · simp [hW]
    · simp [BitVec.getLsbD_of_ge v k (Nat.le_of_not_lt hW)]

theorem setWidth_bit : (1 : BitVec 1).setWidth W = 1 := by
  refine BitVec.eq_of_toNat_eq ?_
  rw [BitVec.toNat_setWidth]
  simp [BitVec.toNat_ofNat]

/-- A number is put into the lane. -/
theorem put (hpos : pos + ℓ ≤ W) (x : BitVec ℓ) :
    OnLane pos (fun _ => x) (fun v : BitVec W =>
      v &&& ~~~((BitVec.allOnes ℓ).setWidth W <<< pos) ||| x.setWidth W <<< pos) := by
  have hcomp := (or hpos x).comp (andNot hpos (BitVec.allOnes ℓ))
  refine ⟨fun v => (hcomp.inside v).trans ?_, hcomp.outside⟩
  simp

/-- A lane of one bit is set. -/
theorem setBit (hpos : pos < W) :
    OnLane pos (fun _ : BitVec 1 => 1) (fun v : BitVec W => v ||| (1 : BitVec W) <<< pos) := by
  have hor : OnLane pos (fun x : BitVec 1 => x ||| 1)
    (fun v : BitVec W => v ||| (1 : BitVec 1).setWidth W <<< pos) := or hpos 1
  have hf : (fun x : BitVec 1 => x ||| 1) = fun _ => 1 := by
    funext x
    revert x
    decide
  rw [hf, setWidth_bit] at hor
  exact hor

/-- It is cleared. -/
theorem clearBit (hpos : pos < W) :
    OnLane pos (fun _ : BitVec 1 => 0) (fun v : BitVec W => v &&& ~~~((1 : BitVec W) <<< pos)) := by
  have hand : OnLane pos (fun x : BitVec 1 => x &&& ~~~1)
    (fun v : BitVec W => v &&& ~~~((1 : BitVec 1).setWidth W <<< pos)) := andNot hpos 1
  have hf : (fun x : BitVec 1 => x &&& ~~~1) = fun _ => 0 := by
    funext x
    revert x
    decide
  rw [hf, setWidth_bit] at hand
  exact hand

end OnLane

/-- **An operation on a lane** is one on the number in it. -/
theorem lane_update {f : BitVec ℓ → BitVec ℓ} {g : BitVec W → BitVec W} {i : ℕ}
    (h : OnLane (i % n * ℓ) f g) (w : ℕ → BitVec W) :
    lane n ℓ (Function.update w (i / n) (g (w (i / n)))) =
      Function.update (lane n ℓ w) i (f (lane n ℓ w i)) := by
  funext j
  rcases eq_or_ne j i with rfl | hj
  · rw [Function.update_self, lane, Function.update_self, h.inside]
    rfl
  · rw [Function.update_of_ne hj, lane, lane]
    by_cases hword : j / n = i / n
    · rw [hword, Function.update_self]
      have hmod : j % n ≠ i % n := by
        intro hmod
        exact hj (by rw [← Nat.div_add_mod j n, ← Nat.div_add_mod i n, hword, hmod])
      refine BitVec.eq_of_getLsbD_eq fun k hk => ?_
      rw [BitVec.getLsbD_extractLsb', BitVec.getLsbD_extractLsb', h.outside]
      rcases Nat.lt_or_gt_of_ne hmod with hlt | hgt
      · have hle := Nat.mul_le_mul_right ℓ hlt
        rw [Nat.succ_mul] at hle
        omega
      · have hle := Nat.mul_le_mul_right ℓ hgt
        rw [Nat.succ_mul] at hle
        omega
    · rw [Function.update_of_ne hword]

/-- **The numbers are all there is** in the words. -/
theorem lane_injective (hn : 0 < n) (hℓ : 0 < ℓ) (hW : W = n * ℓ) :
    Function.Injective (lane n ℓ : (ℕ → BitVec W) → ℕ → BitVec ℓ) := by
  intro w w' h
  funext q
  refine BitVec.eq_of_getLsbD_eq fun k hk => ?_
  have hlane : k / ℓ < n := Nat.div_lt_of_lt_mul (by rwa [Nat.mul_comm, ← hW])
  have hi := congrArg (fun x : BitVec ℓ => x.getLsbD (k % ℓ)) (congrFun h (n * q + k / ℓ))
  simp only [lane, BitVec.getLsbD_extractLsb', Nat.mod_lt k hℓ, decide_true, Bool.true_and,
    Nat.mul_add_div hn, Nat.mul_add_mod, Nat.mod_eq_of_lt hlane, Nat.div_eq_of_lt hlane,
    Nat.add_zero, Nat.div_add_mod'] at hi
  exact hi

end Lib
