import Mathlib.Data.Int.Order.Basic
import Mathlib.Data.List.Basic
import Mathlib.Data.Nat.Log
import Mathlib.Tactic.Ring

/-!
# Numerals

What a string of ASCII characters denotes in a base (`Lib.natOf`, and `Lib.intOf` with a sign before
the digits), and how the digits of a number are found from the highest power of the base on
(`Lib.digitsFrom`). As many digits as the number has make a numeral without leading zeros
(`Lib.isNumeral_digitsFrom`), and zeros in front of a numeral change nothing unless it begins with
a sign (`Lib.natOf_zeros`, `Lib.intOf_zeros_sign`).
-/

namespace Lib

variable {base k n value : ℕ}

/-! ### What a string denotes -/

/-- The digit that a character is. -/
def digitOf (c : ℕ) : Option ℕ :=
  if '0'.toNat ≤ c ∧ c ≤ '9'.toNat then some (c - '0'.toNat)
  else if 'a'.toNat ≤ c ∧ c ≤ 'f'.toNat then some (c - 'a'.toNat + 10)
  else if 'A'.toNat ≤ c ∧ c ≤ 'F'.toNat then some (c - 'A'.toNat + 10)
  else none

/-- One more digit is read. -/
def readDigit (base : ℕ) (n : Option ℕ) (c : ℕ) : Option ℕ :=
  n.bind fun n => (digitOf c).bind fun d => if d < base then some (n * base + d) else none

/-- **The number that a string of digits denotes**, if it is one. -/
def natOf (base : ℕ) (s : List ℕ) : Option ℕ :=
  if s = [] then none else s.foldl (readDigit base) (some 0)

/-- **The integer that a string denotes**, with a sign before the digits if it is negative. -/
def intOf (base : ℕ) : List ℕ → Option ℤ
  | [] => none
  | c :: s =>
    if c = '-'.toNat then (natOf base s).map fun n : ℕ => -(n : ℤ)
    else (natOf base (c :: s)).map fun n : ℕ => (n : ℤ)

/-- **A numeral** has digits, and the first one is not a zero unless it is the only one. -/
structure IsNumeral (base : ℕ) (s : List ℕ) (value : ℕ) : Prop where
  denotes : natOf base s = some value
  leading : s.head? = some '0'.toNat → s.length = 1

/-- A numeral with a sign, if the number is negative. -/
def IsSigned (base : ℕ) (s : List ℕ) (z : ℤ) : Prop :=
  ∃ t, s = (if z < 0 then '-'.toNat :: t else t) ∧ IsNumeral base t z.natAbs

/-- Nothing can be read any more. -/
@[simp] theorem foldl_readDigit_none (s : List ℕ) : s.foldl (readDigit base) none = none := by
  induction s with
  | nil => rfl
  | cons c s ih => exact ih

theorem ne_nil_of_natOf {s : List ℕ} (h : natOf base s = some value) : s ≠ [] := by
  rintro rfl
  cases h

/-- What denotes a number has no character that is no digit. -/
theorem notMem_of_natOf {s : List ℕ} (h : natOf base s = some value) {c : ℕ}
    (hc : digitOf c = none) : c ∉ s := by
  intro hmem
  obtain ⟨s, t, rfl⟩ := List.append_of_mem hmem
  have hnone : ∀ n, readDigit base n c = none := by
    intro n
    rcases n with _ | n
    · rfl
    · simp [readDigit, hc]
  rw [natOf, if_neg (by simp), List.foldl_append, List.foldl_cons, hnone,
    foldl_readDigit_none] at h
  cases h

/-- **Zeros in front** of digits change nothing. -/
theorem natOf_zeros (hbase : 0 < base) {s : List ℕ} (hs : s ≠ []) :
    natOf base (List.replicate k '0'.toNat ++ s) = natOf base s := by
  have hzero : readDigit base (some 0) '0'.toNat = some 0 := by
    simp [readDigit, digitOf, hbase]
  have hzeros : (List.replicate k '0'.toNat).foldl (readDigit base) (some 0) = some 0 := by
    induction k with
    | zero => rfl
    | succ k ih => rw [List.replicate_succ, List.foldl_cons, hzero, ih]
  rw [natOf, natOf, if_neg hs, if_neg (by simp [hs]), List.foldl_append, hzeros]

/-- A numeral does not begin with a sign. -/
theorem head_ne_sign {c : ℕ} {s : List ℕ} (h : natOf base (c :: s) = some value) :
    c ≠ '-'.toNat := by
  rintro rfl
  exact notMem_of_natOf h (by decide) List.mem_cons_self

theorem intOf_of_natOf {s : List ℕ} (h : natOf base s = some value) :
    intOf base s = some (value : ℤ) := by
  rcases s with _ | ⟨c, s⟩
  · cases h
  · rw [intOf, if_neg (head_ne_sign h), h]
    rfl

/-- A numeral is one with a sign, too. -/
theorem IsNumeral.isSigned {s : List ℕ} (h : IsNumeral base s value) :
    IsSigned base s (value : ℤ) :=
  ⟨s, (if_neg (by omega)).symm, h⟩

/-- **A numeral with a sign** denotes its number. -/
theorem IsSigned.intOf_eq {s : List ℕ} {z : ℤ} (h : IsSigned base s z) :
    intOf base s = some z := by
  obtain ⟨t, rfl, ht⟩ := h
  by_cases hz : z < 0
  · have hneg : -(z.natAbs : ℤ) = z := by omega
    rw [if_pos hz, intOf, if_pos rfl, ht.denotes, Option.map_some, hneg]
  · have hpos : (z.natAbs : ℤ) = z := by omega
    rw [if_neg hz, intOf_of_natOf ht.denotes, hpos]

/-- **Zeros in front of a sign** leave nothing that denotes a number. -/
theorem intOf_zeros_sign (hk : 0 < k) (s : List ℕ) :
    intOf base (List.replicate k '0'.toNat ++ '-'.toNat :: s) = none := by
  obtain ⟨k, rfl⟩ := Nat.exists_eq_add_of_lt hk
  rw [Nat.zero_add, List.replicate_succ, List.cons_append, intOf, if_neg (by decide)]
  rcases hnat : natOf base ('0'.toNat :: (List.replicate k '0'.toNat ++ '-'.toNat :: s)) with _ | n
  · rfl
  · exact absurd (by simp) (notMem_of_natOf hnat (c := '-'.toNat) (by decide))

/-- A numeral with a sign has no character that is neither a digit nor the sign. -/
theorem IsSigned.notMem {s : List ℕ} {z : ℤ} (h : IsSigned base s z) {c : ℕ}
    (hc : digitOf c = none) (hsign : c ≠ '-'.toNat) : c ∉ s := by
  obtain ⟨t, rfl, ht⟩ := h
  have hmem := notMem_of_natOf ht.denotes hc
  split
  · exact List.not_mem_cons_of_ne_of_not_mem hsign hmem
  · exact hmem

/-! ### The digits of a number -/

/-- The lowest `k` digits of a number, the highest one of them first. -/
def digitsFrom (base : ℕ) : ℕ → ℕ → List ℕ
  | 0, _ => []
  | k + 1, value => value / base ^ k :: digitsFrom base k (value % base ^ k)

@[simp] theorem length_digitsFrom (k value : ℕ) : (digitsFrom base k value).length = k := by
  induction k generalizing value with
  | zero => rfl
  | succ k ih => rw [digitsFrom, List.length_cons, ih]

/-- What is found is digits, if the number has no more of them. -/
theorem lt_of_mem_digitsFrom (hbase : 0 < base) (hvalue : value < base ^ k) :
    ∀ d ∈ digitsFrom base k value, d < base := by
  induction k generalizing value with
  | zero => simp [digitsFrom]
  | succ k ih =>
    intro d hd
    rcases List.mem_cons.mp hd with rfl | hmem
    · exact Nat.div_lt_of_lt_mul (by rwa [← Nat.pow_succ])
    · exact ih (Nat.mod_lt _ (Nat.pow_pos hbase)) d hmem

/-- **The digits make up the number.** -/
theorem foldl_digitsFrom (hbase : 0 < base) (hvalue : value < base ^ k) :
    (digitsFrom base k value).foldl (fun n d => n * base + d) n = n * base ^ k + value := by
  induction k generalizing value n with
  | zero =>
    have hzero : value = 0 := by simpa using hvalue
    simp [digitsFrom, hzero]
  | succ k ih =>
    rw [digitsFrom, List.foldl_cons, ih (Nat.mod_lt _ (Nat.pow_pos hbase))]
    have hdiv := Nat.div_add_mod value (base ^ k)
    calc (n * base + value / base ^ k) * base ^ k + value % base ^ k
        = n * base ^ (k + 1) + (base ^ k * (value / base ^ k) + value % base ^ k) := by ring
      _ = n * base ^ (k + 1) + value := by rw [hdiv]

/-- A way to write digits as characters. -/
def Writes (base : ℕ) (f : ℕ → ℕ) : Prop := ∀ d < base, digitOf (f d) = some d

/-- Digits that are written are read. -/
theorem foldl_readDigit_map {f : ℕ → ℕ} (hf : Writes base f) {ds : List ℕ}
    (hds : ∀ d ∈ ds, d < base) : (ds.map f).foldl (readDigit base) (some n) =
      some (ds.foldl (fun n d => n * base + d) n) := by
  induction ds generalizing n with
  | nil => rfl
  | cons d ds ih =>
    have hd := hds d List.mem_cons_self
    have hread : readDigit base (some n) (f d) = some (n * base + d) := by
      simp [readDigit, hf d hd, hd]
    rw [List.map_cons, List.foldl_cons, hread, ih fun d hd => hds d (List.mem_cons_of_mem _ hd)]
    rfl

/-- **As many digits as a number has** make a numeral. -/
theorem isNumeral_digitsFrom {f : ℕ → ℕ} (hf : Writes base f) (hbase : 1 < base) (value : ℕ) :
    IsNumeral base ((digitsFrom base (Nat.log base value + 1) value).map f) value := by
  have hpos : 0 < base := Nat.zero_lt_of_lt hbase
  have hvalue : value < base ^ (Nat.log base value + 1) := Nat.lt_pow_succ_log_self hbase value
  constructor
  · rw [natOf, if_neg (by simp [digitsFrom]),
      foldl_readDigit_map hf (lt_of_mem_digitsFrom hpos hvalue), foldl_digitsFrom hpos hvalue]
    simp
  · intro hhead
    rw [List.length_map, length_digitsFrom]
    by_contra hlog
    have hne : value ≠ 0 := by
      rintro rfl
      simp at hlog
    have hfirst : value / base ^ Nat.log base value < base :=
      Nat.div_lt_of_lt_mul (by rwa [← Nat.pow_succ])
    have hzero : f (value / base ^ Nat.log base value) = '0'.toNat := by
      simpa [digitsFrom] using hhead
    have hdigit := hf _ hfirst
    rw [hzero] at hdigit
    have hdiv : value / base ^ Nat.log base value = 0 := (Option.some.inj hdigit).symm
    exact absurd hdiv (Nat.div_pos (Nat.pow_log_le_self base hne) (Nat.pow_pos hpos)).ne'

end Lib
