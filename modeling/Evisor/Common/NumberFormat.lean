import Evisor.Lib.Numeral
import Mathlib.Data.BitVec
import Mathlib.Tactic.IntervalCases

/-!
# Numbers as text

The four functions of `common/cstdio/printf.cc` that write a number: `ulitoa` and `uitoa` for
unsigned numbers of 64 and of 32 bits, `litoa` and `itoa` for signed ones. They find the highest
power of the base that is not above the number, and then take one digit after the other.

The power never exceeds the number, so that it is found without an overflow
(`Printf.scaleSafe_of_lt`), and the digits from there on are all the digits of the number
(`Printf.utoa_eq`).
-/

namespace Evisor

namespace Printf

/-! ### Unsigned numbers -/

/-- The loop that finds the power to begin with, in arithmetic of `w` bits. Nothing is said of a
division by zero. -/
def scaleUp (w base value : ℕ) : ℕ → ℕ → Option ℕ
  | 0, _ => none
  | fuel + 1, v =>
    if v = 0 then none
    else if base ≤ value / v then scaleUp w base value fuel (v * base % 2 ^ w)
    else some v

/-- The character for a digit. -/
def digitChar (upper_case : Bool) (digit : ℕ) : ℕ :=
  digit + (if digit < 10 then '0'.toNat
    else (if upper_case then 'A'.toNat else 'a'.toNat) - 10)

/-- The loop that writes the digits, and the zero after them. -/
def writeDigits (base : ℕ) (upper_case : Bool) : ℕ → ℕ → ℕ → ℕ → Option (List ℕ)
  | 0, _, _, _ => none
  | fuel + 1, value, v, n =>
    if v = 0 then some [0]
    else
      let digit := value / v
      let value := value % v
      let v := v / base
      if n ≠ 0 ∨ 0 < digit ∨ v = 0 then
        (writeDigits base upper_case fuel value v (n + 1)).map (digitChar upper_case digit :: ·)
      else writeDigits base upper_case fuel value v n

/-- What `ulitoa` and `uitoa` do, in arithmetic of `w` bits. -/
def utoa (w fuel value base : ℕ) (upper_case : Bool) : Option (List ℕ) :=
  (scaleUp w base value fuel 1).bind fun v => writeDigits base upper_case fuel value v 0

/-- `ulitoa`. -/
def ulitoa (fuel : ℕ) (value : BitVec 64) (base : ℕ) (upper_case : Bool) : Option (List ℕ) :=
  utoa 64 fuel value.toNat base upper_case

/-- `uitoa`. -/
def uitoa (fuel : ℕ) (value : BitVec 32) (base : ℕ) (upper_case : Bool) : Option (List ℕ) :=
  utoa 32 fuel value.toNat base upper_case

/-! ### Signed numbers -/

/-- `uvalue`: the absolute value, computed so that it does not overflow for the least number. -/
def uvalue {w : ℕ} (value : BitVec w) : BitVec w :=
  if value.toInt < 0 then -(value + 1) + 1 else value

/-- A sign is written if there is one. -/
def withSign {w : ℕ} (value : BitVec w) (str : Option (List ℕ)) : Option (List ℕ) :=
  if value.toInt < 0 then str.map ('-'.toNat :: ·) else str

/-- `litoa`. -/
def litoa (fuel : ℕ) (value : BitVec 64) : Option (List ℕ) :=
  withSign value (ulitoa fuel (uvalue value) 10 false)

/-- `itoa`. -/
def itoa (fuel : ℕ) (value : BitVec 32) (base : ℕ) : Option (List ℕ) :=
  withSign value (uitoa fuel (uvalue value) base false)

variable {w base value fuel n k v : ℕ} {upper_case : Bool}

/-! ### The power to begin with -/

/-- **No multiplication of the loop overflows**, as long as it goes on. -/
def ScaleSafe (w base value : ℕ) : ℕ → ℕ → Prop
  | 0, _ => True
  | fuel + 1, v => base ≤ value / v → v * base < 2 ^ w ∧ ScaleSafe w base value fuel (v * base)

theorem scaleSafe_of_lt (hvalue : value < 2 ^ w) (hbase : 0 < base) (hv : 0 < v) (fuel : ℕ) :
    ScaleSafe w base value fuel v := by
  induction fuel generalizing v with
  | zero => trivial
  | succ fuel ih =>
    intro hle
    have hmul : base * v ≤ value := (Nat.le_div_iff_mul_le hv).mp hle
    rw [Nat.mul_comm] at hmul
    exact ⟨Nat.lt_of_le_of_lt hmul hvalue, ih (Nat.mul_pos hv hbase)⟩

/-- **The highest power of the base** that is not above the number. -/
theorem scaleUp_eq (hbase : 1 < base) (hvalue : value < 2 ^ w) (hk : k ≤ Nat.log base value)
    (hfuel : Nat.log base value < fuel + k) :
    scaleUp w base value fuel (base ^ k) = some (base ^ Nat.log base value) := by
  have hpos : 0 < base := Nat.zero_lt_of_lt hbase
  induction fuel generalizing k with
  | zero => omega
  | succ fuel ih =>
    have hpow : 0 < base ^ k := Nat.pow_pos hpos
    have hiff : base ≤ value / base ^ k ↔ base ^ (k + 1) ≤ value := by
      rw [Nat.le_div_iff_mul_le hpow, Nat.mul_comm, ← Nat.pow_succ]
    rw [scaleUp, if_neg hpow.ne']
    rcases Nat.lt_or_eq_of_le hk with hlt | rfl
    · have hne : value ≠ 0 := by
        rintro rfl
        simp at hlt
      have hle : base ^ (k + 1) ≤ value :=
        (Nat.pow_le_pow_right hpos hlt).trans (Nat.pow_log_le_self base hne)
      rw [if_pos (hiff.mpr hle), ← Nat.pow_succ,
        Nat.mod_eq_of_lt (Nat.lt_of_le_of_lt hle hvalue)]
      exact ih hlt (by omega)
    · rw [if_neg (hiff.not.mpr (Nat.not_le.mpr (Nat.lt_pow_succ_log_self hbase value)))]

/-! ### The digits -/

theorem writes_digitChar (hbase : base ≤ 16) : Lib.Writes base (digitChar upper_case) := by
  intro d hd
  have hd16 : d < 16 := Nat.lt_of_lt_of_le hd hbase
  cases upper_case <;> interval_cases d <;> rfl

/-- **Once a digit is written**, all those after it are. -/
theorem writeDigits_eq (hbase : 1 < base) (hfuel : k + 2 ≤ fuel)
    (hfirst : n ≠ 0 ∨ 0 < value / base ^ k ∨ k = 0) :
    writeDigits base upper_case fuel value (base ^ k) n =
      some ((Lib.digitsFrom base (k + 1) value).map (digitChar upper_case) ++ [0]) := by
  induction k generalizing fuel value n with
  | zero =>
    obtain ⟨fuel, rfl⟩ := Nat.exists_eq_add_of_le hfuel
    have hlast : 1 / base = 0 := Nat.div_eq_of_lt hbase
    simp [Nat.add_comm, writeDigits, hlast, Lib.digitsFrom]
  | succ k ih =>
    obtain ⟨fuel, rfl⟩ : ∃ m, fuel = m + 1 := ⟨fuel - 1, by omega⟩
    have hpow : base ^ (k + 1) ≠ 0 := (Nat.pow_pos (Nat.zero_lt_of_lt hbase)).ne'
    have hdiv : base ^ (k + 1) / base = base ^ k :=
      Nat.div_eq_of_eq_mul_left (Nat.zero_lt_of_lt hbase) (Nat.pow_succ ..)
    have hwritten : n ≠ 0 ∨ 0 < value / base ^ (k + 1) ∨ base ^ k = 0 := by
      rcases hfirst with hn | hdigit | hk
      · exact Or.inl hn
      · exact Or.inr (Or.inl hdigit)
      · cases hk
    rw [writeDigits, if_neg hpow]
    simp only [hdiv]
    rw [if_pos hwritten, ih (by omega) (Or.inl n.succ_ne_zero)]
    rfl

/-- A number of `w` bits is below a power of any base. -/
theorem lt_pow (hbase : 1 < base) (hvalue : value < 2 ^ w) : value < base ^ w :=
  Nat.lt_of_lt_of_le hvalue (Nat.pow_le_pow_left hbase w)

/-- The digits of a number, as they are written. -/
def numeral (base : ℕ) (upper_case : Bool) (value : ℕ) : List ℕ :=
  (Lib.digitsFrom base (Nat.log base value + 1) value).map (digitChar upper_case)

theorem length_numeral : (numeral base upper_case value).length = Nat.log base value + 1 := by
  rw [numeral, List.length_map, Lib.length_digitsFrom]

theorem isNumeral_numeral (hbase : 1 < base) (hbase' : base ≤ 16) (value : ℕ) :
    Lib.IsNumeral base (numeral base upper_case value) value :=
  Lib.isNumeral_digitsFrom (writes_digitChar hbase') hbase value

/-- **What is written** is the digits of the number, as many as it has, and a zero. -/
theorem utoa_eq (hbase : 1 < base) (hvalue : value < 2 ^ w) (hw : 0 < w) (hfuel : w < fuel) :
    utoa w fuel value base upper_case = some (numeral base upper_case value ++ [0]) := by
  have hlog := Nat.log_lt_of_lt_pow' hw.ne' (lt_pow hbase hvalue)
  have hscale : scaleUp w base value fuel 1 = some (base ^ Nat.log base value) := by
    rw [← Nat.pow_zero base]
    exact scaleUp_eq hbase hvalue (Nat.zero_le _) (by omega)
  have hfirst : 0 < value / base ^ Nat.log base value ∨ Nat.log base value = 0 := by
    rcases Nat.eq_zero_or_pos value with rfl | hpos
    · exact Or.inr (by simp)
    · exact Or.inl (Nat.div_pos (Nat.pow_log_le_self base hpos.ne')
        (Nat.pow_pos (Nat.zero_lt_of_lt hbase)))
  rw [utoa, hscale, Option.bind_some, writeDigits_eq hbase (by omega) (Or.inr hfirst)]
  rfl

/-! ### The sign -/

/-- **The absolute value** does not overflow. -/
theorem toNat_uvalue (value : BitVec w) : (uvalue value).toNat = value.toInt.natAbs := by
  have hsucc : -(value + 1) + 1 = -value := by ring
  rw [uvalue, hsucc]
  rcases hmsb : value.msb with _ | _
  · have hint := BitVec.toInt_eq_toNat_of_msb hmsb
    rw [if_neg (by omega)]
    omega
  · have hint := BitVec.toInt_eq_neg_toNat_neg_of_msb_true hmsb
    have hneg : value.toInt < 0 := BitVec.toInt_neg_of_msb_true hmsb
    rw [if_pos hneg]
    omega

/-- A signed number, as it is written. -/
def signedNumeral (base : ℕ) (z : ℤ) : List ℕ :=
  if z < 0 then '-'.toNat :: numeral base false z.natAbs else numeral base false z.natAbs

theorem withSign_eq (value : BitVec w) :
    withSign value (some (numeral base false value.toInt.natAbs ++ [0])) =
      some (signedNumeral base value.toInt ++ [0]) := by
  rw [withSign, signedNumeral]
  split <;> rfl

theorem isSigned_signedNumeral (hbase : 1 < base) (hbase' : base ≤ 16) (z : ℤ) :
    Lib.IsSigned base (signedNumeral base z) z :=
  ⟨_, rfl, isNumeral_numeral hbase hbase' _⟩

/-! ### The four functions -/

theorem ulitoa_eq (hbase : 1 < base) (hfuel : 64 < fuel) (value : BitVec 64) :
    ulitoa fuel value base upper_case = some (numeral base upper_case value.toNat ++ [0]) :=
  utoa_eq hbase value.isLt (by decide) hfuel

theorem uitoa_eq (hbase : 1 < base) (hfuel : 32 < fuel) (value : BitVec 32) :
    uitoa fuel value base upper_case = some (numeral base upper_case value.toNat ++ [0]) :=
  utoa_eq hbase value.isLt (by decide) hfuel

theorem litoa_eq (hfuel : 64 < fuel) (value : BitVec 64) :
    litoa fuel value = some (signedNumeral 10 value.toInt ++ [0]) := by
  rw [litoa, ulitoa_eq (by decide) hfuel, toNat_uvalue, withSign_eq]

theorem itoa_eq (hbase : 1 < base) (hfuel : 32 < fuel) (value : BitVec 32) :
    itoa fuel value base = some (signedNumeral base value.toInt ++ [0]) := by
  rw [itoa, uitoa_eq hbase hfuel, toNat_uvalue, withSign_eq]

/-- The length of the buffer that `vfprintf` has for a number. -/
def kBufSize : ℕ := 65

theorem length_numeral_le (hvalue : value < base ^ k) (hk : 0 < k) :
    (numeral base upper_case value).length ≤ k := by
  have hlog := Nat.log_lt_of_lt_pow' hk.ne' hvalue
  rw [length_numeral]
  omega

/-- The sign needs one more place. -/
theorem length_signedNumeral_le {z : ℤ} (hz : z.natAbs < base ^ k) (hk : 0 < k) :
    (signedNumeral base z).length ≤ k + 1 := by
  have hlen : (numeral base false z.natAbs).length ≤ k := length_numeral_le hz hk
  rw [signedNumeral]
  split
  · exact Nat.succ_le_succ hlen
  · exact Nat.le_succ_of_le hlen

theorem natAbs_toInt_lt (value : BitVec w) : value.toInt.natAbs < 2 ^ w := by
  rw [← toNat_uvalue]
  exact (uvalue value).isLt

/-- **A number is written** as a numeral of no more than `room` digits and the zero that ends it. -/
def Written (base room value : ℕ) (str : Option (List ℕ)) : Prop :=
  ∃ s, str = some (s ++ [0]) ∧ 0 ∉ s ∧ s.length ≤ room ∧ Lib.IsNumeral base s value

/-- **A signed number is written**, and the zero that ends it is in the buffer. -/
def SignedWritten (base : ℕ) (z : ℤ) (str : Option (List ℕ)) : Prop :=
  ∃ s, str = some (s ++ [0]) ∧ 0 ∉ s ∧ s.length + 1 ≤ kBufSize ∧ Lib.IsSigned base s z

/-- A number of no more than 63 digits is in the buffer with its sign. -/
theorem signedWritten (hbase : 1 < base) (hbase' : base ≤ 16) {z : ℤ} {str : Option (List ℕ)}
    (hstr : str = some (signedNumeral base z ++ [0])) (hz : z.natAbs < base ^ 63) :
    SignedWritten base z str := by
  have hsigned : Lib.IsSigned base (signedNumeral base z) z := isSigned_signedNumeral hbase hbase' z
  exact ⟨_, hstr, hsigned.notMem (by decide) (by decide),
    Nat.succ_le_succ (length_signedNumeral_le hz (by decide)), hsigned⟩

/-- **Numbers are formatted exactly.** Nothing overflows in finding the power to begin with, what is
written ends, and it denotes the number without leading zeros. The two functions for unsigned
numbers write the same. -/
theorem numbers_formatted (hfuel : 64 < fuel) :
    (∀ (value : BitVec 64) (base : ℕ) (upper_case : Bool), 2 ≤ base → base ≤ 16 →
      ScaleSafe 64 base value.toNat fuel 1 ∧
        Written base 64 value.toNat (ulitoa fuel value base upper_case)) ∧
    (∀ (value : BitVec 32) (base : ℕ) (upper_case : Bool), 2 ≤ base → base ≤ 16 →
      ScaleSafe 32 base value.toNat fuel 1 ∧
        uitoa fuel value base upper_case = ulitoa fuel (value.setWidth 64) base upper_case) ∧
    (∀ value : BitVec 64, SignedWritten 10 value.toInt (litoa fuel value)) ∧
    ∀ value : BitVec 32, SignedWritten 10 value.toInt (itoa fuel value 10) := by
  refine ⟨fun value base upper_case hbase hbase' => ⟨?_, ?_⟩,
    fun value base upper_case hbase hbase' => ⟨?_, ?_⟩, fun value => ?_, fun value => ?_⟩
  · exact scaleSafe_of_lt value.isLt (Nat.zero_lt_of_lt hbase) Nat.one_pos fuel
  · have hnumeral : Lib.IsNumeral base (numeral base upper_case value.toNat) value.toNat :=
      isNumeral_numeral hbase hbase' _
    exact ⟨_, ulitoa_eq hbase hfuel value, Lib.notMem_of_natOf hnumeral.denotes (by decide),
      length_numeral_le (lt_pow hbase value.isLt) (by decide), hnumeral⟩
  · exact scaleSafe_of_lt value.isLt (Nat.zero_lt_of_lt hbase) Nat.one_pos fuel
  · rw [uitoa_eq hbase (by omega), ulitoa_eq hbase hfuel, BitVec.toNat_setWidth,
      Nat.mod_eq_of_lt (by have := value.isLt; omega)]
  · exact signedWritten (by decide) (by decide) (litoa_eq hfuel value)
      (Nat.lt_trans (natAbs_toInt_lt value) (by decide))
  · exact signedWritten (by decide) (by decide) (itoa_eq (by decide) (by omega) value)
      (Nat.lt_trans (natAbs_toInt_lt value) (by decide))

/-- The least number of 64 bits. -/
theorem numbers_formatted_min :
    SignedWritten 10 (BitVec.intMin 64).toInt (litoa 65 (BitVec.intMin 64)) :=
  (numbers_formatted (by decide)).2.2.1 (BitVec.intMin 64)

end Printf

end Evisor
