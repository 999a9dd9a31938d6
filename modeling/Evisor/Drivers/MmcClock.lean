import Evisor.Drivers.MmcCommand
import Evisor.Lib.Bits
import Evisor.Lib.Halving
import Mathlib.Tactic.IntervalCases
import Mathlib.Tactic.NormNum

/-!
# The clock of the SD card

`drivers/mmc/mmc_clock.cc`. `GetClockDivider` chooses what the base clock is divided by, and
`Mmc::ChangeClockRate` is to write it into `CONTROL1`, which keeps what is written to it.

When the rate goes into the base clock the divider is the best power of two
(`Emmc.getClockDivider_of_dvd`). When it does not, the quotient is dropped and the divider is the
greatest there is (`Emmc.getClockDivider_of_not_dvd`).
-/

namespace Evisor

namespace Emmc

/-! ### The divider -/

/-- `target_div`, before a bit of it is looked for. Nothing is said of a division by zero. -/
def targetDiv (base_clock target_clock : Word) : Option Word :=
  if target_clock ≤ base_clock then
    if target_clock = 0 then none
    else if base_clock % target_clock ≠ 0 then some 0
    else some (base_clock / target_clock)
  else some 1

/-- `div` after the search for the first bit below bit `n` that is set: its number, or the next one
if it is not the only one. It stays `-1` when there is none. -/
def firstBit (target_div : Word) : ℕ → Option ℕ
  | 0 => none
  | first_bit + 1 =>
    let bt := (1 : Word) <<< first_bit
    if target_div &&& bt ≠ 0 then
      some (if target_div &&& ~~~bt ≠ 0 then first_bit + 1 else first_bit)
    else firstBit target_div first_bit

/-- What the clock is divided by, halved: the power of two by its exponent. -/
def dividerOf (div : Option ℕ) : ℕ :=
  let div := div.getD 31
  let div := if 32 ≤ div then 31 else div
  let div := if div ≠ 0 then 1 <<< (div - 1) else div
  if 0x400 ≤ div then 0x3ff else div

/-- The divider as it stands in `CONTROL1`: the low eight bits first, and two more below them. -/
def dividerBits (div : ℕ) : Word :=
  BitVec.ofNat 32 ((div &&& 0xff) <<< 8 ||| (div >>> 8 &&& 0x3) <<< 6)

/-- `GetClockDivider`. -/
def getClockDivider (base_clock target_clock : Word) : Option Word :=
  (targetDiv base_clock target_clock).map fun target_div =>
    dividerBits (dividerOf (firstBit target_div 32))

/-- The divider that the controller takes from `CONTROL1`. -/
def dividerField (control1 : Word) : ℕ :=
  (control1.toNat >>> 8 &&& 0xff) + 0x100 * (control1.toNat >>> 6 &&& 0x3)

/-- The clock of the card, by the divider. -/
def sdClock (base_clock : Word) (div : ℕ) : ℚ :=
  if div = 0 then base_clock.toNat else base_clock.toNat / (2 * div : ℕ)

variable {base_clock target_clock target_div : Word} {n div : ℕ}

/-- A divider of ten bits is the one that the controller takes. -/
theorem dividerField_dividerBits (h : div < 0x400) : dividerField (dividerBits div) = div := by
  have hlow : div &&& 0xff = div % 0x100 := Nat.and_two_pow_sub_one_eq_mod div 8
  have hhigh : div >>> 8 &&& 0x3 = div / 0x100 := by
    have hmod : div >>> 8 &&& 0x3 = div / 0x100 % 0x4 := Lib.shiftRight_and_mask div 8 2
    omega
  have hbits : (dividerBits div).toNat = div % 0x100 * 0x100 + div / 0x100 * 0x40 := by
    have hor : div % 0x100 * 0x100 ||| div / 0x100 * 0x40 =
        div % 0x100 * 0x100 + div / 0x100 * 0x40 :=
      Lib.or_eq_add (k := 8) (by omega) (by omega)
    rw [dividerBits, hlow, hhigh, BitVec.toNat_ofNat, Nat.shiftLeft_eq, Nat.shiftLeft_eq]
    simp only [Nat.reducePow, hor]
    omega
  have h8 : (dividerBits div).toNat >>> 8 &&& 0xff = (dividerBits div).toNat / 0x100 % 0x100 :=
    Lib.shiftRight_and_mask _ 8 8
  have h6 : (dividerBits div).toNat >>> 6 &&& 0x3 = (dividerBits div).toNat / 0x40 % 0x4 :=
    Lib.shiftRight_and_mask _ 6 2
  have hparts : ∀ x < 0x100, ∀ y < 0x4, (x * 0x100 + y * 0x40) / 0x100 % 0x100 = x ∧
      (x * 0x100 + y * 0x40) / 0x40 % 0x4 = y := by
    intro x hx y hy
    omega
  obtain ⟨hx, hy⟩ := hparts (div % 0x100) (by omega) (div / 0x100) (by omega)
  rw [dividerField, h8, h6, hbits, hx, hy]
  omega

/-! ### The search for the first bit -/

/-- A bit that is not above all others is set when the number is at least that great. -/
theorem getLsbD_eq_decide {v : Word} (hv : v.toNat < 2 ^ (n + 1)) :
    v.getLsbD n = decide (2 ^ n ≤ v.toNat) := by
  have hdiv : v.toNat / 2 ^ n < 2 := Nat.div_lt_of_lt_mul (by rwa [← Nat.pow_succ])
  have hpos : 1 ≤ v.toNat / 2 ^ n ↔ 2 ^ n ≤ v.toNat := by
    rw [Nat.le_div_iff_mul_le (by positivity), Nat.one_mul]
  have hodd : ∀ q, q < 2 → (q % 2 = 1 ↔ 1 ≤ q) := by
    intro q hq
    omega
  rw [BitVec.getLsbD, Nat.testBit_eq_decide_div_mod_eq]
  exact decide_eq_decide.mpr ((hodd _ hdiv).trans hpos)

theorem and_bit_ne_zero {v : Word} (hn : n < 32) (hv : v.toNat < 2 ^ (n + 1)) :
    v &&& (1 : Word) <<< n ≠ 0 ↔ 2 ^ n ≤ v.toNat := by
  have hbit : v &&& (1 : Word) <<< n = if v.getLsbD n then BitVec.twoPow 32 n else 0#32 :=
    BitVec.and_twoPow v n
  have hne : BitVec.twoPow 32 n ≠ 0#32 := by
    intro h
    have htoNat := congrArg BitVec.toNat h
    rw [BitVec.toNat_twoPow_of_lt hn] at htoNat
    exact absurd htoNat (by simp)
  rw [hbit, getLsbD_eq_decide hv]
  by_cases hle : 2 ^ n ≤ v.toNat
  · simp [hle, hne]
  · simp [hle]

/-- Nothing is left without its highest bit of a power of two, and of nothing else. -/
theorem and_not_bit_eq_zero {v : Word} (hn : n < 32) (hle : 2 ^ n ≤ v.toNat)
    (hv : v.toNat < 2 ^ (n + 1)) : v &&& ~~~((1 : Word) <<< n) = 0 ↔ v.toNat = 2 ^ n := by
  have hbit : v &&& BitVec.twoPow 32 n = BitVec.twoPow 32 n := by
    rw [BitVec.and_twoPow, getLsbD_eq_decide hv, if_pos (decide_eq_true hle)]
  have hsplit : v = v &&& BitVec.twoPow 32 n ||| v &&& ~~~(BitVec.twoPow 32 n) := by
    rw [← BitVec.and_or_distrib_left, BitVec.or_not_self, BitVec.and_allOnes]
  have htoNat : (BitVec.twoPow 32 n).toNat = 2 ^ n := BitVec.toNat_twoPow_of_lt hn
  constructor
  · intro h
    rw [hsplit, hbit, show v &&& ~~~(BitVec.twoPow 32 n) = 0 from h]
    simpa using htoNat
  · intro h
    have hpow : v = BitVec.twoPow 32 n := BitVec.eq_of_toNat_eq (h.trans htoNat.symm)
    rw [hpow]
    exact BitVec.and_not_self _

/-- **The search finds the logarithm**, rounded up. -/
theorem firstBit_eq (n : ℕ) (hn : n ≤ 32) {v : Word} (hv : v.toNat < 2 ^ n) :
    firstBit v n = if v = 0 then none else some (Nat.clog 2 v.toNat) := by
  induction n with
  | zero =>
    have hzero : v = 0 := BitVec.eq_of_toNat_eq (by simpa using hv)
    rw [firstBit, if_pos hzero]
  | succ n ih =>
    rw [firstBit]
    by_cases hle : 2 ^ n ≤ v.toNat
    · have hv0 : v ≠ 0 := by
        rintro rfl
        exact absurd hle (by simp)
      rw [if_pos ((and_bit_ne_zero (by omega) hv).mpr hle), if_neg hv0]
      refine congrArg some ?_
      by_cases heq : v.toNat = 2 ^ n
      · rw [if_neg (not_not.mpr ((and_not_bit_eq_zero (by omega) hle hv).mpr heq)), heq,
          Nat.clog_pow _ _ one_lt_two]
      · rw [if_pos fun hzero => heq ((and_not_bit_eq_zero (by omega) hle hv).mp hzero)]
        refine Nat.le_antisymm ?_ (Nat.clog_le_of_le_pow hv.le)
        exact Nat.lt_clog_iff_pow_lt one_lt_two |>.mpr (Nat.lt_of_le_of_ne hle (Ne.symm heq))
    · rw [if_neg (not_not.mpr (by_contra fun h => hle ((and_bit_ne_zero (by omega) hv).mp h)))]
      exact ih (by omega) (Nat.lt_of_not_le hle)

/-! ### The divider chosen -/

theorem dividerOf_of_le (h : n ≤ 10) :
    dividerOf (some n) = if n = 0 then 0 else 2 ^ (n - 1) := by
  interval_cases n <;> rfl

theorem dividerOf_lt (div : Option ℕ) : dividerOf div < 0x400 := by
  have hclamp : ∀ d : ℕ, (if 0x400 ≤ d then 0x3ff else d) < 0x400 := by
    intro d
    split
    · decide
    · omega
  exact hclamp _

/-- A power of two divides the clock by that power. -/
theorem sdClock_dividerOf (h : n ≤ 10) :
    sdClock base_clock (dividerOf (some n)) = base_clock.toNat / 2 ^ n := by
  rw [dividerOf_of_le h]
  rcases Nat.eq_zero_or_pos n with rfl | hn
  · simp [sdClock]
  · obtain ⟨m, rfl⟩ := Nat.exists_eq_add_of_lt hn
    rw [if_neg hn.ne', sdClock, if_neg (by simp)]
    simp [pow_succ, mul_comm]

/-- **A quotient** is replaced by the next power of two. -/
theorem getClockDivider_of_ne_zero (h : targetDiv base_clock target_clock = some target_div)
    (hne : target_div ≠ 0) : getClockDivider base_clock target_clock =
      some (dividerBits (dividerOf (some (Nat.clog 2 target_div.toNat)))) := by
  rw [getClockDivider, h, Option.map_some, firstBit_eq 32 le_rfl target_div.isLt, if_neg hne]

theorem targetDiv_of_lt (hlt : base_clock < target_clock) :
    targetDiv base_clock target_clock = some 1 :=
  if_neg (BitVec.not_le.mpr hlt)

theorem targetDiv_of_le (hle : target_clock ≤ base_clock) (hpos : 0 < target_clock) :
    targetDiv base_clock target_clock =
      if target_clock.toNat ∣ base_clock.toNat then some (base_clock / target_clock)
      else some 0 := by
  have hne : target_clock ≠ 0 := by
    rintro rfl
    exact absurd hpos (by decide)
  have hmod : base_clock % target_clock ≠ 0 ↔ ¬target_clock.toNat ∣ base_clock.toNat := by
    rw [Nat.dvd_iff_mod_eq_zero, ← BitVec.toNat_umod, not_iff_not, ← BitVec.toNat_inj]
    rfl
  rw [targetDiv, if_pos hle, if_neg hne]
  simp only [hmod, ite_not]

theorem targetDiv_of_pos (base_clock : Word) (hpos : 0 < target_clock) :
    ∃ target_div, targetDiv base_clock target_clock = some target_div := by
  rcases em (base_clock < target_clock) with hlt | hlt
  · exact ⟨_, targetDiv_of_lt hlt⟩
  · rw [targetDiv_of_le (BitVec.not_lt.mp hlt) hpos, ← apply_ite]
    exact ⟨_, rfl⟩

/-- **A rate that goes into the base clock** is reached, or bettered as little as a power of two
can. -/
theorem isGreatest_of_dvd (hle : target_clock ≤ base_clock) (hpos : 0 < target_clock)
    (hbase : base_clock.toNat ≤ 1024 * target_clock.toNat)
    (hdvd : target_clock.toNat ∣ base_clock.toNat) :
    ∃ divider, getClockDivider base_clock target_clock = some divider ∧
      IsGreatest (Lib.halved base_clock.toNat target_clock.toNat)
        (sdClock base_clock (dividerField divider)) := by
  have hdiv := (targetDiv_of_le hle hpos).trans (if_pos hdvd)
  have htoNat : (base_clock / target_clock).toNat = base_clock.toNat / target_clock.toNat :=
    BitVec.toNat_udiv
  have hone : 0 < base_clock.toNat / target_clock.toNat := Nat.div_pos hle hpos
  have hne : base_clock / target_clock ≠ 0 := by
    intro h
    rw [← htoNat, h] at hone
    exact absurd hone (by simp)
  have hclog : Nat.clog 2 (base_clock.toNat / target_clock.toNat) ≤ 10 :=
    Nat.clog_le_of_le_pow (Nat.div_le_of_le_mul (by rw [Nat.mul_comm]; exact hbase))
  refine ⟨_, getClockDivider_of_ne_zero hdiv hne, ?_⟩
  rw [dividerField_dividerBits (dividerOf_lt _), htoNat, sdClock_dividerOf hclog]
  exact Lib.isGreatest_halved_clog hdvd

/-- **A rate above the base clock** leaves the clock as it is. -/
theorem isGreatest_of_lt (hlt : base_clock < target_clock) :
    ∃ divider, getClockDivider base_clock target_clock = some divider ∧
      IsGreatest (Lib.halved base_clock.toNat target_clock.toNat)
        (sdClock base_clock (dividerField divider)) := by
  refine ⟨_, getClockDivider_of_ne_zero (targetDiv_of_lt hlt) (by decide), ?_⟩
  rw [dividerField_dividerBits (dividerOf_lt _)]
  have hself := Lib.isGreatest_halved_self (Nat.le_of_lt (BitVec.lt_def.mp hlt))
  simpa [dividerOf, sdClock] using hself

/-- **A rate that does not go into the base clock** makes the divider the greatest there is. -/
theorem getClockDivider_of_not_dvd (hle : target_clock ≤ base_clock) (hpos : 0 < target_clock)
    (hdvd : ¬target_clock.toNat ∣ base_clock.toNat) :
    getClockDivider base_clock target_clock = some (dividerBits 0x3ff) := by
  rw [getClockDivider, targetDiv_of_le hle hpos, if_neg hdvd, Option.map_some,
    firstBit_eq 32 le_rfl (by decide), if_pos rfl]
  rfl

theorem two_mul_1023_ne_pow (k : ℕ) : 2 * 0x3ff ≠ 2 ^ k := by
  rcases Nat.lt_or_ge k 11 with hlt | hge
  · have hpow := Nat.pow_le_pow_right two_pos (Nat.le_of_lt_succ hlt)
    omega
  · have hpow := Nat.pow_le_pow_right two_pos hge
    omega

/-- **The best divider** for a rate: the clock is not above the rate, and no power of two brings it
closer. -/
def BestDivider (base_clock target_clock divider : Word) : Prop :=
  sdClock base_clock (dividerField divider) ≤ target_clock.toNat ∧
    IsGreatest (Lib.halved base_clock.toNat target_clock.toNat)
      (sdClock base_clock (dividerField divider))

/-- **The clock is never above the rate**, as long as a divider of ten bits is enough. -/
theorem sdClock_le_target (hpos : 0 < target_clock)
    (hbase : base_clock.toNat ≤ 1024 * target_clock.toNat) :
    ∃ divider, getClockDivider base_clock target_clock = some divider ∧
      sdClock base_clock (dividerField divider) ≤ target_clock.toNat := by
  rcases em (base_clock < target_clock) with hlt | hlt
  · obtain ⟨divider, hdivider, hbest⟩ := isGreatest_of_lt hlt
    exact ⟨divider, hdivider, hbest.1.2⟩
  · have hle : target_clock ≤ base_clock := BitVec.not_lt.mp hlt
    by_cases hdvd : target_clock.toNat ∣ base_clock.toNat
    · obtain ⟨divider, hdivider, hbest⟩ := isGreatest_of_dvd hle hpos hbase hdvd
      exact ⟨divider, hdivider, hbest.1.2⟩
    · refine ⟨_, getClockDivider_of_not_dvd hle hpos hdvd, ?_⟩
      rw [dividerField_dividerBits (by decide), sdClock, if_neg (by decide),
        div_le_iff₀ (by norm_num)]
      norm_cast
      omega

/-- **A rate that does not go into the base clock** gets no power of two. -/
theorem not_best_of_not_dvd (hle : target_clock ≤ base_clock) (hpos : 0 < target_clock)
    (hdvd : ¬target_clock.toNat ∣ base_clock.toNat) :
    ¬∃ divider, getClockDivider base_clock target_clock = some divider ∧
      BestDivider base_clock target_clock divider := by
  rintro ⟨divider, hdivider, -, hbest⟩
  rw [getClockDivider_of_not_dvd hle hpos hdvd] at hdivider
  obtain rfl := Option.some.inj hdivider
  rw [dividerField_dividerBits (by decide), sdClock, if_neg (by decide)] at hbest
  have hbase : 0 < base_clock.toNat := Nat.pos_of_ne_zero fun h => hdvd (h ▸ Nat.dvd_zero _)
  exact Lib.div_notMem_halved hbase two_mul_1023_ne_pow hbest.1

/-- **The divider is the best one** exactly when there is nothing to divide or the rate goes into
the base clock. -/
theorem best_divider_iff (hpos : 0 < target_clock)
    (hbase : base_clock.toNat ≤ 1024 * target_clock.toNat) :
    (∃ divider, getClockDivider base_clock target_clock = some divider ∧
      BestDivider base_clock target_clock divider) ↔
      base_clock < target_clock ∨ target_clock.toNat ∣ base_clock.toNat := by
  rcases em (base_clock < target_clock) with hlt | hlt
  · obtain ⟨divider, hdivider, hbest⟩ := isGreatest_of_lt hlt
    exact iff_of_true ⟨divider, hdivider, hbest.1.2, hbest⟩ (Or.inl hlt)
  · have hle : target_clock ≤ base_clock := BitVec.not_lt.mp hlt
    by_cases hdvd : target_clock.toNat ∣ base_clock.toNat
    · obtain ⟨divider, hdivider, hbest⟩ := isGreatest_of_dvd hle hpos hbase hdvd
      exact iff_of_true ⟨divider, hdivider, hbest.1.2, hbest⟩ (Or.inr hdvd)
    · exact iff_of_false (not_best_of_not_dvd hle hpos hdvd) (not_or.mpr ⟨hlt, hdvd⟩)

/-- A base clock of 100 MHz is divided by four for a rate of 25 MHz. -/
theorem best_divider_25MHz :
    ∃ divider, getClockDivider 100000000 25000000 = some divider ∧
      BestDivider 100000000 25000000 divider :=
  (best_divider_iff (by decide) (by decide)).mpr (Or.inr ⟨4, by decide⟩)

/-- **For a rate of 25 MHz a base clock of 54 MHz is divided by 2046**, though four would do. -/
theorem divider_not_best :
    ¬∀ base_clock target_clock : Word, 0 < target_clock →
      base_clock.toNat ≤ 1024 * target_clock.toNat →
      ∃ divider, getClockDivider base_clock target_clock = some divider ∧
        BestDivider base_clock target_clock divider := by
  intro h
  have hdvd : ¬(25000000 : Word).toNat ∣ (54000000 : Word).toNat := by decide
  exact not_best_of_not_dvd (by decide) (by decide) hdvd
    (h 54000000 25000000 (by decide) (by decide))

/-! ### The rate is changed -/

/-- The two inhibit bits of `STATUS`. -/
def EMMC_STATUS_CMD_INHIBIT : Word := 1 <<< 0
def EMMC_STATUS_DAT_INHIBIT : Word := 1 <<< 1

/-- `EMMC_CTRL1_CLK_EN`. -/
def EMMC_CTRL1_CLK_EN : Word := 1 <<< 2

/-- `CONTROL1`, which keeps what is written to it, and the other registers. -/
structure ClockState where
  CONTROL1 : Word
  regs_ : Lib.Bus Reg Word

/-- Neither a command nor data is under way. -/
def idle (status : Word) : Bool :=
  status &&& (EMMC_STATUS_CMD_INHIBIT ||| EMMC_STATUS_DAT_INHIBIT) == 0

/-- The loop of `ChangeClockRate`, as long as it makes no more than `fuel` reads. -/
def waitIdle (fuel : ℕ) (s : ClockState) : Option ClockState :=
  let wait := s.regs_.poll .STATUS idle fuel
  wait.1.map fun _ => { s with regs_ := wait.2 }

/-- `Mmc::ChangeClockRate`. -/
def changeClockRate (base_clock target_rate : Word) (fuel : ℕ) (s : ClockState) :
    Option (Bool × ClockState) :=
  (getClockDivider base_clock target_rate).bind fun divider =>
    (waitIdle fuel s).map fun s =>
      let c1 := s.CONTROL1 &&& ~~~EMMC_CTRL1_CLK_EN
      let s := { s with CONTROL1 := c1 }
      let s := { s with CONTROL1 := (c1 ||| divider) &&& ~~~0xFFE0 }
      (true, { s with CONTROL1 := c1 ||| EMMC_CTRL1_CLK_EN })

/-- The bits of `CONTROL1` that hold the divider. -/
def kDividerMask : Word := 0xffc0

/-- **The divider has been programmed**: it stands in `CONTROL1`, the clock is enabled, and the
other bits are as before. -/
structure Programmed (divider old new : Word) : Prop where
  divider : new &&& kDividerMask = divider
  enabled : new &&& EMMC_CTRL1_CLK_EN = EMMC_CTRL1_CLK_EN
  others : new &&& ~~~(kDividerMask ||| EMMC_CTRL1_CLK_EN) =
    old &&& ~~~(kDividerMask ||| EMMC_CTRL1_CLK_EN)

variable {target_rate : Word} {fuel : ℕ} {s s' : ClockState} {ok : Bool}

/-- **The last of the three writes** is the one that stays, and the divider is not in it. -/
theorem changeClockRate_control1
    (h : changeClockRate base_clock target_rate fuel s = some (ok, s')) :
    s'.CONTROL1 = s.CONTROL1 &&& ~~~EMMC_CTRL1_CLK_EN ||| EMMC_CTRL1_CLK_EN := by
  obtain ⟨divider, -, hwait⟩ := Option.bind_eq_some_iff.mp h
  obtain ⟨t, ht, heq⟩ := Option.map_eq_some_iff.mp hwait
  obtain ⟨k, -, rfl⟩ := Option.map_eq_some_iff.mp ht
  exact (congrArg (fun r : Bool × ClockState => r.2.CONTROL1) heq).symm

/-- What lies beside the bit that enables the clock is not changed by setting it. -/
theorem and_enable {mask : Word} (hmask : EMMC_CTRL1_CLK_EN &&& mask = 0)
    (hmask' : ~~~EMMC_CTRL1_CLK_EN &&& mask = mask) (old : Word) :
    (old &&& ~~~EMMC_CTRL1_CLK_EN ||| EMMC_CTRL1_CLK_EN) &&& mask = old &&& mask := by
  rw [BitVec.and_or_distrib_right, BitVec.and_assoc, hmask, hmask']
  exact BitVec.or_zero

/-- **The rate is changed** exactly when the divider is in `CONTROL1` before. -/
theorem change_clock_rate_iff
    (h : changeClockRate base_clock target_rate fuel s = some (ok, s')) :
    (∃ divider, getClockDivider base_clock target_rate = some divider ∧
      Programmed divider s.CONTROL1 s'.CONTROL1) ↔
      getClockDivider base_clock target_rate = some (s.CONTROL1 &&& kDividerMask) := by
  have hnew := changeClockRate_control1 h
  have hsame : s'.CONTROL1 &&& kDividerMask = s.CONTROL1 &&& kDividerMask :=
    hnew ▸ and_enable (by decide) (by decide) _
  constructor
  · rintro ⟨divider, hdivider, hprog⟩
    rw [hdivider, ← hsame, hprog.divider]
  · intro hdivider
    refine ⟨_, hdivider, hsame, ?_, hnew ▸ and_enable (by decide) (by decide) _⟩
    rw [hnew, BitVec.and_or_distrib_right, BitVec.and_assoc, BitVec.and_self]
    simp [EMMC_CTRL1_CLK_EN]

/-- Registers of which every read returns zero, with a value in `CONTROL1`. -/
def ClockState.quiet (control1 : Word) : ClockState := ⟨control1, ⟨fun _ => 0, 0, []⟩⟩

/-- `quiet`, after `STATUS` has been read once. -/
def ClockState.quietRead (control1 : Word) : ClockState :=
  ⟨control1, (ClockState.quiet control1).regs_.read .STATUS⟩

/-- A divider of four that is there already is kept. -/
theorem clock_rate_kept :
    ∃ divider, getClockDivider 100000000 25000000 = some divider ∧
      Programmed divider (ClockState.quiet 0x200).CONTROL1
        (ClockState.quietRead 0x204).CONTROL1 := by
  have hrun : changeClockRate 100000000 25000000 1 (ClockState.quiet 0x200) =
      some (true, ClockState.quietRead 0x204) := rfl
  exact (change_clock_rate_iff hrun).mpr rfl

/-- **From the rate of 400 kHz to that of 25 MHz** nothing happens: the divider of 256 stays. -/
theorem clock_rate_not_changed :
    ¬∀ (base_clock target_rate : Word) (fuel : ℕ) (s s' : ClockState) (ok : Bool),
      changeClockRate base_clock target_rate fuel s = some (ok, s') →
      ∃ divider, getClockDivider base_clock target_rate = some divider ∧
        Programmed divider s.CONTROL1 s'.CONTROL1 := by
  intro h
  obtain ⟨divider, hdivider, hprog⟩ :=
    h 100000000 25000000 1 (.quiet 0x8000) (.quietRead 0x8004) true rfl
  have hfour : getClockDivider 100000000 25000000 = some 0x200 := rfl
  obtain rfl := Option.some.inj (hfour.symm.trans hdivider)
  exact absurd hprog.divider (by decide)

/-- **It returns** once neither a command nor data is under way, if there is a rate to change to. -/
theorem changeClockRate_returns {k : ℕ} (hpos : 0 < target_rate)
    (hidle : idle (s.regs_.values (s.regs_.reads + k)) = true) :
    ∃ fuel s', changeClockRate base_clock target_rate fuel s = some (true, s') := by
  obtain ⟨j, -, hj⟩ := Lib.exists_firstHit hidle
  have hwait : ∃ t, waitIdle (k + 1) s = some t := by
    rw [waitIdle, Lib.Bus.poll_eq, hj]
    exact ⟨_, rfl⟩
  have hdivider : ∃ divider, getClockDivider base_clock target_rate = some divider := by
    obtain ⟨target_div, htarget⟩ := targetDiv_of_pos base_clock hpos
    rw [getClockDivider, htarget]
    exact ⟨_, rfl⟩
  obtain ⟨t, ht⟩ := hwait
  obtain ⟨divider, hdivider⟩ := hdivider
  exact ⟨k + 1, _, by rw [changeClockRate, hdivider, Option.bind_some, ht, Option.map_some]⟩

end Emmc

end Evisor
