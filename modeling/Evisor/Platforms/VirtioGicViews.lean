import Evisor.Platforms.VirtioGic

/-!
# Setting and clearing interrupt bits

The distributor has two registers for each word of enable bits, of pending bits and of active bits:
what is written as one to the first is set, what is written as one to the second is cleared, and
both show the bits. `VirtioGic` has an array for each of the two, and stores in it what is written.

A register by which bits are cleared cannot be reached at all (`Evisor.gicStep_clear`), and one by
which they are set shows what was written last (`Evisor.set_view_iff`).
-/

namespace Evisor

/-- The bits that are set by one register and cleared by another. -/
inductive GicPair where
  | enable | pending | active
  deriving DecidableEq

/-- The two arrays, the one by which bits are set and the one by which they are cleared. -/
def GicPair.bank : GicPair → Bool → GicBank
  | .enable, false => .GICD_ISENABLER
  | .enable, true => .GICD_ICENABLER
  | .pending, false => .GICD_ISPENDR
  | .pending, true => .GICD_ICPENDR
  | .active, false => .GICD_ISACTIVER
  | .active, true => .GICD_ICACTIVER

/-- The offset of one of the two registers for word `i`. -/
def GicPair.addr (pair : GicPair) (clear : Bool) (i : Fin 32) : ℕ :=
  (pair.bank clear).offset + 4 * i

/-- A write of the guest to one of the two registers. -/
structure PairWrite where
  pair : GicPair
  clear : Bool
  i : Fin 32
  data : BitVec 32

/-- The access that the write is. -/
def PairWrite.access (op : PairWrite) : GicAccess :=
  .write (op.pair.addr op.clear op.i) op.data.toNat

/-- The distributor after some writes. -/
def gicWrites (ops : List PairWrite) : Except Fault GicRegs :=
  Lib.runFrom gicStep GicRegs.init (ops.map PairWrite.access)

/-- A write of a one to the position of a bit. -/
def PairWrite.Names (op : PairWrite) (pair : GicPair) (i : Fin 32) (j : ℕ) : Prop :=
  op.pair = pair ∧ op.i = i ∧ op.data.getLsbD j = true

instance (op : PairWrite) (pair : GicPair) (i : Fin 32) (j : ℕ) : Decidable (op.Names pair i j) :=
  inferInstanceAs (Decidable (_ ∧ _))

/-- **What the bit is to be**: whether the last one that was written to its position was written to
the register that sets it. -/
def lastOne (pair : GicPair) (i : Fin 32) (j : ℕ) : Bool → List PairWrite → Bool
  | bit, [] => bit
  | bit, op :: ops =>
    lastOne pair i j (if op.Names pair i j then !op.clear else bit) ops

/-- **A register shows the bits** that it is to show. -/
def Shows (ops : List PairWrite) (regs : GicRegs) (clear : Bool) : Prop :=
  ∀ (pair : GicPair) (i : Fin 32), ∃ v, gicRead regs (pair.addr clear i) = .ok v ∧
    ∀ j < 32, v.testBit j = lastOne pair i j false ops

/-- **The two registers share one state.** -/
def SharesState (ops : List PairWrite) : Prop :=
  ∃ regs, gicWrites ops = .ok regs ∧ ∀ clear, Shows ops regs clear

/-- The registers that set bits show it. -/
def SetViewRight (ops : List PairWrite) : Prop :=
  ∃ regs, gicWrites ops = .ok regs ∧ Shows ops regs false

/-! ### The registers that clear bits -/

theorem GicPair.bank_size (pair : GicPair) (clear : Bool) : (pair.bank clear).size = 32 := by
  cases pair <;> cases clear <;> rfl

/-- The index is taken from the bits of the offset that tell the arrays apart, too. -/
theorem gicDecode_clear (pair : GicPair) (i : Fin 32) :
    gicDecode (pair.addr true i) = some (pair.bank true, 32 + (i : ℕ)) := by
  revert i
  cases pair <;> decide

theorem gicRead_clear (pair : GicPair) (i : Fin 32) (regs : GicRegs) :
    gicRead regs (pair.addr true i) = .error .outOfBounds := by
  have hsize := pair.bank_size true
  rw [gicRead, gicDecode_clear]
  exact if_neg (by omega)

/-- **A bit cannot be cleared**: the write goes past the end of the array. -/
theorem gicStep_clear {op : PairWrite} (h : op.clear = true) (regs : GicRegs) :
    gicStep regs op.access = .error .outOfBounds := by
  have hsize := op.pair.bank_size true
  rw [PairWrite.access, gicStep, h, gicWrite, gicDecode_clear]
  exact if_neg (by omega)

theorem clear_eq_false_of_ok {regs regs' : GicRegs} {ops : List PairWrite}
    (h : Lib.runFrom gicStep regs (ops.map PairWrite.access) = .ok regs') {op : PairWrite}
    (hop : op ∈ ops) : op.clear = false := by
  induction ops generalizing regs with
  | nil => cases hop
  | cons o ops ih =>
    rw [List.map_cons, Lib.runFrom] at h
    rcases hclear : o.clear with _ | _
    · rcases hstep : gicStep regs o.access with f | t
      · simp [hstep] at h
      · simp only [hstep] at h
        rcases List.mem_cons.mp hop with rfl | hmem
        · exact hclear
        · exact ih h hmem
    · simp [gicStep_clear hclear] at h

/-- **The two registers share nothing**, whatever has been written. -/
theorem not_sharesState (ops : List PairWrite) : ¬SharesState ops := by
  rintro ⟨regs, -, h⟩
  obtain ⟨v, hv, -⟩ := h true .enable 0
  rw [gicRead_clear] at hv
  cases hv

/-! ### The registers that set bits -/

theorem addr_sound (pair : GicPair) (i : Fin 32) : SoundOffset (pair.addr false i) := by
  have hi := i.isLt
  refine Or.inr ?_
  cases pair <;> simp only [GicPair.addr, GicPair.bank, GicBank.offset] <;> omega

theorem gicRead_set (pair : GicPair) (i : Fin 32) (regs : GicRegs) :
    gicRead regs (pair.addr false i) = .ok (regs (pair.bank false) i) := by
  have hdec : gicDecode (pair.addr false i) = some (pair.bank false, (i : ℕ)) := by
    revert i
    cases pair <;> decide
  exact gicRead_register hdec (by rw [pair.bank_size]; exact i.isLt)

/-- A word of bits is known from the offset of the register that sets them. -/
theorem addr_inj {pair pair' : GicPair} {i i' : Fin 32}
    (h : pair.addr false i = pair'.addr false i') : pair = pair' ∧ i = i' := by
  obtain ⟨hbank, hi⟩ := GicBank.offset_inj (by rw [pair.bank_size]; exact i.isLt)
    (by rw [pair'.bank_size]; exact i'.isLt) h
  refine ⟨?_, Fin.ext hi⟩
  cases pair <;> cases pair' <;> first | rfl | cases hbank

/-- The word that was last written to the register that sets bits. -/
def lastWord (pair : GicPair) (i : Fin 32) (v : ℕ) (ops : List PairWrite) : ℕ :=
  lastWritten (pair.addr false i) v (ops.map PairWrite.access)

variable {ops : List PairWrite} {pair : GicPair} {i : Fin 32} {j : ℕ}

/-- **Without writes that clear**, the register shows the last word. -/
theorem gicWrites_set (hset : ∀ op ∈ ops, op.clear = false) :
    ∃ regs, gicWrites ops = .ok regs ∧
      ∀ pair i, gicRead regs (pair.addr false i) = .ok (lastWord pair i 0 ops) := by
  have hsound : ∀ a ∈ ops.map PairWrite.access, a.Sound := by
    intro a ha
    obtain ⟨op, hop, rfl⟩ := List.mem_map.mp ha
    have haddr := addr_sound op.pair op.i
    rw [← hset op hop] at haddr
    exact SoundOffset.access haddr
  obtain ⟨regs, hrun, hlast⟩ := gicRun_sound GicRegs.init hsound
  refine ⟨regs, hrun, fun pair i => ?_⟩
  rw [gicRead_set, hlast _ _ (by rw [pair.bank_size]; exact i.isLt)]
  rfl

/-- **Without writes that clear**, the bit is to be set once it has been written as one. -/
theorem lastOne_iff (hset : ∀ op ∈ ops, op.clear = false) {bit : Bool} :
    lastOne pair i j bit ops = true ↔ bit = true ∨ ∃ op ∈ ops, op.Names pair i j := by
  induction ops generalizing bit with
  | nil => simp [lastOne]
  | cons o ops ih =>
    have ho := hset o List.mem_cons_self
    rw [lastOne, ih fun op hop => hset op (List.mem_cons_of_mem _ hop)]
    by_cases hnames : o.Names pair i j
    · rw [if_pos hnames, ho]
      exact iff_of_true (Or.inl rfl) (Or.inr ⟨o, List.mem_cons_self, hnames⟩)
    · rw [if_neg hnames]
      simp [hnames]

/-- A bit of the last word has been written as one. -/
theorem names_of_lastWord (hset : ∀ op ∈ ops, op.clear = false) {v : ℕ}
    (h : (lastWord pair i v ops).testBit j = true) :
    v.testBit j = true ∨ ∃ op ∈ ops, op.Names pair i j := by
  induction ops generalizing v with
  | nil => exact Or.inl h
  | cons o ops ih =>
    have ho := hset o List.mem_cons_self
    rw [lastWord, List.map_cons, PairWrite.access, lastWritten, ho] at h
    rcases ih (fun op hop => hset op (List.mem_cons_of_mem _ hop)) h with hv | ⟨op, hop, hnames⟩
    · by_cases haddr : o.pair.addr false o.i = pair.addr false i
      · rw [if_pos haddr] at hv
        obtain ⟨hpair, hi⟩ := addr_inj haddr
        exact Or.inr ⟨o, List.mem_cons_self, hpair, hi, hv⟩
      · rw [if_neg haddr] at hv
        exact Or.inl hv
    · exact Or.inr ⟨op, List.mem_cons_of_mem _ hop, hnames⟩

/-- **No bit is dropped**: bits are only set, and every word written to a register lies within the
last one. -/
def NoneDropped (ops : List PairWrite) : Prop :=
  ∀ op ∈ ops, op.clear = false ∧
    ∀ j < 32, op.data.getLsbD j = true → (lastWord op.pair op.i 0 ops).testBit j = true

/-- **The registers that set bits** show them exactly when no bit is dropped. -/
theorem set_view_iff : SetViewRight ops ↔ NoneDropped ops := by
  constructor
  · rintro ⟨regs, hrun, hshows⟩ op hop
    have hset : ∀ op ∈ ops, op.clear = false := fun op => clear_eq_false_of_ok hrun
    refine ⟨hset op hop, fun j hj hbit => ?_⟩
    obtain ⟨regs', hrun', hread⟩ := gicWrites_set hset
    obtain rfl := Except.ok.inj (hrun.symm.trans hrun')
    obtain ⟨v, hv, hbits⟩ := hshows op.pair op.i
    obtain rfl := Except.ok.inj ((hread _ _).symm.trans hv)
    rw [hbits j hj, lastOne_iff hset]
    exact Or.inr ⟨op, hop, rfl, rfl, hbit⟩
  · intro h
    have hset : ∀ op ∈ ops, op.clear = false := fun op hop => (h op hop).1
    obtain ⟨regs, hrun, hread⟩ := gicWrites_set hset
    refine ⟨regs, hrun, fun pair i => ⟨_, hread pair i, fun j hj => Bool.eq_iff_iff.mpr ?_⟩⟩
    rw [lastOne_iff hset]
    constructor
    · intro hbit
      exact (names_of_lastWord hset hbit).imp_left fun hzero => by simp at hzero
    · rintro (hfalse | ⟨op, hop, rfl, rfl, hbit⟩)
      · cases hfalse
      · exact (h op hop).2 j hj hbit

/-- **The two registers never share one state**, and the one that sets bits is right by itself
exactly when no bit is dropped. -/
theorem gic_set_clear (ops : List PairWrite) :
    ¬SharesState ops ∧ (SetViewRight ops ↔ NoneDropped ops) :=
  ⟨not_sharesState ops, set_view_iff⟩

/-- **Enabling one interrupt disables another**: after interrupt 0 and interrupt 1 have been
enabled, one after the other, the first is not. -/
theorem gic_enable_lost : ¬∀ ops : List PairWrite, SharesState ops := by
  intro h
  obtain ⟨regs, hrun, hshows⟩ := h [⟨.enable, false, 0, 1⟩, ⟨.enable, false, 0, 2⟩]
  have hdropped := set_view_iff.mp ⟨regs, hrun, hshows false⟩
  have hbit := (hdropped ⟨.enable, false, 0, 1⟩ List.mem_cons_self).2 0 (by decide) (by decide)
  exact absurd hbit (by decide)

end Evisor
