import Mathlib.Logic.Function.Basic
import Mathlib.Tactic.SplitIfs
import Evisor.Basic
import Evisor.Lib.Run

/-!
# The virtual interrupt distributor

`platforms/virtio/virtio_gic.cc`. Each register of the distributor is a word of an
array, and the offset of an access is taken apart into the array and the index by a
chain of comparisons, the same for reads and for writes (`Evisor.gicDecode`). Nothing
keeps the index inside the array.

The chain is right for words outside five stretches of offsets (`Evisor.SoundOffset`):
there the distributor is an array of words, one for each offset of a register
(`Evisor.gic_registers_apart`). In four of the stretches the index is that of an array
twice as long, and in the fifth, which has no registers, accesses are taken for ones to
`GICD_ISENABLER`.
-/

namespace Evisor

/-- The arrays of `VirtioGic::Regs`; a single register is an array of one. -/
inductive GicBank where
  | GICD_CTLR | GICD_TYPER | GICD_IIDR | GICD_IGROUPR | GICD_ISENABLER | GICD_ICENABLER
  | GICD_ISPENDR | GICD_ICPENDR | GICD_ISACTIVER | GICD_ICACTIVER | GICD_IPRIORITYR
  | GICD_ITARGETSR | GICD_ICFGR | GICD_NSACR | GICD_SGIR | GICD_CPENDSGIR | GICD_SPENDSGIR
  deriving DecidableEq, Repr

/-- The length of an array. -/
def GicBank.size : GicBank → ℕ
  | .GICD_CTLR | .GICD_TYPER | .GICD_IIDR | .GICD_SGIR => 1
  | .GICD_IGROUPR | .GICD_ISENABLER | .GICD_ICENABLER | .GICD_ISPENDR | .GICD_ICPENDR
  | .GICD_ISACTIVER | .GICD_ICACTIVER => 32
  | .GICD_IPRIORITYR | .GICD_ITARGETSR => 255
  | .GICD_ICFGR | .GICD_NSACR => 64
  | .GICD_CPENDSGIR | .GICD_SPENDSGIR => 4

/-- `VirtioGic::Regs`. -/
abbrev GicRegs := GicBank → ℕ → ℕ

/-- The initial value of `regs_`. -/
def GicRegs.init : GicRegs := fun _ _ => 0

/-- The array and the index an offset is taken for. -/
def gicDecode (addr : ℕ) : Option (GicBank × ℕ) :=
  if addr = 0x000 then some (.GICD_CTLR, 0)
  else if addr = 0x004 then some (.GICD_TYPER, 0)
  else if addr = 0x008 then some (.GICD_IIDR, 0)
  else if 0x80 ≤ addr ∧ addr < 0x100 then some (.GICD_IGROUPR, (addr &&& 0xff) >>> 2)
  else if addr < 0x180 then some (.GICD_ISENABLER, (addr &&& 0xff) >>> 2)
  else if addr < 0x200 then some (.GICD_ICENABLER, (addr &&& 0xff) >>> 2)
  else if addr < 0x280 then some (.GICD_ISPENDR, (addr &&& 0xff) >>> 2)
  else if addr < 0x300 then some (.GICD_ICPENDR, (addr &&& 0xff) >>> 2)
  else if addr < 0x380 then some (.GICD_ISACTIVER, (addr &&& 0xff) >>> 2)
  else if addr < 0x400 then some (.GICD_ICACTIVER, (addr &&& 0xff) >>> 2)
  else if addr < 0x7fc then some (.GICD_IPRIORITYR, (addr &&& 0x3ff) >>> 2)
  else if 0x800 ≤ addr ∧ addr < 0xbfc then some (.GICD_ITARGETSR, (addr &&& 0x3ff) >>> 2)
  else if 0xc00 ≤ addr ∧ addr < 0xd00 then some (.GICD_ICFGR, (addr &&& 0xff) >>> 2)
  else if 0xe00 ≤ addr ∧ addr < 0xf00 then some (.GICD_NSACR, (addr &&& 0xff) >>> 2)
  else if addr = 0xf00 then some (.GICD_SGIR, 0)
  else if 0xf10 ≤ addr ∧ addr < 0xf20 then some (.GICD_CPENDSGIR, (addr &&& 0xf) >>> 2)
  else if 0xf20 ≤ addr ∧ addr < 0xf30 then some (.GICD_SPENDSGIR, (addr &&& 0xf) >>> 2)
  else none

/-- `VirtioGic::Read`. -/
def gicRead (regs : GicRegs) (addr : ℕ) : Except Fault ℕ :=
  match gicDecode addr with
  | some (bank, i) => if i < bank.size then .ok (regs bank i) else .error .outOfBounds
  | none => .ok (if addr = 0xfe8 then 0x20 else 0)

/-- `VirtioGic::Write`. Setting enable bits is logged, and does nothing else than
storing them. -/
def gicWrite (regs : GicRegs) (addr data : ℕ) : Except Fault GicRegs :=
  match gicDecode addr with
  | some (bank, i) =>
    if i < bank.size then .ok (Function.update regs bank (Function.update (regs bank) i data))
    else .error .outOfBounds
  | none => .ok regs

/-! ### Offsets -/

/-- The offset of the first register of an array. -/
def GicBank.offset : GicBank → ℕ
  | .GICD_CTLR => 0x000
  | .GICD_TYPER => 0x004
  | .GICD_IIDR => 0x008
  | .GICD_IGROUPR => 0x080
  | .GICD_ISENABLER => 0x100
  | .GICD_ICENABLER => 0x180
  | .GICD_ISPENDR => 0x200
  | .GICD_ICPENDR => 0x280
  | .GICD_ISACTIVER => 0x300
  | .GICD_ICACTIVER => 0x380
  | .GICD_IPRIORITYR => 0x400
  | .GICD_ITARGETSR => 0x800
  | .GICD_ICFGR => 0xc00
  | .GICD_NSACR => 0xe00
  | .GICD_SGIR => 0xf00
  | .GICD_CPENDSGIR => 0xf10
  | .GICD_SPENDSGIR => 0xf20

/-- An offset is that of a register; the others are reserved. -/
def IsRegister (addr : ℕ) : Prop := ∃ (b : GicBank) (i : ℕ), i < b.size ∧ addr = b.offset + 4 * i

/-- **The offsets that are decoded as they should be.** -/
def SoundOffset (addr : ℕ) : Prop :=
  gicDecode addr = none ∨ addr % 4 = 0 ∧ ¬(0x00c ≤ addr ∧ addr < 0x100) ∧
    ¬(0x180 ≤ addr ∧ addr < 0x200) ∧ ¬(0x280 ≤ addr ∧ addr < 0x300) ∧
    ¬(0x380 ≤ addr ∧ addr < 0x400)

instance (addr : ℕ) : Decidable (SoundOffset addr) := inferInstanceAs (Decidable (_ ∨ _))

/-- The arrays do not overlap. -/
theorem GicBank.apart (b c : GicBank) : b = c ∨ b.offset + 4 * b.size ≤ c.offset ∨
    c.offset + 4 * c.size ≤ b.offset := by
  cases b <;> cases c <;> decide

/-- A register is known from its offset. -/
theorem GicBank.offset_inj {b c : GicBank} {i j : ℕ} (hi : i < b.size) (hj : j < c.size)
    (h : b.offset + 4 * i = c.offset + 4 * j) : b = c ∧ i = j := by
  rcases b.apart c with rfl | hlt | hlt
  · exact ⟨rfl, by omega⟩
  · omega
  · omega

/-- One comparison of the chain. -/
theorem ite_eq_some {α : Type*} {c : Prop} [Decidable c] {x r : α} {y : Option α}
    (h : (if c then some x else y) = some r) : c ∧ r = x ∨ ¬c ∧ y = some r := by
  by_cases hc : c
  · rw [if_pos hc] at h
    exact .inl ⟨hc, (Option.some.inj h).symm⟩
  · rw [if_neg hc] at h
    exact .inr ⟨hc, h⟩

theorem ite_eq_none {α : Type*} {c : Prop} [Decidable c] {x : α} {y : Option α}
    (h : (if c then some x else y) = none) : ¬c ∧ y = none := by
  by_cases hc : c
  · rw [if_pos hc] at h
    cases h
  · rw [if_neg hc] at h
    exact ⟨hc, h⟩

/-- An offset that is decoded to no register is reserved. -/
theorem not_isRegister {addr : ℕ} (h : gicDecode addr = none) : ¬IsRegister addr := by
  obtain ⟨h1, h⟩ := ite_eq_none h
  obtain ⟨h2, h⟩ := ite_eq_none h
  obtain ⟨h3, h⟩ := ite_eq_none h
  obtain ⟨h4, h⟩ := ite_eq_none h
  obtain ⟨-, h⟩ := ite_eq_none h
  obtain ⟨-, h⟩ := ite_eq_none h
  obtain ⟨-, h⟩ := ite_eq_none h
  obtain ⟨-, h⟩ := ite_eq_none h
  obtain ⟨-, h⟩ := ite_eq_none h
  obtain ⟨-, h⟩ := ite_eq_none h
  -- from here on what is left out is only what comes before
  obtain ⟨h5, h⟩ := ite_eq_none h
  obtain ⟨h6, h⟩ := ite_eq_none h
  obtain ⟨h7, h⟩ := ite_eq_none h
  obtain ⟨h8, h⟩ := ite_eq_none h
  obtain ⟨h9, h⟩ := ite_eq_none h
  obtain ⟨h10, h⟩ := ite_eq_none h
  obtain ⟨h11, -⟩ := ite_eq_none h
  rintro ⟨b, i, hi, rfl⟩
  cases b <;> simp only [GicBank.offset, GicBank.size] at * <;> omega

/-- **The index of an offset** in an array of `n` words that starts at `base`: what the mask
leaves, if the array is aligned to the mask and no longer than that. -/
theorem index_of_offset (w base n : ℕ) {addr : ℕ} (hbase : base % 2 ^ w = 0)
    (hlen : 4 * n ≤ 2 ^ w) (hge : base ≤ addr) (hlt : addr < base + 4 * n) :
    (addr &&& (2 ^ w - 1)) >>> 2 < n ∧
      (addr % 4 = 0 → addr = base + 4 * ((addr &&& (2 ^ w - 1)) >>> 2)) := by
  have hindex : (addr &&& (2 ^ w - 1)) >>> 2 = (addr - base) / 4 := by
    have hmod : addr % 2 ^ w = addr - base := by
      conv_lhs => rw [← Nat.add_sub_cancel' hge, Nat.add_mod, hbase, Nat.zero_add]
      rw [Nat.mod_mod, Nat.mod_eq_of_lt (by omega)]
    rw [Nat.shiftRight_eq_div_pow, Nat.and_two_pow_sub_one_eq_mod, hmod]
  have hal : base % 4 = 0 := by
    rcases Nat.lt_or_ge w 2 with hw | hw
    · -- there is no word in such an array
      have hle : 2 ^ w ≤ 2 ^ 1 := Nat.pow_le_pow_right (by decide) (Nat.le_of_lt_succ hw)
      omega
    · exact Nat.mod_eq_zero_of_dvd ((Nat.pow_dvd_pow 2 hw).trans (Nat.dvd_of_mod_eq_zero hbase))
  rw [hindex]
  omega

/-- **An offset that is decoded to a register is inside its array**, outside the five
stretches, and a word has the offset of the register. -/
theorem gicDecode_some {addr : ℕ} {r : GicBank × ℕ} (hdec : gicDecode addr = some r)
    (h0c : ¬(0x00c ≤ addr ∧ addr < 0x100)) (h180 : ¬(0x180 ≤ addr ∧ addr < 0x200))
    (h280 : ¬(0x280 ≤ addr ∧ addr < 0x300)) (h380 : ¬(0x380 ≤ addr ∧ addr < 0x400)) :
    r.2 < r.1.size ∧ (addr % 4 = 0 → addr = r.1.offset + 4 * r.2) := by
  rcases ite_eq_some hdec with ⟨rfl, rfl⟩ | ⟨h1, hdec⟩
  · exact ⟨by decide, fun _ => rfl⟩
  rcases ite_eq_some hdec with ⟨rfl, rfl⟩ | ⟨h2, hdec⟩
  · exact ⟨by decide, fun _ => rfl⟩
  rcases ite_eq_some hdec with ⟨rfl, rfl⟩ | ⟨h3, hdec⟩
  · exact ⟨by decide, fun _ => rfl⟩
  rcases ite_eq_some hdec with ⟨h, rfl⟩ | ⟨-, hdec⟩
  · omega
  rcases ite_eq_some hdec with ⟨h, rfl⟩ | ⟨h4, hdec⟩
  · rcases Nat.lt_or_ge addr 0x100 with hlow | hlow
    · -- an offset inside one of the first three words
      refine ⟨?_, fun hal => by omega⟩
      have hle : addr &&& 0xff ≤ addr := Nat.and_le_left
      change (addr &&& 0xff) >>> 2 < 32
      rw [Nat.shiftRight_eq_div_pow]
      omega
    · exact index_of_offset 8 0x100 32 rfl (by decide) hlow h
  clear h1 h2 h3 h0c
  -- an array in the upper half of what the mask leaves is taken for one in the lower half
  rcases ite_eq_some hdec with ⟨h, rfl⟩ | ⟨h2, hdec⟩
  · exact absurd ⟨Nat.not_lt.mp h4, h⟩ h180
  rcases ite_eq_some hdec with ⟨h, rfl⟩ | ⟨h3, hdec⟩
  · exact index_of_offset 8 0x200 32 rfl (by decide) (Nat.not_lt.mp h2) h
  rcases ite_eq_some hdec with ⟨h, rfl⟩ | ⟨h1, hdec⟩
  · exact absurd ⟨Nat.not_lt.mp h3, h⟩ h280
  rcases ite_eq_some hdec with ⟨h, rfl⟩ | ⟨h2, hdec⟩
  · exact index_of_offset 8 0x300 32 rfl (by decide) (Nat.not_lt.mp h1) h
  rcases ite_eq_some hdec with ⟨h, rfl⟩ | ⟨h3, hdec⟩
  · exact absurd ⟨Nat.not_lt.mp h2, h⟩ h380
  rcases ite_eq_some hdec with ⟨h, rfl⟩ | ⟨-, hdec⟩
  · exact index_of_offset 10 0x400 255 rfl (by decide) (Nat.not_lt.mp h3) h
  rcases ite_eq_some hdec with ⟨h, rfl⟩ | ⟨-, hdec⟩
  · exact index_of_offset 10 0x800 255 rfl (by decide) h.1 h.2
  rcases ite_eq_some hdec with ⟨h, rfl⟩ | ⟨-, hdec⟩
  · exact index_of_offset 8 0xc00 64 rfl (by decide) h.1 h.2
  rcases ite_eq_some hdec with ⟨h, rfl⟩ | ⟨-, hdec⟩
  · exact index_of_offset 8 0xe00 64 rfl (by decide) h.1 h.2
  rcases ite_eq_some hdec with ⟨rfl, rfl⟩ | ⟨-, hdec⟩
  · exact ⟨by decide, fun _ => rfl⟩
  rcases ite_eq_some hdec with ⟨h, rfl⟩ | ⟨-, hdec⟩
  · exact index_of_offset 4 0xf10 4 rfl (by decide) h.1 h.2
  rcases ite_eq_some hdec with ⟨h, rfl⟩ | ⟨-, hdec⟩
  · exact index_of_offset 4 0xf20 4 rfl (by decide) h.1 h.2
  cases hdec

/-- **A sound offset is that of the register it is decoded to**, and one that is decoded
to none is reserved. -/
theorem SoundOffset.decode {addr : ℕ} (h : SoundOffset addr) :
    (∃ b i, gicDecode addr = some (b, i) ∧ i < b.size ∧ addr = b.offset + 4 * i) ∨
      gicDecode addr = none ∧ ¬IsRegister addr := by
  rcases h with hnone | ⟨h4, h0c, h180, h280, h380⟩
  · exact .inr ⟨hnone, not_isRegister hnone⟩
  cases hdec : gicDecode addr with
  | none => exact .inr ⟨rfl, not_isRegister hdec⟩
  | some r =>
    obtain ⟨hin, haddr⟩ := gicDecode_some hdec h0c h180 h280 h380
    exact .inl ⟨r.1, r.2, rfl, hin, haddr h4⟩

/-! ### Runs -/

/-- An access to the distributor. -/
inductive GicAccess where
  | read (addr : ℕ)
  | write (addr data : ℕ)

/-- The offset of an access. -/
def GicAccess.addr : GicAccess → ℕ
  | .read addr | .write addr _ => addr

/-- **A sound access**: a write at a sound offset, or a read outside the five stretches, also
of a part of a word. -/
def GicAccess.Sound : GicAccess → Prop
  | .read addr => gicDecode addr = none ∨ ¬(0x00c ≤ addr ∧ addr < 0x100) ∧
      ¬(0x180 ≤ addr ∧ addr < 0x200) ∧ ¬(0x280 ≤ addr ∧ addr < 0x300) ∧
      ¬(0x380 ≤ addr ∧ addr < 0x400)
  | .write addr _ => SoundOffset addr

instance : ∀ op, Decidable (GicAccess.Sound op)
  | .read _ => inferInstanceAs (Decidable (_ ∨ _))
  | .write _ _ => inferInstanceAs (Decidable (_ ∨ _))

/-- An access at a sound offset is sound. -/
theorem SoundOffset.access {op : GicAccess} (h : SoundOffset op.addr) : op.Sound := by
  cases op with
  | read addr => exact Or.imp_right And.right h
  | write addr data => exact h

/-- One access. -/
def gicStep (regs : GicRegs) : GicAccess → Except Fault GicRegs
  | .read addr => (gicRead regs addr).map fun _ => regs
  | .write addr data => gicWrite regs addr data

/-- What was written last to an offset, `v` before. -/
def lastWritten (addr v : ℕ) : List GicAccess → ℕ
  | [] => v
  | .read _ :: rest => lastWritten addr v rest
  | .write a data :: rest => lastWritten addr (if a = addr then data else v) rest

/-- **A write to a register** changes that register. -/
theorem gicWrite_register {regs : GicRegs} {addr data i : ℕ} {b : GicBank}
    (hdec : gicDecode addr = some (b, i)) (hi : i < b.size) :
    gicWrite regs addr data =
      .ok (Function.update regs b (Function.update (regs b) i data)) := by
  rw [gicWrite, hdec]
  exact if_pos hi

/-- **A read of a register** gives its value. -/
theorem gicRead_register {regs : GicRegs} {addr i : ℕ} {b : GicBank}
    (hdec : gicDecode addr = some (b, i)) (hi : i < b.size) :
    gicRead regs addr = .ok (regs b i) := by
  rw [gicRead, hdec]
  exact if_pos hi

/-- **One access** leaves in each register what was written to its offset, and what was
there if nothing was. -/
theorem gicStep_sound (regs : GicRegs) {op : GicAccess} (h : op.Sound) :
    ∃ regs', gicStep regs op = .ok regs' ∧ ∀ b i, i < b.size →
      regs' b i = lastWritten (b.offset + 4 * i) (regs b i) [op] := by
  cases op with
  | read addr =>
    refine ⟨regs, ?_, fun b i _ => rfl⟩
    cases hdec : gicDecode addr with
    | none =>
      rw [gicStep, gicRead, hdec]
      rfl
    | some r =>
      obtain ⟨h0c, h180, h280, h380⟩ := h.resolve_left (by rw [hdec]; nofun)
      rw [gicStep, gicRead_register hdec (gicDecode_some hdec h0c h180 h280 h380).1]
      rfl
  | write addr data =>
    have h : SoundOffset addr := h
    rcases h.decode with ⟨c, j, hdec, hj, haddr⟩ | ⟨hnone, hres⟩
    · refine ⟨_, gicWrite_register hdec hj, fun b i hi => ?_⟩
      rw [lastWritten, lastWritten]
      by_cases heq : addr = b.offset + 4 * i
      · obtain ⟨rfl, rfl⟩ := GicBank.offset_inj hi hj (heq.symm.trans haddr)
        rw [if_pos heq, Function.update_self, Function.update_self]
      · rw [if_neg heq]
        by_cases hb : b = c
        · subst hb
          rw [Function.update_self, Function.update_of_ne]
          rintro rfl
          exact heq haddr
        · rw [Function.update_of_ne hb]
    · refine ⟨regs, ?_, fun b i hi => ?_⟩
      · rw [gicStep, gicWrite, hnone]
      · rw [lastWritten, lastWritten, if_neg]
        rintro rfl
        exact hres ⟨b, i, hi, rfl⟩

theorem lastWritten_cons (addr v : ℕ) (op : GicAccess) (rest : List GicAccess) :
    lastWritten addr v (op :: rest) = lastWritten addr (lastWritten addr v [op]) rest := by
  cases op <;> rfl

/-- **Whole runs**, from any values of the registers. -/
theorem gicRun_sound (regs : GicRegs) {ops : List GicAccess}
    (h : ∀ op ∈ ops, op.Sound) :
    ∃ regs', Lib.runFrom gicStep regs ops = .ok regs' ∧ ∀ b i, i < b.size →
      regs' b i = lastWritten (b.offset + 4 * i) (regs b i) ops := by
  induction ops generalizing regs with
  | nil => exact ⟨regs, rfl, fun _ _ _ => rfl⟩
  | cons op rest ih =>
    obtain ⟨regs₁, hstep, hone⟩ := gicStep_sound regs (h op List.mem_cons_self)
    obtain ⟨regs', hrun, hlast⟩ := ih regs₁ fun op hop => h op (List.mem_cons_of_mem _ hop)
    refine ⟨regs', by rw [Lib.runFrom, hstep]; exact hrun, fun b i hi => ?_⟩
    rw [hlast b i hi, hone b i hi, ← lastWritten_cons]

/-- **The registers of the distributor do not alias** in a run that is made of sound
accesses. No access leaves its array; wherever the run leads, a read at the offset of a
register gives what was written there last, a write there changes what is read at no other
offset, and accesses to reserved offsets change nothing. -/
theorem gic_registers_apart {ops : List GicAccess} (h : ∀ op ∈ ops, op.Sound) :
    ∃ regs, Lib.runFrom gicStep GicRegs.init ops = .ok regs ∧
      ∀ addr, SoundOffset addr →
        (IsRegister addr → gicRead regs addr = .ok (lastWritten addr 0 ops) ∧
          ∀ data, ∃ regs', gicWrite regs addr data = .ok regs' ∧
            ∀ addr', SoundOffset addr' → addr' ≠ addr →
              gicRead regs' addr' = gicRead regs addr') ∧
        (¬IsRegister addr → (∃ v, gicRead regs addr = .ok v) ∧
          ∀ data, gicWrite regs addr data = .ok regs) := by
  obtain ⟨regs, hrun, hlast⟩ := gicRun_sound GicRegs.init h
  refine ⟨regs, hrun, fun addr haddr => ?_⟩
  rcases haddr.decode with ⟨b, i, hdec, hi, heq⟩ | ⟨hnone, hres⟩
  · have hin : IsRegister addr := ⟨b, i, hi, heq⟩
    refine ⟨fun _ => ⟨?_, fun data => ⟨_, gicWrite_register hdec hi, ?_⟩⟩,
      fun hnot => absurd hin hnot⟩
    · rw [gicRead_register hdec hi, hlast b i hi, ← heq]
      rfl
    · intro addr' haddr' hne
      rcases haddr'.decode with ⟨c, j, hdec', hj, heq'⟩ | ⟨hnone', -⟩
      · rw [gicRead_register hdec' hj, gicRead_register hdec' hj]
        refine congrArg Except.ok ?_
        by_cases hb : c = b
        · subst hb
          rw [Function.update_self, Function.update_of_ne]
          rintro rfl
          exact hne (heq'.trans heq.symm)
        · rw [Function.update_of_ne hb]
      · rw [gicRead, gicRead, hnone']
  · refine ⟨fun hin => absurd hin hres, fun _ => ⟨?_, fun data => ?_⟩⟩
    · rw [gicRead, hnone]
      exact ⟨_, rfl⟩
    · rw [gicWrite, hnone]

/-- A register that is written and read, as a word and within it. -/
theorem gic_registers_apart_enable :
    (∀ op ∈ [GicAccess.write 0x104 2, .read 0x106, .read 0x104], op.Sound) ∧
    ∃ regs, Lib.runFrom gicStep GicRegs.init [.write 0x104 2, .read 0x106, .read 0x104] = .ok regs ∧
      gicRead regs 0x104 = .ok 2 ∧ ∃ regs', gicWrite regs 0x104 7 = .ok regs' ∧
        gicRead regs' 0x300 = gicRead regs 0x300 := by
  have h : ∀ op ∈ [GicAccess.write 0x104 2, .read 0x106, .read 0x104], op.Sound := by decide
  obtain ⟨regs, hrun, hall⟩ := gic_registers_apart h
  have hin : IsRegister 0x104 := ⟨.GICD_ISENABLER, 1, by decide, rfl⟩
  obtain ⟨hread, hwrite⟩ := (hall 0x104 (by decide)).1 hin
  obtain ⟨regs', hregs', hother⟩ := hwrite 7
  exact ⟨h, regs, hrun, hread, regs', hregs', hother 0x300 (by decide) (by decide)⟩

/-- **A reserved offset is taken for that of a register**, and an offset of a register is
taken for one past the end of its array. -/
theorem gic_registers_alias :
    ¬IsRegister 0x00c ∧ IsRegister 0x10c ∧ IsRegister 0x080 ∧
    (∃ regs, Lib.runFrom gicStep GicRegs.init [.write 0x00c 7] = .ok regs ∧
      gicRead GicRegs.init 0x10c = .ok 0 ∧ gicRead regs 0x10c = .ok 7) ∧
    gicRead GicRegs.init 0x080 = .error .outOfBounds := by
  refine ⟨?_, ⟨.GICD_ISENABLER, 3, by decide, rfl⟩, ⟨.GICD_IGROUPR, 0, by decide, rfl⟩,
    ⟨_, rfl, rfl, rfl⟩, rfl⟩
  rintro ⟨b, i, hi, haddr⟩
  cases b <;> simp only [GicBank.offset, GicBank.size] at hi haddr <;> omega

end Evisor
