import Mathlib.Tactic.IntervalCases
import Evisor.Kernel.VcpuStep
import Evisor.Lib.Bits

/-!
# Accesses to devices

`mm/kmm_trap.cc` with the devices it reads and writes: `HandleMmTrapRegisterAccess`
takes the word of the saved registers that `SRT` is the index of, and has the board of
the task answer. What a board is is left open (`Evisor.Mmio`).

The index is that of `x0` to `x30`, and 31 is that of the word after them, the stack
pointer – not the register that is always zero. So the access is the one the instruction
names exactly when that is not register 31, and the same is true of the registers
`TrapMcrMrcInstructions` emulates (`Evisor.Machine.named_register_iff`). The size of the
access is not looked at: `Evisor.Machine.access_size_iff` says when that does not matter.
-/

namespace Evisor

/-- The two functions of a `Board` that emulate devices. -/
structure Mmio (δ : Type) where
  /-- `MmioRead`. -/
  mmioRead : δ → ℕ → Except Fault (Word × δ)
  /-- `MmioWrite`. -/
  mmioWrite : δ → ℕ → Word → Except Fault δ

/-- The boards there are. -/
def BoardKind.mmio (k : BoardKind) : Mmio Board where
  mmioRead b addr := do
    let (res, b) ← b.mmioRead k addr
    return (BitVec.ofNat 64 res, b)
  mmioWrite b addr val := b.mmioWrite k addr val.toNat

namespace Machine

variable {δ : Type}

/-- The current task has a board. -/
def HasBoard (s : Machine) : Prop := (s.sched.tsks[s.cur]?.bind Tcb.board).isSome

instance (s : Machine) : Decidable s.HasBoard := inferInstanceAs (Decidable (_ = true))

/-- What `HandleMmTrapRegisterAccess` does in the end: the instruction is stepped over,
and the access counted. -/
def accessed (s : Machine) (tsk : TaskId) : Machine :=
  (s.incrementCurrentTaskPc 4).modifyStat tsk fun stat => { stat with mmios := stat.mmios + 1 }

/-- The access itself, if the current task has a board. -/
def boardAccess (B : Mmio δ) (addr srt : ℕ) (read : Bool) (s : Machine × δ) :
    Except Fault (Machine × δ) :=
  let a := s.1.getVCpuRegs s.1.cur + 8 * srt
  match s.1.sched.tsks[s.1.cur]?.bind Tcb.board with
  | some _ =>
    if read then do
      let (v, d) ← B.mmioRead s.2 addr
      return (s.1.storeWord a v, d)
    else do
      let d ← B.mmioWrite s.2 addr (s.1.stack a)
      return (s.1, d)
  | none => .ok s

/-- `HandleMmTrapRegisterAccess`, with the board. -/
def handleMmTrapRegisterAccess (B : Mmio δ) (addr srt : ℕ) (read : Bool) (s : Machine × δ) :
    Except Fault (Bool × Machine × δ) := do
  let (m, d) ← boardAccess B addr srt read s
  return (true, m.accessed s.1.cur, d)

variable {L : Layout} (img : Image L)

/-- The handlers of synchronous exceptions, with the board. -/
def boardHandlers (B : Mmio δ) (scratch : Fin 31 → Word) : TrapHandlers (Machine × δ) where
  handleTrapWfx s := do
    let m ← s.1.schedule img .wfx scratch
    return (m, s.2)
  handleTrapSystem iss s := do
    let m ← handleTrapSystem iss s.1
    return (m, s.2)
  handleMmTrapMemoryAccessFault addr s := do
    let (handled, m) ← memoryAccessFault L addr s.1
    return (handled, m, s.2)
  handleMmTrapRegisterAccess := handleMmTrapRegisterAccess B

/-- **The board is all there is to add**: what becomes of the processor and the tasks is
what becomes of them when the board gives the answer it does. -/
theorem handleMmTrapRegisterAccess_registerAccess {B : Mmio δ} {addr srt : ℕ} {read : Bool}
    {s : Machine × δ} {r : Bool × Machine × δ}
    (h : handleMmTrapRegisterAccess B addr srt read s = .ok r) {v : Word}
    (hv : read = true → ∀ a, B.mmioRead s.2 addr = .ok a → a.1 = v) :
    registerAccess v srt read s.1 = .ok (r.1, r.2.1) := by
  rw [handleMmTrapRegisterAccess] at h
  obtain ⟨⟨m, d⟩, hboard, hr⟩ := Lib.bind_eq_ok.mp h
  obtain rfl := Except.ok.inj hr
  rw [boardAccess] at hboard
  rw [registerAccess]
  refine congrArg (fun m : Machine => Except.ok (true, m.accessed s.1.cur)) ?_
  cases hb : s.1.sched.tsks[s.1.cur]?.bind Tcb.board with
  | none =>
    simp only [hb] at hboard
    exact congrArg Prod.fst (Except.ok.inj hboard)
  | some b =>
    simp only [hb] at hboard
    cases read with
    | false =>
      obtain ⟨d', -, hd⟩ := Lib.bind_eq_ok.mp hboard
      exact congrArg Prod.fst (Except.ok.inj hd)
    | true =>
      obtain ⟨a, ha, hd⟩ := Lib.bind_eq_ok.mp hboard
      rw [← hv rfl a ha]
      exact congrArg Prod.fst (Except.ok.inj hd)

/-! ### The register of an instruction -/

/-- The value of a register as instructions name it: 31 is the one that is always zero. -/
def xreg (s : Machine) (tsk : TaskId) (r : ℕ) : Word :=
  if r = 31 then 0 else s.stack (s.getVCpuRegs tsk + 8 * r)

/-- Writing a register as instructions name it. -/
def setXreg (s : Machine) (tsk : TaskId) (r : ℕ) (v : Word) : Machine :=
  if r = 31 then s else s.storeWord (s.getVCpuRegs tsk + 8 * r) v

/-- A data abort that `HandleTrapMemAbort` takes for an access to a device. -/
def IsDeviceAbort (esr : ℕ) : Prop :=
  esrEl2Ec esr = kEsrEl2EcDataAboartFromLow ∧ esrDfsc esr >>> 2 = kEsrEl2DfscPermissionFault

instance (esr : ℕ) : Decidable (IsDeviceAbort esr) := inferInstanceAs (Decidable (_ ∧ _))

/-- **An abort on a device** is an access of the board. -/
theorem trap_deviceAbort {B : Mmio δ} {scratch : Fin 31 → Word} {s : Machine × δ} {esr far : ℕ}
    (habort : IsDeviceAbort esr) :
    trapHandleLowerElAarch64Sync (boardHandlers img B scratch) s esr far =
      (boardAccess B far (esrSrt esr) (esrWnr esr = 0) s).map
        fun r => (r.1.accessed s.1.cur, r.2) := by
  obtain ⟨hec, hdfsc⟩ := habort
  rw [trap_of_permissionFault _ _ _ hec hdfsc]
  simp only [boardHandlers, handleMmTrapRegisterAccess]
  cases boardAccess B far (esrSrt esr) (esrWnr esr = 0) s with
  | error e => rfl
  | ok r => rfl

/-- **A store to a device** passes the word the index leads to. -/
theorem trap_store {B : Mmio δ} {scratch : Fin 31 → Word} {s : Machine} {d : δ} {esr far : ℕ}
    (habort : IsDeviceAbort esr) (hboard : s.HasBoard) (hwnr : esrWnr esr ≠ 0) :
    trapHandleLowerElAarch64Sync (boardHandlers img B scratch) (s, d) esr far =
      (B.mmioWrite d far (s.stack (s.getVCpuRegs s.cur + 8 * esrSrt esr))).map
        fun d' => (s.accessed s.cur, d') := by
  obtain ⟨b, hb⟩ := Option.isSome_iff_exists.mp hboard
  rw [trap_deviceAbort img habort, boardAccess]
  simp only [hb, hwnr, decide_false, Bool.false_eq_true, if_false]
  cases B.mmioWrite d far (s.stack (s.getVCpuRegs s.cur + 8 * esrSrt esr)) with
  | error e => rfl
  | ok d' => rfl

/-- **A load from a device** writes the word the index leads to. -/
theorem trap_load {B : Mmio δ} {scratch : Fin 31 → Word} {s : Machine} {d : δ} {esr far : ℕ}
    (habort : IsDeviceAbort esr) (hboard : s.HasBoard) (hwnr : esrWnr esr = 0) :
    trapHandleLowerElAarch64Sync (boardHandlers img B scratch) (s, d) esr far =
      (B.mmioRead d far).map fun a =>
        ((s.storeWord (s.getVCpuRegs s.cur + 8 * esrSrt esr) a.1).accessed s.cur, a.2) := by
  obtain ⟨b, hb⟩ := Option.isSome_iff_exists.mp hboard
  rw [trap_deviceAbort img habort, boardAccess]
  simp only [hb, hwnr, decide_true, if_true]
  cases B.mmioRead d far with
  | error e => rfl
  | ok a => rfl

/-! ### The register an index is for -/

/-- **A store names its register**: from any state, to any device. -/
def StoreNames (r : ℕ) : Prop :=
  ∀ (δ : Type) (B : Mmio δ) (scratch : Fin 31 → Word) (s : Machine) (d : δ) (esr far : ℕ),
    IsDeviceAbort esr → esrSrt esr = r → esrWnr esr ≠ 0 → s.HasBoard →
    trapHandleLowerElAarch64Sync (boardHandlers img B scratch) (s, d) esr far =
      (B.mmioWrite d far (s.xreg s.cur r)).map fun d' => (s.accessed s.cur, d')

/-- **A load names its register.** -/
def LoadNames (r : ℕ) : Prop :=
  ∀ (δ : Type) (B : Mmio δ) (scratch : Fin 31 → Word) (s : Machine) (d : δ) (esr far : ℕ),
    IsDeviceAbort esr → esrSrt esr = r → esrWnr esr = 0 → s.HasBoard →
    trapHandleLowerElAarch64Sync (boardHandlers img B scratch) (s, d) esr far =
      (B.mmioRead d far).map fun a => ((s.setXreg s.cur r a.1).accessed s.cur, a.2)

/-- **A write of a system register names its register.** -/
def MsrNames (r : ℕ) : Prop :=
  ∀ (s : Machine) (tsk : TaskId) (opc2 opc1 crn crm : ℕ),
    s.trapMcrMrcInstructions tsk opc2 opc1 crn r crm 0 =
      (lookup msrTable opc1 crn crm opc2).map fun name =>
        { s with
          vcpu_sysregs := Function.update s.vcpu_sysregs tsk
            (Function.update (s.vcpu_sysregs tsk) name (s.xreg tsk r)) }.incrementCurrentTaskPc 4

/-- **A read of a system register names its register.** -/
def MrsNames (r : ℕ) : Prop :=
  ∀ (s : Machine) (tsk : TaskId) (opc2 opc1 crn crm dir : ℕ), dir ≠ 0 →
    s.trapMcrMrcInstructions tsk opc2 opc1 crn r crm dir =
      (lookup mrsTable opc1 crn crm opc2).map fun name =>
        (s.setXreg tsk r (s.vcpu_sysregs tsk name)).incrementCurrentTaskPc 4

/-- A task with a board, and a stack full of ones. -/
def ones : Machine :=
  { boot img ⟨fun _ => 0, 0, 0, 0, 0, fun _ => 0⟩ with
    sched := ⟨[{ Tcb.zero with board := some getPlatformBoard }], 0, none⟩
    stack := fun _ => 1 }

/-- A device with one register. -/
def oneRegister : Mmio Word := ⟨fun d _ => .ok (d, d), fun _ _ v => .ok v⟩

/-- The syndrome of a permission fault on a doubleword, at a register. -/
def deviceEsr (wnr srt : ℕ) : ℕ :=
  0b100100 <<< 26 ||| 1 <<< 24 ||| 3 <<< 22 ||| srt <<< 16 ||| 1 <<< 15 ||| wnr <<< 6 ||| 0b001111

theorem storeWord_self (s : Machine) (a : ℕ) (w : Word) : (s.storeWord a w).stack a = w :=
  Function.update_self ..

theorem storeWord_of_ne (s : Machine) {a a' : ℕ} (w : Word) (h : a' ≠ a) :
    (s.storeWord a w).stack a' = s.stack a' := Function.update_of_ne h ..

/-- Stepping over an instruction touches one word of the frame. -/
theorem incrementCurrentTaskPc_of_ne (s : Machine) {i : ℕ} (hi : i ≠ 32) :
    (s.incrementCurrentTaskPc 4).stack (s.getVCpuRegs s.cur + 8 * i) =
      s.stack (s.getVCpuRegs s.cur + 8 * i) :=
  storeWord_of_ne s _ (by omega)

theorem accessed_of_ne (s : Machine) (tsk : TaskId) {i : ℕ} (hi : i ≠ 32) :
    (s.accessed tsk).stack (s.getVCpuRegs s.cur + 8 * i) =
      s.stack (s.getVCpuRegs s.cur + 8 * i) := incrementCurrentTaskPc_of_ne s hi

/-- The index is that of the register named, exactly when the register is not 31. -/
theorem xreg_eq {r : ℕ} (hr : r ≠ 31) (s : Machine) (tsk : TaskId) :
    s.xreg tsk r = s.stack (s.getVCpuRegs tsk + 8 * r) := if_neg hr

theorem setXreg_eq {r : ℕ} (hr : r ≠ 31) (s : Machine) (tsk : TaskId) (v : Word) :
    s.setXreg tsk r v = s.storeWord (s.getVCpuRegs tsk + 8 * r) v := if_neg hr

/-- A store passes the saved stack pointer for register 31. -/
theorem storeNames_iff (r : ℕ) : StoreNames img r ↔ r ≠ 31 := by
  constructor
  · rintro h rfl
    have habort : IsDeviceAbort (deviceEsr 1 31) := by decide
    have hwnr : esrWnr (deviceEsr 1 31) ≠ 0 := by decide
    have hboard : (ones img).HasBoard := rfl
    have hone := h Word oneRegister (fun _ => 0) (ones img) 0 (deviceEsr 1 31) 0 habort rfl hwnr
      hboard
    rw [trap_store img habort hboard hwnr] at hone
    have hval : (1 : Word) = 0 := congrArg Prod.snd (Except.ok.inj hone)
    exact absurd hval (by decide)
  · rintro hne δ B scratch s d esr far habort rfl hwnr hboard
    rw [trap_store img habort hboard hwnr, xreg_eq hne]

/-- A load overwrites the saved stack pointer for register 31. -/
theorem loadNames_iff (r : ℕ) : LoadNames img r ↔ r ≠ 31 := by
  constructor
  · rintro h rfl
    have habort : IsDeviceAbort (deviceEsr 0 31) := by decide
    have hwnr : esrWnr (deviceEsr 0 31) = 0 := by decide
    have hboard : (ones img).HasBoard := rfl
    have hone := h Word oneRegister (fun _ => 0) (ones img) 0 (deviceEsr 0 31) 0 habort rfl hwnr
      hboard
    rw [trap_load img habort hboard hwnr] at hone
    have hfst := congrArg (fun m : Machine × Word => m.1.stack ((ones img).getVCpuRegs 0 + 8 * 31))
      (Except.ok.inj hone)
    have hleft : ((((ones img).storeWord ((ones img).getVCpuRegs 0 + 8 * 31) 0).accessed 0).stack
        ((ones img).getVCpuRegs 0 + 8 * 31)) = 0 :=
      (accessed_of_ne _ 0 (by decide)).trans (storeWord_self ..)
    have hright : ((ones img).accessed 0).stack ((ones img).getVCpuRegs 0 + 8 * 31) = 1 :=
      accessed_of_ne (ones img) 0 (by decide)
    exact absurd (hleft.symm.trans (hfst.trans hright)) (by decide)
  · rintro hne δ B scratch s d esr far habort rfl hwnr hboard
    simp only [trap_load img habort hboard hwnr, setXreg_eq hne]

/-- A system register gets the saved stack pointer for register 31. -/
theorem msrNames_iff (r : ℕ) : MsrNames r ↔ r ≠ 31 := by
  constructor
  · rintro h rfl
    have hone := h (ones .qemu) 0 1 0 1 0
    have hval := congrArg (fun m : Option Machine =>
      m.map fun m => m.vcpu_sysregs 0 .actlr_el1) hone
    have hone : (1 : Word) = 0 := Option.some.inj hval
    exact absurd hone (by decide)
  · intro hne s tsk opc2 opc1 crn crm
    rw [trapMcrMrcInstructions, if_pos rfl, xreg_eq hne]

/-- The saved stack pointer gets a system register for register 31. -/
theorem mrsNames_iff (r : ℕ) : MrsNames r ↔ r ≠ 31 := by
  constructor
  · rintro h rfl
    have hone : some (((ones .qemu).storeWord ((ones .qemu).getVCpuRegs 0 + 8 * 31)
        0).incrementCurrentTaskPc 4) = some ((ones .qemu).incrementCurrentTaskPc 4) :=
      h (ones .qemu) 0 1 0 1 0 1 (by decide)
    have hfst := congrArg (fun m : Machine => m.stack ((ones .qemu).getVCpuRegs 0 + 8 * 31))
      (Option.some.inj hone)
    have hleft : (((ones .qemu).storeWord ((ones .qemu).getVCpuRegs 0 + 8 * 31)
        0).incrementCurrentTaskPc 4).stack ((ones .qemu).getVCpuRegs 0 + 8 * 31) = 0 :=
      (incrementCurrentTaskPc_of_ne _ (by decide)).trans (storeWord_self ..)
    have hright : ((ones .qemu).incrementCurrentTaskPc 4).stack
        ((ones .qemu).getVCpuRegs 0 + 8 * 31) = 1 :=
      incrementCurrentTaskPc_of_ne (ones .qemu) (by decide)
    exact absurd (hleft.symm.trans (hfst.trans hright)) (by decide)
  · intro hne s tsk opc2 opc1 crn crm dir hdir
    rw [trapMcrMrcInstructions, if_neg hdir]
    simp only [setXreg_eq hne]

/-- **An access that traps touches exactly the register it names**, in any state and with
any device, when that is not register 31 – and only then. -/
theorem named_register_iff (r : ℕ) :
    (StoreNames img r ↔ r ≠ 31) ∧ (LoadNames img r ↔ r ≠ 31) ∧ (MsrNames r ↔ r ≠ 31) ∧
      (MrsNames r ↔ r ≠ 31) :=
  ⟨storeNames_iff img r, loadNames_iff img r, msrNames_iff r, mrsNames_iff r⟩

/-- **`str xzr` sends the stack pointer to the serial line.** -/
theorem store_xzr_sends_sp :
    IsDeviceAbort (deviceEsr 1 31) ∧ esrSrt (deviceEsr 1 31) = 31 ∧ (ones .qemu).HasBoard ∧
    ¬StoreNames .qemu 31 ∧ ¬LoadNames .qemu 31 ∧ ¬MsrNames 31 ∧ ¬MrsNames 31 ∧
    (trapHandleLowerElAarch64Sync (boardHandlers .qemu oneRegister fun _ => 0) (ones .qemu, 0)
      (deviceEsr 1 31) 0x09000000).map Prod.snd = .ok 1 := by
  have habort : IsDeviceAbort (deviceEsr 1 31) := by decide
  have hboard : (ones .qemu).HasBoard := rfl
  refine ⟨habort, by decide, hboard, fun h => (storeNames_iff .qemu 31).mp h rfl,
    fun h => (loadNames_iff .qemu 31).mp h rfl, fun h => (msrNames_iff 31).mp h rfl,
    fun h => (mrsNames_iff 31).mp h rfl, ?_⟩
  rw [trap_store .qemu habort hboard (by decide)]
  rfl

/-! ### The size of an access -/

/-- `SAS`: the size of an access, as a power of two. -/
def esrSas (esr : ℕ) : ℕ := (esr >>> 22) &&& 0x3

/-- `SSE`: whether a load extends the sign. -/
def esrSse (esr : ℕ) : ℕ := (esr >>> 21) &&& 0x1

/-- `SF`: whether the register of a load is one of 64 bits. -/
def esrSf (esr : ℕ) : ℕ := (esr >>> 15) &&& 0x1

/-- The bits of an access. -/
def accessBits (esr : ℕ) : ℕ := 8 * 2 ^ esrSas esr

/-- What a store passes to a device. -/
def storeValue (esr : ℕ) (x : Word) : Word := (x.setWidth (accessBits esr)).setWidth 64

/-- What a load makes of the value of a device. -/
def loadValue (esr : ℕ) (v : Word) : Word :=
  if esrSse esr = 0 then (v.setWidth (accessBits esr)).setWidth 64
  else if esrSf esr = 0 then ((v.setWidth (accessBits esr)).signExtend 32).setWidth 64
  else (v.setWidth (accessBits esr)).signExtend 64

/-- A value that a load leaves as it is: it has no more bits than the access, or, where
the sign is extended, than the access and the register have. -/
def LoadFits (esr : ℕ) (v : Word) : Prop :=
  if esrSse esr = 0 then v.toNat < 2 ^ accessBits esr
  else if esrSf esr = 0 then v.toNat < 2 ^ 32 ∧
    -2 ^ (accessBits esr - 1) ≤ (v.setWidth 32).toInt ∧
      (v.setWidth 32).toInt < 2 ^ (accessBits esr - 1)
  else -2 ^ (accessBits esr - 1) ≤ v.toInt ∧ v.toInt < 2 ^ (accessBits esr - 1)

theorem storeValue_eq_iff (esr : ℕ) (x : Word) :
    storeValue esr x = x ↔ x.toNat < 2 ^ accessBits esr := Lib.setWidth_setWidth_eq_iff x

/-- There are four sizes. -/
theorem accessBits_cases (esr : ℕ) :
    accessBits esr = 7 + 1 ∨ accessBits esr = 15 + 1 ∨ accessBits esr = 31 + 1 ∨
      accessBits esr = 63 + 1 := by
  have hsas : esrSas esr < 4 := Nat.and_lt_two_pow (n := 2) _ (by decide)
  rw [accessBits]
  interval_cases esrSas esr
  · exact .inl rfl
  · exact .inr (.inl rfl)
  · exact .inr (.inr (.inl rfl))
  · exact .inr (.inr (.inr rfl))

/-- **A load leaves a value as it is exactly when it fits.** -/
theorem loadValue_eq_iff (esr : ℕ) (v : Word) : loadValue esr v = v ↔ LoadFits esr v := by
  rw [loadValue, LoadFits]
  split
  · exact Lib.setWidth_setWidth_eq_iff v
  split
  · -- the sign is extended to 32 bits
    have hnarrow : ((v.setWidth (accessBits esr)).signExtend 32).setWidth 64 = v ↔
        v.toNat < 2 ^ 32 ∧ (v.setWidth (accessBits esr)).signExtend 32 = v.setWidth 32 := by
      constructor
      · intro h
        have hlt : v.toNat < 2 ^ 32 := by
          rw [← h, BitVec.toNat_setWidth]
          exact (Nat.mod_le ..).trans_lt (BitVec.isLt _)
        refine ⟨hlt, ?_⟩
        conv_rhs => rw [← h]
        rw [BitVec.setWidth_setWidth_of_le _ (by decide), BitVec.setWidth_eq]
      · rintro ⟨hlt, h⟩
        rw [h]
        exact (Lib.setWidth_setWidth_eq_iff v).mpr hlt
    rw [hnarrow]
    refine and_congr_right fun _ => ?_
    have hfew : ∀ w, w + 1 ≤ 32 → accessBits esr = w + 1 →
        ((v.setWidth (accessBits esr)).signExtend 32 = v.setWidth 32 ↔
          -2 ^ (accessBits esr - 1) ≤ (v.setWidth 32).toInt ∧
            (v.setWidth 32).toInt < 2 ^ (accessBits esr - 1)) := by
      intro w hw hbits
      rw [hbits, ← BitVec.setWidth_setWidth_of_le v hw, Nat.add_sub_cancel]
      exact Lib.signExtend_setWidth_eq_iff (v.setWidth 32) hw
    rcases accessBits_cases esr with hbits | hbits | hbits | hbits
    · exact hfew 7 (by decide) hbits
    · exact hfew 15 (by decide) hbits
    · exact hfew 31 (by decide) hbits
    · have hlt := BitVec.two_mul_toInt_lt (x := v.setWidth 32)
      have hle := BitVec.le_two_mul_toInt (x := v.setWidth 32)
      rw [hbits, BitVec.signExtend_eq_setWidth_of_le _ (by decide),
        BitVec.setWidth_setWidth_of_le _ (by decide)]
      refine iff_of_true rfl ?_
      omega
  · have hbits : ∀ w, w + 1 ≤ 64 → accessBits esr = w + 1 →
        ((v.setWidth (accessBits esr)).signExtend 64 = v ↔
          -2 ^ (accessBits esr - 1) ≤ v.toInt ∧ v.toInt < 2 ^ (accessBits esr - 1)) := by
      intro w hw hbits
      rw [hbits, Nat.add_sub_cancel]
      exact Lib.signExtend_setWidth_eq_iff v hw
    rcases accessBits_cases esr with h | h | h | h
    · exact hbits 7 (by decide) h
    · exact hbits 15 (by decide) h
    · exact hbits 31 (by decide) h
    · exact hbits 63 (by decide) h

instance (esr : ℕ) (v : Word) : Decidable (LoadFits esr v) :=
  decidable_of_iff _ (loadValue_eq_iff esr v)

/-- **A store is one of its size**, to any device. -/
def StoreSized (s : Machine) (esr far : ℕ) : Prop :=
  ∀ (δ : Type) (B : Mmio δ) (scratch : Fin 31 → Word) (d : δ),
    trapHandleLowerElAarch64Sync (boardHandlers img B scratch) (s, d) esr far =
      (B.mmioWrite d far (storeValue esr (s.xreg s.cur (esrSrt esr)))).map
        fun d' => (s.accessed s.cur, d')

/-- **A load is one of its size**, from any device that answers with a value. -/
def LoadSized (s : Machine) (esr far : ℕ) (v : Word) : Prop :=
  ∀ (δ : Type) (B : Mmio δ) (scratch : Fin 31 → Word) (d d' : δ), B.mmioRead d far = .ok (v, d') →
    trapHandleLowerElAarch64Sync (boardHandlers img B scratch) (s, d) esr far =
      .ok ((s.setXreg s.cur (esrSrt esr) (loadValue esr v)).accessed s.cur, d')

theorem esrSrt_lt (esr : ℕ) : esrSrt esr < 32 := Nat.and_lt_two_pow (n := 5) _ (by decide)

/-- **A store is one of its size exactly when** the register has no more bits. -/
theorem storeSized_iff {s : Machine} {esr far : ℕ} (habort : IsDeviceAbort esr)
    (hboard : s.HasBoard) (hsrt : esrSrt esr ≠ 31) (hwnr : esrWnr esr ≠ 0) :
    StoreSized img s esr far ↔
      (s.stack (s.getVCpuRegs s.cur + 8 * esrSrt esr)).toNat < 2 ^ accessBits esr := by
  rw [← storeValue_eq_iff]
  constructor
  · intro h
    have hone := h Word oneRegister (fun _ => 0) 0
    rw [trap_store img habort hboard hwnr, xreg_eq hsrt] at hone
    exact (congrArg Prod.snd (Except.ok.inj hone)).symm
  · intro h δ B scratch d
    rw [trap_store img habort hboard hwnr, xreg_eq hsrt, h]

/-- **A load is one of its size exactly when** it leaves the value of the device as it
is. -/
theorem loadSized_iff {s : Machine} {esr far : ℕ} (habort : IsDeviceAbort esr)
    (hboard : s.HasBoard) (hsrt : esrSrt esr ≠ 31) (hwnr : esrWnr esr = 0) (v : Word) :
    LoadSized img s esr far v ↔ LoadFits esr v := by
  set a := s.getVCpuRegs s.cur + 8 * esrSrt esr with ha
  have hlt : esrSrt esr ≠ 32 := (esrSrt_lt esr).ne
  rw [← loadValue_eq_iff]
  constructor
  · -- of all devices, one with a single register tells what is loaded
    intro h
    have hone := h Word oneRegister (fun _ => 0) v v rfl
    rw [trap_load img habort hboard hwnr, setXreg_eq hsrt] at hone
    have hword : ((s.storeWord a v).accessed s.cur).stack a =
        ((s.storeWord a (loadValue esr v)).accessed s.cur).stack a :=
      congrArg (fun m : Machine × Word => m.1.stack a) (Except.ok.inj hone)
    have hself : ∀ w, ((s.storeWord a w).accessed s.cur).stack a = w := fun w =>
      (accessed_of_ne (s.storeWord a w) s.cur hlt).trans (storeWord_self ..)
    rw [hself, hself] at hword
    exact hword.symm
  · intro h δ B scratch d d' hread
    rw [trap_load img habort hboard hwnr, hread, setXreg_eq hsrt, h]
    rfl

/-- **The size of an access does not matter exactly when** nothing is cut off or extended:
the register that is stored, or the value of the device that is loaded, fits the access. -/
theorem access_size_iff {s : Machine} {esr far : ℕ} (habort : IsDeviceAbort esr)
    (hboard : s.HasBoard) (hsrt : esrSrt esr ≠ 31) :
    (esrWnr esr ≠ 0 → (StoreSized img s esr far ↔
      (s.stack (s.getVCpuRegs s.cur + 8 * esrSrt esr)).toNat < 2 ^ accessBits esr)) ∧
    (esrWnr esr = 0 → ∀ v, (LoadSized img s esr far v ↔ LoadFits esr v)) :=
  ⟨storeSized_iff img habort hboard hsrt, loadSized_iff img habort hboard hsrt⟩

/-- The syndrome of a permission fault on a byte, at `x1`. -/
def byteEsr (wnr : ℕ) : ℕ :=
  0b100100 <<< 26 ||| 1 <<< 24 ||| 1 <<< 16 ||| wnr <<< 6 ||| 0b001111

/-- A byte is stored from a register that holds no more, and a byte loaded from a register of the
device that does. -/
theorem access_size_iff_byte : StoreSized .qemu (ones .qemu) (byteEsr 1) 0x09000000 ∧
    LoadSized .qemu (ones .qemu) (byteEsr 0) 0x09000018 0x90 := by
  have hstore : IsDeviceAbort (byteEsr 1) := by decide
  have hload : IsDeviceAbort (byteEsr 0) := by decide
  have hboard : (ones .qemu).HasBoard := rfl
  refine ⟨((access_size_iff .qemu hstore hboard (by decide)).1 (by decide)).mpr ?_,
    ((access_size_iff .qemu hload hboard (by decide)).2 (by decide) 0x90).mpr ?_⟩
  · exact (by decide : (1 : Word).toNat < 2 ^ accessBits (byteEsr 1))
  · exact (by decide : LoadFits (byteEsr 0) 0x90)

/-- **A byte store sends the whole register**, and a byte load keeps all that the device
answers: the board answers `0x300` for `UARTCR`. -/
theorem byte_access_whole_register :
    IsDeviceAbort (byteEsr 1) ∧ IsDeviceAbort (byteEsr 0) ∧ (ones .qemu).HasBoard ∧
    ¬StoreSized .qemu { ones .qemu with stack := fun _ => 0x141 } (byteEsr 1) 0x09000000 ∧
    (∃ b', (BoardKind.qemu.mmio).mmioRead Board.new.init 0x09000030 = .ok (0x300, b')) ∧
    ¬LoadSized .qemu (ones .qemu) (byteEsr 0) 0x09000030 0x300 := by
  have hstore : IsDeviceAbort (byteEsr 1) := by decide
  have hload : IsDeviceAbort (byteEsr 0) := by decide
  have hboard : (ones .qemu).HasBoard := rfl
  have hboard' : { ones .qemu with stack := fun _ => 0x141 }.HasBoard := rfl
  refine ⟨hstore, hload, hboard, fun h => ?_, ⟨_, rfl⟩, fun h => ?_⟩
  · have hfits := (storeSized_iff .qemu hstore hboard' (by decide) (by decide)).mp h
    exact absurd hfits (by decide : ¬(0x141 : Word).toNat < 2 ^ accessBits (byteEsr 1))
  · have hfits := (loadSized_iff .qemu hload hboard (by decide) (by decide) 0x300).mp h
    exact absurd hfits (by decide : ¬LoadFits (byteEsr 0) 0x300)

end Machine

end Evisor
