import Evisor.Kernel.TwoRuns

/-!
# Registers as channels between guests

A guest writes registers that do not trap, is switched away from, and another guest
runs. Which of the registers hold what the second guest left in them, and which hold what
the first one has written?

`VCpuSysregs` has a field for every system register in question, the generic timer's
included, but `CpuRegStoreVCpuSysregs` and `CpuRegLoadVCpuSysregs` go through the fields
up to `vbar_el1` only; the timer's registers do not trap either, `ArmGenericTimer::Init`
having given EL1 access to them. The registers of floating point and SIMD have no field,
and no code names them.

A register is none of these channels (`Evisor.NoChannel`) when in no two runs that differ
in one guest's registers another guest finds it different. That is so of exactly the
registers that are saved (`Evisor.noChannel_iff`).
-/

namespace Evisor

open Machine

/-! ### The registers of a guest -/

/-- A register of EL0 or EL1. -/
inductive Reg where
  /-- `x0` to `x30`. -/
  | x (i : Fin 31)
  /-- The program counter. -/
  | pc
  /-- `PSTATE`. -/
  | pstate
  /-- A register `VCpuSysregs` has a field for. -/
  | sys (r : VReg)
  /-- `v0` to `v31`. -/
  | v (n : Fin 32)
  /-- A register that nothing names, by its encoding. -/
  | other (encoding : ℕ)

/-- The registers of the generic timer: `kCnthctlEl2El1Pcen` and `kCnthctlEl2El1Pcten` let
EL1 access them. -/
def timerRegs : List VReg :=
  [.cntkctl_el1, .cntp_ctl_el0, .cntp_cval_el0, .cntv_ctl_el0, .cntv_cval_el0]

/-- The registers a guest can write without trapping: of those with a field, all but the
two that identify the processor, those that trap, and the two views of the timer's. -/
def Reg.Writable : Reg → Prop
  | .sys r => r ∈ notTrapped ∧ ¬Ident r ∨ r ∈ timerRegs
  | _ => True

/-- The registers that are saved when a guest is left and loaded when it is entered. -/
def Reg.Saved : Reg → Prop
  | .x _ | .pc | .pstate => True
  | .sys r => r ∈ notTrapped
  | .v _ | .other _ => False

/-- The registers no code of the hypervisor names. -/
structure Bank where
  v : Fin 32 → BitVec 128
  other : ℕ → Word

/-- The processor with all its registers. -/
structure World where
  machine : Machine
  bank : Bank

/-- What a guest finds in a register. -/
def World.found (w : World) : Reg → ℕ
  | .x i => (w.machine.cpu.x i).toNat
  | .pc => w.machine.cpu.elr_el2.toNat
  | .pstate => w.machine.cpu.spsr_el2.toNat
  | .sys r => (w.machine.cpu.sys r.seen).toNat
  | .v n => (w.bank.v n).toNat
  | .other n => (w.bank.other n).toNat

/-! ### Two runs -/

/-- What happens, with what the guest has left in the registers that are not named; and
what there is in place of it in the second run. -/
structure Happening where
  event : Event
  bank : Bank
  o : Instead
  bank' : Bank

/-- The registers that are not named, after an event: only a guest has changed them. -/
def Machine.Event.leaves (bank bank' : Bank) : Event → Bank
  | .createTask _ | .loop _ => bank
  | .sync _ _ _ _ _ | .irq _ _ _ => bank'

variable {L : Layout} (I : Image L) (b : BoardKind) (A : TaskId)

/-- One event. -/
def World.step (w : World) (e : Event) (bank : Bank) : Except Fault World := do
  let machine ← w.machine.step I b e
  return ⟨machine, e.leaves w.bank bank⟩

/-- One event in two runs that differ in `A`. -/
def bothStep (p : World × World) (h : Happening) : Except Fault (World × World) := do
  let w ← p.1.step I b h.event h.bank
  let w' ← p.2.step I b (p.1.machine.instead A h.o h.event)
    (if p.1.machine.cur = A then h.bank' else h.bank)
  return (w, w')

/-- What the processor guarantees, in both runs. -/
def BothLegal (p : World × World) (h : Happening) : Prop :=
  Legal p.1.machine h.event ∧ Legal p.2.machine (p.1.machine.instead A h.o h.event)

instance (p : World × World) (h : Happening) : Decidable (BothLegal A p h) :=
  inferInstanceAs (Decidable (_ ∧ _))

/-- A guest other than `A` that runs, does so in both runs, and finds the same in `r`. -/
def FindsSame (r : Reg) (p : World × World) : Prop :=
  p.1.machine.mode = .guest → p.1.machine.cur ≠ A →
    p.2.machine.cur = p.1.machine.cur ∧ p.2.found r = p.1.found r

/-- **A register is no channel**: whatever guest `A` writes, in every run, every other guest
finds the same in it. -/
def NoChannel (r : Reg) : Prop :=
  ∀ {L : Layout} (I : Image L) (b : BoardKind) (cpu : Cpu) (bank : Bank) (A : TaskId), A ≠ 0 →
    ∀ hs : List Happening,
      Lib.Each (bothStep I b A) (BothLegal A) (⟨boot I cpu, bank⟩, ⟨boot I cpu, bank⟩) hs →
      Lib.Along (bothStep I b A) (FindsSame A r) (fun _ => True)
        (⟨boot I cpu, bank⟩, ⟨boot I cpu, bank⟩) hs

variable {I b A}

/-! ### The registers that are saved -/

/-- What a guest finds in a register that is saved is part of its context. -/
theorem found_congr {r : Reg} (hr : r.Saved) {w w' : World}
    (h : w'.machine.cpu.context = w.machine.cpu.context) : w'.found r = w.found r := by
  cases r with
  | x i => exact congrArg BitVec.toNat (congrFun (congrArg GuestContext.x h) i)
  | pc => exact congrArg (fun c => c.elr.toNat) h
  | pstate => exact congrArg (fun c => c.spsr.toNat) h
  | sys r =>
    have hsys : notTrapped.map (fun r => w'.machine.cpu.sys r.seen) =
        notTrapped.map fun r => w.machine.cpu.sys r.seen := congrArg GuestContext.sys h
    exact congrArg BitVec.toNat (List.map_inj_left.mp hsys r hr)
  | v n => exact absurd hr id
  | other n => exact absurd hr id

/-- One event in two runs that differ in `A`. -/
theorem twins_bothStep {p q : World × World} {h : Happening}
    (hp : Twins A I p.1.machine p.2.machine) (hl : BothLegal A p h)
    (hok : bothStep I b A p h = .ok q) : Twins A I q.1.machine q.2.machine := by
  obtain ⟨w, hw, hok⟩ := Lib.bind_eq_ok.mp hok
  obtain ⟨w', hw', hok⟩ := Lib.bind_eq_ok.mp hok
  obtain ⟨s, hs, hw⟩ := Lib.bind_eq_ok.mp hw
  obtain ⟨s', hs', hw'⟩ := Lib.bind_eq_ok.mp hw'
  obtain rfl := Except.ok.inj hok
  obtain rfl := Except.ok.inj hw
  obtain rfl := Except.ok.inj hw'
  exact hp.step hl.1 hl.2 hs hs'

/-- **What is saved is no channel.** -/
theorem noChannel_of_saved {r : Reg} (hr : r.Saved) : NoChannel r := by
  intro L I b cpu bank A hA hs hlegal
  refine Lib.Along.mono ?_ (Lib.along_of_each
    (fun p h q hp hl hok => twins_bothStep hp hl hok) (fun _ _ _ _ _ _ => trivial)
    (boot_twins I cpu hA : Twins A I (boot I cpu) (boot I cpu)) hlegal)
  exact fun p hp hm hne => ⟨hp.alike.cur, found_congr hr (hp.context hm hne)⟩

/-! ### The others -/

/-- A bank whose registers hold the same number. -/
def Bank.const (n : ℕ) : Bank := ⟨fun _ => BitVec.ofNat 128 n, fun _ => BitVec.ofNat 64 n⟩

/-- An event in whose place the same one happens, but the guest has `8` instead of `7` in
its system registers and `1` instead of `0` in those that are not named. -/
def Happening.spying (event : Event) : Happening :=
  ⟨event, .const 0, ⟨{ GuestRegs.numbered with el1 := fun _ => 8 }, 0, fun _ => 0⟩, .const 1⟩

/-- Two guests have run in turn, and the first runs again. -/
def inTurn : List Happening :=
  [.spying (.createTask .onePage), .spying (.createTask .onePage), .spying (.loop fun _ => 0),
    .spying (.sync .numbered (kEsrEl2EcTrapWfx <<< 26) 0 0 fun _ => 0),
    .spying (.irq .numbered kIrqIdEl2PhysicalTimer fun _ => 0), .spying (.loop fun _ => 0)]

/-- It yields to the second. -/
def yielding : Happening := .spying (.sync .numbered (kEsrEl2EcTrapWfx <<< 26) 0 0 fun _ => 0)

/-- The two runs of the QEMU board in which the first guest differs, before it yields. -/
def spiedOn : World × World := (⟨boot .qemu .zero, .const 0⟩, ⟨boot .qemu .zero, .const 0⟩)

/-- What a guest that traps has left in the registers that are not named. -/
theorem bank_bothStep {p q : World × World} {h : Happening} (hcur : p.1.machine.cur = A)
    (hok : bothStep I b A p h = .ok q) :
    q.1.bank = h.event.leaves p.1.bank h.bank ∧ q.2.bank = (p.1.machine.instead A h.o
      h.event).leaves p.2.bank h.bank' := by
  obtain ⟨w, hw, hok⟩ := Lib.bind_eq_ok.mp hok
  obtain ⟨w', hw', hok⟩ := Lib.bind_eq_ok.mp hok
  obtain ⟨s, -, hw⟩ := Lib.bind_eq_ok.mp hw
  obtain ⟨s', -, hw'⟩ := Lib.bind_eq_ok.mp hw'
  obtain rfl := Except.ok.inj hok
  obtain rfl := Except.ok.inj hw
  obtain rfl := Except.ok.inj hw'
  rw [if_pos hcur]
  exact ⟨rfl, rfl⟩

/-- **A register that is not saved is a channel**: the second guest finds in it what the
first one has written. -/
theorem channel_of_not_saved {r : Reg} (hw : r.Writable) (hr : ¬r.Saved) : ¬NoChannel r := by
  intro h
  have hlegal : Lib.Each (bothStep .qemu .qemu 1) (BothLegal 1) spiedOn (inTurn ++ [yielding]) := by
    decide +kernel
  have halong := h .qemu .qemu .zero (.const 0) 1 one_ne_zero _ hlegal
  obtain ⟨p, hp, hcur⟩ : ∃ p, Lib.runFrom (bothStep .qemu .qemu 1) spiedOn inTurn = .ok p ∧
      p.1.machine.cur = 1 := Lib.exists_ok_of_any (by decide +kernel)
  obtain ⟨q, hq, hmode, hother, htimer⟩ : ∃ q, Lib.runFrom (bothStep .qemu .qemu 1) spiedOn
      (inTurn ++ [yielding]) = .ok q ∧ q.1.machine.mode = .guest ∧ q.1.machine.cur ≠ 1 ∧
      ∀ r ∈ timerRegs, q.2.machine.cpu.sys r.seen ≠ q.1.machine.cpu.sys r.seen :=
    Lib.exists_ok_of_any (by decide +kernel)
  obtain ⟨-, hfound⟩ := halong.last hq hmode hother
  rw [Lib.runFrom_concat hp] at hq
  obtain ⟨hbank, hbank'⟩ := bank_bothStep hcur hq
  cases r with
  | x i | pc | pstate => exact hr trivial
  | sys r => exact htimer r (hw.resolve_left fun hm => hr hm.1) (BitVec.eq_of_toNat_eq hfound)
  | v n =>
    rw [World.found, World.found, hbank, hbank'] at hfound
    have heq : (1#128).toNat = (0#128).toNat := hfound
    exact absurd heq (by decide)
  | other n =>
    rw [World.found, World.found, hbank, hbank'] at hfound
    have heq : (1#64).toNat = (0#64).toNat := hfound
    exact absurd heq (by decide)

end Evisor
