import Evisor.Kernel.Vcpu

/-!
# Exceptions and interrupts

What happens from the moment a guest traps to the moment a guest runs again:
`lower_el_aarch64_sync`, `lower_el_aarch64_irq` and `current_el_spx_irq`
(`arch/arm64/irq/vectors.S`), with the handlers of `arch/arm64/irq/trap.cc`,
`mm/kmm_trap.cc` and `arch/arm64/irq/gic_v2.cc`; and the loop of `KernelMain`.
-/

namespace Evisor

namespace Machine

/-! ### System registers -/

/-- The registers `TrapMcrMrcInstructions` lets a guest write, each with `opc1`, `crn`,
`crm` and `opc2`. -/
def msrTable : List (VReg × ℕ × ℕ × ℕ × ℕ) :=
  [(.actlr_el1, 0, 1, 0, 1), (.csselr_el1, 1, 0, 0, 0)]

/-- The registers `TrapMcrMrcInstructions` lets a guest read. -/
def mrsTable : List (VReg × ℕ × ℕ × ℕ × ℕ) :=
  [(.actlr_el1, 0, 1, 0, 1),
    (.id_pfr0_el1, 0, 0, 1, 0), (.id_pfr1_el1, 0, 0, 1, 1), (.id_mmfr0_el1, 0, 0, 1, 4),
    (.id_mmfr1_el1, 0, 0, 1, 5), (.id_mmfr2_el1, 0, 0, 1, 6), (.id_mmfr3_el1, 0, 0, 1, 7),
    (.id_isar0_el1, 0, 0, 2, 0), (.id_isar1_el1, 0, 0, 2, 1), (.id_isar2_el1, 0, 0, 2, 2),
    (.id_isar3_el1, 0, 0, 2, 3), (.id_isar4_el1, 0, 0, 2, 4), (.id_isar5_el1, 0, 0, 2, 5),
    (.mvfr0_el1, 0, 0, 3, 0), (.mvfr1_el1, 0, 0, 3, 1), (.mvfr2_el1, 0, 0, 3, 2),
    (.id_aa64pfr0_el1, 0, 0, 4, 0), (.id_aa64pfr1_el1, 0, 0, 4, 1),
    (.id_aa64dfr0_el1, 0, 0, 5, 0), (.id_aa64dfr1_el1, 0, 0, 5, 1),
    (.id_aa64isar0_el1, 0, 0, 6, 0), (.id_aa64isar1_el1, 0, 0, 6, 1),
    (.id_aa64mmfr0_el1, 0, 0, 7, 0), (.id_aa64mmfr1_el1, 0, 0, 7, 1),
    (.mpidr_el1, 0, 0, 7, 3), (.id_aa64afr0_el1, 0, 0, 5, 4), (.id_aa64afr1_el1, 0, 0, 5, 5),
    (.revidr_el1, 0, 0, 0, 6), (.ccsidr_el1, 1, 0, 0, 0), (.clidr_el1, 1, 0, 0, 1),
    (.aidr_el1, 1, 0, 0, 7), (.csselr_el1, 2, 0, 0, 0), (.ctr_el0, 3, 0, 0, 1)]

/-- The register of a table that an instruction is about. -/
def lookup (table : List (VReg × ℕ × ℕ × ℕ × ℕ)) (opc1 crn crm opc2 : ℕ) : Option VReg :=
  (table.find? fun e => e.2 = (opc1, crn, crm, opc2)).map Prod.fst

/-- `TrapMcrMrcInstructions`, when it handles the instruction. An index of 31 is that of
the word after the registers. -/
def trapMcrMrcInstructions (s : Machine) (tsk : TaskId) (opc2 opc1 crn rt crm dir : ℕ) :
    Option Machine :=
  if dir = 0 then
    (lookup msrTable opc1 crn crm opc2).map fun name =>
      { s with
        vcpu_sysregs := Function.update s.vcpu_sysregs tsk
          (Function.update (s.vcpu_sysregs tsk) name
            (s.stack (s.getVCpuRegs tsk + 8 * rt))) }.incrementCurrentTaskPc 4
  else
    (lookup mrsTable opc1 crn crm opc2).map fun name =>
      (s.storeWord (s.getVCpuRegs tsk + 8 * rt)
        (s.vcpu_sysregs tsk name)).incrementCurrentTaskPc 4

/-- The register the instruction of a `HandleTrapSystem` is about. -/
def issRt (iss : ℕ) : ℕ := (iss >>> 5) &&& 0x1f

/-- `HandleTrapSystem`. -/
def handleTrapSystem (iss : ℕ) (s : Machine) : Except Fault Machine :=
  let cond := (iss >>> 20) &&& 0xf
  let opc2 := (iss >>> 17) &&& 0x7
  let opc1 := (iss >>> 14) &&& 0x7
  let crn := (iss >>> 10) &&& 0xf
  let rt := issRt iss
  let crm := (iss >>> 1) &&& 0xf
  let dir := iss &&& 0x1
  let s := s.modifyStat s.cur fun stat => { stat with sysreg_traps := stat.sysreg_traps + 1 }
  let unhandled := .error (.panic "The event (%x) was not handled in HandleTrapSystem")
  if cond = 0b0010 ∨ cond = 0b0011 then
    match s.trapMcrMrcInstructions s.cur opc2 opc1 crn rt crm dir with
    | some s => .ok s
    | none => unhandled
  else unhandled

/-! ### Memory -/

/-- `HandleMmTrapMemoryAccessFault`. `FlushTlbVMID` clears `VTTBR_EL2` on the way. -/
def memoryAccessFault (L : Layout) (addr : ℕ) (s : Machine) : Except Fault (Bool × Machine) := do
  let (handled, memory) ← handleMmTrapMemoryAccessFault L s.memory s.cur addr
  let vttbr_el2 := if handled then 0 else s.cpu.vttbr_el2
  return (handled, { s with memory, cpu := { s.cpu with vttbr_el2 } })

/-- `HandleMmTrapRegisterAccess`, of a board that answers reads with `data`. -/
def registerAccess (data : Word) (srt : ℕ) (read : Bool) (s : Machine) :
    Except Fault (Bool × Machine) :=
  let tsk := s.cur
  let s := match s.sched.tsks[tsk]?.bind Tcb.board with
    | some _ => if read then s.storeWord (s.getVCpuRegs tsk + 8 * srt) data else s
    | none => s
  let s := s.incrementCurrentTaskPc 4
  .ok (true, s.modifyStat tsk fun stat => { stat with mmios := stat.mmios + 1 })

/-! ### Exceptions -/

variable {L : Layout} (img : Image L)

/-- The handlers of synchronous exceptions, when the board answers a read with `data`
and compiled code has the registers `scratch` when it calls the scheduler. -/
def handlers (data : Word) (scratch : Fin 31 → Word) : TrapHandlers Machine where
  handleTrapWfx s := s.schedule img .wfx scratch
  handleTrapSystem := handleTrapSystem
  handleMmTrapMemoryAccessFault := memoryAccessFault L
  handleMmTrapRegisterAccess _ := registerAccess data

/-- `kIrqIdEl2PhysicalTimer`. -/
def kIrqIdEl2PhysicalTimer : ℕ := 26

/-- `GicV2::HandleIrq`, with what is read from `GICC_IAR`. The handler of the timer is
the only one that calls the scheduler. -/
def handleIrq (gicc_iar : ℕ) (scratch : Fin 31 → Word) (s : Machine) : Except Fault Machine :=
  let iar := gicc_iar &&& 0x0fff
  let id := iar &&& 0x3ff
  let s := { s with active := iar :: s.active }
  if id = kIrqIdEl2PhysicalTimer then s.schedTimerHandler img (.irq iar) scratch
  else .ok (s.resume (.irq iar))

/-- An exception is taken: what ran has changed its registers up to it, and the
hypervisor is entered. -/
def trapped (s : Machine) (g : GuestRegs) (trap : Trap) : Machine :=
  let cpu := s.cpu.run g
  { s with
    cpu
    last := Function.update s.last s.cur (some (trap, cpu.context))
    wfxs := if trap.isWfx then Function.update s.wfxs s.cur (s.wfxs s.cur + 1)
      else s.wfxs }.enterHypervisor

/-- A handler that is done leaves the hypervisor; `KernelMain` goes on. -/
def finish (s : Machine) : Machine :=
  match s.mode with
  | .handler => s.leaveHypervisor
  | _ => s

/-- `initial_vcpu_regs_`, as it is made. -/
def initialTemplate (sys : SysReg → Word) : VCpuSysregs := fun r =>
  if r = .sctlr_el1 then sys (.el1 r) &&& ~~~1 else sys (.el1 r)

/-- `CreateTask`. -/
def createTask (b : BoardKind) (load : Load) (s : Machine) : Except Fault Machine := do
  let (page, mm) ← s.memory.mm.zalloc L
  let template := s.initial_vcpu_regs.getD (initialTemplate s.cpu.sys)
  let tsk := s.sched.tsks.length
  let mm ← boardInit L b (mm.setContext tsk ⟨0, 0⟩) tsk
  let sched ← s.sched.addTask
    { Tcb.zero with name := "New vCPU", priority := 1, counter := 1, board := getPlatformBoard }
  return { s with
    sched
    memory := { s.memory with
      mm, stat := Function.update s.memory.stat tsk ⟨false, false, 0, 0, 0, 0, 0⟩ }
    page := Function.update s.page tsk page
    cpu_context := Function.update s.cpu_context tsk
      { CpuContext.zero with
        x19 := img.LoadTaskImage, x20 := load.loader, x21 := load.arg
        sp := page + TCB_SIZE - vcpuContextSize, pc := img.KernelSwitchFromKThread }
    vcpu_sysregs := Function.update s.vcpu_sysregs tsk template
    initial_vcpu_regs := some template
    load := Function.update s.load tsk load
    -- the page is cleared
    stack := fun a => if page ≤ a ∧ a < page + PAGE_SIZE then 0 else s.stack a }

/-! ### Runs -/

/-- What happens to the processor. -/
inductive Event where
  /-- `KernelMain` creates a task. -/
  | createTask (load : Load)
  /-- `KernelMain` goes through its loop once. -/
  | loop (scratch : Fin 31 → Word)
  /-- A guest takes a synchronous exception; if it is a read of a device, the device
  answers with `data`. -/
  | sync (g : GuestRegs) (esr far : ℕ) (data : Word) (scratch : Fin 31 → Word)
  /-- A guest, or `KernelMain`, is interrupted. -/
  | irq (g : GuestRegs) (gicc_iar : ℕ) (scratch : Fin 31 → Word)

/-- One event, up to where a guest or `KernelMain` runs again. -/
def step (b : BoardKind) (s : Machine) : Event → Except Fault Machine
  | .createTask load => s.createTask img b load
  | .loop scratch => do
    let s ← s.schedule img .main scratch
    return s.finish
  | .sync g esr far data scratch => do
    let s ← trapHandleLowerElAarch64Sync (handlers img data scratch) (s.trapped g (.sync esr)) esr
      far
    return s.finish
  | .irq g gicc_iar scratch => do
    let s ← (s.trapped g .irq).handleIrq img gicc_iar scratch
    return s.finish

/-- What the processor guarantees: an exception saves the level it was taken from, a
guest runs below EL2, and an interrupt that is active is not signalled again. -/
def Legal (s : Machine) : Event → Prop
  | .createTask _ => s.mode = .init
  | .loop _ => s.mode = .init
  | .sync g _ _ _ _ => s.mode = .guest ∧ exceptionLevel g.pstate ≠ 2
  | .irq g gicc_iar _ => (s.mode = .guest ∧ exceptionLevel g.pstate ≠ 2 ∨
      s.mode = .init ∧ exceptionLevel g.pstate = 2) ∧ gicc_iar &&& 0x0fff ∉ s.active

instance (s : Machine) : ∀ e, Decidable (Legal s e)
  | .createTask _ => inferInstanceAs (Decidable (s.mode = .init))
  | .loop _ => inferInstanceAs (Decidable (s.mode = .init))
  | .sync _ _ _ _ _ => inferInstanceAs (Decidable (_ ∧ _))
  | .irq _ _ _ => inferInstanceAs (Decidable ((_ ∧ _ ∨ _ ∧ _) ∧ _))

/-- The processor in `KernelMain`, after `Sched::Init`. -/
def boot (cpu : Cpu) : Machine where
  sched := .init
  memory := .boot
  cpu := { cpu with sp := img.initSp }
  page := fun _ => img.initTask
  cpu_context := fun _ => .zero
  vcpu_sysregs := fun _ _ => 0
  initial_vcpu_regs := none
  load := fun _ => ⟨0, 0, [], none⟩
  stack := fun _ => 0
  calls := fun _ => none
  mode := .init
  active := []
  last := fun _ => none
  wfxs := fun _ => 0
  returned := []

end Machine

end Evisor
