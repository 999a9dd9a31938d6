import Evisor.Arch.Trap
import Evisor.Kernel.Sched
import Evisor.Platforms.Board
import Evisor.Platforms.BoardMap

/-!
# Switching between guests

One processor, the tasks, and where each of them is. A guest that traps leaves its
registers on the stack in its task control block (`arch/arm64/irq/vectors_common.S`)
and its system registers in the block itself (`kernel/sched/sched_task_context.cc`).
The handler that answers may call the scheduler, which suspends it in the middle:
`SchedContextSwitch` (`arch/arm64/kernel/sched_vcpu_switch.S`) stores the registers
that a call preserves, loads those of another task and returns – into whatever call
that task was suspended in.

Compiled code is not modelled instruction by instruction. A call of the scheduler
leaves, at the stack pointer it is made with, an `Evisor.Activation`: the handlers that
are waiting for it to return, and the registers they rely on. Returning from
`SchedContextSwitch` is then finding an activation at the stack pointer that has been
loaded, with the registers as they were; if there is none, or the registers are others,
the run stops with `Fault.corrupted`. How many bytes the calls take, and where the
code is, is up to the compiler and the linker (`Evisor.Image`).
-/

namespace Evisor

/-! ### The processor -/

/-- The registers of the processor that switching is about. -/
structure Cpu where
  /-- `x0` to `x30`. -/
  x : Fin 31 → Word
  /-- The stack pointer of EL2. -/
  sp : ℕ
  elr_el2 : Word
  spsr_el2 : Word
  vttbr_el2 : Word
  /-- The system registers. -/
  sys : SysReg → Word

/-- What a guest is entitled to find as it left it. -/
@[ext] structure GuestContext where
  /-- `x0` to `x30`. -/
  x : Fin 31 → Word
  /-- Where it goes on. -/
  elr : Word
  /-- Its `PSTATE`. -/
  spsr : Word
  /-- The first stage 2 table and the `VMID`. -/
  vttbr : Word
  /-- The registers `VCpuSysregs` calls not trapped. -/
  sys : List Word

/-- What the guest finds. -/
def Cpu.context (cpu : Cpu) : GuestContext where
  x := cpu.x
  elr := cpu.elr_el2
  spsr := cpu.spsr_el2
  vttbr := cpu.vttbr_el2
  sys := notTrapped.map fun r => cpu.sys r.seen

/-- `M[3:2]` of a saved `PSTATE`: the exception level it was saved at. -/
def exceptionLevel (spsr : Word) : Word := (spsr >>> 2) &&& 3

/-- The registers a guest, or `init`, has at an exception. -/
structure GuestRegs where
  /-- `x0` to `x30`. -/
  x : Fin 31 → Word
  /-- What the exception puts into `ELR_EL2`. -/
  pc : Word
  /-- What the exception puts into `SPSR_EL2`. -/
  pstate : Word
  /-- The system registers of EL1, as it has written them. -/
  el1 : VReg → Word

/-- The processor after code of a guest, or of `init`, has run up to an exception: two
registers are read-only. -/
def Cpu.run (cpu : Cpu) (g : GuestRegs) : Cpu :=
  { cpu with
    x := g.x
    elr_el2 := g.pc
    spsr_el2 := g.pstate
    sys := fun
      | .el1 .midr_el1 => cpu.sys (.el1 .midr_el1)
      | .el1 .mpidr_el1 => cpu.sys (.el1 .mpidr_el1)
      | .el1 r => g.el1 r
      | r => cpu.sys r }

/-- `CPU_CONTEXT_GP_REGS`. -/
def CPU_CONTEXT_GP_REGS : ℕ := 34

/-- `TCB_SIZE`. -/
def TCB_SIZE : ℕ := PAGE_SIZE

/-- `sizeof(VCpuContext)`. -/
def vcpuContextSize : ℕ := 8 * (31 + 3)

/-- The words `enter_hypervisor` stores, from the new stack pointer on: `x0` to `x30`,
the old stack pointer, `ELR_EL2` and `SPSR_EL2`. -/
def Cpu.frameWord (cpu : Cpu) (i : ℕ) : Word :=
  if h : i < 31 then cpu.x ⟨i, h⟩
  else if i = 31 then BitVec.ofNat 64 cpu.sp
  else if i = 32 then cpu.elr_el2
  else cpu.spsr_el2

/-- Storing consecutive words. -/
@[irreducible] def storeFrame (stack : ℕ → Word) (sp : ℕ) (w : ℕ → Word) : ℕ → Word := fun a =>
  if sp ≤ a ∧ a < sp + 8 * CPU_CONTEXT_GP_REGS ∧ (a - sp) % 8 = 0 then w ((a - sp) / 8)
  else stack a

/-! ### Suspended calls -/

/-- Who is waiting for the scheduler to return. -/
inductive Call where
  /-- `HandleTrapWfx`, in the handler of a synchronous exception. -/
  | wfx
  /-- `GicV2::HandleIrq`, which has acknowledged an interrupt. -/
  | irq (iar : ℕ)
  /-- `KernelMain`. -/
  | main
  deriving DecidableEq, Repr

/-- The registers a call preserves: `x19` to `x29`. -/
def calleeSaved (x : Fin 31 → Word) : List Word :=
  [x 19, x 20, x 21, x 22, x 23, x 24, x 25, x 26, x 27, x 28, x 29]

/-- What compiled code that waits in `SchedContextSwitch` keeps. -/
structure Activation where
  /-- The task it runs for. -/
  owner : TaskId
  /-- Who is waiting. -/
  call : Call
  /-- The registers it relies on. -/
  callee : List Word

/-- `sizeof(Tcb)`. -/
def tcbSize : ℕ := 728

/-- **What the compiler and the linker settle.** -/
structure Image (L : Layout) where
  /-- The address of `LoadTaskImage`. -/
  LoadTaskImage : Word
  /-- The address of `KernelSwitchFromKThread`. -/
  KernelSwitchFromKThread : Word
  /-- Where `SchedContextSwitch` returns to in `SwitchTaskTo`. -/
  switchReturn : Word
  /-- The address of `kInitTask`. -/
  initTask : ℕ
  /-- The stack pointer of `KernelMain`, in the stack below the heap. -/
  initSp : ℕ
  /-- The bytes of stack that the calls down to `SchedContextSwitch` take. -/
  stackUse : Call → ℕ
  switchReturn_ne : switchReturn ≠ KernelSwitchFromKThread
  /-- A handler fits the stack that a task control block leaves it. -/
  stackUse_le : ∀ c, stackUse c + vcpuContextSize + tcbSize ≤ TCB_SIZE
  initSp_ge : TCB_SIZE ≤ initSp
  initSp_le : initSp ≤ L.kHeapStart

/-- An image for the QEMU board. -/
def Image.qemu : Image .qemu where
  LoadTaskImage := 0x40080000
  KernelSwitchFromKThread := 0x40081000
  switchReturn := 0x40082000
  initTask := 0x40090000
  initSp := Layout.qemu.kHeapStart
  stackUse _ := 512
  switchReturn_ne := by decide
  stackUse_le _ := by decide
  initSp_ge := by decide
  initSp_le := le_rfl

/-- What a loader does: the pages it asks for, and where the guest starts. -/
structure Load where
  /-- The loader. -/
  loader : Word
  /-- Its argument. -/
  arg : Word
  /-- The addresses it maps pages at. -/
  pages : List ℕ
  /-- Where the guest starts, if the file could be read. -/
  entry : Option (Word × Word)

/-- What the processor is doing. -/
inductive Mode where
  /-- It runs the guest of the current task. -/
  | guest
  /-- It runs `KernelMain`, with interrupts enabled. -/
  | init
  /-- It runs a handler, which is about to leave the hypervisor. -/
  | handler
  deriving DecidableEq, Repr

/-- What made a guest trap. -/
inductive Trap where
  /-- A synchronous exception, with its syndrome. -/
  | sync (esr : ℕ)
  /-- An interrupt. -/
  | irq
  deriving DecidableEq, Repr

/-- Whether an exception is by a `WFx`. -/
def Trap.isWfx : Trap → Bool
  | .sync esr => esrEl2Ec esr = kEsrEl2EcTrapWfx
  | .irq => false

/-- The processor and the tasks. The last three fields are read by nothing; they say
what has happened. -/
structure Machine where
  sched : Sched
  memory : Memory
  cpu : Cpu
  /-- The address of the `Tcb` of a task. -/
  page : TaskId → ℕ
  /-- `Tcb::cpu_context`. -/
  cpu_context : TaskId → CpuContext
  /-- `Tcb::vcpu_sysregs`. -/
  vcpu_sysregs : TaskId → VCpuSysregs
  /-- `initial_vcpu_regs_`, once there is one. -/
  initial_vcpu_regs : Option VCpuSysregs
  /-- What the loaders of the tasks do. -/
  load : TaskId → Load
  /-- The words of the stacks. -/
  stack : ℕ → Word
  /-- What calls that wait have left on the stacks. -/
  calls : ℕ → Option Activation
  mode : Mode
  /-- The interrupts that have been acknowledged and not ended. -/
  active : List ℕ
  /-- The last trap of each task, and what its guest had then. -/
  last : TaskId → Option (Trap × GuestContext)
  /-- How often the guest of each task has executed a `WFx`. -/
  wfxs : TaskId → ℕ
  /-- Each return of `SchedContextSwitch` into a call: the task the call runs for, and
  `cur_tsk_`. -/
  returned : List (TaskId × TaskId)

namespace Machine

/-- `cur_tsk_`. -/
def cur (s : Machine) : TaskId := s.sched.cur

/-- `GetVCpuRegs`: the address of a task's `VCpuContext`. -/
def getVCpuRegs (s : Machine) (tsk : TaskId) : ℕ := s.page tsk + TCB_SIZE - vcpuContextSize

/-- Writing a word of a stack. -/
def storeWord (s : Machine) (a : ℕ) (w : Word) : Machine :=
  { s with stack := Function.update s.stack a w }

/-- Writing `Tcb::stat`. -/
def modifyStat (s : Machine) (tsk : TaskId) (f : TaskStat → TaskStat) : Machine :=
  { s with memory :=
      { s.memory with stat := Function.update s.memory.stat tsk (f (s.memory.stat tsk)) } }

/-- `Sched::IncrementCurrentTaskPc`. -/
def incrementCurrentTaskPc (s : Machine) (offset : Word) : Machine :=
  s.storeWord (s.getVCpuRegs s.cur + 8 * 32) (s.stack (s.getVCpuRegs s.cur + 8 * 32) + offset)

/-! ### Leaving and entering a guest -/

/-- What `Mmu::SetStage2PageTable` writes to `VTTBR_EL2`. -/
def stage2PageTable (table pid : ℕ) : Word :=
  BitVec.ofNat 64 table ||| ((BitVec.ofNat 64 pid &&& 0xff) <<< 48)

/-- `Sched::StopVcpu`. -/
def stopVcpu (s : Machine) (tsk : TaskId) : Machine :=
  { s with
    vcpu_sysregs := Function.update s.vcpu_sysregs tsk
      (cpuRegStoreVCpuSysregs s.cpu.sys (s.vcpu_sysregs tsk)) }

/-- `Sched::RunVcpu`, but for the virtual interrupt lines. -/
def runVcpu (s : Machine) (tsk : TaskId) : Machine :=
  { s with cpu :=
      { s.cpu with
        vttbr_el2 := stage2PageTable (s.memory.mm.ctx tsk).page_table tsk
        sys := cpuRegLoadVCpuSysregs (s.vcpu_sysregs tsk) s.cpu.sys } }

/-- `enter_hypervisor`: the frame is stored below the stack pointer, then `VmLeave` is
called, which besides stopping the virtual processor is about consoles only. -/
def enterHypervisor (s : Machine) : Machine :=
  let sp := s.cpu.sp - 8 * CPU_CONTEXT_GP_REGS
  let s := { s with
    stack := storeFrame s.stack sp s.cpu.frameWord
    cpu := { s.cpu with sp }
    mode := .handler }
  s.stopVcpu s.cur

/-- `leave_hypervisor`: `VmEnter` is called, then the frame at the stack pointer is
loaded; where the exception return leads is in the `PSTATE` loaded. -/
def leaveHypervisor (s : Machine) : Machine :=
  let s := s.runVcpu s.cur
  let spsr := s.stack (s.cpu.sp + 8 * 33)
  { s with
    cpu := { s.cpu with
      x := fun i => s.stack (s.cpu.sp + 8 * i)
      elr_el2 := s.stack (s.cpu.sp + 8 * 32)
      spsr_el2 := spsr
      sp := s.cpu.sp + 8 * CPU_CONTEXT_GP_REGS }
    mode := if exceptionLevel spsr = 2 then .init else .guest }

end Machine

/-! ### The scheduler -/

/-- `SchedContextSwitch`, up to its `ret`: what is stored for the task left, and the
processor with what is loaded of the next one. -/
def schedContextSwitch (cpu : Cpu) (next : CpuContext) : CpuContext × Cpu :=
  ({ x19 := cpu.x 19, x20 := cpu.x 20, x21 := cpu.x 21, x22 := cpu.x 22, x23 := cpu.x 23,
     x24 := cpu.x 24, x25 := cpu.x 25, x26 := cpu.x 26, x27 := cpu.x 27, x28 := cpu.x 28,
     fp := cpu.x 29, sp := cpu.sp, pc := cpu.x 30 },
   { cpu with
     x := fun
      | 19 => next.x19 | 20 => next.x20 | 21 => next.x21 | 22 => next.x22 | 23 => next.x23
      | 24 => next.x24 | 25 => next.x25 | 26 => next.x26 | 27 => next.x27 | 28 => next.x28
      | 29 => next.fp | 30 => next.pc | i => cpu.x i
     sp := next.sp })

variable {L : Layout} (img : Image L)

namespace Machine

/-- What is done once the scheduler has returned. -/
def resume (s : Machine) : Call → Machine
  | .wfx =>
    let s := s.incrementCurrentTaskPc 4
    { s.modifyStat s.cur fun stat => { stat with wfx_traps := stat.wfx_traps + 1 } with
      mode := .handler }
  | .irq iar =>
    -- the write to `GICC_EOIR`
    { s with active := s.active.erase iar, mode := .handler }
  | .main => { s with mode := .init }

/-- The calls of `PgTableStage1::PageMap` a loader makes for the current task. -/
def mapPages (L : Layout) (s : Memory) (tsk : TaskId) : List ℕ → Except Fault Memory
  | [] => .ok s
  | ipa :: rest => do
    let (_, s) ← pageMap L s tsk ipa
    mapPages L s tsk rest

/-- `kSpsrEl2_M_El1h` and the `Enable` bits. -/
def initialPstate : Word := 0b0101 ||| 1 <<< 9 ||| 1 <<< 8 ||| 1 <<< 7 ||| 1 <<< 6

/-- `LoadTaskImage`, of the current task. -/
def loadTaskImage (L : Layout) (s : Machine) : Except Fault Machine := do
  let tsk := s.cur
  let s := s.storeWord (s.getVCpuRegs tsk + 8 * 33) initialPstate
  let memory ← mapPages L s.memory tsk (s.load tsk).pages
  match (s.load tsk).entry with
  | none => .error (.panic "Failed to load %s")
  | some (pc, sp) =>
    let s := { s with memory }
    let s := s.storeWord (s.getVCpuRegs tsk + 8 * 32) pc
    let s := s.storeWord (s.getVCpuRegs tsk + 8 * 31) sp
    return { s.runVcpu tsk with mode := .handler }

/-- `ret` of `SchedContextSwitch`, with `cur_tsk_` set already: into a call that has
waited, or for a task that has never run into `KernelSwitchFromKThread`. -/
def switchReturn (s : Machine) : Except Fault Machine :=
  if s.cpu.x 30 = img.KernelSwitchFromKThread then
    if s.cpu.x 19 = img.LoadTaskImage ∧ s.cpu.x 20 = (s.load s.cur).loader ∧
        s.cpu.x 21 = (s.load s.cur).arg then s.loadTaskImage L
    else .error .corrupted
  else if s.cpu.x 30 = img.switchReturn then
    match s.calls s.cpu.sp with
    | none => .error .corrupted
    | some a =>
      if a.callee = calleeSaved s.cpu.x then
        .ok ({ s with
          cpu := { s.cpu with sp := s.cpu.sp + img.stackUse a.call }
          returned := (a.owner, s.cur) :: s.returned }.resume a.call)
      else .error .corrupted
  else .error .corrupted

/-- `Sched::SwitchTaskTo`, called by the scheduler after it has found `sched`, on behalf
of `call`. The registers compiled code has in use are `scratch`. -/
def switchTaskTo (s : Machine) (sched : Sched) (call : Call) (scratch : Fin 31 → Word) :
    Except Fault Machine :=
  let prev := s.cur
  let next := sched.cur
  let s := { s with sched }
  if prev = next then .ok (s.resume call)
  else
    let cpu := { s.cpu with
      x := Function.update scratch 30 img.switchReturn
      sp := s.cpu.sp - img.stackUse call }
    let switched := schedContextSwitch cpu (s.cpu_context next)
    switchReturn img { s with
      calls := Function.update s.calls cpu.sp (some ⟨prev, call, calleeSaved cpu.x⟩)
      cpu_context := Function.update s.cpu_context prev switched.1
      cpu := switched.2 }

/-- The passes that the selection of the scheduler is given. -/
def schedFuel : ℕ := 2

/-- `Sched::Schedule`. -/
def schedule (s : Machine) (call : Call) (scratch : Fin 31 → Word) : Except Fault Machine := do
  let sched ← s.sched.schedule schedFuel
  s.switchTaskTo img sched call scratch

/-- `Sched::SchedTimerHandler`. -/
def schedTimerHandler (s : Machine) (call : Call) (scratch : Fin 31 → Word) :
    Except Fault Machine := do
  let sched ← s.sched.schedTimerHandler schedFuel
  s.switchTaskTo img sched call scratch

end Machine

end Evisor
