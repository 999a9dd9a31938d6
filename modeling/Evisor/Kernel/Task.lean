import Evisor.Arch.CpuRegs
import Evisor.Basic

/-!
# The task control block

`kernel/task/task.h`. A task is named by its place in the scheduler's table, which
is also its `pid`; a board is named by a number, so that it can be said of two
tasks that they hold the same one.
-/

namespace Evisor

/-- `TaskState`. -/
inductive TaskState where
  | RUNNING | WAITTING | ZOMBIE | DEAD
  deriving DecidableEq, Repr

/-- `CpuContext`: what `SchedContextSwitch` keeps of a task that is not running. -/
structure CpuContext where
  (x19 x20 x21 x22 x23 x24 x25 x26 x27 x28 : Word)
  /-- The frame pointer, `x29`. -/
  fp : Word
  /-- The stack pointer, an address. -/
  sp : ℕ
  /-- The link register, `x30`. -/
  pc : Word

/-- `MmContext`. -/
structure MmContext where
  /-- The address of the first page table, `0` before there is one. -/
  page_table : ℕ
  /-- The number of pages mapped. -/
  pages : ℕ

/-- `TaskStat`. -/
structure TaskStat where
  irq_pending : Bool
  fiq_pending : Bool
  wfx_traps : ℕ
  hvc_traps : ℕ
  sysreg_traps : ℕ
  page_faults : ℕ
  mmios : ℕ

/-- A board object; `Evisor.getPlatformBoard` says which ones there are. -/
abbrev BoardRef := ℕ

/-- `Tcb`. -/
structure Tcb where
  name : String
  pid : ℤ
  priority : ℤ
  counter : ℤ
  state : TaskState
  cpu_context : CpuContext
  vcpu_sysregs : VCpuSysregs
  mm : MmContext
  stat : TaskStat
  board : Option BoardRef

/-- A cleared `CpuContext`. -/
def CpuContext.zero : CpuContext := ⟨0, 0, 0, 0, 0, 0, 0, 0, 0, 0, 0, 0, 0⟩

/-- A task control block as `kmm_zalloc` clears it. -/
def Tcb.zero : Tcb where
  name := ""
  pid := 0
  priority := 0
  counter := 0
  state := .RUNNING
  cpu_context := .zero
  vcpu_sysregs := fun _ => 0
  mm := ⟨0, 0⟩
  stat := ⟨false, false, 0, 0, 0, 0, 0⟩
  board := none

/-- `kInitTask`. -/
def kInitTask : Tcb := { Tcb.zero with name := "init", priority := 1 }

end Evisor
