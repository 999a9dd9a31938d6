import Evisor.Lib.Run

/-!
# What every part of the hypervisor shares

The page geometry of `arch/mmu_config.h` and `mm/pgtable.h`, and the ways in which a
call of the hypervisor does not come back: it prints a message and loops for ever
(`PANIC`), or it leaves what the language defines, by indexing an array out of
bounds, by following a null pointer or by dividing by zero. A loop whose end is not
obvious is given the passes it may make, and reports when they do not suffice; that this
never happens is then a theorem about the loop.
-/

namespace Evisor

/-- `CONFIG_MMU_PAGE_SIZE_BITS`. -/
def PAGE_SHIFT : ℕ := 12

/-- `PAGE_SIZE`. -/
def PAGE_SIZE : ℕ := 4096

/-- `PAGE_MASK`. -/
def PAGE_MASK : ℕ := 0xfffffffffffff000

/-- How a call fails to come back. -/
inductive Fault where
  /-- `PANIC`: the message is printed and the processor loops for ever. -/
  | panic (msg : String)
  /-- An array is indexed outside its bounds. -/
  | outOfBounds
  /-- A null pointer is dereferenced. -/
  | nullDeref
  /-- A number is divided by zero. -/
  | divisionByZero
  /-- A loop has used up the passes it was given. -/
  | outOfFuel
  /-- The stack or the registers are not those of the call that is returned to. -/
  | corrupted
  deriving DecidableEq, Repr

/-- Whether a fault is the deliberate stop of `PANIC`. -/
def Fault.IsPanic : Fault → Prop
  | .panic _ => True
  | _ => False

/-- Whether a fault is the stop of an allocator that has no page left. -/
def Fault.OutOfMemory (f : Fault) : Prop :=
  f = .panic "No free space!" ∨ f = .panic "No free pages in user memory region!"

theorem Fault.OutOfMemory.isPanic {f : Fault} (h : f.OutOfMemory) : f.IsPanic := by
  rcases h with rfl | rfl
  · trivial
  · trivial

end Evisor
