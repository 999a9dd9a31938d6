import Mathlib.Logic.Function.Basic
import Evisor.Common.Queue

/-!
# The virtual serial line

`platforms/virtio/virtio_pl011_uart.cc`. Most of the registers only hold what is
written to them, cut to the width they have. Three do more: reading the data register
marks the line as having nothing to receive, reading the flags fetches the next byte
of the console, and writing the data register sends a byte to it.
-/

namespace Evisor

/-- `Board::Console`. -/
structure Console where
  /-- What has been typed and not read. -/
  input : Queue
  /-- What has been sent and not printed. -/
  out : Queue

/-- The registers of `VirtioPl011Uart::Regs`. -/
inductive UartReg where
  | UARTDR | UARTRSR | UARTFR | UARTILPR | UARTIBRD | UARTFBRD | UARTLCR_H | UARTCR | UARTIFLS
  | UARTIMSC | UARTRIS | UARTMIS | UARTICR | UARTDMACR
  deriving DecidableEq, Repr

/-- `VirtioPl011Uart::Regs`. -/
abbrev UartRegs := UartReg → ℕ

/-- The initial value of `regs_`. -/
def UartRegs.init : UartRegs
  | .UARTFR => 0x90
  | .UARTCR => 0x300
  | .UARTIFLS => 0x12
  | _ => 0

/-- The register at an offset. -/
def uartReg : ℕ → Option UartReg
  | 0x000 => some .UARTDR
  | 0x004 => some .UARTRSR
  | 0x018 => some .UARTFR
  | 0x020 => some .UARTILPR
  | 0x024 => some .UARTIBRD
  | 0x028 => some .UARTFBRD
  | 0x02C => some .UARTLCR_H
  | 0x030 => some .UARTCR
  | 0x034 => some .UARTIFLS
  | 0x038 => some .UARTIMSC
  | 0x03C => some .UARTRIS
  | 0x040 => some .UARTMIS
  | 0x044 => some .UARTICR
  | 0x048 => some .UARTDMACR
  | _ => none

/-- The bits of a register a write can set. -/
def UartReg.mask : UartReg → ℕ
  | .UARTDR => 0xfff
  | .UARTRSR => 0xf
  | .UARTFR => 0x1ff
  | .UARTILPR => 0xff
  | .UARTIBRD => 0xffff
  | .UARTFBRD => 0x3f
  | .UARTLCR_H => 0xff
  | .UARTCR => 0xffff
  | .UARTIFLS => 0x3f
  | .UARTIMSC | .UARTRIS | .UARTMIS | .UARTICR => 0x7ff
  | .UARTDMACR => 0x7

/-- The identification registers, which are constants. -/
def uartId : ℕ → ℕ
  | 0xFE0 => 0x11
  | 0xFE4 => 0x10
  | 0xFE8 => 0x34
  | 0xFEC => 0x0
  | 0xFF0 => 0xD
  | 0xFF4 => 0xF0
  | 0xFF8 => 0x05
  | 0xFFC => 0xB1
  | _ => 0

/-- `~0x10`, of a `uint32_t`. -/
def notRxfe : ℕ := 0xffffffef

/-- `VirtioPl011Uart::Read`, with the console of the current task. -/
def uartRead (regs : UartRegs) (console : Console) (addr : ℕ) : ℕ × UartRegs × Console :=
  match uartReg addr with
  | some .UARTDR =>
    (regs .UARTDR, Function.update regs .UARTFR (regs .UARTFR ||| 0x10), console)
  | some .UARTFR =>
    if console.input.empty then (regs .UARTFR, regs, console)
    else
      let (data, input) := console.input.pop
      let dr := (regs .UARTDR &&& 0xf00) ||| (data &&& 0xff)
      let regs := Function.update regs .UARTDR dr
      let regs := Function.update regs .UARTFR (regs .UARTFR &&& notRxfe)
      (regs .UARTFR, regs, { console with input })
  | some r => (regs r, regs, console)
  | none => (uartId addr, regs, console)

/-- `VirtioPl011Uart::Write`, with the console of the current task. -/
def uartWrite (regs : UartRegs) (console : Console) (addr data : ℕ) : UartRegs × Console :=
  match uartReg addr with
  | some .UARTDR =>
    (Function.update regs .UARTDR (data &&& 0xfff),
      if console.out.full then console
      else { console with out := (console.out.push (data &&& 0xFF)).2 })
  | some r => (Function.update regs r (data &&& r.mask), console)
  | none => (regs, console)

/-! ### Queues in order -/

/-- Both queues of a console are in order. -/
structure Console.Ok (console : Console) : Prop where
  input : console.input.Ok
  out : console.out.Ok

variable {console : Console}

theorem uartRead_ok (h : console.Ok) (regs : UartRegs) (addr : ℕ) :
    (uartRead regs console addr).2.2.Ok := by
  rw [uartRead]
  split
  · exact h
  · split
    · exact h
    · exact ⟨h.input.pop, h.out⟩
  · exact h
  · exact h

/-- A read of a register takes nothing of what has been sent. -/
theorem uartRead_out (regs : UartRegs) (console : Console) (addr : ℕ) :
    (uartRead regs console addr).2.2.out = console.out := by
  rw [uartRead]
  split
  · rfl
  · split <;> rfl
  · rfl
  · rfl

/-- A write sends a byte if it is to the data register and there is room. -/
theorem uartWrite_out (regs : UartRegs) (console : Console) (addr data : ℕ) :
    (uartWrite regs console addr data).2.out =
      if uartReg addr = some .UARTDR ∧ ¬console.out.full = true then
        (console.out.push (data &&& 0xFF)).2 else console.out := by
  rw [uartWrite]
  split
  · rename_i haddr
    dsimp only
    split
    case isTrue hfull =>
      rw [if_neg fun h => h.2 hfull]
    case isFalse hroom =>
      rw [if_pos ⟨haddr, hroom⟩]
  · rename_i hother haddr
    rw [if_neg fun h => hother (Option.some.inj (haddr.symm.trans h.1))]
  · rename_i haddr
    rw [if_neg fun h => by cases haddr.symm.trans h.1]

theorem uartWrite_ok (h : console.Ok) (regs : UartRegs) (addr data : ℕ) :
    (uartWrite regs console addr data).2.Ok := by
  rw [uartWrite]
  split
  · dsimp only
    split
    · exact h
    · exact ⟨h.input, h.out.push _⟩
  · exact h
  · exact h

/-! ### Accesses that leave the line as it is -/

/-- **A read that leaves the line as it is**: not of the data register while the line
is marked as having something to receive, and not of the flags while something has
been typed. -/
def QuietUartRead (regs : UartRegs) (console : Console) (addr : ℕ) : Prop :=
  match uartReg addr with
  | some .UARTDR => regs .UARTFR ||| 0x10 = regs .UARTFR
  | some .UARTFR => console.input.empty = true
  | _ => True

/-- **A write that leaves the line as it is**: of what the register holds, and to the
data register only while the console takes no more. -/
def QuietUartWrite (regs : UartRegs) (console : Console) (addr data : ℕ) : Prop :=
  match uartReg addr with
  | some .UARTDR => data &&& 0xfff = regs .UARTDR ∧ console.out.full = true
  | some r => data &&& r.mask = regs r
  | none => True

instance (regs : UartRegs) (console : Console) (addr : ℕ) :
    Decidable (QuietUartRead regs console addr) := by
  unfold QuietUartRead
  split <;> infer_instance

instance (regs : UartRegs) (console : Console) (addr data : ℕ) :
    Decidable (QuietUartWrite regs console addr data) := by
  unfold QuietUartWrite
  split <;> infer_instance

/-- Storing what is there changes nothing, and nothing else does. -/
theorem update_eq_self_iff {α β : Type*} [DecidableEq α] {f : α → β} {a : α} {v : β} :
    Function.update f a v = f ↔ v = f a :=
  ⟨fun h => by rw [← congrFun h a, Function.update_self], fun h => by
    rw [h, Function.update_eq_self]⟩

/-- **A read leaves the line as it is exactly when it is quiet.** -/
theorem uartRead_eq_iff (regs : UartRegs) (console : Console) (addr : ℕ) :
    (uartRead regs console addr).2 = (regs, console) ↔ QuietUartRead regs console addr := by
  rw [uartRead, QuietUartRead]
  generalize uartReg addr = r
  split
  · rw [Prod.mk.injEq]
    exact (and_iff_left rfl).trans update_eq_self_iff
  · split
    · rename_i hempty
      exact iff_of_true rfl hempty
    · rename_i hempty
      refine iff_of_false (fun heq => Queue.pop_ne hempty ?_) hempty
      exact congrArg Console.input (congrArg Prod.snd heq)
  · rename_i hdr hfr
    split
    · rename_i heq
      exact (hdr (Option.some.inj heq)).elim
    · rename_i heq
      exact (hfr (Option.some.inj heq)).elim
    · exact iff_of_true rfl trivial
  · exact iff_of_true rfl trivial

/-- **A write leaves the line as it is exactly when it is quiet.** -/
theorem uartWrite_eq_iff (regs : UartRegs) (console : Console) (addr data : ℕ) :
    uartWrite regs console addr data = (regs, console) ↔ QuietUartWrite regs console addr data := by
  rw [uartWrite, QuietUartWrite]
  generalize uartReg addr = r
  split
  · rw [Prod.mk.injEq, update_eq_self_iff]
    refine and_congr_right fun _ => ?_
    split_ifs with hfull
    · exact iff_of_true rfl hfull
    · refine iff_of_false (fun heq => Queue.push_ne hfull (data &&& 0xFF) ?_) hfull
      exact congrArg Console.out heq
  · rw [Prod.mk.injEq]
    exact (and_iff_left rfl).trans update_eq_self_iff
  · exact iff_of_true rfl trivial

end Evisor
