import Evisor.Basic
import Evisor.Lib.Assign
import Evisor.Lib.Lanes
import Evisor.Lib.Run

/-!
# The pins

`drivers/gpio/gpio_bcm2711.cc`. What a pin is for is a number of three bits, in a register that it
shares with nine other pins; its level follows the ones that are written to one register or another,
and there are thirty-two pins to each of these.

Seen from outside there are two tables, with an entry for each pin (`Evisor.GpioBcm2711.Regs.mode`
and `Evisor.GpioBcm2711.Regs.level`), and a call assigns to an entry of one of them. So any calls of
any drivers, in any order, come to the assignments that they stand for
(`Evisor.GpioBcm2711.pins_assigned`), and drivers of different pins do not get in each other's way.
-/

namespace Evisor

namespace GpioBcm2711

abbrev Word := BitVec 32

/-- `Gpio::GpioMode`. -/
inductive GpioMode where
  | kInput | kOutput | kAlt0 | kAlt1 | kAlt2 | kAlt3 | kAlt4 | kAlt5
  deriving DecidableEq

/-- `kMaxPortNum`. -/
def kMaxPortNum : ℕ := 57

/-- `function_mode`. -/
def functionMode : GpioMode → BitVec 3
  | .kInput => 0b000
  | .kOutput => 0b001
  | .kAlt0 => 0b100
  | .kAlt1 => 0b101
  | .kAlt2 => 0b110
  | .kAlt3 => 0b111
  | .kAlt4 => 0b011
  | .kAlt5 => 0b010

/-- The registers: `GPFSEL`, and the levels that the pins have been given. The latter are all that
`GPSET` and `GPCLR` are for, of which nothing can be read. -/
structure Regs where
  GPFSEL : ℕ → Word
  levels : ℕ → Word

/-- Storing to `GPSET[i]`. -/
def Regs.set (s : Regs) (i : ℕ) (v : Word) : Regs :=
  ⟨s.GPFSEL, Function.update s.levels i (s.levels i ||| v)⟩

/-- Storing to `GPCLR[i]`. -/
def Regs.clear (s : Regs) (i : ℕ) (v : Word) : Regs :=
  ⟨s.GPFSEL, Function.update s.levels i (s.levels i &&& ~~~v)⟩

/-- What `SetMode` makes of a register. -/
def withMode (fselx_offset : ℕ) (mode : GpioMode) (gpfsel : Word) : Word :=
  gpfsel &&& ~~~((0x7 : Word) <<< (fselx_offset * 3)) |||
    (functionMode mode).setWidth 32 <<< (fselx_offset * 3)

/-- `GpioBcm2711::SetMode`. -/
def setMode (port : ℕ) (mode : GpioMode) (s : Regs) : Except Fault (Bool × Regs) :=
  if kMaxPortNum < port then .ok (false, s)
  else
    let fselx := port / 10
    if fselx < 6 then
      .ok (true, ⟨Function.update s.GPFSEL fselx (withMode (port % 10) mode (s.GPFSEL fselx)),
        s.levels⟩)
    else .error .outOfBounds

/-- `GpioBcm2711::Output`. -/
def output (port : ℕ) (out : Bool) (s : Regs) : Except Fault (Bool × Regs) :=
  if kMaxPortNum < port then .ok (false, s)
  else
    let reg_num := port / 32
    let bit_offset := port % 32
    if reg_num < 2 then
      .ok (true, if out then s.set reg_num (1 <<< bit_offset)
        else s.clear reg_num (1 <<< bit_offset))
    else .error .outOfBounds

/-! ### A call is an assignment -/

/-- What the pins are for. -/
def Regs.mode (s : Regs) : ℕ → BitVec 3 := Lib.lane 10 3 s.GPFSEL

/-- The levels of the pins. -/
def Regs.level (s : Regs) : ℕ → BitVec 1 := Lib.lane 32 1 s.levels

/-- The two bits of a register that belong to no pin. -/
def Regs.spare (s : Regs) (i k : ℕ) : Bool := (s.GPFSEL i).getLsbD (30 + k)

theorem onLane_withMode (port : ℕ) (mode : GpioMode) :
    Lib.OnLane (port % 10 * 3) (fun _ => functionMode mode) (withMode (port % 10) mode) :=
  Lib.OnLane.put (by omega) (functionMode mode)

theorem onLane_set (port : ℕ) : Lib.OnLane (port % 32 * 1) (fun _ : BitVec 1 => 1)
    (fun v : Word => v ||| (1 : Word) <<< (port % 32)) := by
  rw [Nat.mul_one]
  exact Lib.OnLane.setBit (Nat.mod_lt port (by decide))

theorem onLane_clear (port : ℕ) : Lib.OnLane (port % 32 * 1) (fun _ : BitVec 1 => 0)
    (fun v : Word => v &&& ~~~((1 : Word) <<< (port % 32))) := by
  rw [Nat.mul_one]
  exact Lib.OnLane.clearBit (Nat.mod_lt port (by decide))

/-- A call of one of the two functions. -/
inductive Call where
  | setMode (port : ℕ) (mode : GpioMode)
  | output (port : ℕ) (out : Bool)
  deriving DecidableEq

def Call.port : Call → ℕ
  | .setMode port _ => port
  | .output port _ => port

def call : Call → Regs → Except Fault (Bool × Regs)
  | .setMode port mode => setMode port mode
  | .output port out => output port out

/-- There is a pin for the call. -/
def Call.accepted (c : Call) : Bool := c.port ≤ kMaxPortNum

/-- The mode that a call gives to a pin. -/
def Call.modeSet : Call → Option (ℕ × BitVec 3)
  | .setMode port mode => if port ≤ kMaxPortNum then some (port, functionMode mode) else none
  | .output .. => none

/-- The level that a call gives to a pin. -/
def Call.levelSet : Call → Option (ℕ × BitVec 1)
  | .setMode .. => none
  | .output port out => if port ≤ kMaxPortNum then some (port, BitVec.ofBool out) else none

/-- **The tables after some assignments.** -/
structure Assigned (modes : List (ℕ × BitVec 3)) (outs : List (ℕ × BitVec 1)) (s t : Regs) :
    Prop where
  mode : t.mode = Lib.assign modes s.mode
  level : t.level = Lib.assign outs s.level
  spare : t.spare = s.spare

theorem Assigned.refl (s : Regs) : Assigned [] [] s s := ⟨rfl, rfl, rfl⟩

theorem Assigned.trans {modes modes' : List (ℕ × BitVec 3)} {outs outs' : List (ℕ × BitVec 1)}
    {s t u : Regs} (h : Assigned modes outs s t) (h' : Assigned modes' outs' t u) :
    Assigned (modes ++ modes') (outs ++ outs') s u where
  mode := by rw [h'.mode, h.mode, Lib.assign_append]
  level := by rw [h'.level, h.level, Lib.assign_append]
  spare := h'.spare.trans h.spare

/-- The other bits of the register are as they were. -/
theorem spare_update (s : Regs) (port : ℕ) (mode : GpioMode) :
    Regs.spare ⟨Function.update s.GPFSEL (port / 10)
      (withMode (port % 10) mode (s.GPFSEL (port / 10))), s.levels⟩ = s.spare := by
  funext i k
  rw [Regs.spare, Regs.spare]
  dsimp only
  rcases eq_or_ne i (port / 10) with rfl | hi
  · rw [Function.update_self]
    exact (onLane_withMode port mode).outside _ _ (by omega)
  · rw [Function.update_of_ne hi]

theorem setMode_assigned (port : ℕ) (mode : GpioMode) (s : Regs) :
    ∃ t, setMode port mode s = .ok (Call.accepted (.setMode port mode), t) ∧
      Assigned (Call.modeSet (.setMode port mode)).toList [] s t := by
  by_cases hport : port ≤ kMaxPortNum
  · rw [setMode, if_neg (not_lt.mpr hport)]
    have hfselx : port / 10 < 6 := by
      rw [kMaxPortNum] at hport
      omega
    dsimp only
    rw [if_pos hfselx, Call.accepted, Call.port, decide_eq_true hport, Call.modeSet, if_pos hport]
    refine ⟨_, rfl, ?_, rfl, spare_update s port mode⟩
    exact Lib.lane_update (onLane_withMode port mode) s.GPFSEL
  · rw [setMode, if_pos (not_le.mp hport), Call.accepted, Call.port, decide_eq_false hport,
      Call.modeSet, if_neg hport]
    exact ⟨s, rfl, .refl s⟩

theorem output_assigned (port : ℕ) (out : Bool) (s : Regs) :
    ∃ t, output port out s = .ok (Call.accepted (.output port out), t) ∧
      Assigned [] (Call.levelSet (.output port out)).toList s t := by
  by_cases hport : port ≤ kMaxPortNum
  · rw [output, if_neg (not_lt.mpr hport)]
    have hreg : port / 32 < 2 := by
      rw [kMaxPortNum] at hport
      omega
    dsimp only
    rw [if_pos hreg, Call.accepted, Call.port, decide_eq_true hport, Call.levelSet, if_pos hport]
    cases out with
    | true => exact ⟨_, rfl, rfl, Lib.lane_update (onLane_set port) s.levels, rfl⟩
    | false => exact ⟨_, rfl, rfl, Lib.lane_update (onLane_clear port) s.levels, rfl⟩
  · rw [output, if_pos (not_le.mp hport), Call.accepted, Call.port, decide_eq_false hport,
      Call.levelSet, if_neg hport]
    exact ⟨s, rfl, .refl s⟩

/-- **A call is an assignment** to the entry of its pin, or none if there is no such pin. -/
theorem call_assigned (c : Call) (s : Regs) :
    ∃ t, call c s = .ok (c.accepted, t) ∧ Assigned c.modeSet.toList c.levelSet.toList s t := by
  cases c with
  | setMode port mode => exact setMode_assigned port mode s
  | output port out => exact output_assigned port out s

/-! ### Many calls -/

/-- One call after the other, and what they return. -/
def callAll : List Call → Regs → Except Fault (List Bool × Regs)
  | [], s => .ok ([], s)
  | c :: calls, s => do
    let (r, s) ← call c s
    let (rs, s) ← callAll calls s
    return (r :: rs, s)

theorem filterMap_cons {α β : Type} (f : α → Option β) (a : α) (l : List α) :
    (a :: l).filterMap f = (f a).toList ++ l.filterMap f := by
  rw [List.filterMap_cons]
  cases f a with
  | none => rfl
  | some b => rfl

/-- **The pins are two tables.** Whatever the registers hold at first, and whatever is called in
which order: no access leaves the registers; each call says whether there is such a pin; each pin
has the mode and the level that it has been given last, or those of before if it has not been given
any; and the bits that belong to no pin are as they were. -/
theorem pins_assigned (calls : List Call) (s : Regs) :
    ∃ t, callAll calls s = .ok (calls.map Call.accepted, t) ∧
      Assigned (calls.filterMap Call.modeSet) (calls.filterMap Call.levelSet) s t := by
  induction calls generalizing s with
  | nil => exact ⟨s, rfl, .refl s⟩
  | cons c calls ih =>
    obtain ⟨t, ht, hassigned⟩ := call_assigned c s
    obtain ⟨u, hu, hall⟩ := ih t
    refine ⟨u, ?_, ?_⟩
    · rw [callAll, ht, Lib.ok_bind]
      dsimp only
      rw [hu]
      rfl
    · rw [filterMap_cons, filterMap_cons]
      exact hassigned.trans hall

end GpioBcm2711

end Evisor
