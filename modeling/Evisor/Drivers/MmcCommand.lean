import Evisor.Basic
import Evisor.Lib.Bus

/-!
# Commands to the SD card

`Mmc::SendCommand`, `Mmc::WaitCommandDone` and `Mmc::PerformDataTransfer` of `drivers/mmc/mmc.cc`,
with every access to the registers of the controller. The controller is what its registers return
(`Lib.Bus`): it may answer anything, at any time.

What a command comes to is a matter of the values that the registers return. `Emmc.Answered` says
of them that the command has been answered, `Emmc.Ready` that the blocks of its data have come up
one after the other, and `Emmc.Finished` that the transfer has been reported to be over.
-/

namespace Evisor

namespace Emmc

open Lib (firstHit polls)
open Lib.Bus (written)

/-- `reg32_t`. -/
abbrev Word := BitVec 32

/-- The registers of `Mmc::Emmc2Regs` that commands use. -/
inductive Reg where
  | BLKSIZECNT | ARG1 | CMDTM | RESP0 | RESP1 | RESP2 | RESP3 | DATA | STATUS | INTERRUPT
  deriving DecidableEq

/-! ### Commands -/

/-- `Mmc::CmdRespType`. -/
def RTNone : BitVec 2 := 0
def RT136 : BitVec 2 := 1
def RT48 : BitVec 2 := 2
def RT48Busy : BitVec 2 := 3

/-- `Mmc::CmdRegister`. -/
structure CmdRegister where
  resp_a : BitVec 1
  block_count : BitVec 1
  auto_command : BitVec 2
  direction : BitVec 1
  multiblock : BitVec 1
  resp_b : BitVec 10
  response_type : BitVec 2
  res0 : BitVec 1
  crc_enable : BitVec 1
  idx_enable : BitVec 1
  is_data : BitVec 1
  type : BitVec 2
  index : BitVec 6
  res1 : BitVec 2
  deriving DecidableEq

/-- The bit-fields as a word, the first one in the lowest bits. -/
def CmdRegister.word (c : CmdRegister) : Word :=
  c.res1 ++ c.index ++ c.type ++ c.is_data ++ c.idx_enable ++ c.crc_enable ++ c.res0 ++
    c.response_type ++ c.resp_b ++ c.multiblock ++ c.direction ++ c.auto_command ++
    c.block_count ++ c.resp_a

/-- `Mmc::CmdType`. -/
inductive CmdType where
  | GO_IDLE_STATE | SEND_OP_COND | ALL_SEND_CID | SEND_RELATIVE_ADDR | SET_DSR | IO_SET_OP_COND
  | SWITCH_FUNC | SELECT_CARD | SEND_IF_COND | SET_BLOCKLEN | READ_SINGLE_BLOCK
  | READ_MULTIPLE_BLOCK | WRITE_BLOCK | WRITE_MULTIPLE_BLOCK | CTOcrCheck | CTSendSCR | APP_CMD
  | INVALID
  deriving DecidableEq

/-- `Mmc::kReserved_`. -/
def kReserved_ : CmdRegister := ⟨1, 1, 3, 1, 1, 0xF, 3, 1, 1, 1, 1, 3, 0xF, 3⟩

/-- `Mmc::kCommands_`, at the commands that have a name. `INVALID` is no place of it. -/
def kCommands_ : CmdType → CmdRegister
  | .GO_IDLE_STATE => ⟨0, 0, 0, 0, 0, 0, 0, 0, 0, 0, 0, 0, 0, 0⟩
  | .SEND_OP_COND => kReserved_
  | .ALL_SEND_CID => ⟨0, 0, 0, 0, 0, 0, RT136, 0, 1, 0, 0, 0, 2, 0⟩
  | .SEND_RELATIVE_ADDR => ⟨0, 0, 0, 0, 0, 0, RT48, 0, 1, 0, 0, 0, 3, 0⟩
  | .SET_DSR => ⟨0, 0, 0, 0, 0, 0, 0, 0, 0, 0, 0, 0, 4, 0⟩
  | .IO_SET_OP_COND => ⟨0, 0, 0, 0, 0, 0, RT136, 0, 0, 0, 0, 0, 5, 0⟩
  | .SWITCH_FUNC => ⟨0, 0, 0, 0, 0, 0, RT48, 0, 1, 0, 0, 0, 6, 0⟩
  | .SELECT_CARD => ⟨0, 0, 0, 0, 0, 0, RT48Busy, 0, 1, 0, 0, 0, 7, 0⟩
  | .SEND_IF_COND => ⟨0, 0, 0, 0, 0, 0, RT48, 0, 1, 0, 0, 0, 8, 0⟩
  | .SET_BLOCKLEN => ⟨0, 0, 0, 0, 0, 0, RT48, 0, 1, 0, 0, 0, 16, 0⟩
  | .READ_SINGLE_BLOCK => ⟨0, 0, 0, 1, 0, 0, RT48, 0, 1, 0, 1, 0, 17, 0⟩
  | .READ_MULTIPLE_BLOCK => ⟨0, 1, 1, 1, 1, 0, RT48, 0, 1, 0, 1, 0, 18, 0⟩
  | .WRITE_BLOCK => kReserved_
  | .WRITE_MULTIPLE_BLOCK => kReserved_
  | .CTOcrCheck => ⟨0, 0, 0, 0, 0, 0, RT48, 0, 0, 0, 0, 0, 41, 0⟩
  | .CTSendSCR => ⟨0, 0, 0, 1, 0, 0, RT48, 0, 1, 0, 1, 0, 51, 0⟩
  | .APP_CMD => ⟨0, 0, 0, 0, 0, 0, RT48, 0, 1, 0, 0, 0, 55, 0⟩
  | .INVALID => kReserved_

/-- `Mmc::CommandData`. The buffer is the words of the memory it points to. -/
structure CommandData where
  cmd_type : CmdType
  cmd_reg : CmdRegister
  cmd_arg : Word
  cmd_timeout_usec : ℕ
  transfer_blocks : ℕ
  buffer : ℕ → Word
  cmd_response : Fin 4 → Word
  cmd_error : Word

/-- `Mmc::Device`, as far as commands have to do with it. The size of a block is `0`, `8` or `512`
bytes: it is always a number of words. -/
structure Device where
  sdhc : Bool
  ocr : BitVec 16
  rca : Word
  block_size : ℕ
  seek_offset : ℕ
  dvd_block_size : 4 ∣ block_size

/-- The words of a block. -/
def Device.words (device : Device) : ℕ := device.block_size / 4

/-- What a function that is given a `CommandData&` works on: the command and the registers. -/
structure State where
  d : CommandData
  regs_ : Lib.Bus Reg Word

namespace State

/-- What the next read of a register returns. -/
def next (s : State) : Word := s.regs_.next

def read (s : State) (r : Reg) : State := { s with regs_ := s.regs_.read r }

def write (s : State) (r : Reg) (v : Word) : State := { s with regs_ := s.regs_.write r v }

end State

/-! ### Waiting -/

/-- `timeout_ms` of the waits for a bit of `INTERRUPT`. -/
def kWaitMs : ℕ := 2000

/-- All bits of a mask are set. -/
def bitSet (mask v : Word) : Bool := v &&& mask == mask

/-- `RegWaitBitSet`: the register is read until the bits are set, with one more attempt than there
are microseconds. -/
def regWaitBitSet (r : Reg) (mask : Word) (timeout_ms : ℕ) (s : State) : Bool × State :=
  let wait := s.regs_.poll r (bitSet mask) (timeout_ms * 1000 % 2 ^ 32 + 1)
  (wait.1.isSome, { s with regs_ := wait.2 })

/-- The loop of `WaitCommandDone` ends early when `INTERRUPT` shows anything. -/
def commandDone (reg : Word) : Bool := reg &&& 0x1 != 0 || reg != 0

/-- `times` after the loop. It counts the last, failing comparison too. -/
def times (cmd_timeout_usec : ℕ) : Option ℕ → ℕ
  | some i => i + 1
  | none => (cmd_timeout_usec + 1) % 2 ^ 32

/-- An error of the controller is kept, and reported together with `STATUS`. -/
def unexpected (reg_val : Word) (s : State) : State :=
  State.read { s with d := { s.d with cmd_error := reg_val &&& 0xffff0000 } } .STATUS

/-- A word of the response is read. -/
def readResp (k : Fin 4) (r : Reg) (s : State) : State :=
  State.read { s with d := { s.d with
    cmd_response := Function.update s.d.cmd_response k s.next } } r

/-- The first word of a response. -/
def CommandData.response0 (d : CommandData) : Word := d.cmd_response 0

/-- The response to a command, by its type. -/
def readResponse (s : State) : State :=
  if s.d.cmd_reg.response_type = RT48 ∨ s.d.cmd_reg.response_type = RT48Busy then
    readResp 0 .RESP0 s
  else if s.d.cmd_reg.response_type = RT136 then
    readResp 3 .RESP3 (readResp 2 .RESP2 (readResp 1 .RESP1 (readResp 0 .RESP0 s)))
  else s

/-- `Mmc::WaitCommandDone`. -/
def waitCommandDone (s : State) : Bool × State :=
  let wait := s.regs_.poll .INTERRUPT commandDone s.d.cmd_timeout_usec
  let s := { s with regs_ := wait.2 }
  if s.d.cmd_timeout_usec ≤ times s.d.cmd_timeout_usec wait.1 then (false, s)
  else
    let interrupts := s.next
    let s := (s.read .INTERRUPT).write .INTERRUPT 0xffff0001
    if interrupts &&& 0xffff0001 ≠ 1 then (false, unexpected interrupts s)
    else (true, readResponse s)

/-- `INTERRUPT` is waited for, read, and acknowledged. Whether the wait has succeeded is not
looked at. -/
def takeStatus (mask ack : Word) (s : State) : Word × State :=
  let s := (regWaitBitSet .INTERRUPT mask kWaitMs s).2
  (s.next, (s.read .INTERRUPT).write .INTERRUPT ack)

/-! ### The data -/

/-- A word of data is read into the buffer. -/
def readWord (pos : ℕ) (s : State) : State :=
  State.read { s with d := { s.d with buffer := Function.update s.d.buffer pos s.next } } .DATA

/-- `n` words are read into the buffer from place `pos` on. -/
def readData : ℕ → ℕ → State → State
  | 0, _, s => s
  | n + 1, pos, s => readData n (pos + 1) (readWord pos s)

/-- `n` words are written from the buffer. -/
def writeData : ℕ → ℕ → State → State
  | 0, _, s => s
  | n + 1, pos, s => writeData n (pos + 1) (s.write .DATA (s.d.buffer pos))

/-- What is done with the words of a block. -/
def moveWords (device : Device) (write : Bool) (pos : ℕ) (s : State) : State :=
  if write then writeData device.words pos s else readData device.words pos s

/-- The status word of a block is as it should be: the ready bit is set, and no error bit. -/
def blockReady (interrupts reg_val : Word) : Bool :=
  reg_val &&& (0xffff0000 ||| interrupts) == interrupts

/-- The loop of `PerformDataTransfer`, with the blocks that are left and the place in the
buffer. -/
def transferBlocks (device : Device) (interrupts : Word) (write : Bool) :
    ℕ → ℕ → State → Bool × State
  | 0, _, s => (true, s)
  | left + 1, pos, s =>
    let status := takeStatus interrupts interrupts s
    if blockReady interrupts status.1 = false then (false, unexpected status.1 status.2)
    else
      transferBlocks device interrupts write left (pos + device.words)
        (moveWords device write pos status.2)

/-- The bit of `INTERRUPT` by which a block is ready to be read or written. -/
def readyBit (c : CmdRegister) : Word := if c.direction = 1 then 1 <<< 5 else 1 <<< 4

/-- `Mmc::PerformDataTransfer`. -/
def performDataTransfer (device : Device) (s : State) : Bool × State :=
  transferBlocks device (readyBit s.d.cmd_reg) (s.d.cmd_reg.direction = 0)
    s.d.transfer_blocks 0 s

/-- What `INTERRUPT` shows when a transfer has finished, or has finished with a timeout. -/
def transferDone (interrupts : Word) : Bool :=
  interrupts &&& 0xffff0002 == 2 || interrupts &&& 0xffff0002 == 0x100002

/-- The end of `SendCommand`. -/
def waitTransferDone (s : State) : Bool × State :=
  let status := takeStatus 0x2 0xffff0002 s
  if transferDone status.1 = false then (false, unexpected status.1 status.2)
  else (true, status.2.write .INTERRUPT 0xffff0002)

/-- What is written to the controller to start a command. -/
def startCommand (device : Device) (s : State) : State :=
  ((s.write .BLKSIZECNT
    (BitVec.ofNat 32 device.block_size ||| BitVec.ofNat 32 s.d.transfer_blocks <<< 16)).write
      .ARG1 s.d.cmd_arg).write .CMDTM s.d.cmd_reg.word

/-- The data of a command, if it has any. The outcome of `PerformDataTransfer` is not looked
at. -/
def transferData (device : Device) (s : State) : State :=
  if s.d.cmd_reg.is_data = 1 then (performDataTransfer device s).2 else s

/-- `Mmc::SendCommand`. -/
def sendCommand (device : Device) (s : State) : Bool × State :=
  if 0xffff < s.d.transfer_blocks then (false, s)
  else
    let wait := waitCommandDone (startCommand device s)
    if wait.1 = false then (false, wait.2)
    else
      let s := transferData device wait.2
      if s.d.cmd_reg.response_type = RT48Busy ∨ s.d.cmd_reg.is_data = 1 then waitTransferDone s
      else (true, s)

/-! ### What the registers return -/

/-- The reads of `RegWaitBitSet` at most. -/
def kWaitPolls : ℕ := kWaitMs * 1000 % 2 ^ 32 + 1

/-- Where the status word is read that is waited for from place `i` on. -/
def statusAt (mask : Word) (w : ℕ → Word) (i : ℕ) : ℕ :=
  i + polls (bitSet mask) w kWaitPolls i

/-- **A command is answered**: `INTERRUPT` shows something before the last of the reads, and then
that the command is done and nothing else. -/
def Answered (cmd_timeout_usec : ℕ) (w : ℕ → Word) (i : ℕ) : Prop :=
  times cmd_timeout_usec (firstHit commandDone w cmd_timeout_usec i) < cmd_timeout_usec ∧
    w (i + polls commandDone w cmd_timeout_usec i) &&& 0xffff0001 = 1

instance (cmd_timeout_usec : ℕ) (w : ℕ → Word) (i : ℕ) :
    Decidable (Answered cmd_timeout_usec w i) :=
  inferInstanceAs (Decidable (_ ∧ _))

/-- The words of a response. -/
def CmdRegister.responses (c : CmdRegister) : ℕ :=
  if c.response_type = RT48 ∨ c.response_type = RT48Busy then 1
  else if c.response_type = RT136 then 4
  else 0

/-- Where the reads go on after the answer. -/
def answeredAt (c : CmdRegister) (cmd_timeout_usec : ℕ) (w : ℕ → Word) (i : ℕ) : ℕ :=
  i + polls commandDone w cmd_timeout_usec i + 1 + c.responses

/-- **The blocks come up ready**, one after the other: the status word of each shows the ready bit
and no error. Of every block `words` words are read. -/
def Ready (mask : Word) (words : ℕ) (w : ℕ → Word) : ℕ → ℕ → Prop
  | 0, _ => True
  | n + 1, i => blockReady mask (w (statusAt mask w i)) = true ∧
      Ready mask words w n (statusAt mask w i + 1 + words)

/-- Where the reads go on after the data, or after the first block that is not ready. -/
def transferEnd (mask : Word) (words : ℕ) (w : ℕ → Word) : ℕ → ℕ → ℕ
  | 0, i => i
  | n + 1, i =>
    if blockReady mask (w (statusAt mask w i)) then
      transferEnd mask words w n (statusAt mask w i + 1 + words)
    else statusAt mask w i + 2

/-- **The transfer is reported to be over.** -/
def Finished (w : ℕ → Word) (i : ℕ) : Prop := transferDone (w (statusAt 0x2 w i)) = true

/-! ### What a command leaves alone -/

/-- An access that sends no command. -/
def NoCommand (a : Lib.Access Reg Word) : Prop := ∀ v, a ≠ .write .ARG1 v ∧ a ≠ .write .CMDTM v

/-- **The command is the same**, and no other has been sent. -/
structure Kept (s t : State) : Prop where
  cmd_reg : t.d.cmd_reg = s.d.cmd_reg
  cmd_arg : t.d.cmd_arg = s.d.cmd_arg
  cmd_timeout_usec : t.d.cmd_timeout_usec = s.d.cmd_timeout_usec
  transfer_blocks : t.d.transfer_blocks = s.d.transfer_blocks
  regs_ : s.regs_.Only NoCommand t.regs_

variable {device : Device} {s t u : State}

theorem noCommand_read (r : Reg) (v : Word) : NoCommand (.read r v) :=
  fun _ => ⟨by simp, by simp⟩

theorem noCommand_write {r : Reg} (hr : r ≠ .ARG1 ∧ r ≠ .CMDTM) (v : Word) :
    NoCommand (.write r v) :=
  fun _ => ⟨by simp [hr.1], by simp [hr.2]⟩

theorem Kept.refl (s : State) : Kept s s := ⟨rfl, rfl, rfl, rfl, .refl _⟩

theorem Kept.trans (h : Kept s t) (h' : Kept t u) : Kept s u :=
  ⟨h'.cmd_reg.trans h.cmd_reg, h'.cmd_arg.trans h.cmd_arg,
    h'.cmd_timeout_usec.trans h.cmd_timeout_usec, h'.transfer_blocks.trans h.transfer_blocks,
    h.regs_.trans h'.regs_⟩

theorem Kept.values (h : Kept s t) : t.regs_.values = s.regs_.values := h.regs_.1

theorem kept_read (s : State) (r : Reg) : Kept s (s.read r) :=
  ⟨rfl, rfl, rfl, rfl, (Lib.Bus.Only.refl _).read (noCommand_read r)⟩

theorem kept_write {r : Reg} (hr : r ≠ .ARG1 ∧ r ≠ .CMDTM) (s : State) (v : Word) :
    Kept s (s.write r v) :=
  ⟨rfl, rfl, rfl, rfl, (Lib.Bus.Only.refl _).write (noCommand_write hr v)⟩

theorem kept_unexpected (reg_val : Word) (s : State) : Kept s (unexpected reg_val s) :=
  (⟨rfl, rfl, rfl, rfl, .refl _⟩ :
    Kept s { s with d := { s.d with cmd_error := reg_val &&& 0xffff0000 } }).trans (kept_read _ _)

theorem kept_readResp (k : Fin 4) (r : Reg) (s : State) : Kept s (readResp k r s) :=
  (⟨rfl, rfl, rfl, rfl, .refl _⟩ : Kept s { s with d := { s.d with
    cmd_response := Function.update s.d.cmd_response k s.next } }).trans (kept_read _ _)

theorem kept_readResponse (s : State) : Kept s (readResponse s) := by
  rw [readResponse]
  split
  · exact kept_readResp 0 .RESP0 s
  · split
    · exact (((kept_readResp 0 .RESP0 s).trans (kept_readResp 1 .RESP1 _)).trans
        (kept_readResp 2 .RESP2 _)).trans (kept_readResp 3 .RESP3 _)
    · exact .refl s

/-- Polling a register reads it only. -/
theorem kept_poll (s : State) (r : Reg) (p : Word → Bool) (n : ℕ) :
    Kept s { s with regs_ := (s.regs_.poll r p n).2 } := by
  refine ⟨rfl, rfl, rfl, rfl, ?_⟩
  rw [Lib.Bus.poll_eq]
  exact (Lib.Bus.Only.refl _).readN (noCommand_read r) _

theorem kept_takeStatus (mask ack : Word) (s : State) : Kept s (takeStatus mask ack s).2 :=
  ((kept_poll s .INTERRUPT _ _).trans (kept_read _ _)).trans (kept_write (by decide) _ _)

theorem kept_waitCommandDone (s : State) : Kept s (waitCommandDone s).2 := by
  have hpoll := kept_poll s .INTERRUPT commandDone s.d.cmd_timeout_usec
  have hack := (hpoll.trans (kept_read _ .INTERRUPT)).trans
    (kept_write (r := .INTERRUPT) (by decide) _ 0xffff0001)
  simp only [waitCommandDone]
  split
  · exact hpoll
  · split
    · exact hack.trans (kept_unexpected _ _)
    · exact hack.trans (kept_readResponse _)

theorem kept_readWord (pos : ℕ) (s : State) : Kept s (readWord pos s) :=
  (⟨rfl, rfl, rfl, rfl, .refl _⟩ : Kept s { s with d := { s.d with
    buffer := Function.update s.d.buffer pos s.next } }).trans (kept_read _ _)

theorem kept_readData (n pos : ℕ) (s : State) : Kept s (readData n pos s) := by
  induction n generalizing pos s with
  | zero => exact .refl s
  | succ n ih => exact (kept_readWord pos s).trans (ih (pos + 1) _)

theorem kept_writeData (n pos : ℕ) (s : State) : Kept s (writeData n pos s) := by
  induction n generalizing pos s with
  | zero => exact .refl s
  | succ n ih => exact (kept_write (by decide) s _).trans (ih (pos + 1) _)

theorem kept_transferBlocks (interrupts : Word) (write : Bool) (left pos : ℕ) (s : State) :
    Kept s (transferBlocks device interrupts write left pos s).2 := by
  induction left generalizing pos s with
  | zero => exact .refl s
  | succ left ih =>
    have hstatus := kept_takeStatus interrupts interrupts s
    rw [transferBlocks]
    split
    · exact hstatus.trans (kept_unexpected _ _)
    · refine hstatus.trans (Kept.trans ?_ (ih _ _))
      cases write with
      | true => exact kept_writeData _ _ _
      | false => exact kept_readData _ _ _

theorem kept_waitTransferDone (s : State) : Kept s (waitTransferDone s).2 := by
  have hstatus := kept_takeStatus 0x2 0xffff0002 s
  rw [waitTransferDone]
  split
  · exact hstatus.trans (kept_unexpected _ _)
  · exact hstatus.trans (kept_write (by decide) _ _)

theorem kept_transferData (device : Device) (s : State) : Kept s (transferData device s) := by
  rw [transferData]
  split
  · exact kept_transferBlocks _ _ _ _ s
  · exact .refl s

/-- **A command that is sent** is the only one, and stays as it is. -/
theorem kept_sendCommand (device : Device) (h : s.d.transfer_blocks ≤ 0xffff) :
    Kept (startCommand device s) (sendCommand device s).2 := by
  have hwait := kept_waitCommandDone (startCommand device s)
  rw [sendCommand, if_neg (Nat.not_lt.mpr h)]
  dsimp only
  split
  · exact hwait
  · have hdata := hwait.trans (kept_transferData device _)
    split
    · exact hdata.trans (kept_waitTransferDone _)
    · exact hdata

/-- A command is what it was after it has been sent. -/
theorem sendCommand_kept (device : Device) (s : State) :
    (sendCommand device s).2.d.cmd_reg = s.d.cmd_reg ∧
      (sendCommand device s).2.d.cmd_arg = s.d.cmd_arg ∧
      (sendCommand device s).2.d.transfer_blocks = s.d.transfer_blocks := by
  by_cases hblocks : s.d.transfer_blocks ≤ 0xffff
  · have hkept := kept_sendCommand device hblocks
    exact ⟨hkept.cmd_reg, hkept.cmd_arg, hkept.transfer_blocks⟩
  · rw [sendCommand, if_pos (Nat.not_le.mp hblocks)]
    exact ⟨rfl, rfl, rfl⟩

/-- A command that is sent is written to the controller once. -/
theorem written_sendCommand (device : Device) (hblocks : s.d.transfer_blocks ≤ 0xffff) :
    written .CMDTM (sendCommand device s).2.regs_.log =
        written .CMDTM s.regs_.log ++ [s.d.cmd_reg.word] ∧
      written .ARG1 (sendCommand device s).2.regs_.log =
        written .ARG1 s.regs_.log ++ [s.d.cmd_arg] := by
  have honly := (kept_sendCommand device hblocks).regs_
  rw [honly.written_eq fun v h => (h v).2 rfl, honly.written_eq fun v h => (h v).1 rfl]
  simp [startCommand, State.write, written]

/-! ### What a command comes to -/

@[simp] theorem takeStatus_fst (mask ack : Word) (s : State) :
    (takeStatus mask ack s).1 = s.regs_.values (statusAt mask s.regs_.values s.regs_.reads) := by
  simp only [takeStatus, regWaitBitSet, Lib.Bus.poll_eq, State.next, Lib.Bus.next,
    Lib.Bus.readN_values, Lib.Bus.readN_reads]
  rfl

@[simp] theorem takeStatus_reads (mask ack : Word) (s : State) :
    (takeStatus mask ack s).2.regs_.reads =
      statusAt mask s.regs_.values s.regs_.reads + 1 := by
  simp only [takeStatus, regWaitBitSet, Lib.Bus.poll_eq, State.read, State.write,
    Lib.Bus.write_reads, Lib.Bus.read_reads, Lib.Bus.readN_reads]
  rfl

@[simp] theorem takeStatus_d (mask ack : Word) (s : State) : (takeStatus mask ack s).2.d = s.d :=
  rfl

@[simp] theorem takeStatus_values (mask ack : Word) (s : State) :
    (takeStatus mask ack s).2.regs_.values = s.regs_.values :=
  (kept_takeStatus mask ack s).values

/-- The reads of a response. -/
theorem readResponse_reads (s : State) :
    (readResponse s).regs_.reads = s.regs_.reads + s.d.cmd_reg.responses := by
  rw [readResponse, CmdRegister.responses]
  split
  · rfl
  · split <;> rfl

/-- **When a command is answered.** -/
theorem waitCommandDone_fst (s : State) : (waitCommandDone s).1 = true ↔
    Answered s.d.cmd_timeout_usec s.regs_.values s.regs_.reads := by
  simp only [waitCommandDone, Lib.Bus.poll_eq, State.next, Lib.Bus.next, Lib.Bus.readN_values,
    Lib.Bus.readN_reads, Answered]
  split
  case isTrue htimes =>
    simp [Nat.not_lt.mpr htimes]
  case isFalse htimes =>
    split
    case isTrue hirq =>
      exact iff_of_false Bool.false_ne_true fun h => hirq h.2
    case isFalse hirq =>
      exact iff_of_true rfl ⟨Nat.not_le.mp htimes, not_not.mp hirq⟩

theorem waitCommandDone_reads
    (h : Answered s.d.cmd_timeout_usec s.regs_.values s.regs_.reads) :
    (waitCommandDone s).2.regs_.reads =
      answeredAt s.d.cmd_reg s.d.cmd_timeout_usec s.regs_.values s.regs_.reads := by
  simp only [waitCommandDone, Lib.Bus.poll_eq, State.next, Lib.Bus.next, Lib.Bus.readN_values,
    Lib.Bus.readN_reads]
  rw [if_neg (Nat.not_le.mpr h.1), if_neg (not_not.mpr h.2)]
  simp only [readResponse_reads, State.read, State.write, Lib.Bus.write_reads,
    Lib.Bus.read_reads, Lib.Bus.readN_reads, answeredAt]

@[simp] theorem readData_reads (n pos : ℕ) (s : State) :
    (readData n pos s).regs_.reads = s.regs_.reads + n := by
  induction n generalizing pos s with
  | zero => rfl
  | succ n ih =>
    have hword : (readWord pos s).regs_.reads = s.regs_.reads + 1 := rfl
    rw [readData, ih, hword]
    omega

@[simp] theorem writeData_reads (n pos : ℕ) (s : State) :
    (writeData n pos s).regs_.reads = s.regs_.reads := by
  induction n generalizing pos s with
  | zero => rfl
  | succ n ih => rw [writeData, ih, State.write, Lib.Bus.write_reads]

/-- The words that are read of every block. -/
def wordsRead (device : Device) (write : Bool) : ℕ := if write then 0 else device.words

theorem kept_moveWords (write : Bool) (pos : ℕ) (s : State) :
    Kept s (moveWords device write pos s) := by
  cases write with
  | true => exact kept_writeData _ _ _
  | false => exact kept_readData _ _ _

@[simp] theorem moveWords_reads (write : Bool) (pos : ℕ) (s : State) :
    (moveWords device write pos s).regs_.reads = s.regs_.reads + wordsRead device write := by
  cases write with
  | true => exact writeData_reads _ _ _
  | false => exact readData_reads _ _ _

/-- A block that is not ready ends the transfer. -/
theorem transferBlocks_of_not_ready {interrupts : Word} {write : Bool} {left pos : ℕ}
    (h : blockReady interrupts (takeStatus interrupts interrupts s).1 = false) :
    transferBlocks device interrupts write (left + 1) pos s =
      (false, unexpected (takeStatus interrupts interrupts s).1
        (takeStatus interrupts interrupts s).2) := by
  rw [transferBlocks]
  exact if_pos h

/-- A block that is ready is moved. -/
theorem transferBlocks_of_ready {interrupts : Word} {write : Bool} {left pos : ℕ}
    (h : blockReady interrupts (takeStatus interrupts interrupts s).1 = true) :
    transferBlocks device interrupts write (left + 1) pos s =
      transferBlocks device interrupts write left (pos + device.words)
        (moveWords device write pos (takeStatus interrupts interrupts s).2) := by
  rw [transferBlocks]
  exact if_neg (by rw [h]; simp)

/-- **When all blocks are moved**, and where the reads go on: the values say it. -/
theorem transferBlocks_outcome (interrupts : Word) (write : Bool) (left pos : ℕ) (s : State) :
    ((transferBlocks device interrupts write left pos s).1 = true ↔
        Ready interrupts (wordsRead device write) s.regs_.values left s.regs_.reads) ∧
      (transferBlocks device interrupts write left pos s).2.regs_.reads =
        transferEnd interrupts (wordsRead device write) s.regs_.values left s.regs_.reads := by
  induction left generalizing pos s with
  | zero => exact ⟨iff_of_true rfl trivial, rfl⟩
  | succ left ih =>
    cases hready : blockReady interrupts (takeStatus interrupts interrupts s).1 with
    | false =>
      rw [transferBlocks_of_not_ready hready]
      rw [takeStatus_fst] at hready
      constructor
      · simp [Ready, hready]
      · simp [transferEnd, hready, unexpected, State.read]
    | true =>
      rw [transferBlocks_of_ready hready]
      rw [takeStatus_fst] at hready
      have hnext := ih (pos + device.words)
        (moveWords device write pos (takeStatus interrupts interrupts s).2)
      rw [(kept_moveWords write pos _).values, moveWords_reads, takeStatus_values,
        takeStatus_reads] at hnext
      constructor
      · rw [hnext.1, Ready, and_iff_right hready]
      · rw [hnext.2, transferEnd, if_pos hready]

/-- **When the end of a transfer is reported.** -/
theorem waitTransferDone_fst (s : State) :
    (waitTransferDone s).1 = true ↔ Finished s.regs_.values s.regs_.reads := by
  rw [waitTransferDone, takeStatus_fst, Finished]
  split
  case isTrue hdone =>
    rw [hdone]
  case isFalse hdone =>
    exact iff_of_true rfl (Bool.not_eq_false _ ▸ hdone)

/-- All blocks of the data of a command come up ready. -/
def DataReady (device : Device) (d : CommandData) (w : ℕ → Word) (i : ℕ) : Prop :=
  Ready (readyBit d.cmd_reg) (wordsRead device (d.cmd_reg.direction = 0)) w d.transfer_blocks
    (answeredAt d.cmd_reg d.cmd_timeout_usec w i)

/-- Where the reads go on after the data of a command, if it has any. -/
def dataEnd (device : Device) (d : CommandData) (w : ℕ → Word) (i : ℕ) : ℕ :=
  if d.cmd_reg.is_data = 1 then
    transferEnd (readyBit d.cmd_reg) (wordsRead device (d.cmd_reg.direction = 0)) w
      d.transfer_blocks (answeredAt d.cmd_reg d.cmd_timeout_usec w i)
  else answeredAt d.cmd_reg d.cmd_timeout_usec w i

/-- The state in which the command has been answered. -/
def answeredState (device : Device) (s : State) : State :=
  (waitCommandDone (startCommand device s)).2

theorem kept_answeredState (device : Device) (s : State) :
    Kept (startCommand device s) (answeredState device s) :=
  kept_waitCommandDone _

variable (hanswer : Answered s.d.cmd_timeout_usec s.regs_.values s.regs_.reads)

include hanswer

theorem answeredState_reads : (answeredState device s).regs_.reads =
    answeredAt s.d.cmd_reg s.d.cmd_timeout_usec s.regs_.values s.regs_.reads :=
  waitCommandDone_reads (s := startCommand device s) hanswer

/-- When the data of a command that has been answered is moved. -/
theorem performDataTransfer_fst : (performDataTransfer device (answeredState device s)).1 = true ↔
    DataReady device s.d s.regs_.values s.regs_.reads := by
  have hkept := kept_answeredState device s
  rw [performDataTransfer, (transferBlocks_outcome _ _ _ _ _).1, hkept.cmd_reg,
    hkept.transfer_blocks, hkept.values, answeredState_reads hanswer]
  rfl

theorem transferData_reads : (transferData device (answeredState device s)).regs_.reads =
    dataEnd device s.d s.regs_.values s.regs_.reads := by
  have hkept := kept_answeredState device s
  rw [transferData, dataEnd, hkept.cmd_reg]
  split
  case isTrue hdata =>
    rw [if_pos (show s.d.cmd_reg.is_data = 1 from hdata), performDataTransfer,
      (transferBlocks_outcome _ _ _ _ _).2, hkept.cmd_reg, hkept.transfer_blocks, hkept.values,
      answeredState_reads hanswer]
    rfl
  case isFalse hdata =>
    rw [if_neg (show ¬s.d.cmd_reg.is_data = 1 from hdata), answeredState_reads hanswer]

/-- What is left to do after the answer. -/
theorem sendCommand_of_answered (hblocks : s.d.transfer_blocks ≤ 0xffff) :
    sendCommand device s =
      if s.d.cmd_reg.response_type = RT48Busy ∨ s.d.cmd_reg.is_data = 1 then
        waitTransferDone (transferData device (answeredState device s))
      else (true, transferData device (answeredState device s)) := by
  have hwait := (waitCommandDone_fst (startCommand device s)).mpr hanswer
  have hkept := (kept_answeredState device s).trans
    (kept_transferData device (answeredState device s))
  rw [sendCommand, if_neg (Nat.not_lt.mpr hblocks)]
  dsimp only
  rw [if_neg (by rw [hwait]; simp)]
  change (if (transferData device (answeredState device s)).d.cmd_reg.response_type = RT48Busy ∨
    (transferData device (answeredState device s)).d.cmd_reg.is_data = 1 then _ else _) = _
  rw [hkept.cmd_reg]
  rfl

omit hanswer

/-- **When `SendCommand` succeeds.** Nothing is said of the data. -/
theorem sendCommand_fst : (sendCommand device s).1 = true ↔
    s.d.transfer_blocks ≤ 0xffff ∧
      Answered s.d.cmd_timeout_usec s.regs_.values s.regs_.reads ∧
      (s.d.cmd_reg.response_type = RT48Busy ∨ s.d.cmd_reg.is_data = 1 →
        Finished s.regs_.values (dataEnd device s.d s.regs_.values s.regs_.reads)) := by
  by_cases hblocks : s.d.transfer_blocks ≤ 0xffff
  · by_cases hanswer : Answered s.d.cmd_timeout_usec s.regs_.values s.regs_.reads
    · rw [sendCommand_of_answered hanswer hblocks]
      by_cases hend : s.d.cmd_reg.response_type = RT48Busy ∨ s.d.cmd_reg.is_data = 1
      · have hvalues : (transferData device (answeredState device s)).regs_.values =
            s.regs_.values :=
          ((kept_answeredState device s).trans (kept_transferData _ _)).values
        rw [if_pos hend, waitTransferDone_fst, hvalues, transferData_reads hanswer,
          and_iff_right hblocks, and_iff_right hanswer, forall_prop_of_true hend]
      · rw [if_neg hend]
        exact iff_of_true rfl ⟨hblocks, hanswer, fun h => absurd h hend⟩
    · have hwait : (waitCommandDone (startCommand device s)).1 = false := by
        rw [← Bool.not_eq_true, waitCommandDone_fst]
        exact hanswer
      rw [sendCommand, if_neg (Nat.not_lt.mpr hblocks)]
      simp [hwait, hanswer]
  · rw [sendCommand, if_pos (Nat.not_le.mp hblocks)]
    simp [hblocks]

end Emmc

end Evisor
