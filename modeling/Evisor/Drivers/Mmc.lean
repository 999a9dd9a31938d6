import Evisor.Basic
import Evisor.Lib.Bits

/-!
# The driver of the SD card

`Mmc::Seek` and `Mmc::Read` of `drivers/mmc/mmc.cc`, down to the commands that are sent to
the card. A byte offset is kept, and made a block number when something is read. The host
controller, which carries a command out or not, is a parameter; a command is sent four times
at most. A card of high capacity is given the number of a block, any other one the offset of
its first byte.
-/

namespace Evisor

namespace MmcDriver

/-- `kRetryMax`. -/
def kRetryMax : ℕ := 4

/-- `Mmc::Device`, as far as reading has to do with it. -/
structure Device where
  sdhc : Bool
  block_size : ℕ
  seek_offset : ℕ
  deriving DecidableEq

/-- The commands of `Mmc::CmdType` that transfer data. -/
inductive CmdType where
  | READ_SINGLE_BLOCK
  | READ_MULTIPLE_BLOCK
  | WRITE_BLOCK
  | WRITE_MULTIPLE_BLOCK
  deriving DecidableEq

/-- `Mmc::CommandData`, what is sent of it. -/
structure CommandData where
  cmd_type : CmdType
  cmd_arg : ℕ
  transfer_blocks : ℕ
  deriving DecidableEq

/-- `Mmc::Seek`. -/
def seek (device : Device) (offset : ℕ) : Bool × Device :=
  if offset % device.block_size ≠ 0 then (false, device)
  else (true, { device with seek_offset := offset })

/-- The command of `Mmc::HandleDataCommand`, unless its arguments are bad. -/
def dataCommand (device : Device) (write : Bool) (buf_size block : ℕ) : Option CommandData :=
  if buf_size < device.block_size ∨ buf_size % device.block_size ≠ 0 then none
  else
    let transfer_blocks := buf_size / device.block_size
    let cmd_type :=
      if write then
        if 1 < transfer_blocks then CmdType.WRITE_MULTIPLE_BLOCK else CmdType.WRITE_BLOCK
      else if 1 < transfer_blocks then CmdType.READ_MULTIPLE_BLOCK else CmdType.READ_SINGLE_BLOCK
    some ⟨cmd_type, if device.sdhc then block else block * 512 % 2 ^ 32, transfer_blocks⟩

/-- The attempts to send a command, with those that are left: the commands that go out, and
whether one was carried out. `SendCommand` refuses more blocks than 16 bits can count. -/
def sendCommands (host : ℕ → Bool) (d : CommandData) : ℕ → List CommandData × Bool
  | 0 => ([], false)
  | left + 1 =>
    if 0xffff < d.transfer_blocks then sendCommands host d left
    else if host (kRetryMax - (left + 1)) then ([d], true)
    else
      let (sent, done) := sendCommands host d left
      (d :: sent, done)

/-- `Mmc::HandleDataCommand`. -/
def handleDataCommand (host : ℕ → Bool) (device : Device) (write : Bool) (buf_size block : ℕ) :
    List CommandData × Bool :=
  match dataCommand device write buf_size block with
  | none => ([], false)
  | some d => sendCommands host d kRetryMax

/-- `Mmc::Read`: the commands that go out, and what is returned. -/
def read (host : ℕ → Bool) (device : Device) (size : ℕ) : List CommandData × ℤ :=
  let block := device.seek_offset / device.block_size % 2 ^ 32
  let (sent, done) := handleDataCommand host device false size block
  (sent, if done then Int.bmod size (2 ^ 32) else -1)

/-! ### The commands that go out -/

variable {host : ℕ → Bool} {device : Device}

/-- Every attempt is made with the same command. -/
theorem sendCommands_sent {d c : CommandData} {left : ℕ}
    (h : c ∈ (sendCommands host d left).1) : c = d := by
  induction left with
  | zero => cases h
  | succ left ih =>
    rw [sendCommands] at h
    split at h
    · exact ih h
    · split at h
      · exact List.mem_singleton.mp h
      · exact (List.mem_cons.mp h).elim id ih

/-- The first attempt is made, unless there are too many blocks. -/
theorem mem_sendCommands {d : CommandData} (h : d.transfer_blocks ≤ 0xffff) (left : ℕ) :
    d ∈ (sendCommands host d (left + 1)).1 := by
  rw [sendCommands, if_neg (Nat.not_lt.mpr h)]
  split
  · exact List.mem_singleton_self d
  · exact List.mem_cons_self

/-- The command is the one that `HandleDataCommand` has made. -/
theorem handleDataCommand_sent {write : Bool} {buf_size block : ℕ} {c : CommandData}
    (h : c ∈ (handleDataCommand host device write buf_size block).1) :
    dataCommand device write buf_size block = some c := by
  rw [handleDataCommand] at h
  cases hd : dataCommand device write buf_size block with
  | none => simp only [hd] at h; cases h
  | some d =>
    simp only [hd] at h
    rw [sendCommands_sent h]

/-- **What `Read` asks a card of high capacity for**: blocks from the one at the offset on, as
many as there are in the buffer. -/
theorem read_sent (hsdhc : device.sdhc = true) {size : ℕ} {c : CommandData}
    (h : c ∈ (read host device size).1) :
    c.cmd_arg = device.seek_offset / device.block_size % 2 ^ 32 ∧
      c.transfer_blocks = size / device.block_size ∧ device.block_size ≤ size := by
  have hcmd := handleDataCommand_sent h
  rw [dataCommand] at hcmd
  by_cases hargs : size < device.block_size ∨ size % device.block_size ≠ 0
  · rw [if_pos hargs] at hcmd
    cases hcmd
  · rw [if_neg hargs, if_pos hsdhc] at hcmd
    obtain rfl := Option.some.inj hcmd
    exact ⟨rfl, rfl, Nat.not_lt.mp fun hlt => hargs (.inl hlt)⟩

/-- An offset that is a multiple of the block size is kept. -/
theorem seek_of_dvd {offset : ℕ} (h : offset % device.block_size = 0) :
    seek device offset = (true, { device with seek_offset := offset }) :=
  if_neg (not_not.mpr h)

end MmcDriver

end Evisor
