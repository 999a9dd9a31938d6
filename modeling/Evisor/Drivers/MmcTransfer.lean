import Evisor.Drivers.Mmc
import Evisor.Drivers.MmcCommand

/-!
# Transfers of data

`Mmc::HandleDataCommand` and `Mmc::Read` over the registers of the controller, and what it means
that a command with data has succeeded. A transfer is complete when the accesses that
`PerformDataTransfer` has made are those of all its blocks: each is waited for, shows the ready bit
and no error, and is moved between the data register and the buffer (`Emmc.Moved`).

`SendCommand` does not look at what `PerformDataTransfer` returns. It succeeds when the controller
reports the end of the transfer afterwards, whatever has become of the blocks.
-/

namespace Evisor

namespace Emmc

open Lib (EachTry lastTry retry)
open Lib.Bus (written)

variable {device : Device} {interrupts : Word} {write : Bool} {left pos : ℕ} {s : State}

/-! ### The words of a block -/

/-- The access that moves a word. -/
def dataAccess (write : Bool) (w : Word) : Lib.Access Reg Word :=
  if write then .write .DATA w else .read .DATA w

/-- A list over the places from `pos` on, with the first place taken off. -/
theorem map_range_succ {α : Type} (f : ℕ → α) (pos n : ℕ) :
    ((List.range (n + 1)).map fun k => f (pos + k)) =
      f pos :: (List.range n).map fun k => f (pos + 1 + k) := by
  rw [List.range_succ_eq_map, List.map_cons, List.map_map, Nat.add_zero]
  refine congrArg _ (List.map_congr_left fun k _ => ?_)
  rw [Function.comp_apply, Nat.succ_eq_add_one, Nat.add_right_comm, Nat.add_assoc]

/-- What lies before the place of the buffer that is read into is left. -/
theorem readData_buffer_of_lt {n k : ℕ} (hk : k < pos) (s : State) :
    (readData n pos s).d.buffer k = s.d.buffer k := by
  induction n generalizing pos s with
  | zero => rfl
  | succ n ih =>
    rw [readData, ih (Nat.lt_succ_of_lt hk)]
    exact Function.update_of_ne hk.ne _ _

/-- The words read are those that the buffer holds then. -/
theorem readData_log (n pos : ℕ) (s : State) : (readData n pos s).regs_.log = s.regs_.log ++
    (List.range n).map fun k => .read .DATA ((readData n pos s).d.buffer (pos + k)) := by
  induction n generalizing pos s with
  | zero => exact (List.append_nil _).symm
  | succ n ih =>
    have hword : (readData n (pos + 1) (readWord pos s)).d.buffer pos = s.next := by
      rw [readData_buffer_of_lt (Nat.lt_succ_self pos)]
      exact Function.update_self _ _ _
    rw [readData, map_range_succ fun k => Lib.Access.read Reg.DATA
      ((readData n (pos + 1) (readWord pos s)).d.buffer k), ih, hword, readWord, State.read,
      Lib.Bus.read_log, List.append_assoc]
    rfl

theorem writeData_d (n pos : ℕ) (s : State) : (writeData n pos s).d = s.d := by
  induction n generalizing pos s with
  | zero => rfl
  | succ n ih => exact ih (pos + 1) _

theorem writeData_log (n pos : ℕ) (s : State) : (writeData n pos s).regs_.log = s.regs_.log ++
    (List.range n).map fun k => .write .DATA (s.d.buffer (pos + k)) := by
  induction n generalizing pos s with
  | zero => exact (List.append_nil _).symm
  | succ n ih =>
    rw [writeData, map_range_succ fun k => Lib.Access.write Reg.DATA (s.d.buffer k), ih,
      State.write, Lib.Bus.write_log, List.append_assoc]
    rfl

theorem moveWords_buffer_of_lt {k : ℕ} (hk : k < pos) (s : State) :
    (moveWords device write pos s).d.buffer k = s.d.buffer k := by
  cases write with
  | true => exact congrArg (fun d => d.buffer k) (writeData_d _ _ _)
  | false => exact readData_buffer_of_lt hk s

/-- The words moved are those that the buffer holds then. -/
theorem moveWords_log (device : Device) (write : Bool) (pos : ℕ) (s : State) :
    (moveWords device write pos s).regs_.log = s.regs_.log ++
      (List.range device.words).map fun k =>
        dataAccess write ((moveWords device write pos s).d.buffer (pos + k)) := by
  cases write with
  | true =>
    have hd : (moveWords device true pos s).d = s.d := writeData_d _ _ _
    rw [hd]
    exact writeData_log _ _ _
  | false => exact readData_log _ _ _

/-! ### The blocks -/

/-- **The accesses of blocks that are all moved**, from a place in the buffer on. Each of them is
waited for, is ready without an error, and is acknowledged; then its words are moved. -/
inductive Moved (device : Device) (interrupts : Word) (write : Bool) (buffer : ℕ → Word) :
    ℕ → ℕ → List (Lib.Access Reg Word) → Prop
  | nil (pos : ℕ) : Moved device interrupts write buffer 0 pos []
  | block {left pos : ℕ} {waits rest : List (Lib.Access Reg Word)} {reg_val : Word}
      (hwaits : ∀ a ∈ waits, ∃ v, a = .read .INTERRUPT v)
      (hready : blockReady interrupts reg_val = true)
      (hrest : Moved device interrupts write buffer left (pos + device.words) rest) :
      Moved device interrupts write buffer (left + 1) pos
        (waits ++ ([.read .INTERRUPT reg_val, .write .INTERRUPT interrupts] ++
          (((List.range device.words).map fun k => dataAccess write (buffer (pos + k))) ++ rest)))

/-- The accesses by which a status word is taken. -/
theorem takeStatus_log (mask ack : Word) (s : State) :
    ∃ waits : List (Lib.Access Reg Word), (∀ a ∈ waits, ∃ v, a = .read .INTERRUPT v) ∧
      (takeStatus mask ack s).2.regs_.log = s.regs_.log ++
        (waits ++ [.read .INTERRUPT (takeStatus mask ack s).1, .write .INTERRUPT ack]) := by
  have honly : s.regs_.Only (fun a => ∃ v, a = .read .INTERRUPT v)
      (regWaitBitSet .INTERRUPT mask kWaitMs s).2.regs_ := by
    simp only [regWaitBitSet, Lib.Bus.poll_eq]
    exact (Lib.Bus.Only.refl _).readN (fun v => ⟨v, rfl⟩) _
  obtain ⟨-, waits, hlog, hwaits⟩ := honly
  refine ⟨waits, hwaits, ?_⟩
  simp only [takeStatus, State.read, State.write, Lib.Bus.write_log, Lib.Bus.read_log, hlog,
    List.append_assoc, List.singleton_append]
  rfl

/-- The blocks that are left are put behind those that have been moved. -/
theorem transferBlocks_buffer_of_lt {k : ℕ} (hk : k < pos) (s : State) :
    (transferBlocks device interrupts write left pos s).2.d.buffer k = s.d.buffer k := by
  induction left generalizing pos s with
  | zero => rfl
  | succ left ih =>
    cases hready : blockReady interrupts (takeStatus interrupts interrupts s).1 with
    | false =>
      rw [transferBlocks_of_not_ready hready]
      rfl
    | true =>
      rw [transferBlocks_of_ready hready, ih (Nat.lt_add_right _ hk),
        moveWords_buffer_of_lt hk, takeStatus_d]

/-- **A transfer that succeeds** has moved all blocks. -/
theorem moved_of_transferBlocks
    (h : (transferBlocks device interrupts write left pos s).1 = true) :
    ∃ accesses, (transferBlocks device interrupts write left pos s).2.regs_.log =
        s.regs_.log ++ accesses ∧
      Moved device interrupts write
        (transferBlocks device interrupts write left pos s).2.d.buffer left pos accesses := by
  induction left generalizing pos s with
  | zero => exact ⟨[], (List.append_nil _).symm, .nil pos⟩
  | succ left ih =>
    cases hready : blockReady interrupts (takeStatus interrupts interrupts s).1 with
    | false =>
      rw [transferBlocks_of_not_ready hready] at h
      cases h
    | true =>
      rw [transferBlocks_of_ready hready] at h ⊢
      obtain ⟨waits, hwaits, hstatus⟩ := takeStatus_log interrupts interrupts s
      obtain ⟨rest, hrest, hmoved⟩ := ih h
      refine ⟨_, ?_, .block hwaits hready hmoved⟩
      -- later blocks leave what the words of this one have been read to
      have hwords : ((List.range device.words).map fun k => dataAccess write
            ((moveWords device write pos (takeStatus interrupts interrupts s).2).d.buffer
              (pos + k))) =
          (List.range device.words).map fun k => dataAccess write
            ((transferBlocks device interrupts write left (pos + device.words)
              (moveWords device write pos (takeStatus interrupts interrupts s).2)).2.d.buffer
                (pos + k)) := by
        refine List.map_congr_left fun k hk => ?_
        rw [transferBlocks_buffer_of_lt (Nat.add_lt_add_left (List.mem_range.mp hk) pos)]
      rw [hrest, moveWords_log, hwords, hstatus]
      simp only [List.append_assoc]

/-- A transfer that fails has asked for `STATUS`. -/
theorem status_of_transferBlocks
    (h : (transferBlocks device interrupts write left pos s).1 = false) :
    ∃ accesses, (transferBlocks device interrupts write left pos s).2.regs_.log =
        s.regs_.log ++ accesses ∧ ∃ v, .read .STATUS v ∈ accesses := by
  induction left generalizing pos s with
  | zero => cases h
  | succ left ih =>
    obtain ⟨waits, -, hstatus⟩ := takeStatus_log interrupts interrupts s
    cases hready : blockReady interrupts (takeStatus interrupts interrupts s).1 with
    | false =>
      rw [transferBlocks_of_not_ready hready]
      have hlog : (unexpected (takeStatus interrupts interrupts s).1
            (takeStatus interrupts interrupts s).2).regs_.log =
          (takeStatus interrupts interrupts s).2.regs_.log ++
            [.read .STATUS (takeStatus interrupts interrupts s).2.next] := rfl
      rw [hlog, hstatus, List.append_assoc]
      exact ⟨_, rfl, _, List.mem_append_right _ (List.mem_singleton_self _)⟩
    | true =>
      rw [transferBlocks_of_ready hready] at h ⊢
      obtain ⟨rest, hrest, v, hv⟩ := ih h
      rw [hrest, moveWords_log, hstatus, List.append_assoc, List.append_assoc]
      exact ⟨_, rfl, v, List.mem_append_right _ (List.mem_append_right _ hv)⟩

/-- Where all blocks are moved nobody asks for `STATUS`. -/
theorem Moved.not_mem_status {buffer : ℕ → Word} {accesses : List (Lib.Access Reg Word)}
    (h : Moved device interrupts write buffer left pos accesses) (v : Word) :
    .read .STATUS v ∉ accesses := by
  induction h with
  | nil => simp
  | block hwaits hready hrest ih =>
    have hstatus : ∀ w, dataAccess write w ≠ .read .STATUS v := by
      intro w
      cases write <;> simp [dataAccess]
    intro hmem
    rcases List.mem_append.mp hmem with hwait | hmem
    · obtain ⟨w, hw⟩ := hwaits _ hwait
      cases hw
    rcases List.mem_append.mp hmem with hack | hmem
    · simp at hack
    rcases List.mem_append.mp hmem with hword | hmem
    · obtain ⟨k, -, hk⟩ := List.mem_map.mp hword
      exact hstatus _ hk
    · exact ih hmem

/-- **A transfer that has moved all blocks** succeeds. -/
theorem transferBlocks_of_moved {buffer : ℕ → Word} {accesses : List (Lib.Access Reg Word)}
    (hlog : (transferBlocks device interrupts write left pos s).2.regs_.log =
      s.regs_.log ++ accesses)
    (hmoved : Moved device interrupts write buffer left pos accesses) :
    (transferBlocks device interrupts write left pos s).1 = true := by
  by_contra hfail
  obtain ⟨accesses', hlog', v, hv⟩ := status_of_transferBlocks (Bool.eq_false_iff.mpr hfail)
  rw [hlog, List.append_cancel_left_eq] at hlog'
  exact hmoved.not_mem_status v (hlog' ▸ hv)

/-! ### Commands with data -/

/-- **A complete transfer**: from the answer on, `PerformDataTransfer` has made the accesses of all
blocks of the command, and no other. -/
def Complete (device : Device) (s : State) (buffer : ℕ → Word) : Prop :=
  ∃ accesses, (performDataTransfer device (answeredState device s)).2.regs_.log =
      (answeredState device s).regs_.log ++ accesses ∧
    Moved device (readyBit s.d.cmd_reg) (s.d.cmd_reg.direction = 0) buffer s.d.transfer_blocks 0
      accesses

/-- The branch that goes wrong is not taken: a command with data that is answered finds all its
blocks ready, or else `INTERRUPT` does not show the end of a transfer afterwards. -/
def Transfers (device : Device) (s : State) : Prop :=
  s.d.cmd_reg.is_data = 1 → s.d.transfer_blocks ≤ 0xffff →
    Answered s.d.cmd_timeout_usec s.regs_.values s.regs_.reads →
    DataReady device s.d s.regs_.values s.regs_.reads ∨
      ¬Finished s.regs_.values (dataEnd device s.d s.regs_.values s.regs_.reads)

/-- The end of a transfer is waited for without touching the buffer. -/
theorem waitTransferDone_buffer (s : State) :
    (waitTransferDone s).2.d.buffer = s.d.buffer := by
  rw [waitTransferDone]
  split
  · rfl
  · rfl

theorem sendCommand_buffer (hdata : s.d.cmd_reg.is_data = 1)
    (hblocks : s.d.transfer_blocks ≤ 0xffff)
    (hanswer : Answered s.d.cmd_timeout_usec s.regs_.values s.regs_.reads) :
    (sendCommand device s).2.d.buffer =
      (performDataTransfer device (answeredState device s)).2.d.buffer := by
  have hreg : (answeredState device s).d.cmd_reg = s.d.cmd_reg :=
    (kept_answeredState device s).cmd_reg
  rw [sendCommand_of_answered hanswer hblocks, if_pos (.inr hdata), waitTransferDone_buffer,
    transferData, if_pos (hreg ▸ hdata)]

/-- A complete transfer succeeds. -/
theorem Complete.success {buffer : ℕ → Word} (h : Complete device s buffer) :
    (performDataTransfer device (answeredState device s)).1 = true := by
  have hkept := kept_answeredState device s
  obtain ⟨accesses, hlog, hmoved⟩ := h
  rw [performDataTransfer, hkept.cmd_reg, hkept.transfer_blocks] at hlog ⊢
  exact transferBlocks_of_moved hlog hmoved

/-- A transfer is complete exactly when all blocks come up ready. -/
theorem complete_iff (hdata : s.d.cmd_reg.is_data = 1) (hblocks : s.d.transfer_blocks ≤ 0xffff)
    (hanswer : Answered s.d.cmd_timeout_usec s.regs_.values s.regs_.reads) :
    Complete device s (sendCommand device s).2.d.buffer ↔
      DataReady device s.d s.regs_.values s.regs_.reads := by
  have hkept := kept_answeredState device s
  rw [← performDataTransfer_fst hanswer]
  refine ⟨Complete.success, fun h => ?_⟩
  rw [sendCommand_buffer hdata hblocks hanswer, Complete]
  rw [performDataTransfer, hkept.cmd_reg, hkept.transfer_blocks] at h ⊢
  exact moved_of_transferBlocks h

/-- **What the success of a command is worth.** -/
theorem complete_of_success_iff (device : Device) (s : State) :
    ((sendCommand device s).1 = true → s.d.cmd_reg.is_data = 1 →
        Complete device s (sendCommand device s).2.d.buffer) ↔ Transfers device s := by
  rw [sendCommand_fst]
  constructor
  · intro h hdata hblocks hanswer
    by_cases hend : Finished s.regs_.values (dataEnd device s.d s.regs_.values s.regs_.reads)
    · have hcomplete := h ⟨hblocks, hanswer, fun _ => hend⟩ hdata
      exact .inl ((complete_iff hdata hblocks hanswer).mp hcomplete)
    · exact .inr hend
  · rintro h ⟨hblocks, hanswer, hend⟩ hdata
    refine (complete_iff hdata hblocks hanswer).mpr ?_
    exact (h hdata hblocks hanswer).resolve_right (not_not.mpr (hend (.inr hdata)))

/-- A command that fails promises nothing. -/
theorem transfers_of_failure (h : (sendCommand device s).1 = false) : Transfers device s :=
  (complete_of_success_iff device s).mp fun hok => by rw [h] at hok; cases hok

/-! ### Reading -/

/-- The arguments that `HandleDataCommand` refuses. -/
def BadArguments (device : Device) (buf_size : Word) : Prop :=
  buf_size.toNat < device.block_size ∨ buf_size.toNat % device.block_size ≠ 0

instance (device : Device) (buf_size : Word) : Decidable (BadArguments device buf_size) :=
  inferInstanceAs (Decidable (_ ∨ _))

/-- The command of `HandleDataCommand`. -/
def dataCommand (device : Device) (write : Bool) (buf : ℕ → Word) (buf_size block : Word) :
    CommandData :=
  let transfer_blocks := buf_size.toNat / device.block_size
  let command :=
    if write then if 1 < transfer_blocks then .WRITE_MULTIPLE_BLOCK else .WRITE_BLOCK
    else if 1 < transfer_blocks then .READ_MULTIPLE_BLOCK else .READ_SINGLE_BLOCK
  { cmd_type := command
    cmd_reg := kCommands_ command
    cmd_arg := if device.sdhc then block else block * 512
    cmd_timeout_usec := 5000
    transfer_blocks := transfer_blocks
    buffer := buf
    cmd_response := fun _ => 0
    cmd_error := 0 }

/-- `Mmc::HandleDataCommand`. -/
def handleDataCommand (device : Device) (write : Bool) (buf : ℕ → Word) (buf_size block : Word)
    (regs_ : Lib.Bus Reg Word) : Bool × (ℕ → Word) × Lib.Bus Reg Word :=
  if BadArguments device buf_size then (false, buf, regs_)
  else
    let done := retry (sendCommand device) MmcDriver.kRetryMax
      ⟨dataCommand device write buf buf_size block, regs_⟩
    (done.1, done.2.d.buffer, done.2.regs_)

/-- The block at the offset. -/
def Device.block (device : Device) : Word :=
  BitVec.ofNat 32 (device.seek_offset / device.block_size)

/-- `Mmc::Read`. -/
def read (device : Device) (buf : ℕ → Word) (size : Word) (regs_ : Lib.Bus Reg Word) :
    ℤ × (ℕ → Word) × Lib.Bus Reg Word :=
  let done := handleDataCommand device false buf size device.block regs_
  (if done.1 then size.toInt else -1, done.2)

/-- The state in which `Read` sends its command first. -/
def readStart (device : Device) (buf : ℕ → Word) (size : Word) (regs_ : Lib.Bus Reg Word) :
    State :=
  ⟨dataCommand device false buf size device.block, regs_⟩

/-- **The buffer is filled**: the attempt that succeeds has moved all blocks to it, and they are
`size` bytes. -/
def Filled (device : Device) (buf : ℕ → Word) (size : Word) (regs_ : Lib.Bus Reg Word) : Prop :=
  let last := lastTry (sendCommand device) MmcDriver.kRetryMax (readStart device buf size regs_)
  4 * (last.d.transfer_blocks * device.words) = size.toNat ∧
    Complete device last (read device buf size regs_).2.1

section Reading

variable {buf : ℕ → Word} {size : Word} {regs_ : Lib.Bus Reg Word}

/-- Reading is always a command with data. -/
theorem readStart_is_data :
    (readStart device buf size regs_).d.cmd_reg.is_data = 1 := by
  change (kCommands_ (if 1 < size.toNat / device.block_size then CmdType.READ_MULTIPLE_BLOCK
    else CmdType.READ_SINGLE_BLOCK)).is_data = 1
  split <;> rfl

/-- Bad arguments apart, `Read` is the attempts to send its command. -/
theorem read_eq (hargs : ¬BadArguments device size) :
    read device buf size regs_ =
      (if (retry (sendCommand device) MmcDriver.kRetryMax
          (readStart device buf size regs_)).1 then size.toInt else -1,
        (retry (sendCommand device) MmcDriver.kRetryMax
          (readStart device buf size regs_)).2.d.buffer,
        (retry (sendCommand device) MmcDriver.kRetryMax
          (readStart device buf size regs_)).2.regs_) := by
  rw [read, handleDataCommand, if_neg hargs]
  rfl

theorem read_of_bad (hargs : BadArguments device size) :
    (read device buf size regs_).1 = -1 := by
  rw [read, handleDataCommand, if_pos hargs]
  rfl

/-- A size that is taken is a number of words, and is not mistaken for a failure. -/
theorem size_toInt_ne (hargs : ¬BadArguments device size) : size.toInt ≠ -1 := by
  have hmod : size.toNat % device.block_size = 0 := by
    by_contra hmod
    exact hargs (.inr hmod)
  have hdvd : 4 ∣ size.toNat :=
    device.dvd_block_size.trans (Nat.dvd_of_mod_eq_zero hmod)
  have hlt := size.isLt
  rw [BitVec.toInt_eq_toNat_cond]
  split <;> omega

/-- The blocks are as many bytes as there are to read. -/
theorem readStart_bytes (hargs : ¬BadArguments device size) :
    4 * ((readStart device buf size regs_).d.transfer_blocks * device.words) = size.toNat := by
  have hmod : size.toNat % device.block_size = 0 := by
    by_contra hmod
    exact hargs (.inr hmod)
  calc 4 * (size.toNat / device.block_size * (device.block_size / 4))
      = size.toNat / device.block_size * (4 * (device.block_size / 4)) := by ring
    _ = size.toNat / device.block_size * device.block_size := by
        rw [Nat.mul_div_cancel' device.dvd_block_size]
    _ = size.toNat := Nat.div_mul_cancel (Nat.dvd_of_mod_eq_zero hmod)

/-- **What `Read` is worth**, in terms of its last attempt. -/
theorem filled_iff (hargs : ¬BadArguments device size) :
    ((read device buf size regs_).1 ≠ -1 →
        (read device buf size regs_).1 = size.toInt ∧ Filled device buf size regs_) ↔
      ((retry (sendCommand device) MmcDriver.kRetryMax
          (readStart device buf size regs_)).1 = true →
        Transfers device (lastTry (sendCommand device) MmcDriver.kRetryMax
          (readStart device buf size regs_))) := by
  obtain ⟨start, hstart⟩ : ∃ start, readStart device buf size regs_ = start := ⟨_, rfl⟩
  obtain ⟨last, hlast⟩ :
      ∃ last, lastTry (sendCommand device) MmcDriver.kRetryMax start = last := ⟨_, rfl⟩
  -- the last attempt is made with the command of the first one
  have hkept : last.d.cmd_reg = start.d.cmd_reg ∧
      last.d.transfer_blocks = start.d.transfer_blocks := by
    rw [← hlast]
    refine Lib.lastTry_of_kept (J := fun t : State => t.d.cmd_reg = start.d.cmd_reg ∧
      t.d.transfer_blocks = start.d.transfer_blocks) (fun t ht => ?_) ⟨rfl, rfl⟩
    have hd := sendCommand_kept device t
    exact ⟨hd.1.trans ht.1, hd.2.2.trans ht.2⟩
  have hdata : last.d.cmd_reg.is_data = 1 := by
    rw [hkept.1, ← hstart]
    exact readStart_is_data
  have hbytes : 4 * (last.d.transfer_blocks * device.words) = size.toNat := by
    rw [hkept.2, ← hstart]
    exact readStart_bytes hargs
  rw [Filled, read_eq hargs, hstart, hlast]
  cases hdone : (retry (sendCommand device) MmcDriver.kRetryMax start).1 with
  | false => simp
  | true =>
    have heq := Lib.retry_eq_last hdone
    rw [hlast] at heq
    rw [← complete_of_success_iff, heq, hdone]
    simp [size_toInt_ne hargs, hbytes, hdata]

/-! ### The commands that reading sends

The driver as `Evisor.MmcDriver` has it knows of the controller only which attempts succeed. -/

/-- The commands with data, among all. -/
def cmdType : MmcDriver.CmdType → CmdType
  | .READ_SINGLE_BLOCK => .READ_SINGLE_BLOCK
  | .READ_MULTIPLE_BLOCK => .READ_MULTIPLE_BLOCK
  | .WRITE_BLOCK => .WRITE_BLOCK
  | .WRITE_MULTIPLE_BLOCK => .WRITE_MULTIPLE_BLOCK

/-- The device without its registers. -/
def Device.driver (device : Device) : MmcDriver.Device :=
  ⟨device.sdhc, device.block_size, device.seek_offset⟩

/-- Which of the attempts from a state on succeed. -/
def outcomes (device : Device) (start : State) (i : ℕ) : Bool :=
  (sendCommand device ((fun s => (sendCommand device s).2)^[i] start)).1

/-- A command that is sent, in the two models. -/
structure Sends (d : CommandData) (c : MmcDriver.CommandData) : Prop where
  cmd_reg : d.cmd_reg = kCommands_ (cmdType c.cmd_type)
  cmd_arg : d.cmd_arg = BitVec.ofNat 32 c.cmd_arg
  transfer_blocks : d.transfer_blocks = c.transfer_blocks

/-- What is written to the controller for a list of commands. -/
def sentWords (sent : List MmcDriver.CommandData) : List Word :=
  sent.map fun c => (kCommands_ (cmdType c.cmd_type)).word

def sentArgs (sent : List MmcDriver.CommandData) : List Word :=
  sent.map fun c => BitVec.ofNat 32 c.cmd_arg

/-- The attempts that are left go as the driver without registers has them. -/
theorem retry_refines (device : Device) (start : State) {c : MmcDriver.CommandData} {left : ℕ}
    (hleft : left ≤ MmcDriver.kRetryMax)
    (hs : s = (fun s => (sendCommand device s).2)^[MmcDriver.kRetryMax - left] start)
    (hc : Sends s.d c) :
    (retry (sendCommand device) left s).1 =
        (MmcDriver.sendCommands (outcomes device start) c left).2 ∧
      written .CMDTM (retry (sendCommand device) left s).2.regs_.log =
        written .CMDTM s.regs_.log ++
          sentWords (MmcDriver.sendCommands (outcomes device start) c left).1 ∧
      written .ARG1 (retry (sendCommand device) left s).2.regs_.log =
        written .ARG1 s.regs_.log ++
          sentArgs (MmcDriver.sendCommands (outcomes device start) c left).1 := by
  induction left generalizing s with
  | zero => exact ⟨rfl, (List.append_nil _).symm, (List.append_nil _).symm⟩
  | succ left ih =>
    have hkept := sendCommand_kept device s
    -- the attempts that are left start from what this one has made of the host
    have hnext := ih (Nat.le_of_succ_le hleft) (s := (sendCommand device s).2) (by
      have hsub : MmcDriver.kRetryMax - left = MmcDriver.kRetryMax - (left + 1) + 1 := by omega
      rw [hsub, Function.iterate_succ_apply', ← hs])
      ⟨hkept.1.trans hc.cmd_reg, hkept.2.1.trans hc.cmd_arg, hkept.2.2.trans hc.transfer_blocks⟩
    have hhost : outcomes device start (MmcDriver.kRetryMax - (left + 1)) =
        (sendCommand device s).1 := by
      rw [outcomes, ← hs]
    by_cases hblocks : s.d.transfer_blocks ≤ 0xffff
    · obtain ⟨hword, harg⟩ := written_sendCommand device hblocks
      rw [hc.cmd_reg] at hword
      rw [hc.cmd_arg] at harg
      have hfits : ¬0xffff < c.transfer_blocks := Nat.not_lt.mpr (hc.transfer_blocks ▸ hblocks)
      cases hdone : (sendCommand device s).1 with
      | true =>
        have hdriver : MmcDriver.sendCommands (outcomes device start) c (left + 1) =
            ([c], true) := by
          rw [MmcDriver.sendCommands, if_neg hfits, hhost, hdone, if_pos rfl]
        rw [Lib.retry_of_ok hdone, hdriver]
        exact ⟨hdone, hword, harg⟩
      | false =>
        have hdriver : MmcDriver.sendCommands (outcomes device start) c (left + 1) =
            (c :: (MmcDriver.sendCommands (outcomes device start) c left).1,
              (MmcDriver.sendCommands (outcomes device start) c left).2) := by
          rw [MmcDriver.sendCommands, if_neg hfits, hhost, hdone]
          rfl
        rw [Lib.retry_of_failed hdone, hdriver]
        refine ⟨hnext.1, hnext.2.1.trans ?_, hnext.2.2.trans ?_⟩
        · rw [hword, List.append_assoc]
          rfl
        · rw [harg, List.append_assoc]
          rfl
    · -- a transfer of too many blocks is refused before anything is written
      have hrefused : sendCommand device s = (false, s) := if_pos (Nat.not_le.mp hblocks)
      have hdriver : MmcDriver.sendCommands (outcomes device start) c (left + 1) =
          MmcDriver.sendCommands (outcomes device start) c left := by
        rw [MmcDriver.sendCommands, if_pos (hc.transfer_blocks ▸ Nat.not_le.mp hblocks)]
      rw [Lib.retry_of_failed (congrArg Prod.fst hrefused), hdriver]
      rw [hrefused] at hnext ⊢
      exact hnext

/-- The command that `Read` makes is the same in the two models. -/
theorem dataCommand_driver (buf : ℕ → Word) (hargs : ¬BadArguments device size) : ∃ c,
    MmcDriver.dataCommand device.driver false size.toNat device.block.toNat = some c ∧
      Sends (dataCommand device false buf size device.block) c := by
  refine ⟨_, if_neg hargs, ?_, ?_, rfl⟩
  · change kCommands_ (if 1 < size.toNat / device.block_size then .READ_MULTIPLE_BLOCK
        else .READ_SINGLE_BLOCK) =
      kCommands_ (cmdType (if 1 < size.toNat / device.block_size then .READ_MULTIPLE_BLOCK
        else .READ_SINGLE_BLOCK))
    split <;> rfl
  · change (if device.sdhc = true then device.block else device.block * 512) =
      BitVec.ofNat 32 (if device.sdhc = true then device.block.toNat
        else device.block.toNat * 512 % 2 ^ 32)
    split
    · exact BitVec.eq_of_toNat_eq (by simp)
    · exact BitVec.eq_of_toNat_eq (by simp [BitVec.toNat_mul])

/-- **`Read` refines** the driver that knows only which attempts succeed: it returns the same, and
the commands that it writes to the controller are the ones sent there. -/
theorem read_refines :
    let driver := MmcDriver.read (outcomes device (readStart device buf size regs_))
      device.driver size.toNat
    (read device buf size regs_).1 = driver.2 ∧
      written .CMDTM (read device buf size regs_).2.2.log =
        written .CMDTM regs_.log ++ sentWords driver.1 ∧
      written .ARG1 (read device buf size regs_).2.2.log =
        written .ARG1 regs_.log ++ sentArgs driver.1 := by
  have hdriver : MmcDriver.read (outcomes device (readStart device buf size regs_))
      device.driver size.toNat =
        ((MmcDriver.handleDataCommand (outcomes device (readStart device buf size regs_))
            device.driver false size.toNat device.block.toNat).1,
          if (MmcDriver.handleDataCommand (outcomes device (readStart device buf size regs_))
            device.driver false size.toNat device.block.toNat).2 then Int.bmod size.toNat (2 ^ 32)
          else -1) := by
    rw [Device.block, BitVec.toNat_ofNat]
    rfl
  dsimp only
  rw [hdriver, MmcDriver.handleDataCommand]
  by_cases hargs : BadArguments device size
  · have hnone :
        MmcDriver.dataCommand device.driver false size.toNat device.block.toNat = none :=
      if_pos hargs
    rw [hnone, read, handleDataCommand, if_pos hargs]
    simp [sentWords, sentArgs]
  · obtain ⟨c, hc, hsends⟩ := dataCommand_driver buf hargs
    have hrun := retry_refines device (readStart device buf size regs_)
      (s := readStart device buf size regs_) le_rfl (by rw [Nat.sub_self]; rfl) hsends
    rw [hc, read_eq hargs, ← hrun.1]
    exact ⟨by rw [BitVec.toInt_eq_toNat_bmod], hrun.2⟩

end Reading

/-- **Success and complete transfers.** A command with data that succeeds has moved all its blocks,
and what `Read` returns as its size has been filled, exactly where each command that is answered
finds its blocks ready or no end of a transfer is reported after it. -/
theorem success_complete_iff (device : Device) :
    (∀ s, ((sendCommand device s).1 = true → s.d.cmd_reg.is_data = 1 →
        Complete device s (sendCommand device s).2.d.buffer) ↔ Transfers device s) ∧
      ∀ (buf : ℕ → Word) (size : Word) (regs_ : Lib.Bus Reg Word),
        ((read device buf size regs_).1 ≠ -1 →
            (read device buf size regs_).1 = size.toInt ∧ Filled device buf size regs_) ↔
          (¬BadArguments device size →
            EachTry (sendCommand device) (Transfers device) MmcDriver.kRetryMax
              (readStart device buf size regs_)) := by
  refine ⟨complete_of_success_iff device, fun buf size regs_ => ?_⟩
  by_cases hargs : BadArguments device size
  · exact iff_of_true (fun h => absurd (read_of_bad hargs) h) fun h => absurd hargs h
  · rw [filled_iff hargs, forall_prop_of_true hargs]
    exact (Lib.eachTry_iff_last fun s => transfers_of_failure).symm

/-- A card of high capacity, with blocks of 512 bytes. -/
def someCard : Device := ⟨true, 0, 0, 512, 0, by decide⟩

/-- A controller that answers, reports a timeout with the block, and the end of the transfer after
it. -/
def timedOut : Lib.Bus Reg Word :=
  ⟨fun i => [1, 1, 0, 0x100020, 0x100020, 0, 2, 2].getD i 0, 0, []⟩

/-- `Read` returns the size of a block of which not a word has been moved. -/
theorem read_without_data :
    (sendCommand someCard (readStart someCard (fun _ => 0) 512 timedOut)).1 = true ∧
      ¬Complete someCard (readStart someCard (fun _ => 0) 512 timedOut)
        (sendCommand someCard (readStart someCard (fun _ => 0) 512 timedOut)).2.d.buffer ∧
      (read someCard (fun _ => 0) 512 timedOut).1 = 512 ∧
      ¬Filled someCard (fun _ => 0) 512 timedOut := by
  have hsent : (sendCommand someCard (readStart someCard (fun _ => 0) 512 timedOut)).1 = true := by
    decide +kernel
  have hmoved : (performDataTransfer someCard
      (answeredState someCard (readStart someCard (fun _ => 0) 512 timedOut))).1 = false := by
    decide +kernel
  have hnot : ∀ buffer, ¬Complete someCard (readStart someCard (fun _ => 0) 512 timedOut) buffer :=
    fun buffer h => by rw [h.success] at hmoved; cases hmoved
  refine ⟨hsent, hnot _, by decide +kernel, fun hfilled => ?_⟩
  -- the first attempt is the last one
  have hlast : lastTry (sendCommand someCard) MmcDriver.kRetryMax
      (readStart someCard (fun _ => 0) 512 timedOut) =
        readStart someCard (fun _ => 0) 512 timedOut := if_pos hsent
  have hcomplete := hfilled.2
  rw [hlast] at hcomplete
  exact hnot _ hcomplete

end Emmc

end Evisor
