import Evisor.Drivers.Mmc
import Evisor.Fs.Fat.Init

/-!
# From sectors to blocks

The way of a sector number to the card. `ReadSector` makes it a byte offset, with 32 bits,
though `Seek` would take 64; `Read` makes the offset a block number again. The two are the
same exactly for the sectors of the first 4 GiB (`Evisor.Fat32Fs.block_right_iff`).
-/

namespace Evisor

namespace Fat32Fs

open MmcDriver (Device CommandData)

/-- What `ReadSector` gives to `Mmc::Seek`. -/
def seekOffset (lba : ℕ) : ℕ := kBlockSize * lba % 2 ^ 32

/-- The device when `Mmc::Read` is called. -/
def deviceAt (device : Device) (lba : ℕ) : Device := (MmcDriver.seek device (seekOffset lba)).2

/-- The commands that `ReadSector` causes to be sent. -/
def sectorCommands (host : ℕ → Bool) (device : Device) (lba sector_num : ℕ) : List CommandData :=
  (MmcDriver.read host (deviceAt device lba) (kBlockSize * sector_num % 2 ^ 32)).1

/-- A card of high capacity, as `Mmc::Open` leaves it. -/
structure Opened (device : Device) : Prop where
  sdhc : device.sdhc = true
  block_size : device.block_size = 512

/-- **The block that is transferred from is the sector**: nothing is lost when the offset is
computed, `Seek` takes it, and every command that is sent has the number of the sector. -/
structure BlockRight (device : Device) (lba sector_num : ℕ) : Prop where
  offset : seekOffset lba = 512 * lba
  seek : (MmcDriver.seek device (seekOffset lba)).1 = true
  block : (deviceAt device lba).seek_offset / (deviceAt device lba).block_size = lba
  sent : ∀ host, ∀ c ∈ sectorCommands host device lba sector_num, c.cmd_arg = lba

variable {device : Device} {lba sector_num : ℕ}

theorem seekOffset_mod (lba : ℕ) : seekOffset lba % 512 = 0 := by
  rw [seekOffset, kBlockSize]
  omega

/-- `Seek` takes every offset that `ReadSector` computes. -/
theorem seek_seekOffset (h : Opened device) (lba : ℕ) :
    MmcDriver.seek device (seekOffset lba) =
      (true, { device with seek_offset := seekOffset lba }) :=
  MmcDriver.seek_of_dvd (h.block_size ▸ seekOffset_mod lba)

theorem deviceAt_eq (h : Opened device) (lba : ℕ) :
    deviceAt device lba = { device with seek_offset := seekOffset lba } := by
  rw [deviceAt, seek_seekOffset h]

/-- **A command that is sent** asks for the sectors at the offset that was computed. -/
theorem sectorCommands_sent (h : Opened device) {host : ℕ → Bool} {c : CommandData}
    (hc : c ∈ sectorCommands host device lba sector_num) :
    c.cmd_arg = seekOffset lba / 512 ∧
      512 * c.transfer_blocks = kBlockSize * sector_num % 2 ^ 32 ∧
      kBlockSize ≤ kBlockSize * sector_num % 2 ^ 32 := by
  have hsdhc : (deviceAt device lba).sdhc = true := by
    rw [deviceAt_eq h]
    exact h.sdhc
  obtain ⟨harg, hblocks, hle⟩ := MmcDriver.read_sent hsdhc hc
  rw [deviceAt_eq h] at harg hblocks hle
  dsimp only at harg hblocks hle
  rw [h.block_size] at harg hblocks hle
  have hlt : seekOffset lba < 2 ^ 32 := Nat.mod_lt _ (by decide)
  refine ⟨?_, ?_, hle⟩
  · rw [harg]
    omega
  · rw [hblocks, kBlockSize]
    omega

/-- **The card delivers the blocks it is asked for**: what is in a buffer of `ReadSector` are
the bytes from the block of the command on. -/
theorem readSector_of_sent (h : Opened device) (d : Mmc) {host : ℕ → Bool} {c : CommandData}
    (hc : c ∈ sectorCommands host device lba sector_num) {byte : ℕ → ℕ}
    (hread : readSector d lba sector_num = .ok (some byte)) :
    ∀ i < 512 * c.transfer_blocks, byte i = d.byte (512 * c.cmd_arg + i) := by
  obtain ⟨harg, hblocks, hle⟩ := sectorCommands_sent h hc
  intro i hi
  rw [readSector, if_neg (Nat.not_lt.mpr hle)] at hread
  split at hread
  · cases hread
  · obtain rfl := Option.some.inj (Except.ok.inj hread)
    have hoffset : 512 * (seekOffset lba / 512) = kBlockSize * lba % 2 ^ 32 := by
      have := seekOffset_mod lba
      rw [← seekOffset]
      omega
    rw [harg, hoffset]
    exact if_pos (hblocks ▸ hi)

/-- One command goes out at least, if it is one sector or up to 65535. -/
theorem exists_sectorCommands (h : Opened device) (host : ℕ → Bool) (lba : ℕ)
    (hpos : 0 < sector_num) (hle : sector_num ≤ 0xffff) :
    ∃ c, c ∈ sectorCommands host device lba sector_num := by
  have hsize : kBlockSize * sector_num % 2 ^ 32 = 512 * sector_num := by
    rw [kBlockSize]
    omega
  rw [sectorCommands, deviceAt_eq h, MmcDriver.read, MmcDriver.handleDataCommand,
    MmcDriver.dataCommand, hsize]
  dsimp only
  rw [h.block_size, if_neg (by omega), Nat.mul_div_cancel_left _ (by decide)]
  exact ⟨_, MmcDriver.mem_sendCommands hle 3⟩

/-- **The block is the sector exactly if** the sector is one of the first `2 ^ 23`. -/
theorem block_right_iff (h : Opened device) (lba sector_num : ℕ) :
    BlockRight device lba sector_num ↔ lba < 2 ^ 23 := by
  constructor
  · intro hright
    have hoffset := hright.offset
    have hlt : seekOffset lba < 2 ^ 32 := Nat.mod_lt _ (by decide)
    omega
  · intro hlt
    have hoffset : seekOffset lba = 512 * lba := by
      rw [seekOffset, kBlockSize]
      omega
    refine ⟨hoffset, by rw [seek_seekOffset h], ?_, fun host c hc => ?_⟩
    · rw [deviceAt_eq h]
      dsimp only
      rw [h.block_size, hoffset, Nat.mul_div_cancel_left _ (by decide)]
    · rw [(sectorCommands_sent h hc).1, hoffset, Nat.mul_div_cancel_left _ (by decide)]

/-- The device of a card of high capacity. -/
def sdhcDevice : Device := ⟨true, 512, 0⟩

theorem opened_sdhcDevice : Opened sdhcDevice := ⟨rfl, rfl⟩

theorem block_right_iff_last : BlockRight sdhcDevice (2 ^ 23 - 1) 8 :=
  (block_right_iff opened_sdhcDevice _ _).mpr (by decide)

/-- A card with a partition that starts at 4 GiB. -/
def Mmc.farPartition : Mmc := .ofList [(450, 0x0c), (456, 0x80), (510, 0x55), (511, 0xaa)]

/-- **The boot sector of a partition at 4 GiB** is looked for in block 0. -/
theorem far_partition_wraps :
    member Mmc.farPartition.byte 450 1 = 0xc ∧ member Mmc.farPartition.byte (446 + 8) 4 = 2 ^ 23 ∧
      sectorCommands (fun _ => true) sdhcDevice (2 ^ 23) 1 = [⟨.READ_SINGLE_BLOCK, 0, 1⟩] ∧
      ¬BlockRight sdhcDevice (2 ^ 23) 1 :=
  ⟨by decide, by decide, by decide, fun h => absurd h.offset (by decide)⟩

end Fat32Fs

end Evisor
