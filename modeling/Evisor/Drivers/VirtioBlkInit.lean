import Evisor.Arch.LdSymbols
import Evisor.Drivers.VirtioBlkRun
import Evisor.Mm.Uncached

/-!
# Bringing up the block device

`VirtioBlk::Init`. The device is checked, reset and told about the queue, whose memory is two
pages of the uncached region, and a third page is taken for the request. The allocator does
not clear what it hands out, so that the queue starts from whatever was there: of the three
indices `BlockDeviceInit` sets two, `used.index` and `last_used_index`, and leaves
`avail.index` as it finds it.

A device that has been reset starts its own index at `0`. The two agree on what has been
published exactly when the leftover index is `0` (`Evisor.VirtioBlk.init_starts_iff`).
-/

namespace Evisor

namespace VirtioBlk

/-! ### The queue in memory -/

/-- The parts of a `Virtq`, by their offsets. The structure is packed, and `used` begins a
page. -/
def offsetofAvail : ℕ := 256
def offsetofUsed : ℕ := 4096
def offsetofBlkReq : ℕ := 4230
def offsetofLastUsedIndex : ℕ := 4238

/-- The parts of a `VirtqAvail` and of a `VirtqUsed`. -/
def offsetofIndex : ℕ := 2
def offsetofRing : ℕ := 4

/-- `sizeof(Virtq)`. -/
def sizeofVirtq : ℕ := 8192

/-- `sizeof(VirtioBlkReq)`. -/
def sizeofVirtioBlkReq : ℕ := 529

/-- Reading `n` bytes. -/
def getBytes (m : ℕ → ℕ) (addr n : ℕ) : ℕ := Lib.ofBytes n fun i => m (addr + i)

/-- The `Virtq` at an address. -/
def virtqAt (m : ℕ → ℕ) (virtq_ : ℕ) : Virtq where
  descs i := ⟨getBytes m (virtq_ + 16 * i) 8, getBytes m (virtq_ + 16 * i + 8) 4,
    getBytes m (virtq_ + 16 * i + 12) 2, getBytes m (virtq_ + 16 * i + 14) 2⟩
  avail := ⟨getBytes m (virtq_ + offsetofAvail + offsetofIndex) 2,
    fun i => getBytes m (virtq_ + offsetofAvail + offsetofRing + 2 * i) 2⟩
  used := ⟨getBytes m (virtq_ + offsetofUsed + offsetofIndex) 2,
    fun i => ⟨getBytes m (virtq_ + offsetofUsed + offsetofRing + 8 * i) 4,
      getBytes m (virtq_ + offsetofUsed + offsetofRing + 8 * i + 4) 4⟩⟩
  blk_req := getBytes m (virtq_ + offsetofBlkReq) 8
  last_used_index := getBytes m (virtq_ + offsetofLastUsedIndex) 2

/-! ### The registers -/

/-- The registers of `VirtioBlk::Regs` that the driver uses to bring the device up. -/
inductive VirtioReg where
  | MAGIC_VALUE | VERSION | DEVICE_ID | QUEUE_SEL | QUEUE_NUM | QUEUE_ALIGN | QUEUE_PFN
  | QUEUE_READY | DEVICE_STATUS | DEVICE_CONFIG_SPACE0
  deriving DecidableEq, Repr

/-- **What the registers do**, with states `ρ`. -/
structure VirtioRegs (ρ : Type) where
  read : ρ → VirtioReg → ℕ × ρ
  write : ρ → VirtioReg → ℕ → ρ

/-- `kDeviceStatusAck`. -/
def kDeviceStatusAck : ℕ := 1 <<< 0

/-- `kDeviceStatusDriver`. -/
def kDeviceStatusDriver : ℕ := 1 <<< 1

/-- `kDeviceStatusDriverOk`. -/
def kDeviceStatusDriverOk : ℕ := 1 <<< 2

/-- `kDeviceStatusDriverFeatOk`. -/
def kDeviceStatusDriverFeatOk : ℕ := 1 <<< 3

variable {ρ : Type}

/-- Setting a bit of the device status. -/
def VirtioRegs.setStatus (R : VirtioRegs ρ) (regs : ρ) (bit : ℕ) : ρ :=
  let r := R.read regs .DEVICE_STATUS
  R.write r.2 .DEVICE_STATUS (r.1 ||| bit)

/-- A register that has to hold a value. -/
def VirtioRegs.check (R : VirtioRegs ρ) (regs : ρ) (reg : VirtioReg) (ok : ℕ → Bool)
    (msg : String) : Except Fault ρ :=
  let r := R.read regs reg
  if ok r.1 then .ok r.2 else .error (.panic msg)

/-- `DeviceInit`. -/
def deviceInit (R : VirtioRegs ρ) (regs : ρ) : Except Fault ρ := do
  let regs ← R.check regs .MAGIC_VALUE (· == 0x74726976) "virtio: unexpected magic value: %x"
  let regs ← R.check regs .VERSION (· == 1) "virtio: unexpected version: %x"
  let regs ← R.check regs .DEVICE_ID (· == 2) "virtio: the device is not a disk: %x"
  let regs := R.write regs .DEVICE_STATUS 0
  let regs := R.setStatus regs kDeviceStatusAck
  let regs := R.setStatus regs kDeviceStatusDriver
  let regs := R.setStatus regs kDeviceStatusDriverFeatOk
  R.check regs .DEVICE_STATUS (fun status => status &&& kDeviceStatusDriverFeatOk != 0)
    "virtio: FEATURES_OK bit was cleared for some reason: %x"

/-! ### The driver -/

/-- What the driver works on. -/
structure Driver (ρ : Type) where
  regs : ρ
  /-- The pages of the uncached region. -/
  map : RegionMap
  mem : ℕ → ℕ
  /-- The address of the queue. -/
  virtq_ : ℕ

/-- `BlockDeviceInit`. `QUEUE_PFN` is a register of 32 bits. -/
def blockDeviceInit (L : Layout) (R : VirtioRegs ρ) (s : Driver ρ) : Except Fault (Driver ρ) := do
  let queue ← kmmUncachedMalloc L.kUncachedStart s.map (alignUp sizeofVirtq)
  let virtq_ := queue.1
  let mem := setBytes s.mem (virtq_ + offsetofUsed + offsetofIndex) 2 (Lib.byte 0)
  let mem := setBytes mem (virtq_ + offsetofLastUsedIndex) 2 (Lib.byte 0)
  let regs := R.write s.regs .QUEUE_SEL 0
  let regs ← R.check regs .QUEUE_READY (· == 0) "virtio: The disk has already been used!"
  let regs := R.write regs .QUEUE_NUM kVirtQueueSize
  let regs := R.write regs .QUEUE_ALIGN PAGE_SIZE
  let regs := R.write regs .QUEUE_PFN (virtq_ % 2 ^ 32)
  let regs := R.write regs .QUEUE_READY 1
  return ⟨R.setStatus regs kDeviceStatusDriverOk, queue.2, mem, virtq_⟩

/-- `Init`; the capacity is read for a message. -/
def init (L : Layout) (R : VirtioRegs ρ) (s : Driver ρ) : Except Fault (Driver ρ) := do
  let regs ← deviceInit R s.regs
  let s ← blockDeviceInit L R { s with regs }
  let regs := (R.read s.regs .DEVICE_CONFIG_SPACE0).2
  let req ← kmmUncachedMalloc L.kUncachedStart s.map (alignUp sizeofVirtioBlkReq)
  return ⟨regs, req.2, setBytes s.mem (s.virtq_ + offsetofBlkReq) 8 (Lib.byte req.1), s.virtq_⟩

/-- What the driver shares with a device that starts its own index at `0`. -/
def Driver.shared {δ : Type} (s : Driver ρ) (device : δ) : Shared δ :=
  ⟨virtqAt s.mem s.virtq_, s.mem, 0, .idle, device⟩

/-- The entries that are published and that the device has not taken. -/
def Shared.pending {δ : Type} (s : Shared δ) : ℕ := (s.virtq.avail.index + 2 ^ 16 - s.seen) % 2 ^ 16

/-- **The ring starts consistent.** -/
structure Starts (s : Driver ρ) : Prop where
  /-- The three indices are `0`. -/
  avail : (virtqAt s.mem s.virtq_).avail.index = 0
  used : (virtqAt s.mem s.virtq_).used.index = 0
  last : (virtqAt s.mem s.virtq_).last_used_index = 0
  /-- The first request publishes one chain. -/
  first : ∀ {δ : Type} (device : δ) (c : Call), (published (s.shared device) c).pending = 1
  /-- The driver's wait for it comes to its end, with the request served, as soon as the device
  has been given the time. -/
  wait : ∀ {δ : Type} (D : BlkDevice δ) (device : δ) (c : Call), c.schedule.Serves →
    ∃ r, readWriteDisk D (s.shared device) c = .ok r ∧
      CallSpec D.sector_nums D (s.shared device) c r

/-! ### Reading the queue back -/

variable {m : ℕ → ℕ} {f : ℕ → ℕ}

theorem getBytes_setBytes_self (addr n : ℕ) :
    getBytes (setBytes m addr n f) addr n = Lib.ofBytes n f :=
  Lib.ofBytes_congr fun _ hi => setBytes_in hi

theorem getBytes_setBytes_apart {addr n addr' n' : ℕ} (h : addr + n ≤ addr' ∨ addr' + n' ≤ addr) :
    getBytes (setBytes m addr' n' f) addr n = getBytes m addr n := by
  refine Lib.ofBytes_congr fun i hi => setBytes_out ?_
  omega

/-! ### What `Init` leaves -/

variable {L : Layout} {R : VirtioRegs ρ} {s t : Driver ρ}

/-- **What `Init` does** besides talking to the device: two blocks are taken, and three parts
of the queue are written. -/
theorem init_ok (h : init L R s = .ok t) :
    ∃ map req, kmmUncachedMalloc L.kUncachedStart s.map (alignUp sizeofVirtq) =
        .ok (t.virtq_, map) ∧
      kmmUncachedMalloc L.kUncachedStart map (alignUp sizeofVirtioBlkReq) = .ok (req, t.map) ∧
      t.mem = setBytes (setBytes (setBytes s.mem (t.virtq_ + offsetofUsed + offsetofIndex) 2
        (Lib.byte 0)) (t.virtq_ + offsetofLastUsedIndex) 2 (Lib.byte 0))
        (t.virtq_ + offsetofBlkReq) 8 (Lib.byte req) := by
  obtain ⟨regs, -, h⟩ := Lib.bind_eq_ok.mp h
  obtain ⟨u, hu, h⟩ := Lib.bind_eq_ok.mp h
  obtain ⟨queue, hqueue, hu⟩ := Lib.bind_eq_ok.mp hu
  obtain ⟨regs', -, hu⟩ := Lib.bind_eq_ok.mp hu
  obtain rfl := Except.ok.inj hu
  obtain ⟨req, hreq, h⟩ := Lib.bind_eq_ok.mp h
  obtain rfl := Except.ok.inj h
  exact ⟨queue.2, req.1, hqueue, hreq, rfl⟩

/-- The two indices that are set. -/
theorem init_used (h : init L R s = .ok t) :
    (virtqAt t.mem t.virtq_).used.index = 0 ∧ (virtqAt t.mem t.virtq_).last_used_index = 0 := by
  obtain ⟨map, req, -, -, hmem⟩ := init_ok h
  have hzero : Lib.ofBytes 2 (Lib.byte 0) = 0 := Lib.ofBytes_byte 2 0
  simp only [virtqAt, hmem, offsetofUsed, offsetofIndex, offsetofLastUsedIndex, offsetofBlkReq]
  constructor
  · rw [getBytes_setBytes_apart (.inl (by omega)), getBytes_setBytes_apart (.inl (by omega)),
      getBytes_setBytes_self, hzero]
  · rw [getBytes_setBytes_apart (.inr (by omega)), getBytes_setBytes_self, hzero]

/-- **The index that is left over.** -/
theorem init_avail (h : init L R s = .ok t) : (virtqAt t.mem t.virtq_).avail.index =
    getBytes s.mem (t.virtq_ + offsetofAvail + offsetofIndex) 2 := by
  obtain ⟨map, req, -, -, hmem⟩ := init_ok h
  simp only [virtqAt, hmem, offsetofAvail, offsetofUsed, offsetofIndex, offsetofLastUsedIndex,
    offsetofBlkReq]
  rw [getBytes_setBytes_apart (.inl (by omega)), getBytes_setBytes_apart (.inl (by omega)),
    getBytes_setBytes_apart (.inl (by omega))]

/-- **The ring is at rest** when nothing is left over. -/
theorem init_ready {δ : Type} (h : init L R s = .ok t) (device : δ)
    (hzero : (virtqAt t.mem t.virtq_).avail.index = 0) : Ready (t.shared device) := by
  obtain ⟨hused, hlast⟩ := init_used h
  exact ⟨hused.trans hzero.symm, hlast.trans hzero.symm, hzero.symm, rfl,
    (congrArg (· < 2 ^ 16) hzero).mpr (by decide)⟩

/-- What the first request publishes. -/
theorem pending_published {δ : Type} (t : Driver ρ) (device : δ) (c : Call) :
    (published (t.shared device) c).pending =
      ((virtqAt t.mem t.virtq_).avail.index + 1) % 2 ^ 16 := by
  have hpending : (published (t.shared device) c).pending =
      (((virtqAt t.mem t.virtq_).avail.index + 1) % 2 ^ 16 + 2 ^ 16 - 0) % 2 ^ 16 := rfl
  rw [hpending]
  omega

/-- **The ring starts consistent exactly when the leftover index is `0`**: in any state of the
allocator, with any memory and any device that passes the checks. -/
theorem init_starts_iff (h : init L R s = .ok t) : Starts t ↔
    ∀ virtq_ map, kmmUncachedMalloc L.kUncachedStart s.map (alignUp sizeofVirtq) =
      .ok (virtq_, map) → ∀ i < 2, s.mem (virtq_ + offsetofAvail + offsetofIndex + i) = 0 := by
  obtain ⟨map, req, hqueue, -, -⟩ := init_ok h
  constructor
  · intro hstarts virtq_ map' hmalloc
    obtain ⟨rfl, -⟩ := Prod.mk.inj (Except.ok.inj (hqueue.symm.trans hmalloc))
    exact Lib.ofBytes_eq_zero.mp ((init_avail h).symm.trans hstarts.avail)
  · intro hzero
    have havail : (virtqAt t.mem t.virtq_).avail.index = 0 :=
      (init_avail h).trans (Lib.ofBytes_eq_zero.mpr (hzero _ _ hqueue))
    obtain ⟨hused, hlast⟩ := init_used h
    refine ⟨havail, hused, hlast, fun device c => ?_, fun D device c hserves => ?_⟩
    · rw [pending_published, havail]
      rfl
    · exact readWriteDisk_spec (init_ready h device havail) D hserves

/-- Registers that hold what is written to them. -/
def plainRegs : VirtioRegs (VirtioReg → ℕ) where
  read regs reg := (regs reg, regs)
  write regs reg v := Function.update regs reg v

/-- A disk that has been reset. -/
def resetRegs : VirtioReg → ℕ
  | .MAGIC_VALUE => 0x74726976
  | .VERSION => 1
  | .DEVICE_ID => 2
  | _ => 0

/-- The driver with nothing allocated. -/
def freshDriver (mem : ℕ → ℕ) : Driver (VirtioReg → ℕ) := ⟨resetRegs, .zero, mem, 0⟩

/-- Memory that is clear nowhere but at the index of the first queue. -/
def clearIndex (a : ℕ) : ℕ :=
  if Layout.qemu.kUncachedStart + offsetofAvail + offsetofIndex ≤ a ∧
    a < Layout.qemu.kUncachedStart + offsetofAvail + offsetofRing then 0 else 0xa5

theorem init_fresh : ∀ mem ∈ [clearIndex, fun _ => 1],
    (init .qemu plainRegs (freshDriver mem)).isOk = true := by
  decide +kernel

/-- Only the index has to be clear for a ring that starts consistent. -/
theorem init_starts_of_clear :
    ∃ t, init .qemu plainRegs (freshDriver clearIndex) = .ok t ∧ Starts t := by
  obtain ⟨t, ht⟩ := Lib.exists_ok_of_isOk (init_fresh _ List.mem_cons_self)
  have hfirst : (kmmUncachedMalloc Layout.qemu.kUncachedStart .zero (alignUp sizeofVirtq)).map
      Prod.fst = .ok Layout.qemu.kUncachedStart := by rfl
  refine ⟨t, ht, (init_starts_iff ht).mpr fun virtq_ map hmalloc i hi => ?_⟩
  rw [show (freshDriver clearIndex).map = .zero from rfl] at hmalloc
  rw [hmalloc] at hfirst
  obtain rfl : virtq_ = Layout.qemu.kUncachedStart := Except.ok.inj hfirst
  have hmem : (freshDriver clearIndex).mem = clearIndex := by rw [freshDriver]
  have hlt : offsetofIndex + i < offsetofRing := by
    rw [offsetofIndex, offsetofRing]
    omega
  rw [hmem, clearIndex, if_pos ⟨Nat.le_add_right _ i, by omega⟩]

/-- **Memory that is not clear**: after `Init` the device is told of `0x0101` entries that
nobody has published, and the first request makes it one more. -/
theorem init_leftover : ∃ t, init .qemu plainRegs (freshDriver fun _ => 1) = .ok t ∧
    (virtqAt t.mem t.virtq_).avail.index = 0x0101 ∧ ¬Starts t := by
  obtain ⟨t, ht⟩ := Lib.exists_ok_of_isOk (init_fresh (fun _ => 1) (by simp))
  have havail : (virtqAt t.mem t.virtq_).avail.index = 0x0101 := (init_avail ht).trans (by rfl)
  exact ⟨t, ht, havail, fun h => absurd (havail.symm.trans h.avail) (by decide)⟩

end VirtioBlk

end Evisor
