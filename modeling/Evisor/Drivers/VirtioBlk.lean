import Evisor.Basic
import Evisor.Lib.Bits

/-!
# The virtio block device

`drivers/virtio/virtio-blk.cc`. The driver and the device share a ring of sixteen entries,
of which one is in use at a time, and the memory of one request. The driver writes a request
and three descriptors that lead to its parts, publishes the first of them by counting
`avail.index` up, and waits until `used.index` has come to the number it expects. Both
indices are of 16 bits.

The device is a parameter (`Evisor.VirtioBlk.BlkDevice`): what it does with a request is its
own affair, as long as a read with status `0` yields a sector and a write with status `0`
sets one. It works in three steps, any number of which may be made whenever the driver looks
at the ring.
-/

namespace Evisor

/-- `kDiskSectorSize`. -/
def kDiskSectorSize : ℕ := 512

/-- `VirtioBlk::GetDiskCapacity`, a product of 32 bits. -/
def getDiskCapacity (DEVICE_CONFIG_SPACE0 : ℕ) : ℕ :=
  DEVICE_CONFIG_SPACE0 * kDiskSectorSize % 2 ^ 32

namespace VirtioBlk

/-- `kVirtQueueSize`. -/
def kVirtQueueSize : ℕ := 16

/-- `kVRingDescFNext`. -/
def kVRingDescFNext : ℕ := 0x1

/-- `kVRingDescFWrite`. -/
def kVRingDescFWrite : ℕ := 0x2

/-- `kVirtioBlkTIn`. -/
def kVirtioBlkTIn : ℕ := 0

/-- `kVirtioBlkTOut`. -/
def kVirtioBlkTOut : ℕ := 1

/-- `kVirtioBlkStatusOk`. -/
def kVirtioBlkStatusOk : ℕ := 0

/-! ### What the driver and the device share -/

/-- `VirtqDesc`. -/
structure VirtqDesc where
  addr : ℕ
  len : ℕ
  flags : ℕ
  next : ℕ

/-- `VirtqAvail`. -/
structure VirtqAvail where
  index : ℕ
  ring : ℕ → ℕ

/-- `VirtqUsedElem`. -/
structure VirtqUsedElem where
  id : ℕ
  len : ℕ

/-- `VirtqUsed`. -/
structure VirtqUsed where
  index : ℕ
  ring : ℕ → VirtqUsedElem

/-- `Virtq`. -/
structure Virtq where
  descs : ℕ → VirtqDesc
  avail : VirtqAvail
  used : VirtqUsed
  /-- The address of the request, a `VirtioBlkReq`. -/
  blk_req : ℕ
  last_used_index : ℕ

/-- The parts of a `VirtioBlkReq`, by their offsets. -/
def offsetofType : ℕ := 0
def offsetofReserved : ℕ := 4
def offsetofSector : ℕ := 8
def offsetofData : ℕ := 16
def offsetofStatus : ℕ := 528

/-- Storing `n` bytes. -/
def setBytes (m : ℕ → ℕ) (addr n : ℕ) (f : ℕ → ℕ) : ℕ → ℕ := fun a =>
  if addr ≤ a ∧ a < addr + n then f (a - addr) else m a

/-- What a device makes of a request. -/
structure Served (δ : Type) where
  status : ℕ
  /-- The bytes it gives back. -/
  data : ℕ → ℕ
  state : δ

/-- **A device**, with states `δ`. -/
structure BlkDevice (δ : Type) where
  DEVICE_CONFIG_SPACE0 : ℕ
  /-- What it makes of a request, from the type, the sector and the data of it. -/
  serve : δ → ℕ → ℕ → (ℕ → ℕ) → Served δ
  /-- The bytes of a sector. -/
  contents : δ → ℕ → ℕ → ℕ
  status_lt : ∀ s type sector data, (serve s type sector data).status < 256
  /-- A read changes no sector, and with status `0` it yields the one asked for. -/
  read_contents : ∀ s sector data,
    contents (serve s kVirtioBlkTIn sector data).state = contents s
  read_data : ∀ s sector data, (serve s kVirtioBlkTIn sector data).status = kVirtioBlkStatusOk →
    ∀ i < kDiskSectorSize, (serve s kVirtioBlkTIn sector data).data i = contents s sector i
  /-- A write changes one sector at most, and with status `0` it sets it. -/
  write_other : ∀ s sector data x, x ≠ sector →
    contents (serve s kVirtioBlkTOut sector data).state x = contents s x
  write_data : ∀ s sector data, (serve s kVirtioBlkTOut sector data).status = kVirtioBlkStatusOk →
    ∀ i < kDiskSectorSize, contents (serve s kVirtioBlkTOut sector data).state sector i = data i

/-- How far the device is with a request. -/
inductive Phase where
  /-- It looks for one. -/
  | idle
  /-- It has served the chain at `head`, and is to report the status. -/
  | served (head addr status : ℕ)
  /-- It is to return the chain. -/
  | reported (head : ℕ)

/-- The ring, the memory of the request, and the device. -/
structure Shared (δ : Type) where
  virtq : Virtq
  mem : ℕ → ℕ
  /-- How many entries of the ring the device has taken, as an index of 16 bits. -/
  seen : ℕ
  phase : Phase
  device : δ

variable {δ : Type}

/-! ### The device -/

/-- The descriptors of a chain, of which there are `left` at most. -/
def chain (descs : ℕ → VirtqDesc) : ℕ → ℕ → List VirtqDesc
  | 0, _ => []
  | left + 1, head =>
    if (descs head).flags &&& kVRingDescFNext ≠ 0 then
      descs head :: chain descs left (descs head).next
    else [descs head]

/-- The device serves a chain: a header, the data, and the place of the status. -/
def serveChain (D : BlkDevice δ) (s : Shared δ) (head : ℕ) : List VirtqDesc → Shared δ
  | [header, data, status] =>
    let type := Lib.ofBytes 4 fun i => s.mem (header.addr + i)
    let sector := Lib.ofBytes 8 fun i => s.mem (header.addr + 8 + i)
    let r := D.serve s.device type sector fun i => s.mem (data.addr + i)
    { s with
      mem := if data.flags &&& kVRingDescFWrite ≠ 0 then setBytes s.mem data.addr data.len r.data
        else s.mem
      phase := .served head status.addr r.status
      device := r.state }
  | _ => { s with phase := .reported head }

/-- **One step of the device**: it takes the next entry that has been published, if there is
one, and serves it; it reports the status; it returns the chain. -/
def deviceStep (D : BlkDevice δ) (s : Shared δ) : Shared δ :=
  match s.phase with
  | .idle =>
    if s.seen = s.virtq.avail.index then s
    else
      let head := s.virtq.avail.ring (s.seen % kVirtQueueSize)
      serveChain D s head (chain s.virtq.descs kVirtQueueSize head)
  | .served head addr status =>
    { s with mem := setBytes s.mem addr 1 fun _ => status, phase := .reported head }
  | .reported head =>
    { s with
      virtq := { s.virtq with
        used := ⟨(s.virtq.used.index + 1) % 2 ^ 16,
          Function.update s.virtq.used.ring (s.virtq.used.index % kVirtQueueSize)
            ⟨head, kDiskSectorSize + 1⟩⟩ }
      seen := (s.seen + 1) % 2 ^ 16
      phase := .idle }

/-- `n` steps of the device. -/
def deviceSteps (D : BlkDevice δ) (n : ℕ) (s : Shared δ) : Shared δ := (deviceStep D)^[n] s

/-! ### The driver -/

/-- `VirtqIsBusy`. -/
def virtqIsBusy (s : Shared δ) : Bool := s.virtq.last_used_index != s.virtq.used.index

/-- The memory of the request, as `ReadWriteDisk` writes it. -/
def formatRequest (m : ℕ → ℕ) (blk_req sector_idx : ℕ) (is_write : Bool) (buf : ℕ → ℕ) : ℕ → ℕ :=
  let m := setBytes m (blk_req + offsetofType) 4
    (Lib.byte (if is_write then kVirtioBlkTOut else kVirtioBlkTIn))
  let m := setBytes m (blk_req + offsetofReserved) 4 (Lib.byte 0)
  let m := setBytes m (blk_req + offsetofSector) 8 (Lib.byte sector_idx)
  let m := if is_write then setBytes m (blk_req + offsetofData) kDiskSectorSize buf else m
  setBytes m (blk_req + offsetofStatus) 1 fun _ => 0xff

/-- The three descriptors, as `ReadWriteDisk` writes them; the last keeps its `next`. -/
def formatDescs (descs : ℕ → VirtqDesc) (blk_req : ℕ) (is_write : Bool) : ℕ → VirtqDesc :=
  let descs := Function.update descs 0 ⟨blk_req, 4 * 2 + 8, kVRingDescFNext, 1⟩
  let descs := Function.update descs 1 ⟨blk_req + offsetofData, kDiskSectorSize,
    (if is_write then 0 else kVRingDescFWrite) ||| kVRingDescFNext, 2⟩
  Function.update descs 2
    ⟨blk_req + offsetofStatus, 1, kVRingDescFWrite, (descs 2).next⟩

/-- Formatting the three descriptors and the ring entry that leads to the first. -/
def format (s : Shared δ) (sector_idx : ℕ) (is_write : Bool) (buf : ℕ → ℕ) : Shared δ :=
  let desc_start_idx := 0
  { s with
    virtq := { s.virtq with
      descs := formatDescs s.virtq.descs s.virtq.blk_req is_write
      avail := { s.virtq.avail with
        ring := Function.update s.virtq.avail.ring (s.virtq.avail.index % kVirtQueueSize)
          desc_start_idx } }
    mem := formatRequest s.mem s.virtq.blk_req sector_idx is_write buf }

/-- The entry is published. -/
def publish (s : Shared δ) : Shared δ :=
  { s with virtq := { s.virtq with
      avail := { s.virtq.avail with index := (s.virtq.avail.index + 1) % 2 ^ 16 } } }

/-- `virtq_->last_used_index++`. -/
def expect (s : Shared δ) : Shared δ :=
  { s with virtq := { s.virtq with last_used_index := (s.virtq.last_used_index + 1) % 2 ^ 16 } }

/-- **When the device makes its steps**, while a call is made: how many before the entry is
published, how many before the driver goes on to wait, and how many before each of its looks
at the ring. -/
structure Schedule where
  before : ℕ
  published : ℕ
  polls : List ℕ

/-- The loop that waits, with the looks it may still take. -/
def waitLoop (D : BlkDevice δ) : List ℕ → Shared δ → Except Fault (Shared δ)
  | [], _ => .error .outOfFuel
  | n :: polls, s =>
    let s := deviceSteps D n s
    if virtqIsBusy s then waitLoop D polls s else .ok s

/-- A call of `ReadDisk` or `WriteDisk`. -/
structure Call where
  buf : ℕ → ℕ
  sector_idx : ℕ
  is_write : Bool
  schedule : Schedule

/-- What a call comes back with. -/
structure Returned (δ : Type) where
  ok : Bool
  buf : ℕ → ℕ
  shared : Shared δ

/-- `ReadWriteDisk`. -/
def readWriteDisk (D : BlkDevice δ) (s : Shared δ) (c : Call) : Except Fault (Returned δ) := do
  let sector_nums := getDiskCapacity D.DEVICE_CONFIG_SPACE0 / kDiskSectorSize
  if c.sector_idx ≥ sector_nums then return ⟨false, c.buf, s⟩
  else
    let s := deviceSteps D c.schedule.before (format s c.sector_idx c.is_write c.buf)
    let s := deviceSteps D c.schedule.published (publish s)
    let s ← waitLoop D c.schedule.polls (expect s)
    if s.mem (s.virtq.blk_req + offsetofStatus) ≠ kVirtioBlkStatusOk then
      return ⟨false, c.buf, s⟩
    else if c.is_write then return ⟨true, c.buf, s⟩
    else return ⟨true, setBytes c.buf 0 kDiskSectorSize fun i =>
      s.mem (s.virtq.blk_req + offsetofData + i), s⟩

end VirtioBlk

end Evisor
