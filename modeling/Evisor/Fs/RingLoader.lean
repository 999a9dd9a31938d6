import Evisor.Drivers.VirtioBlkInit
import Evisor.Fs.Loader
import Evisor.Mm.UncachedSafe

/-!
# Loading through the ring

`LoaderLoadFile` of the QEMU board, with the driver below it. Every load brings the device up
anew: `VirtioBlk::Init` takes three pages of the uncached region, which are never given back,
and then each sector is a request on the ring.

`Evisor.loaderLoadFile` knows the disk only as the bytes of its sectors and whether each of them
can be read. Whether a sector can be read is up to the device, which may answer by all that it
has been asked before; but a load asks for the sectors in order, so that its answers can be
written down beforehand (`Evisor.RingLoader.diskOf`).

The ring of a load starts consistent when its pages are clear. Where the region is clear to
begin with this is so for every load, since no load writes behind the pages that it has taken
(`Evisor.RingLoader.Region`), and a run of loads is a run of the loader on disks with the bytes
of the device (`Evisor.RingLoader.loads_right`). The device has to have fewer than `2 ^ 23`
sectors, so that its size in bytes is a 32-bit word.
-/

namespace Evisor

namespace RingLoader

open VirtioBlk

variable {δ ρ : Type}

/-- A device of bytes. -/
structure ByteDevice (δ : Type) extends BlkDevice δ where
  config_lt : DEVICE_CONFIG_SPACE0 < 2 ^ 32
  contents_lt : ∀ s x i, contents s x i < 256

/-! ### The loader over the ring -/

/-- `VirtioBlk::ReadDisk`, at a place in memory. -/
def readDisk (D : BlkDevice δ) (t : Schedule) (r : Shared δ) (m : Mem) (buf sector_idx : ℕ) :
    Except Fault (Bool × Mem × Shared δ) := do
  let c ← readWriteDisk D r ⟨fun i => m.byte (buf + i), sector_idx, false, t⟩
  return (c.ok, if c.ok then m.memcpy buf c.buf kDiskSectorSize else m, c.shared)

/-- The inner loop of `LoaderLoadFile`, with the passes left. The device makes its steps as the
schedule of the sector says. -/
def loadSectors (D : BlkDevice δ) (t : ℕ → Schedule) :
    ℕ → Loading → Shared δ → Except Fault (Bool × Loading × Shared δ)
  | 0, v, r => .ok (true, v, r)
  | left + 1, v, r =>
    if v.sector_remains = 0 then .ok (true, v, r)
    else do
      let c ← readDisk D (t v.sector_offset) r v.mem v.buf v.sector_offset
      if c.1 then
        loadSectors D t left ⟨c.2.1, v.buf + kDiskSectorSize, v.sector_remains - 1,
          (v.sector_offset + 1) % 2 ^ 32⟩ c.2.2
      else return (false, { v with mem := c.2.1 }, c.2.2)

/-- The outer loop, with the passes it may still make. -/
def loadPages (L : Layout) (D : BlkDevice δ) (t : ℕ → Schedule) (tsk : TaskId) :
    ℕ → Memory → Shared δ → (cur sector_remains sector_offset : ℕ) →
      Except Fault (Bool × Memory × Shared δ)
  | 0, s, r, _, sector_remains, _ =>
    if sector_remains = 0 then .ok (true, s, r) else .error .outOfFuel
  | fuel + 1, s, r, cur, sector_remains, sector_offset =>
    if sector_remains = 0 then .ok (true, s, r)
    else do
      let (buf, s) ← pageMap L s tsk cur
      let c ← loadSectors D t (PAGE_SIZE / kDiskSectorSize)
        ⟨s.mm.mem, buf, sector_remains, sector_offset⟩ r
      let s := { s with mm := { s.mm with mem := c.2.1.mem } }
      if c.1 then
        loadPages L D t tsk fuel s c.2.2 ((cur + PAGE_SIZE) % 2 ^ 64) c.2.1.sector_remains
          c.2.1.sector_offset
      else return (false, s, c.2.2)

/-- What loads leave to one another: the uncached region and the device. -/
structure System (δ : Type) where
  map : RegionMap
  mem : ℕ → ℕ
  device : δ

/-- A call of `LoaderLoadFile`, and what is not up to it: the memory of the guests and the
registers as it finds them, when the device makes its steps, and what the ring leaves in the
pages of the queue. -/
structure Load (ρ : Type) where
  tsk : TaskId
  va : ℕ
  memory : Memory
  regs : ρ
  schedule : ℕ → Schedule
  queue : ℕ → ℕ

/-- `LoaderLoadFile`, with `VirtioBlk::Init`. -/
def loaderLoadFile (L : Layout) (R : VirtioRegs ρ) (D : BlkDevice δ) (s : System δ)
    (l : Load ρ) : Except Fault ((Bool × Memory) × System δ) := do
  let t ← init L R ⟨l.regs, s.map, s.mem, 0⟩
  let sector_remains := getDiskCapacity D.DEVICE_CONFIG_SPACE0 / kDiskSectorSize
  let r ← loadPages L D l.schedule l.tsk sector_remains l.memory (t.shared s.device)
    (l.va &&& PAGE_MASK) sector_remains 0
  let mem := fun a =>
    if t.virtq_ ≤ a ∧ a < t.virtq_ + sizeofVirtq then l.queue a else r.2.2.mem a
  return ((r.1, r.2.1), ⟨t.map, mem, r.2.2.device⟩)

/-- Loads, one after the other, and what each comes back with. -/
def loadAll (L : Layout) (R : VirtioRegs ρ) (D : BlkDevice δ) :
    List (Load ρ) → System δ → Except Fault (List (Bool × Memory) × System δ)
  | [], s => .ok ([], s)
  | l :: loads, s => do
    let r ← loaderLoadFile L R D s l
    let rs ← loadAll L R D loads r.2
    return (r.1 :: rs.1, rs.2)

/-! ### What the device answers -/

/-- The request for a sector. -/
def request (sector_idx : ℕ) : Call := ⟨fun _ => 0, sector_idx, false, ⟨0, 0, []⟩⟩

/-- The ring after the first `n` sectors have been asked for, one after the other. -/
def ringAt (D : BlkDevice δ) (r : Shared δ) : ℕ → Shared δ
  | 0 => r
  | n + 1 => expect (answered D (ringAt D r n) (request n))

/-- **The disk that a load finds**: the bytes of the device, and the sectors that it will
answer. -/
def diskOf (D : ByteDevice δ) (r : Shared δ) : Disk where
  DEVICE_CONFIG_SPACE0 := D.DEVICE_CONFIG_SPACE0
  byte k := D.contents r.device (k / kDiskSectorSize) (k % kDiskSectorSize)
  readable n := (answer D.toBlkDevice (ringAt D.toBlkDevice r n) (request n)).status ==
    kVirtioBlkStatusOk
  config_lt := D.config_lt
  byte_lt _ := D.contents_lt r.device _ _

variable {D : ByteDevice δ} {r : Shared δ}

theorem ready_ringAt (h : Ready r) (D : BlkDevice δ) (n : ℕ) : Ready (ringAt D r n) := by
  induction n with
  | zero => exact h
  | succ n ih => exact ready_answered ih D (request n)

/-- Reading changes no sector. -/
theorem contents_ringAt (D : BlkDevice δ) (r : Shared δ) (n : ℕ) :
    D.contents (ringAt D r n).device = D.contents r.device := by
  induction n with
  | zero => rfl
  | succ n ih => exact (D.read_contents _ _ _).trans ih

/-- Where the request is does not change. -/
theorem blk_req_ringAt (D : BlkDevice δ) (r : Shared δ) (n : ℕ) :
    (ringAt D r n).virtq.blk_req = r.virtq.blk_req := by
  induction n with
  | zero => rfl
  | succ n ih => exact ih

/-- **Only the request** is written by reading. -/
theorem mem_ringAt (D : BlkDevice δ) (r : Shared δ) (n : ℕ) {a : ℕ}
    (ha : a < r.virtq.blk_req ∨ r.virtq.blk_req + sizeofVirtioBlkReq ≤ a) :
    (ringAt D r n).mem a = r.mem a := by
  induction n with
  | zero => rfl
  | succ n ih =>
    rw [← ih]
    have hreq := blk_req_ringAt D r n
    change servedMem D (ringAt D r n) (request n) a = _
    simp only [servedMem, request, Bool.false_eq_true, if_false, hreq, formatRequest]
    simp only [sizeofVirtioBlkReq] at ha
    repeat rw [setBytes_out (by
      simp only [offsetofStatus, offsetofData, offsetofSector, offsetofReserved, offsetofType,
        kDiskSectorSize]
      omega)]

/-! ### Filling a page -/

theorem setBytes_congr (m : ℕ → ℕ) (addr : ℕ) {n : ℕ} {f g : ℕ → ℕ} (h : ∀ i < n, f i = g i) :
    setBytes m addr n f = setBytes m addr n g := by
  funext a
  simp only [setBytes]
  split_ifs with ha
  · exact h _ (by omega)
  · rfl

/-- A device that reads does not look at the buffer. -/
theorem answered_read (D : BlkDevice δ) (r : Shared δ) (buf : ℕ → ℕ) (sector_idx : ℕ)
    (t : Schedule) : answered D r ⟨buf, sector_idx, false, t⟩ = answered D r (request sector_idx) :=
  rfl

/-- **A read of a sector that is there**: it comes back when the device has served it, with the
data of the answer. -/
theorem readWriteDisk_read (h : Ready r) (D : BlkDevice δ) (buf : ℕ → ℕ) {t : Schedule}
    (ht : t.Serves) {sector_idx : ℕ} (hidx : sector_idx < 2 ^ 64)
    (hsector : sector_idx < D.sector_nums) :
    readWriteDisk D r ⟨buf, sector_idx, false, t⟩ =
      .ok ⟨(answer D r (request sector_idx)).status == kVirtioBlkStatusOk,
        if (answer D r (request sector_idx)).status == kVirtioBlkStatusOk then
          setBytes buf 0 kDiskSectorSize (answer D r (request sector_idx)).data
        else buf,
        expect (answered D r (request sector_idx))⟩ := by
  have hbefore : deviceSteps D t.before (format r sector_idx false buf) =
      format r sector_idx false buf :=
    deviceSteps_of_rest (s := format r sector_idx false buf) h.phase h.seen _
  have hpublish : publish (format r sector_idx false buf) =
      published r ⟨buf, sector_idx, false, t⟩ := rfl
  have hwait := waitLoop_published (D := D) h ⟨buf, sector_idx, false, t⟩ hidx ht
  rw [answered_read] at hwait
  have hmem : (expect (answered D r (request sector_idx))).mem =
      servedMem D r (request sector_idx) := rfl
  have hreq : (expect (answered D r (request sector_idx))).virtq.blk_req = r.virtq.blk_req := rfl
  have hnums : getDiskCapacity D.DEVICE_CONFIG_SPACE0 / kDiskSectorSize = D.sector_nums := rfl
  rw [readWriteDisk, hnums]
  dsimp only at hwait ⊢
  rw [if_neg (not_le.mpr hsector), hbefore, hpublish, hwait, Lib.ok_bind, hmem, hreq,
    servedMem_status]
  by_cases hok : (answer D r (request sector_idx)).status = kVirtioBlkStatusOk
  · rw [if_neg (not_not.mpr hok), if_neg Bool.false_ne_true, beq_iff_eq.mpr hok, if_pos rfl]
    have hdata : ∀ i < kDiskSectorSize, servedMem D r (request sector_idx)
        (r.virtq.blk_req + offsetofData + i) = (answer D r (request sector_idx)).data i :=
      fun i hi => servedMem_data D r rfl hi
    rw [setBytes_congr _ _ hdata]
    rfl
  · rw [if_pos hok, beq_eq_false_iff_ne.mpr hok, if_neg Bool.false_ne_true]
    rfl

/-- **One sector**: the request is served, and its sector is copied if the device says so. -/
theorem readDisk_spec (h : Ready r) {t : Schedule} (ht : t.Serves) (m : Mem) {buf sector_idx : ℕ}
    (hbuf : buf % 8 = 0) (hsector : sector_idx < D.sector_nums) :
    ∃ m', readDisk D.toBlkDevice t r m buf sector_idx =
        .ok ((answer D.toBlkDevice r (request sector_idx)).status == kVirtioBlkStatusOk, m',
          expect (answered D.toBlkDevice r (request sector_idx))) ∧
      (∀ a, ¬(buf ≤ a ∧ a < buf + kDiskSectorSize) → m' a = m a) ∧
      ((answer D.toBlkDevice r (request sector_idx)).status = kVirtioBlkStatusOk →
        ∀ i < kDiskSectorSize, m'.byte (buf + i) = D.contents r.device sector_idx i) := by
  have hidx : sector_idx < 2 ^ 64 := (hsector.trans D.sector_nums_lt).trans (by decide)
  have hread := readWriteDisk_read h D.toBlkDevice (fun i => m.byte (buf + i)) ht hidx hsector
  rw [readDisk, hread, Lib.ok_bind]
  cases hok : (answer D.toBlkDevice r (request sector_idx)).status == kVirtioBlkStatusOk with
  | false =>
    refine ⟨m, rfl, fun _ _ => rfl, fun hstatus => ?_⟩
    rw [hstatus] at hok
    cases hok
  | true =>
    refine ⟨_, rfl, fun a ha => ?_, fun hstatus i hi => ?_⟩
    · rw [if_pos rfl, Mem.memcpy, if_neg ha]
    · have hdata : ∀ i < kDiskSectorSize, (answer D.toBlkDevice r (request sector_idx)).data i =
          D.contents r.device sector_idx i := D.read_data r.device sector_idx _ hstatus
      have hbyte : ∀ i, setBytes (fun i => m.byte (buf + i)) 0 kDiskSectorSize
          (answer D.toBlkDevice r (request sector_idx)).data i < 256 := by
        intro i
        by_cases hi : i < kDiskSectorSize
        · rw [setBytes_zero hi, hdata i hi]
          exact D.contents_lt ..
        · rw [setBytes_out (.inr (by omega))]
          exact Nat.mod_lt _ (by decide)
      simp only [if_true]
      rw [Mem.memcpy_byte _ hbuf rfl hbyte, if_pos (by omega), Nat.add_sub_cancel_left,
        setBytes_zero hi]
      exact hdata i hi

/-- **A sector and those behind it**, when it has been copied. -/
theorem filled_cons {d : Disk} {v v' : Loading} {n : ℕ} {m : Mem} (hbuf : v.buf % 8 = 0)
    (hremains : v.sector_remains ≠ 0) (hread : d.readable v.sector_offset = true)
    (hout : ∀ a, ¬(v.buf ≤ a ∧ a < v.buf + kDiskSectorSize) → m a = v.mem a)
    (hbytes : ∀ i < kDiskSectorSize,
      m.byte (v.buf + i) = d.byte (v.sector_offset * kDiskSectorSize + i))
    (h : Filled d n ⟨m, v.buf + kDiskSectorSize, v.sector_remains - 1, v.sector_offset + 1⟩ v') :
    Filled d (n + 1) v v' := by
  obtain ⟨hoff, hrem, hreadable, hrest, hkept⟩ := h
  dsimp only [kDiskSectorSize] at *
  refine ⟨by omega, by omega, fun k hk => ?_, fun k hk => ?_, fun a ha => ?_⟩
  · cases k with
    | zero => exact hread
    | succ k =>
      have hk := hreadable k (by omega)
      rwa [Nat.add_assoc, Nat.add_comm 1 k] at hk
  · dsimp only [kDiskSectorSize] at hk ⊢
    by_cases hfirst : k < 512
    · rw [Mem.byte_congr (hkept ((v.buf + k) / 8 * 8) (by omega))]
      exact hbytes k hfirst
    · have hrest := hrest (k - 512) (by omega)
      rw [show v.buf + 512 + (k - 512) = v.buf + k by omega] at hrest
      exact hrest.trans (congrArg d.byte (by omega))
  · dsimp only [kDiskSectorSize] at ha
    rw [hkept a (by omega), hout a (by omega)]

theorem diskOf_byte (D : ByteDevice δ) (r : Shared δ) (sector_idx : ℕ) {i : ℕ}
    (hi : i < kDiskSectorSize) : (diskOf D r).byte (sector_idx * kDiskSectorSize + i) =
      D.contents r.device sector_idx i := by
  have hdiv : (sector_idx * kDiskSectorSize + i) / kDiskSectorSize = sector_idx := by
    simp only [kDiskSectorSize] at hi ⊢
    omega
  have hmod : (sector_idx * kDiskSectorSize + i) % kDiskSectorSize = i := by
    simp only [kDiskSectorSize] at hi ⊢
    omega
  simp only [diskOf, hdiv, hmod]

/-- **The inner loop** reads as many sectors as there are passes and sectors left, or stops at
one that the device does not answer. -/
theorem loadSectors_spec (h : Ready r) {t : ℕ → Schedule} (ht : ∀ n, (t n).Serves) (left : ℕ)
    {v : Loading} (hbuf : v.buf % 8 = 0)
    (hlt : v.sector_offset + v.sector_remains ≤ D.sector_nums) :
    ∃ ok v' n, loadSectors D.toBlkDevice t left v (ringAt D.toBlkDevice r v.sector_offset) =
        .ok (ok, v', ringAt D.toBlkDevice r n) ∧
      (ok = true → Filled (diskOf D r) (min left v.sector_remains) v v' ∧ n = v'.sector_offset) ∧
      (ok = false → ∃ k < D.sector_nums, (diskOf D r).readable k = false) ∧
      ∀ a, ¬(v.buf ≤ a ∧ a < v.buf + left * kDiskSectorSize) → v'.mem a = v.mem a := by
  induction left generalizing v with
  | zero =>
    rw [loadSectors, Nat.zero_min]
    exact ⟨true, v, _, rfl, fun _ => ⟨.refl _ v, rfl⟩, fun h => (by cases h), fun _ _ => rfl⟩
  | succ left ih =>
    rw [loadSectors]
    by_cases hremains : v.sector_remains = 0
    · rw [if_pos hremains, hremains, Nat.min_zero]
      exact ⟨true, v, _, rfl, fun _ => ⟨.refl _ v, rfl⟩, fun h => (by cases h), fun _ _ => rfl⟩
    rw [if_neg hremains]
    have hsector : v.sector_offset < D.sector_nums := by omega
    have hnowrap : (v.sector_offset + 1) % 2 ^ 32 = v.sector_offset + 1 :=
      Nat.mod_eq_of_lt ((Nat.succ_le_of_lt hsector).trans_lt (D.sector_nums_lt.trans (by decide)))
    obtain ⟨m, hread, hout, hbytes⟩ := readDisk_spec (ready_ringAt h D.toBlkDevice v.sector_offset)
      (ht v.sector_offset) v.mem hbuf hsector
    rw [hread, Lib.ok_bind]
    dsimp only
    cases hok : (answer D.toBlkDevice (ringAt D.toBlkDevice r v.sector_offset)
      (request v.sector_offset)).status == kVirtioBlkStatusOk with
    | false =>
      refine ⟨false, _, v.sector_offset + 1, rfl, fun h => (by cases h), fun _ =>
        ⟨v.sector_offset, hsector, hok⟩, fun a ha => hout a ?_⟩
      simp only [kDiskSectorSize] at ha ⊢
      omega
    | true =>
      rw [if_pos rfl, hnowrap]
      obtain ⟨ok, v', n, hrun, hfilled, hfail, hkept⟩ := ih
        (v := ⟨m, v.buf + kDiskSectorSize, v.sector_remains - 1, v.sector_offset + 1⟩)
        (by simp only [kDiskSectorSize]; omega) (by dsimp only; omega)
      refine ⟨ok, v', n, hrun, fun h => ?_, hfail, fun a ha => ?_⟩
      · obtain ⟨hf, hn⟩ := hfilled h
        rw [show min (left + 1) v.sector_remains = min left (v.sector_remains - 1) + 1 by omega]
        refine ⟨filled_cons hbuf hremains hok hout (fun i hi => ?_) hf, hn⟩
        rw [hbytes (beq_iff_eq.mp hok) i hi, contents_ringAt, diskOf_byte D r _ hi]
      · simp only [kDiskSectorSize] at ha hout hkept
        rw [hkept a (by omega), hout a (by omega)]

/-! ### Giving the pages -/

/-- **What the outer loop comes to**: all pages are loaded, or a sector is not answered; the
ring has been used for sectors only. -/
structure Ends (L : Layout) (D : ByteDevice δ) (r : Shared δ) (s : Memory) (tsk : TaskId)
    (va : ℕ) (x : Bool × Memory × Shared δ) : Prop where
  loaded : x.1 = true → (∃ pg, Loaded L (diskOf D r) s tsk va (diskOf D r).pages pg x.2.1) ∧
    ∀ k < D.sector_nums, (diskOf D r).readable k = true
  failed : x.1 = false → ∃ k < D.sector_nums, (diskOf D r).readable k = false
  ring : ∃ n, x.2.2 = ringAt D.toBlkDevice r n

variable {L : Layout} {s s' : Memory} {tsk : TaskId} {va n : ℕ} {pg : ℕ → ℕ}
  {cur sector_remains sector_offset : ℕ}

theorem loadPages_spec (h : Ready r) {t : ℕ → Schedule} (ht : ∀ n, (t n).Serves) {fuel : ℕ}
    (hl : Loaded L (diskOf D r) s tsk va n pg s')
    (hprog : Progress (diskOf D r) va n cur sector_remains sector_offset)
    (hfuel : sector_remains ≤ fuel) (hva : va % PAGE_SIZE = 0)
    (hfit : va + (diskOf D r).pages * PAGE_SIZE ≤ 2 ^ 36) :
    Lib.Gives (loadPages L D.toBlkDevice t tsk fuel s' (ringAt D.toBlkDevice r sector_offset) cur
      sector_remains sector_offset) (Ends L D r s tsk va) Fault.IsPanic := by
  induction fuel generalizing n pg s' cur sector_remains sector_offset with
  | zero =>
    rw [loadPages, if_pos (Nat.le_zero.mp hfuel)]
    exact .of_ok ⟨fun _ => hl.done hprog (Nat.le_zero.mp hfuel), fun h => (by cases h), _, rfl⟩
  | succ fuel ih =>
    rw [loadPages]
    by_cases hremains : sector_remains = 0
    · rw [if_pos hremains]
      exact .of_ok ⟨fun _ => hl.done hprog hremains, fun h => (by cases h), _, rfl⟩
    rw [if_neg hremains]
    cases hp : pageMap L s' tsk cur with
    | error f => exact .of_error (pageMap_error hp).isPanic
    | ok x =>
      -- a page has been taken, and is filled up to a sector that is not answered
      obtain ⟨buf, s₁⟩ := x
      rw [Lib.ok_bind]
      dsimp only
      obtain ⟨i, rfl, hi⟩ := pageMap_ok hl.inv hp
      obtain ⟨hal, -, -⟩ := (inUser_userPage L hi.index).bounds
      have htotal : sector_offset + sector_remains = D.sector_nums := hprog.total
      obtain ⟨ok, v', m, hrun, hfilled, hfail, -⟩ := loadSectors_spec (D := D) h ht
        (PAGE_SIZE / kDiskSectorSize)
        (v := ⟨s₁.mm.mem, L.userPage i, sector_remains, sector_offset⟩) (by dsimp only; omega)
        htotal.le
      rw [hrun, Lib.ok_bind]
      dsimp only
      cases ok with
      | false => exact .of_ok ⟨fun h => (by cases h), fun _ => hfail rfl, _, rfl⟩
      | true =>
        obtain ⟨hv, rfl⟩ := hfilled rfl
        obtain ⟨pg', hl'⟩ := hl.pass hprog hremains hva hfit hp hv
        have hrest : v'.sector_remains + min 8 sector_remains = sector_remains := hv.remains
        rw [if_pos rfl]
        exact ih hl' (hprog.step hremains hfit hv) (show v'.sector_remains ≤ fuel by omega)

/-! ### The pages of the queue -/

/-- **The uncached region** with the first `n` pages taken, and all others clear. -/
structure Region (L : Layout) (n : ℕ) (map : RegionMap) (mem : ℕ → ℕ) : Prop where
  used : ∀ p : Fin kRegionPageNums, (map p).ref_count ≠ 0 ↔ p.val < n
  clear : ∀ a, L.kUncachedStart + n * PAGE_SIZE ≤ a → a < L.kUncachedStart + kUncachedSize →
    mem a = 0

variable {map : RegionMap} {mem : ℕ → ℕ}

theorem numPages_sizeofVirtq : numPages (alignUp sizeofVirtq) = 2 := by decide

theorem numPages_sizeofVirtioBlkReq : numPages (alignUp sizeofVirtioBlkReq) = 1 := by decide

variable {R : VirtioRegs ρ}

theorem check_gives (R : VirtioRegs ρ) (regs : ρ) (reg : VirtioReg) (ok : ℕ → Bool)
    (msg : String) : Lib.Gives (R.check regs reg ok msg) (fun _ => True) Fault.IsPanic := by
  rw [VirtioRegs.check]
  split
  · exact .of_ok trivial
  · exact .of_error trivial

/-- `DeviceInit` fails by a check only. -/
theorem deviceInit_gives (R : VirtioRegs ρ) (regs : ρ) :
    Lib.Gives (deviceInit R regs) (fun _ => True) Fault.IsPanic := by
  refine (check_gives ..).bind fun _ _ => (check_gives ..).bind fun _ _ =>
    (check_gives ..).bind fun _ _ => ?_
  exact check_gives ..

/-- **What `Init` leaves**: the queue and the request are on the next three pages, and nothing
has been published. -/
structure Fresh (L : Layout) (n : ℕ) (t : Driver ρ) : Prop where
  virtq : t.virtq_ = L.kUncachedStart + n * PAGE_SIZE
  req : (virtqAt t.mem t.virtq_).blk_req = L.kUncachedStart + (n + 2) * PAGE_SIZE
  avail : (virtqAt t.mem t.virtq_).avail.index = 0
  region : Region L (n + 3) t.map t.mem

/-- `Init` fails by a check only, as long as there are pages left. -/
theorem init_error (h : Region L n map mem) (hfit : n + 3 ≤ kRegionPageNums) (regs : ρ) {f : Fault}
    (hf : init L R ⟨regs, map, mem, 0⟩ = .error f) : f.IsPanic := by
  obtain ⟨hqueue, hmarked⟩ := Uncached.malloc_of_used (Uncached.region_end L)
    (alignUp sizeofVirtq) h.used
    (by rw [numPages_sizeofVirtq]; omega) (by rw [numPages_sizeofVirtq]; omega)
  rw [numPages_sizeofVirtq] at hqueue hmarked
  obtain ⟨hreq, -⟩ := Uncached.malloc_of_used (Uncached.region_end L)
    (alignUp sizeofVirtioBlkReq) hmarked
    (by rw [numPages_sizeofVirtioBlkReq]; omega) (by rw [numPages_sizeofVirtioBlkReq]; omega)
  have hgives : Lib.Gives (init L R ⟨regs, map, mem, 0⟩) (fun _ => True) Fault.IsPanic := by
    refine (deviceInit_gives R regs).bind fun regs _ => ?_
    refine Lib.Gives.bind (P := fun s => s.map = Uncached.marked map n 2) ?_ fun s hs => ?_
    · rw [blockDeviceInit]
      dsimp only
      rw [hqueue, Lib.ok_bind]
      exact (check_gives ..).bind fun _ _ => .of_ok rfl
    · dsimp only
      rw [hs, hreq, Lib.ok_bind]
      exact .of_ok trivial
  exact hgives.error f hf

theorem init_fresh (h : Region L n map mem) (hfit : n + 3 ≤ kRegionPageNums) {regs : ρ}
    {t : Driver ρ} (ht : init L R ⟨regs, map, mem, 0⟩ = .ok t) : Fresh L n t := by
  obtain ⟨hqueue, hmarked⟩ := Uncached.malloc_of_used (Uncached.region_end L)
    (alignUp sizeofVirtq) h.used
    (by rw [numPages_sizeofVirtq]; omega) (by rw [numPages_sizeofVirtq]; omega)
  rw [numPages_sizeofVirtq] at hqueue hmarked
  obtain ⟨hreq, hmarked'⟩ := Uncached.malloc_of_used (Uncached.region_end L)
    (alignUp sizeofVirtioBlkReq) hmarked
    (by rw [numPages_sizeofVirtioBlkReq]; omega) (by rw [numPages_sizeofVirtioBlkReq]; omega)
  rw [numPages_sizeofVirtioBlkReq] at hreq hmarked'
  obtain ⟨map', req, hvirtq, hblk, hmem⟩ := init_ok ht
  obtain ⟨hv, rfl⟩ := Prod.mk.inj (Except.ok.inj (hqueue.symm.trans hvirtq))
  obtain ⟨rfl, hmap⟩ := Prod.mk.inj (Except.ok.inj (hreq.symm.trans hblk))
  have hend : L.kUncachedStart + kUncachedSize < 2 ^ 36 := by
    have := L.uncached_end
    have := L.user_end
    simp only [kUserSize] at *
    omega
  have hpages : n * PAGE_SIZE + 3 * PAGE_SIZE ≤ kUncachedSize := by
    simp only [kRegionPageNums, PAGE_SIZE, kUncachedSize] at *
    omega
  refine ⟨hv.symm, ?_, ?_, ?_, fun a ha hlt => ?_⟩
  · simp only [virtqAt, hmem]
    rw [getBytes_setBytes_self, Lib.ofBytes_byte]
    simp only [PAGE_SIZE] at *
    omega
  · rw [init_avail ht]
    refine Lib.ofBytes_eq_zero.mpr fun i hi => h.clear _ ?_ ?_
    · rw [← hv]
      omega
    · rw [← hv]
      simp only [PAGE_SIZE, offsetofAvail, offsetofIndex] at *
      omega
  · rw [← hmap]
    exact hmarked'
  · have hle : L.kUncachedStart + n * PAGE_SIZE ≤ a :=
      (Nat.add_le_add_left (Nat.mul_le_mul_right _ (Nat.le_add_right n 3)) _).trans ha
    rw [hmem, ← hv]
    simp only [PAGE_SIZE] at *
    rw [setBytes_out (by simp only [offsetofBlkReq]; omega),
      setBytes_out (by simp only [offsetofLastUsedIndex]; omega),
      setBytes_out (by simp only [offsetofUsed, offsetofIndex]; omega)]
    exact h.clear a hle hlt

/-! ### Loads -/

/-- **What a load does**: it gives the guest the sectors of the device, as `contents` has them,
or fails because the device does not answer one. -/
structure Loads (L : Layout) (D : ByteDevice δ) (contents : ℕ → ℕ → ℕ) (l : Load ρ)
    (x : Bool × Memory) : Prop where
  image : x.1 = true → ∃ (d : Disk) (pg : ℕ → ℕ), d.capacity = D.sectors * kDiskSectorSize ∧
    (∀ k, d.byte k = contents (k / kDiskSectorSize) (k % kDiskSectorSize)) ∧
    ImageAt L d l.memory l.tsk l.va pg x.2
  failed : x.1 = false → ∃ st, D.contents st = contents ∧ ∃ k < D.sectors, ∃ data,
    (D.serve st kVirtioBlkTIn k data).status ≠ kVirtioBlkStatusOk

/-- What a load relies on: the tables of the guests are in order, the address is that of a page
and leaves room for the disk, and the device gets to serve what is published. -/
structure Load.Legal (L : Layout) (D : BlkDevice δ) (l : Load ρ) : Prop where
  tree : l.memory.mm.Inv L
  aligned : l.va % PAGE_SIZE = 0
  room : l.va + D.sectors * kDiskSectorSize < 2 ^ 36
  serves : ∀ n, (l.schedule n).Serves

variable {l : Load ρ}

/-- The loader is told of all sectors. -/
theorem capacity_diskOf (hn : D.sectors < 2 ^ 23) (r : Shared δ) :
    (diskOf D r).capacity = D.sectors * kDiskSectorSize := by
  simp only [BlkDevice.sectors] at hn ⊢
  simp only [Disk.capacity, diskOf, getDiskCapacity, kDiskSectorSize]
  omega

/-- What the outer loop comes to is what a load does. -/
theorem Ends.loads (hn : D.sectors < 2 ^ 23) {x : Bool × Memory × Shared δ}
    (hl : l.Legal L D.toBlkDevice) (h : Ends L D r l.memory l.tsk l.va x) :
    Loads L D (D.contents r.device) l (x.1, x.2.1) where
  image hok := by
    obtain ⟨⟨pg, hloaded⟩, -⟩ := h.loaded hok
    exact ⟨diskOf D r, pg, capacity_diskOf hn r, fun _ => rfl,
      hloaded.imageAt hl.tree hl.aligned⟩
  failed hfail := by
    obtain ⟨k, hk, hread⟩ := h.failed hfail
    exact ⟨_, contents_ringAt D.toBlkDevice r k, k, hk.trans_le D.sector_nums_le, _,
      beq_eq_false_iff_ne.mp hread⟩

/-- **One load**, on pages that are clear. -/
theorem loaderLoadFile_gives (hn : D.sectors < 2 ^ 23) {s : System δ}
    (h : Region L n s.map s.mem) (hfit : n + 3 ≤ kRegionPageNums) (hl : l.Legal L D.toBlkDevice) :
    Lib.Gives (loaderLoadFile L R D.toBlkDevice s l)
      (fun x => Loads L D (D.contents s.device) l x.1 ∧ Region L (n + 3) x.2.map x.2.mem ∧
        D.contents x.2.device = D.contents s.device) Fault.IsPanic := by
  refine Lib.Gives.bind (P := fun t => Fresh L n t ∧ Ready (t.shared s.device))
    ⟨fun t ht => ?_, fun f hf => init_error h hfit l.regs hf⟩ fun t ht => ?_
  · have hfresh := init_fresh h hfit ht
    exact ⟨hfresh, init_ready ht s.device hfresh.avail⟩
  obtain ⟨hfresh, hready⟩ := ht
  have hcap := (diskOf D (t.shared s.device)).capacity_eq
  have hall := capacity_diskOf hn (t.shared s.device)
  have hmask : l.va &&& PAGE_MASK = l.va :=
    Mm.and_pageMask_of_aligned (by have := hl.room; omega) hl.aligned
  have hroom : l.va + (diskOf D (t.shared s.device)).pages * PAGE_SIZE ≤ 2 ^ 36 := by
    have halign := hl.aligned
    have hlt : l.va + (diskOf D (t.shared s.device)).capacity < 2 ^ 36 := hall ▸ hl.room
    simp only [Disk.pages, PAGE_SIZE, kDiskSectorSize] at halign hcap ⊢
    omega
  have hstart : Progress (diskOf D (t.shared s.device)) l.va 0 l.va D.sector_nums 0 :=
    ⟨by rw [Nat.zero_mul, Nat.add_zero], Nat.zero_add _, fun _ => rfl,
      fun hzero => by
        have hsectors : (diskOf D (t.shared s.device)).sectors = 0 := hzero
        rw [Disk.pages, hsectors], fun k hk => absurd hk (Nat.not_lt_zero k)⟩
  have hpages := loadPages_spec hready hl.serves
    (.refl hl.tree (diskOf D (t.shared s.device)) l.tsk l.va id) hstart le_rfl hl.aligned hroom
  dsimp only
  rw [hmask]
  refine Lib.Gives.bind hpages fun x hx => .of_ok ⟨hx.loads hn hl, ⟨hfresh.region.used, ?_⟩, ?_⟩
  · obtain ⟨k, hk⟩ := hx.ring
    intro a ha hlt
    have hqueue : ¬(t.virtq_ ≤ a ∧ a < t.virtq_ + sizeofVirtq) := by
      rw [hfresh.virtq]
      simp only [sizeofVirtq, PAGE_SIZE] at ha ⊢
      omega
    have hreq : (t.shared s.device).virtq.blk_req + sizeofVirtioBlkReq ≤ a := by
      change (virtqAt t.mem t.virtq_).blk_req + sizeofVirtioBlkReq ≤ a
      rw [hfresh.req]
      simp only [sizeofVirtioBlkReq, PAGE_SIZE] at ha ⊢
      omega
    dsimp only
    rw [if_neg hqueue, hk, mem_ringAt _ _ _ (.inr hreq)]
    exact hfresh.region.clear a ha hlt
  · obtain ⟨k, hk⟩ := hx.ring
    dsimp only
    rw [hk, contents_ringAt]
    rfl

/-- **A run of loads.** -/
theorem loadAll_gives (hn : D.sectors < 2 ^ 23) {loads : List (Load ρ)} {s : System δ}
    (h : Region L n s.map s.mem)
    (hfit : n + 3 * loads.length ≤ kRegionPageNums)
    (hlegal : ∀ l ∈ loads, l.Legal L D.toBlkDevice) :
    Lib.Gives (loadAll L R D.toBlkDevice loads s)
      (fun x => List.Forall₂ (Loads L D (D.contents s.device)) loads x.1 ∧
        D.contents x.2.device = D.contents s.device) Fault.IsPanic := by
  induction loads generalizing n s with
  | nil => exact .of_ok ⟨.nil, rfl⟩
  | cons l loads ih =>
    obtain ⟨hl, hrest⟩ := List.forall_mem_cons.mp hlegal
    rw [List.length_cons] at hfit
    refine (loaderLoadFile_gives hn h (by omega) hl).bind fun x hx => ?_
    obtain ⟨hloads, hregion, hsame⟩ := hx
    refine (ih hregion (by omega) hrest).bind fun y hy => .of_ok ?_
    rw [hsame] at hy
    exact ⟨.cons hloads hy.1, hy.2⟩

theorem nine_lt : 9 < 2 ^ 32 := by decide

/-- A disk of nine sectors that cannot be written to. -/
def readOnly : ByteDevice Unit where
  DEVICE_CONFIG_SPACE0 := 9
  serve _ type sector _ :=
    ⟨if type = kVirtioBlkTOut then 1 else kVirtioBlkStatusOk, fun i => (sector + i) % 256, ()⟩
  contents _ x i := (x + i) % 256
  status_lt _ type _ _ := by
    dsimp only
    split
    · decide
    · decide
  read_contents _ _ _ := rfl
  read_data _ _ _ _ _ _ := rfl
  write_other _ _ _ _ _ := rfl
  write_data _ _ _ h := (by cases h)
  config_lt := nine_lt
  contents_lt _ _ _ := Nat.mod_lt _ (by decide)

/-- A load for the first task of the QEMU board. -/
def firstLoad (memory : Memory) : Load (VirtioReg → ℕ) :=
  ⟨1, 0x40000000, memory, resetRegs, fun _ => ⟨0, 1, [1, 1]⟩, fun _ => 7⟩

/-- Whether two loads succeed, one after the other. -/
def loadsTwice : Bool :=
  match Lib.runFrom (Isolation.step .qemu BoardLayout.qemu.toLayout) .boot [.createTask] with
  | .ok s =>
    match loadAll BoardLayout.qemu.toLayout plainRegs readOnly.toBlkDevice
      [firstLoad s.memory, firstLoad s.memory] ⟨.zero, fun _ => 0, ()⟩ with
    | .ok r => r.1.all (·.1)
    | .error _ => false
  | .error _ => false

theorem loadsTwice_spec (h : loadsTwice = true) : ∃ s r,
    Lib.runFrom (Isolation.step .qemu BoardLayout.qemu.toLayout) .boot [.createTask] = .ok s ∧
      loadAll BoardLayout.qemu.toLayout plainRegs readOnly.toBlkDevice
        [firstLoad s.memory, firstLoad s.memory] ⟨.zero, fun _ => 0, ()⟩ = .ok r ∧
      r.1.all (·.1) = true := by
  rw [loadsTwice] at h
  split at h
  · rename_i s hs
    split at h
    · rename_i r hr
      exact ⟨s, r, hs, hr, h⟩
    · cases h
  · cases h

end RingLoader

end Evisor
