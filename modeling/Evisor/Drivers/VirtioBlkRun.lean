import Evisor.Drivers.VirtioBlk

/-!
# The disk as an array of sectors

Between two calls the ring is at rest (`Evisor.VirtioBlk.Ready`): the three indices agree,
and the device has taken all that was published. A call publishes one entry, and the three
steps of the device bring its index to the one the driver waits for, whenever they are made.
So a call returns as soon as they have been made, and what it does to the sectors is what
the device does (`Evisor.VirtioBlk.readWriteDisk_spec`).

Over a run of calls the disk is an array of sectors, each known from the last write to it
that succeeded, and unknown after one that failed (`Evisor.VirtioBlk.Refined`). That array is
as long as the register of the device says, as long as the capacity in bytes is a 32-bit word:
`Evisor.VirtioBlk.readWriteDisks_spec`.
-/

namespace Evisor

namespace VirtioBlk

variable {δ : Type} {D : BlkDevice δ} {s : Shared δ}

/-- **The ring is at rest.** -/
structure Ready (s : Shared δ) : Prop where
  used : s.virtq.used.index = s.virtq.avail.index
  last : s.virtq.last_used_index = s.virtq.avail.index
  seen : s.seen = s.virtq.avail.index
  phase : s.phase = .idle
  lt : s.virtq.avail.index < 2 ^ 16

/-- What the device makes of a call. -/
def answer (D : BlkDevice δ) (s : Shared δ) (c : Call) : Served δ :=
  D.serve s.device (if c.is_write then kVirtioBlkTOut else kVirtioBlkTIn) c.sector_idx fun i =>
    formatRequest s.mem s.virtq.blk_req c.sector_idx c.is_write c.buf
      (s.virtq.blk_req + offsetofData + i)

/-- The sectors there are: the register counts them. -/
def BlkDevice.sectors (D : BlkDevice δ) : ℕ := D.DEVICE_CONFIG_SPACE0

/-- The sectors that `ReadWriteDisk` takes to be there. -/
def BlkDevice.sector_nums (D : BlkDevice δ) : ℕ :=
  getDiskCapacity D.DEVICE_CONFIG_SPACE0 / kDiskSectorSize

/-- **The device gets to serve the call**: the driver looks at the ring, and the device has
made three steps by then. -/
def Schedule.Serves (t : Schedule) : Prop := t.polls ≠ [] ∧ 3 ≤ t.published + t.polls.sum

instance (t : Schedule) : Decidable t.Serves := inferInstanceAs (Decidable (_ ∧ _))

/-! ### The device at work -/

/-- A device at rest stays there. -/
theorem deviceSteps_of_rest (hphase : s.phase = .idle) (hseen : s.seen = s.virtq.avail.index)
    (n : ℕ) : deviceSteps D n s = s := by
  have hstep : deviceStep D s = s := by
    rw [deviceStep, hphase]
    exact if_pos hseen
  rw [deviceSteps]
  exact Function.iterate_fixed hstep n

/-- The index the driver expects is its own. -/
theorem deviceStep_expect (D : BlkDevice δ) (s : Shared δ) :
    deviceStep D (expect s) = expect (deviceStep D s) := by
  have hserve : ∀ (s : Shared δ) head descs, serveChain D (expect s) head descs =
      expect (serveChain D s head descs) := by
    intro s head descs
    rw [serveChain.eq_def, serveChain.eq_def]
    split
    · rfl
    · rfl
  obtain ⟨virtq, mem, seen, phase, device⟩ := s
  cases phase with
  | idle =>
    by_cases h : seen = virtq.avail.index
    · exact (if_pos h).trans (congrArg expect (if_pos h).symm)
    · exact (if_neg h).trans ((hserve ..).trans (congrArg expect (if_neg h).symm))
  | served head addr status => rfl
  | reported head => rfl

theorem deviceSteps_expect (D : BlkDevice δ) (n : ℕ) (s : Shared δ) :
    deviceSteps D n (expect s) = expect (deviceSteps D n s) :=
  Function.Commute.iterate_left (f := deviceStep D) (g := expect)
    (fun s => deviceStep_expect D s) n s

/-- **The device writes nothing but the ring of what has been used.** -/
theorem deviceStep_virtq (D : BlkDevice δ) (s : Shared δ) :
    (deviceStep D s).virtq = { s.virtq with used := (deviceStep D s).virtq.used } := by
  obtain ⟨virtq, mem, seen, phase, device⟩ := s
  cases phase with
  | idle =>
    rw [deviceStep]
    dsimp only
    split
    · rfl
    · rw [serveChain.eq_def]
      split
      · rfl
      · rfl
  | served head addr status => rfl
  | reported head => rfl

theorem deviceSteps_virtq (D : BlkDevice δ) (n : ℕ) (s : Shared δ) :
    (deviceSteps D n s).virtq = { s.virtq with used := (deviceSteps D n s).virtq.used } := by
  induction n with
  | zero => rfl
  | succ n ih =>
    rw [deviceSteps, Function.iterate_succ_apply', deviceStep_virtq]
    rw [deviceSteps] at ih
    rw [ih]

/-- The device does not write what the driver keeps for itself. -/
theorem deviceSteps_last (D : BlkDevice δ) (n : ℕ) (s : Shared δ) :
    (deviceSteps D n s).virtq.last_used_index = s.virtq.last_used_index := by
  rw [deviceSteps_virtq]

/-- **The wait** ends once the device has made three steps, if these bring it to rest with
the index the driver waits for, and not before. -/
theorem waitLoop_eq {q : Shared δ} (hbusy : ∀ n < 3, virtqIsBusy (deviceSteps D n q) = true)
    (hdone : virtqIsBusy (deviceSteps D 3 q) = false)
    (hrest : ∀ n, deviceSteps D n (deviceSteps D 3 q) = deviceSteps D 3 q) {polls : List ℕ}
    {k : ℕ} (hpolls : polls ≠ []) (hsum : 3 ≤ k + polls.sum) :
    waitLoop D polls (deviceSteps D k q) = .ok (deviceSteps D 3 q) := by
  have hadd : ∀ m n, deviceSteps D m (deviceSteps D n q) = deviceSteps D (m + n) q := fun m n =>
    (Function.iterate_add_apply (deviceStep D) m n q).symm
  induction polls generalizing k with
  | nil => exact absurd rfl hpolls
  | cons n polls ih =>
    rw [List.sum_cons] at hsum
    rw [waitLoop, hadd]
    by_cases hlt : n + k < 3
    · rw [if_pos (hbusy _ hlt)]
      refine ih ?_ (by omega)
      rintro rfl
      simp only [List.sum_nil] at hsum
      omega
    · obtain ⟨m, hm⟩ := Nat.exists_eq_add_of_le' (Nat.not_lt.mp hlt)
      rw [hm, ← hadd, hrest, if_neg (by rw [hdone]; exact Bool.false_ne_true)]

/-! ### The request -/

theorem setBytes_in {m : ℕ → ℕ} {addr n : ℕ} {f : ℕ → ℕ} {i : ℕ} (hi : i < n) :
    setBytes m addr n f (addr + i) = f i := by
  rw [setBytes, if_pos ⟨Nat.le_add_right _ _, Nat.add_lt_add_left hi _⟩, Nat.add_sub_cancel_left]

theorem setBytes_out {m : ℕ → ℕ} {addr n a : ℕ} {f : ℕ → ℕ} (ha : a < addr ∨ addr + n ≤ a) :
    setBytes m addr n f a = m a := by
  rw [setBytes, if_neg]
  omega

theorem setBytes_one (m : ℕ → ℕ) (addr v : ℕ) : setBytes m addr 1 (fun _ => v) addr = v := by
  rw [setBytes, if_pos ⟨le_rfl, Nat.lt_succ_self addr⟩]

theorem setBytes_zero {m : ℕ → ℕ} {n : ℕ} {f : ℕ → ℕ} {i : ℕ} (hi : i < n) :
    setBytes m 0 n f i = f i := by
  rw [setBytes, if_pos ⟨Nat.zero_le i, by omega⟩, Nat.sub_zero]

variable {blk_req sector_idx : ℕ} {is_write : Bool} {buf : ℕ → ℕ}

/-- A part of the request that is written after another leaves it. -/
theorem formatRequest_head (m : ℕ → ℕ) {i : ℕ} (hi : i < 16) :
    formatRequest m blk_req sector_idx is_write buf (blk_req + i) =
      setBytes (setBytes (setBytes m (blk_req + offsetofType) 4
        (Lib.byte (if is_write then kVirtioBlkTOut else kVirtioBlkTIn)))
        (blk_req + offsetofReserved) 4 (Lib.byte 0))
        (blk_req + offsetofSector) 8 (Lib.byte sector_idx) (blk_req + i) := by
  rw [formatRequest, setBytes_out (.inl (by simp only [offsetofStatus]; omega))]
  cases is_write with
  | false => rfl
  | true => exact setBytes_out (.inl (by simp only [offsetofData]; omega))

/-- **The header of the request** is read back: its type, -/
theorem formatRequest_type (m : ℕ → ℕ) :
    (Lib.ofBytes 4 fun i => formatRequest m blk_req sector_idx is_write buf (blk_req + i)) =
      if is_write then kVirtioBlkTOut else kVirtioBlkTIn := by
  have hbytes : ∀ i < 4, formatRequest m blk_req sector_idx is_write buf (blk_req + i) =
      Lib.byte (if is_write then kVirtioBlkTOut else kVirtioBlkTIn) i := by
    intro i hi
    rw [formatRequest_head m (by omega), setBytes_out (.inl (by simp only [offsetofSector]; omega)),
      setBytes_out (.inl (by simp only [offsetofReserved]; omega))]
    exact setBytes_in hi
  rw [Lib.ofBytes_congr hbytes, Lib.ofBytes_byte]
  cases is_write with
  | false => rfl
  | true => rfl

/-- and its sector. -/
theorem formatRequest_sector (m : ℕ → ℕ) (hsector : sector_idx < 2 ^ 64) :
    (Lib.ofBytes 8 fun i => formatRequest m blk_req sector_idx is_write buf (blk_req + 8 + i)) =
      sector_idx := by
  have hbytes : ∀ i < 8, formatRequest m blk_req sector_idx is_write buf (blk_req + 8 + i) =
      Lib.byte sector_idx i := by
    intro i hi
    rw [Nat.add_assoc, formatRequest_head m (by omega), ← Nat.add_assoc]
    exact setBytes_in hi
  rw [Lib.ofBytes_congr hbytes, Lib.ofBytes_byte]
  exact Nat.mod_eq_of_lt (hsector.trans_le (by decide))

/-- The data of a write are the buffer. -/
theorem formatRequest_data (m : ℕ → ℕ) {i : ℕ} (hi : i < kDiskSectorSize) :
    formatRequest m blk_req sector_idx true buf (blk_req + offsetofData + i) = buf i := by
  simp only [kDiskSectorSize] at hi
  rw [formatRequest, setBytes_out (.inl (by simp only [offsetofData, offsetofStatus]; omega)),
    if_pos rfl]
  exact setBytes_in hi

theorem chain_cons {descs : ℕ → VirtqDesc} {d : VirtqDesc} {head : ℕ} (left : ℕ)
    (hd : descs head = d) (hnext : d.flags &&& kVRingDescFNext ≠ 0) :
    chain descs (left + 1) head = d :: chain descs left d.next := by
  rw [chain, hd, if_pos hnext]

theorem chain_last {descs : ℕ → VirtqDesc} {d : VirtqDesc} {head : ℕ} (left : ℕ)
    (hd : descs head = d) (hnext : d.flags &&& kVRingDescFNext = 0) :
    chain descs (left + 1) head = [d] := by
  rw [chain, hd, if_neg (not_not.mpr hnext)]

/-- **The chain of the three descriptors.** -/
theorem chain_formatDescs (descs : ℕ → VirtqDesc) (blk_req : ℕ) (is_write : Bool) :
    chain (formatDescs descs blk_req is_write) kVirtQueueSize 0 =
      [⟨blk_req, 4 * 2 + 8, kVRingDescFNext, 1⟩,
        ⟨blk_req + offsetofData, kDiskSectorSize,
          (if is_write then 0 else kVRingDescFWrite) ||| kVRingDescFNext, 2⟩,
        ⟨blk_req + offsetofStatus, 1, kVRingDescFWrite, (descs 2).next⟩] := by
  have hnext : ((if is_write then 0 else kVRingDescFWrite) ||| kVRingDescFNext) &&&
      kVRingDescFNext ≠ 0 := by
    cases is_write with
    | false => decide
    | true => decide
  have hfirst : kVRingDescFNext &&& kVRingDescFNext ≠ 0 := by decide
  have hlast : kVRingDescFWrite &&& kVRingDescFNext = 0 := by decide
  calc chain (formatDescs descs blk_req is_write) kVirtQueueSize 0
      = _ :: chain (formatDescs descs blk_req is_write) 15 1 := chain_cons 15 rfl hfirst
    _ = _ :: _ :: chain (formatDescs descs blk_req is_write) 14 2 :=
        congrArg _ (chain_cons 14 rfl hnext)
    _ = _ :: _ :: [_] := congrArg _ (congrArg _ (chain_last 13 rfl hlast))

/-! ### The device at a request -/

/-- What the driver has published. -/
def published (s : Shared δ) (c : Call) : Shared δ :=
  publish (format s c.sector_idx c.is_write c.buf)

/-- The memory of the request when the device has served it. -/
def servedMem (D : BlkDevice δ) (s : Shared δ) (c : Call) : ℕ → ℕ :=
  let m := formatRequest s.mem s.virtq.blk_req c.sector_idx c.is_write c.buf
  let m := if c.is_write then m
    else setBytes m (s.virtq.blk_req + offsetofData) kDiskSectorSize (answer D s c).data
  setBytes m (s.virtq.blk_req + offsetofStatus) 1 fun _ => (answer D s c).status

/-- **The device takes the request** as it was written. -/
theorem deviceStep_published (h : Ready s) (c : Call) (hsector : c.sector_idx < 2 ^ 64) :
    deviceStep D (published s c) =
      { published s c with
        mem := if c.is_write then (published s c).mem
          else setBytes (published s c).mem (s.virtq.blk_req + offsetofData) kDiskSectorSize
            (answer D s c).data
        phase := .served 0 (s.virtq.blk_req + offsetofStatus) (answer D s c).status
        device := (answer D s c).state } := by
  have hphase : (published s c).phase = .idle := h.phase
  have hne : (published s c).seen ≠ (published s c).virtq.avail.index := by
    have hlt := h.lt
    change s.seen ≠ (s.virtq.avail.index + 1) % 2 ^ 16
    rw [h.seen]
    omega
  have hring : (published s c).virtq.avail.ring ((published s c).seen % kVirtQueueSize) = 0 := by
    change Function.update _ _ _ (s.seen % kVirtQueueSize) = 0
    rw [h.seen, Function.update_self]
  rw [deviceStep, hphase]
  dsimp only
  rw [if_neg hne, hring]
  change serveChain D (published s c) 0
    (chain (formatDescs s.virtq.descs s.virtq.blk_req c.is_write) kVirtQueueSize 0) = _
  rw [chain_formatDescs, serveChain]
  dsimp only
  have hmem : (published s c).mem =
      formatRequest s.mem s.virtq.blk_req c.sector_idx c.is_write c.buf := rfl
  have hdev : (published s c).device = s.device := rfl
  rw [hmem, formatRequest_type, formatRequest_sector _ hsector, hdev]
  have hflag : ((if c.is_write then 0 else kVRingDescFWrite) ||| kVRingDescFNext) &&&
      kVRingDescFWrite ≠ 0 ↔ ¬c.is_write = true := by
    cases c.is_write with
    | false => decide
    | true => decide
  simp only [hflag, ite_not]
  rfl

/-- What the device leaves: the request is served, its status reported and its chain
returned. -/
def answered (D : BlkDevice δ) (s : Shared δ) (c : Call) : Shared δ :=
  { published s c with
    virtq := { (published s c).virtq with
      used := ⟨(s.virtq.used.index + 1) % 2 ^ 16,
        Function.update s.virtq.used.ring (s.virtq.used.index % kVirtQueueSize)
          ⟨0, kDiskSectorSize + 1⟩⟩ }
    mem := servedMem D s c
    seen := (s.seen + 1) % 2 ^ 16
    phase := .idle
    device := (answer D s c).state }

/-- **Three steps** are what a request takes. -/
theorem deviceSteps_published (h : Ready s) (c : Call) (hsector : c.sector_idx < 2 ^ 64) :
    deviceSteps D 3 (published s c) = answered D s c := by
  change deviceStep D (deviceStep D (deviceStep D (published s c))) = _
  rw [deviceStep_published h c hsector]
  rfl

/-- The index the driver waits for comes with the third step, and not before. -/
theorem used_index_of_lt (h : Ready s) (c : Call) (hsector : c.sector_idx < 2 ^ 64) :
    ∀ n < 3, (deviceSteps D n (published s c)).virtq.used.index = s.virtq.used.index := by
  intro n hn
  have hstep := deviceStep_published (D := D) h c hsector
  rcases n with _ | _ | _ | n
  · rfl
  · change (deviceStep D (published s c)).virtq.used.index = _
    rw [hstep]
    rfl
  · change (deviceStep D (deviceStep D (published s c))).virtq.used.index = _
    rw [hstep]
    rfl
  · omega

/-- After the call the ring is at rest again. -/
theorem ready_answered (h : Ready s) (D : BlkDevice δ) (c : Call) :
    Ready (expect (answered D s c)) where
  used := congrArg (fun i => (i + 1) % 2 ^ 16) h.used
  last := congrArg (fun i => (i + 1) % 2 ^ 16) h.last
  seen := congrArg (fun i => (i + 1) % 2 ^ 16) h.seen
  phase := rfl
  lt := Nat.mod_lt _ (by decide)

/-- **The wait comes to its end**, with what the device leaves. -/
theorem waitLoop_published (h : Ready s) (c : Call) (hsector : c.sector_idx < 2 ^ 64)
    (hserves : c.schedule.Serves) :
    waitLoop D c.schedule.polls (expect (deviceSteps D c.schedule.published (published s c))) =
      .ok (expect (answered D s c)) := by
  have hready := ready_answered h D c
  have hthree : deviceSteps D 3 (expect (published s c)) = expect (answered D s c) := by
    rw [deviceSteps_expect, deviceSteps_published h c hsector]
  rw [← deviceSteps_expect, ← hthree]
  refine waitLoop_eq (fun n hn => ?_) ?_ (fun n => ?_) hserves.1 hserves.2
  · have hused : (deviceSteps D n (expect (published s c))).virtq.used.index =
        s.virtq.used.index := by
      rw [deviceSteps_expect]
      exact used_index_of_lt h c hsector n hn
    have hlast : (deviceSteps D n (expect (published s c))).virtq.last_used_index =
        (s.virtq.last_used_index + 1) % 2 ^ 16 := by
      rw [deviceSteps_last]
      rfl
    have hlt := h.lt
    rw [virtqIsBusy, hused, hlast, h.last, h.used, bne_iff_ne]
    omega
  · rw [hthree, virtqIsBusy, hready.last, hready.used]
    exact bne_self_eq_false _
  · rw [hthree]
    exact deviceSteps_of_rest hready.phase hready.seen n

/-! ### Calls -/

/-- **What a call does**, if there are `n` sectors. -/
structure CallSpec (n : ℕ) (D : BlkDevice δ) (s : Shared δ) (c : Call) (r : Returned δ) :
    Prop where
  /-- It succeeds exactly when the sector is there and the device reports that it has served
  the request. -/
  ok_iff : r.ok = true ↔ c.sector_idx < n ∧ (answer D s c).status = kVirtioBlkStatusOk
  /-- A call that is rejected touches nothing. -/
  rejected : n ≤ c.sector_idx → r.shared = s ∧ r.buf = c.buf
  /-- A read that succeeds yields the sector. -/
  read : c.is_write = false → r.ok = true →
    ∀ i < kDiskSectorSize, r.buf i = D.contents s.device c.sector_idx i
  /-- A read changes no sector. -/
  read_contents : c.is_write = false → D.contents r.shared.device = D.contents s.device
  /-- A write that succeeds sets its sector. -/
  write : c.is_write = true → r.ok = true →
    ∀ i < kDiskSectorSize, D.contents r.shared.device c.sector_idx i = c.buf i
  /-- A write changes no other sector. -/
  other : ∀ x ≠ c.sector_idx, D.contents r.shared.device x = D.contents s.device x
  /-- The ring is at rest again. -/
  ready : Ready r.shared

theorem BlkDevice.sector_nums_eq (D : BlkDevice δ) : D.sector_nums = D.sectors % 2 ^ 23 := by
  simp only [BlkDevice.sector_nums, BlkDevice.sectors, getDiskCapacity, kDiskSectorSize]
  omega

theorem BlkDevice.sector_nums_lt (D : BlkDevice δ) : D.sector_nums < 2 ^ 23 := by
  rw [sector_nums_eq]
  exact Nat.mod_lt _ (by decide)

theorem BlkDevice.sector_nums_le (D : BlkDevice δ) : D.sector_nums ≤ D.sectors := by
  rw [sector_nums_eq]
  exact Nat.mod_le ..

/-- The status is read back. -/
theorem servedMem_status (D : BlkDevice δ) (s : Shared δ) (c : Call) :
    servedMem D s c (s.virtq.blk_req + offsetofStatus) = (answer D s c).status :=
  setBytes_one ..

/-- The data that have been read are read back. -/
theorem servedMem_data (D : BlkDevice δ) (s : Shared δ) {c : Call} (hc : c.is_write = false) {i : ℕ}
    (hi : i < kDiskSectorSize) :
    servedMem D s c (s.virtq.blk_req + offsetofData + i) = (answer D s c).data i := by
  have hlt : offsetofData + i < offsetofStatus := by
    simp only [kDiskSectorSize] at hi
    simp only [offsetofData, offsetofStatus]
    omega
  rw [servedMem, setBytes_out (.inl (by omega)), hc, if_neg Bool.false_ne_true, setBytes_in hi]

/-- **What the device does to the sectors.** -/
theorem answer_contents (D : BlkDevice δ) (s : Shared δ) (c : Call) :
    (c.is_write = false → D.contents (answer D s c).state = D.contents s.device) ∧
    (c.is_write = true → (answer D s c).status = kVirtioBlkStatusOk →
      ∀ i < kDiskSectorSize, D.contents (answer D s c).state c.sector_idx i = c.buf i) ∧
    ∀ x ≠ c.sector_idx, D.contents (answer D s c).state x = D.contents s.device x := by
  obtain ⟨buf, sector_idx, is_write, schedule⟩ := c
  cases is_write with
  | false =>
    have hsame := D.read_contents s.device sector_idx fun i =>
      formatRequest s.mem s.virtq.blk_req sector_idx false buf (s.virtq.blk_req + offsetofData + i)
    exact ⟨fun _ => hsame, fun h => (by cases h), fun x _ => congrFun hsame x⟩
  | true =>
    refine ⟨fun h => (by cases h), fun _ hok i hi => ?_, fun x hx => D.write_other _ _ _ x hx⟩
    exact (D.write_data _ _ _ hok i hi).trans (formatRequest_data s.mem hi)

/-- **One call**: it comes back, as soon as the device has been given the time to serve
it. -/
theorem readWriteDisk_spec (h : Ready s) (D : BlkDevice δ) {c : Call}
    (hserves : c.schedule.Serves) :
    ∃ r, readWriteDisk D s c = .ok r ∧ CallSpec D.sector_nums D s c r := by
  have hnums : getDiskCapacity D.DEVICE_CONFIG_SPACE0 / kDiskSectorSize = D.sector_nums := rfl
  rw [readWriteDisk, hnums]
  -- a sector past the end of the disk is refused before the request is formatted
  by_cases hsector : c.sector_idx ≥ D.sector_nums
  · refine ⟨⟨false, c.buf, s⟩, if_pos hsector, ?_⟩
    exact ⟨iff_of_false Bool.false_ne_true fun hok => absurd hok.1 (not_lt.mpr hsector),
      fun _ => ⟨rfl, rfl⟩, fun _ hok => (by cases hok), fun _ => rfl, fun _ hok => (by cases hok),
      fun _ _ => rfl, h⟩
  have hlt : c.sector_idx < D.sector_nums := not_le.mp hsector
  have hidx : c.sector_idx < 2 ^ 64 := (hlt.trans D.sector_nums_lt).trans (by decide)
  -- the device does nothing until the request is published
  have hbefore : deviceSteps D c.schedule.before (format s c.sector_idx c.is_write c.buf) =
      format s c.sector_idx c.is_write c.buf :=
    deviceSteps_of_rest (s := format s c.sector_idx c.is_write c.buf) h.phase h.seen _
  -- the wait ends, since the device serves the request under this schedule
  have hwait := waitLoop_published (D := D) h c hidx hserves
  obtain ⟨hread, hwrite, hother⟩ := answer_contents D s c
  have hready := ready_answered h D c
  have hmem : (expect (answered D s c)).mem = servedMem D s c := rfl
  have hreq : (expect (answered D s c)).virtq.blk_req = s.virtq.blk_req := rfl
  have hpublish : publish (format s c.sector_idx c.is_write c.buf) = published s c := rfl
  rw [if_neg hsector, hbefore]
  dsimp only
  rw [hpublish, hwait, Lib.ok_bind, hmem, hreq, servedMem_status]
  by_cases hok : (answer D s c).status = kVirtioBlkStatusOk
  · rw [if_neg (not_not.mpr hok)]
    cases hw : c.is_write with
    | false =>
      refine ⟨_, if_neg Bool.false_ne_true, iff_of_true rfl ⟨hlt, hok⟩, fun hle => ?_,
        fun _ _ i hi => ?_, fun _ => hread hw, fun hc => ?_, hother, hready⟩
      · exact absurd hlt (not_lt.mpr hle)
      · dsimp only
        rw [setBytes_zero hi, servedMem_data D s hw hi]
        rw [answer, hw] at hok ⊢
        exact D.read_data _ _ _ hok i hi
      · cases hw.symm.trans hc
    | true =>
      refine ⟨_, if_pos rfl, iff_of_true rfl ⟨hlt, hok⟩, fun hle => ?_,
        fun hc => ?_, fun hc => ?_, fun _ _ => hwrite hw hok, hother, hready⟩
      · exact absurd hlt (not_lt.mpr hle)
      · cases hw.symm.trans hc
      · cases hw.symm.trans hc
  · rw [if_pos hok]
    refine ⟨_, rfl, iff_of_false Bool.false_ne_true fun h => hok h.2, fun hle => ?_,
      fun _ hc => (by cases hc), hread, fun _ hc => (by cases hc), hother, hready⟩
    exact absurd hlt (not_lt.mpr hle)

/-! ### Runs of calls -/

/-- What is known of a sector: its bytes, unless a write to it has failed since they were
last known. -/
abbrev Known := ℕ → Option (ℕ → ℕ)

/-- At the start the sectors are known. -/
def known (D : BlkDevice δ) (s : Shared δ) : Known := fun x => some (D.contents s.device x)

/-- What a call adds: a write that succeeds makes its sector known, and one that fails on
the device makes it unknown. -/
def Known.note (k : Known) (D : BlkDevice δ) (c : Call) (ok : Bool) : Known :=
  if c.is_write = true ∧ c.sector_idx < D.sectors then
    Function.update k c.sector_idx (if ok then some c.buf else none)
  else k

/-- Calls, one after the other, and what is known of the sectors after them. -/
def readWriteDisks (D : BlkDevice δ) :
    List Call → Shared δ → Known → Except Fault (Shared δ × Known)
  | [], s, k => .ok (s, k)
  | c :: calls, s, k => do
    let r ← readWriteDisk D s c
    readWriteDisks D calls r.shared (k.note D c r.ok)

/-- What is known is true. -/
def Known.Holds (k : Known) (D : BlkDevice δ) (s : Shared δ) : Prop :=
  ∀ x d, k x = some d → ∀ i < kDiskSectorSize, D.contents s.device x i = d i

theorem known_true (D : BlkDevice δ) (s : Shared δ) : (known D s).Holds D s := by
  rintro x d hx i -
  obtain rfl := Option.some.inj hx
  rfl

/-- **One call** keeps what is known true. -/
theorem CallSpec.note {c : Call} {r : Returned δ} (h : CallSpec D.sector_nums D s c r) {k : Known}
    (hk : k.Holds D s) : (k.note D c r.ok).Holds D r.shared := by
  intro x d hx i hi
  rw [Known.note] at hx
  by_cases hwrite : c.is_write = true ∧ c.sector_idx < D.sectors
  · rw [if_pos hwrite] at hx
    by_cases hxs : x = c.sector_idx
    · rw [hxs, Function.update_self] at hx
      cases hok : r.ok with
      | false =>
        rw [hok] at hx
        cases hx
      | true =>
        rw [hok] at hx
        obtain rfl := Option.some.inj hx
        rw [hxs]
        exact h.write hwrite.1 hok i hi
    · rw [Function.update_of_ne hxs] at hx
      rw [h.other x hxs]
      exact hk x d hx i hi
  · rw [if_neg hwrite] at hx
    by_cases hsector : c.sector_idx < D.sectors
    · -- a read, which changes no sector
      have hread : c.is_write = false := by simpa [hsector] using hwrite
      rw [h.read_contents hread]
      exact hk x d hx i hi
    · rw [(h.rejected (D.sector_nums_le.trans (not_lt.mp hsector))).1]
      exact hk x d hx i hi

/-- **A run of calls** comes to its end, with the ring at rest and what is known true. -/
theorem readWriteDisks_ok {calls : List Call} (hserves : ∀ c ∈ calls, c.schedule.Serves)
    (h : Ready s) {k : Known} (hk : k.Holds D s) :
    ∃ s' k', readWriteDisks D calls s k = .ok (s', k') ∧ Ready s' ∧ k'.Holds D s' := by
  induction calls generalizing s k with
  | nil => exact ⟨s, k, rfl, h, hk⟩
  | cons c calls ih =>
    obtain ⟨hc, hcs⟩ := List.forall_mem_cons.mp hserves
    obtain ⟨r, hr, hspec⟩ := readWriteDisk_spec h D hc
    rw [readWriteDisks, hr, Lib.ok_bind]
    exact ih hcs hspec.ready (hspec.note hk)

/-- **The driver refines the array of the device's sectors.** From a ring at rest, after any run
of calls: the run comes to its end with the ring at rest, and a call made then comes back too. It
succeeds exactly when its sector is one of the device's and the device reports status `0`; a read
that succeeds yields what was last written to the sector, where no write to it has failed since,
and changes nothing; a write that succeeds sets its sector, and no write changes another; a call
that is rejected touches nothing; and the ring is at rest again. -/
def Refined (D : BlkDevice δ) : Prop :=
  ∀ s, Ready s → ∀ calls : List Call, (∀ c ∈ calls, c.schedule.Serves) →
    ∃ s' k', readWriteDisks D calls s (known D s) = .ok (s', k') ∧ Ready s' ∧
      ∀ c : Call, c.schedule.Serves →
        ∃ r, readWriteDisk D s' c = .ok r ∧ CallSpec D.sectors D s' c r ∧
          (c.is_write = false → r.ok = true → ∀ d, k' c.sector_idx = some d →
            ∀ i < kDiskSectorSize, r.buf i = d i)

/-- It does if the capacity is a 32-bit word. -/
theorem refined_of_lt (h : D.sectors < 2 ^ 23) : Refined D := by
  intro s hs calls hserves
  have hnums : D.sector_nums = D.sectors := D.sector_nums_eq.trans (Nat.mod_eq_of_lt h)
  obtain ⟨s', k', hrun, hready, htrue⟩ := readWriteDisks_ok hserves hs (known_true D s)
  refine ⟨s', k', hrun, hready, fun c hc => ?_⟩
  obtain ⟨r, hr, hspec⟩ := readWriteDisk_spec hready D hc
  rw [hnums] at hspec
  refine ⟨r, hr, hspec, fun hread hok d hd i hi => ?_⟩
  rw [hspec.read hread hok i hi]
  exact htrue _ d hd i hi

/-- A device of `n` sectors, kept in an array, of which those that are `bad` are not served. -/
def ramDisk (n : ℕ) (bad : ℕ → Bool) : BlkDevice (ℕ → ℕ → ℕ) where
  DEVICE_CONFIG_SPACE0 := n
  serve sectors type sector data :=
    if bad sector then ⟨1, data, sectors⟩
    else ⟨0, sectors sector, if type = kVirtioBlkTOut then Function.update sectors sector data
      else sectors⟩
  contents sectors := sectors
  status_lt _ _ sector _ := by
    cases bad sector with
    | false => exact Nat.zero_lt_succ 255
    | true => exact Nat.one_lt_two_pow (by decide : 8 ≠ 0)
  read_contents _ sector _ := by
    cases bad sector with
    | false => rfl
    | true => rfl
  read_data sectors sector data hok i _ := by
    cases h : bad sector with
    | false => rfl
    | true => simp [h, kVirtioBlkStatusOk] at hok
  write_other sectors sector data x hx := by
    cases bad sector with
    | false => exact Function.update_of_ne hx data sectors
    | true => rfl
  write_data sectors sector data hok i _ := by
    cases h : bad sector with
    | false => exact congrFun (Function.update_self sector data sectors) i
    | true => simp [h, kVirtioBlkStatusOk] at hok

/-- A ring whose indices are about to wrap. -/
def lastRing : Shared (ℕ → ℕ → ℕ) where
  virtq := ⟨fun _ => ⟨0, 0, 0, 0⟩, ⟨65535, fun _ => 0⟩, ⟨65535, fun _ => ⟨0, 0⟩⟩, 0x44401000, 65535⟩
  mem := fun _ => 0
  seen := 65535
  phase := .idle
  device := fun _ _ => 0

theorem ready_lastRing : Ready lastRing := ⟨rfl, rfl, rfl, rfl, by decide⟩

/-- A call for a sector, with a device that is in no hurry. -/
def callFor (sector_idx : ℕ) (is_write : Bool) : Call :=
  ⟨fun i => i % 256, sector_idx, is_write, ⟨1, 0, [0, 2, 1]⟩⟩

theorem callFor_serves (sector_idx : ℕ) (is_write : Bool) :
    (callFor sector_idx is_write).schedule.Serves :=
  (by decide : Schedule.Serves ⟨1, 0, [0, 2, 1]⟩)

/-- **A disk of `2 ^ 23` sectors or more** has one that is refused, although the device would serve
it: the first of those that the driver does not know of. -/
theorem not_refined_of_le {n : ℕ} (hle : 2 ^ 23 ≤ n) : ¬Refined (ramDisk n fun _ => false) := by
  intro h
  obtain ⟨s, k, -, hready, hcall⟩ := h lastRing ready_lastRing [] (List.forall_mem_nil _)
  set D := ramDisk n fun _ => false
  have hserves := callFor_serves D.sector_nums false
  obtain ⟨r, hr, hspec, -⟩ := hcall _ hserves
  obtain ⟨r', hr', hspec'⟩ := readWriteDisk_spec hready D hserves
  obtain rfl := Except.ok.inj (hr.symm.trans hr')
  have hlt : D.sector_nums < D.sectors := D.sector_nums_lt.trans_le hle
  exact absurd (hspec'.ok_iff.mp (hspec.ok_iff.mpr ⟨hlt, rfl⟩)).1 (lt_irrefl _)

/-- **The driver refines an array of `n` sectors**, on every device that has them, exactly if there
are fewer than `2 ^ 23`: the capacity in bytes is computed modulo `2 ^ 32`. -/
theorem readWriteDisks_spec (n : ℕ) :
    (∀ {δ : Type} (D : BlkDevice δ), D.DEVICE_CONFIG_SPACE0 = n → Refined D) ↔ n < 2 ^ 23 := by
  constructor
  · intro h
    by_contra hle
    exact not_refined_of_le (Nat.le_of_not_lt hle) (h _ rfl)
  · rintro hn δ D rfl
    exact refined_of_lt hn

/-- Eight sectors, of which one is not served: what is written to the fourth is read back, and the
sixth cannot be written. -/
theorem readWriteDisks_spec_ram :
    ∃ s' k', readWriteDisks (ramDisk 8 (· == 5)) [callFor 3 true, callFor 5 true, callFor 6 false]
        lastRing (known (ramDisk 8 (· == 5)) lastRing) = .ok (s', k') ∧ Ready s' ∧
      (∃ r, readWriteDisk (ramDisk 8 (· == 5)) s' (callFor 3 false) = .ok r ∧ r.ok = true ∧
        (∀ i < kDiskSectorSize, r.buf i = i % 256) ∧ Ready r.shared) ∧
      ∃ r, readWriteDisk (ramDisk 8 (· == 5)) s' (callFor 5 true) = .ok r ∧ r.ok = false ∧
        Ready r.shared := by
  obtain ⟨s', k', hrun, hready, hcall⟩ := (readWriteDisks_spec 8).mpr (by decide)
    (ramDisk 8 (· == 5)) rfl lastRing ready_lastRing
    [callFor 3 true, callFor 5 true, callFor 6 false] (by decide)
  obtain ⟨r, hr, hspec, hread⟩ := hcall _ (callFor_serves 3 false)
  obtain ⟨r', hr', hspec', -⟩ := hcall _ (callFor_serves 5 true)
  have hkept : (readWriteDisks (ramDisk 8 (· == 5))
      [callFor 3 true, callFor 5 true, callFor 6 false] lastRing
      (known (ramDisk 8 (· == 5)) lastRing)).toOption.map (fun x =>
        (x.2 3).any fun d => decide (∀ i < kDiskSectorSize, d i = i % 256)) = some true := by
    decide +kernel
  rw [hrun] at hkept
  obtain ⟨d, hknown, hd⟩ := (Option.any_eq_true _ _).mp (Option.some.inj hkept)
  have hok : r.ok = true := hspec.ok_iff.mpr ⟨by decide, rfl⟩
  have hbad : r'.ok = false := by
    rw [Bool.eq_false_iff]
    exact fun h => absurd (hspec'.ok_iff.mp h).2 (by decide : ¬1 = kVirtioBlkStatusOk)
  refine ⟨s', k', hrun, hready, ⟨r, hr, hok, fun i hi => ?_, hspec.ready⟩, r', hr', hbad,
    hspec'.ready⟩
  rw [hread rfl hok d hknown i hi, of_decide_eq_true hd i hi]

/-- **A disk of 4 GiB** has no sector that the driver would read, although the device would serve
it. -/
theorem four_gib_refused : 2 ^ 23 < 2 ^ 32 ∧ Ready lastRing ∧
    (ramDisk (2 ^ 23) fun _ => false).DEVICE_CONFIG_SPACE0 = 2 ^ 23 ∧
    (answer (ramDisk (2 ^ 23) fun _ => false) lastRing (callFor 0 false)).status =
      kVirtioBlkStatusOk ∧
    (∃ r, readWriteDisk (ramDisk (2 ^ 23) fun _ => false) lastRing (callFor 0 false) = .ok r ∧
      r.ok = false) ∧ ¬Refined (ramDisk (2 ^ 23) fun _ => false) := by
  obtain ⟨r, hr, hspec⟩ := readWriteDisk_spec ready_lastRing (ramDisk (2 ^ 23) fun _ => false)
    (callFor_serves 0 false)
  have hnums : ¬0 < (ramDisk (2 ^ 23) fun _ => false).sector_nums := by decide
  have hok : r.ok = false := Bool.eq_false_iff.mpr fun h => hnums (hspec.ok_iff.mp h).1
  exact ⟨by decide, ready_lastRing, rfl, rfl, ⟨r, hr, hok⟩, not_refined_of_le le_rfl⟩

end VirtioBlk

end Evisor
