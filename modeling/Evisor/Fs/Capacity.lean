import Evisor.Drivers.VirtioBlkRun
import Evisor.Fs.Loader

/-!
# The capacity of the disk

The register of the device counts sectors; `GetDiskCapacity` turns the count into bytes, in a
product of two `uint32_t`, and both who use it turn it back: `ReadWriteDisk` to tell which
sectors there are, and `LoaderLoadFile` to tell how many to read. The way there and back is
exact below `2 ^ 23` sectors, which is 4 GiB, and drops what is above
(`Evisor.sectors_of_capacity`).

`Evisor.CapacityExact` is what the two are meant to do for a disk of `n` sectors. They do it
exactly below that bound (`Evisor.capacityExact_iff`); above it the loader takes a prefix of
the image for the whole of it.
-/

namespace Evisor

/-- **There and back**: what is left of a number of sectors. -/
theorem sectors_of_capacity (n : ℕ) : getDiskCapacity n / kDiskSectorSize = n % 2 ^ 23 := by
  simp only [getDiskCapacity, kDiskSectorSize]
  omega

theorem Disk.sectors_eq (d : Disk) : d.sectors = d.DEVICE_CONFIG_SPACE0 % 2 ^ 23 :=
  sectors_of_capacity _

namespace VirtioBlk

variable {δ : Type} {D : BlkDevice δ} {s s' : Shared δ}

/-! ### What a call publishes -/

/-- The device does not write the entries that are published to it. -/
theorem deviceSteps_avail (D : BlkDevice δ) (n : ℕ) (s : Shared δ) :
    (deviceSteps D n s).virtq.avail = s.virtq.avail := by
  rw [deviceSteps_virtq]

/-- Nothing is published while the driver waits. -/
theorem waitLoop_avail {polls : List ℕ} (h : waitLoop D polls s = .ok s') :
    s'.virtq.avail = s.virtq.avail := by
  induction polls generalizing s with
  | nil => cases h
  | cons n polls ih =>
    rw [waitLoop] at h
    split at h
    · rw [ih h, deviceSteps_avail]
    · obtain rfl := Except.ok.inj h
      exact deviceSteps_avail D n s

/-- **What a call publishes**: one entry if it is accepted, and none if it is rejected. -/
theorem readWriteDisk_avail {c : Call} {r : Returned δ} (h : readWriteDisk D s c = .ok r) :
    r.shared.virtq.avail.index =
      if c.sector_idx < D.sector_nums then (s.virtq.avail.index + 1) % 2 ^ 16
      else s.virtq.avail.index := by
  have hnums : getDiskCapacity D.DEVICE_CONFIG_SPACE0 / kDiskSectorSize = D.sector_nums := rfl
  rw [readWriteDisk, hnums] at h
  by_cases hsector : c.sector_idx ≥ D.sector_nums
  · rw [if_neg (not_lt.mpr hsector)]
    obtain rfl := Except.ok.inj ((if_pos hsector).symm.trans h)
    rfl
  rw [if_neg hsector] at h
  obtain ⟨t, ht, h⟩ := Lib.bind_eq_ok.mp h
  have hshared : r.shared = t := by
    split at h
    · exact (congrArg Returned.shared (Except.ok.inj h)).symm
    · split at h
      · exact (congrArg Returned.shared (Except.ok.inj h)).symm
      · exact (congrArg Returned.shared (Except.ok.inj h)).symm
  have hformat : (deviceSteps D c.schedule.before
      (format s c.sector_idx c.is_write c.buf)).virtq.avail.index = s.virtq.avail.index := by
    rw [deviceSteps_avail]
    rfl
  have hwait := congrArg VirtqAvail.index (waitLoop_avail ht)
  rw [if_pos (not_le.mp hsector), hshared, hwait, ← hformat]
  exact congrArg VirtqAvail.index (deviceSteps_avail D _ _)

/-- Whether a call has published an entry can be seen from the index. -/
theorem readWriteDisk_accepts {c : Call} {r : Returned δ} (h : readWriteDisk D s c = .ok r) :
    r.shared.virtq.avail.index ≠ s.virtq.avail.index ↔ c.sector_idx < D.sector_nums := by
  rw [readWriteDisk_avail h]
  split
  case isTrue hlt =>
    exact iff_of_true (by omega) hlt
  case isFalse hge =>
    exact iff_of_false (not_not.mpr rfl) hge

end VirtioBlk

/-! ### The capacity of a disk -/

/-- **The capacity is exact**, of a disk whose register holds `n`. -/
structure CapacityExact (n : ℕ) : Prop where
  /-- `GetDiskCapacity() / kDiskSectorSize`. -/
  capacity : getDiskCapacity n / kDiskSectorSize = n
  /-- `ReadWriteDisk` accepts a sector, and publishes a request for it, exactly when it is one
  of the `n`: in any state of the ring, with any device. -/
  accepts : ∀ {δ : Type} (D : VirtioBlk.BlkDevice δ) (s : VirtioBlk.Shared δ)
    (c : VirtioBlk.Call) (r : VirtioBlk.Returned δ), D.DEVICE_CONFIG_SPACE0 = n →
    VirtioBlk.readWriteDisk D s c = .ok r →
    (r.shared.virtq.avail.index ≠ s.virtq.avail.index ↔ c.sector_idx < n)
  /-- The loader succeeds exactly when all `n` sectors can be read, and then the guest has
  them all: in every state the system reaches, at every address that leaves room. -/
  loads : ∀ (L : BoardLayout .qemu) (events : List Isolation.Event) (s : Isolation.System),
    Lib.Each (Isolation.step .qemu L.toLayout) Isolation.Legal .boot events →
    Lib.runFrom (Isolation.step .qemu L.toLayout) .boot events = .ok s →
    ∀ (d : Disk) (tsk : TaskId) (va : ℕ), d.DEVICE_CONFIG_SPACE0 = n → va % PAGE_SIZE = 0 →
    va + n * kDiskSectorSize < 2 ^ 36 →
    ∀ ok t, loaderLoadFile L.toLayout d s.memory tsk va = .ok (ok, t) →
      (ok = true ↔ ∀ k < n, d.readable k = true) ∧
      (ok = true → ∀ k < n * kDiskSectorSize, ∃ desc, t.mm.translate tsk (va + k) = .page desc ∧
        t.mm.mem.byte (descAddr desc + (va + k) % PAGE_SIZE) = d.byte k)

/-- **The loader reads all sectors** the capacity says there are. -/
theorem loaderLoadFile_all {L : Layout} {s : Memory} (h : s.mm.Inv L) {d : Disk} {tsk : TaskId}
    {va : ℕ} (hva : va % PAGE_SIZE = 0) (hfit : va + d.sectors * kDiskSectorSize < 2 ^ 36)
    {ok : Bool} {t : Memory} (ht : loaderLoadFile L d s tsk va = .ok (ok, t)) :
    (ok = true ↔ ∀ k < d.sectors, d.readable k = true) ∧
    (ok = true → ∀ k < d.sectors * kDiskSectorSize,
      ∃ desc, t.mm.translate tsk (va + k) = .page desc ∧
        t.mm.mem.byte (descAddr desc + (va + k) % PAGE_SIZE) = d.byte k) := by
  have hcap := d.capacity_eq
  obtain ⟨hok, hfail, -⟩ := loaderLoadFile_of_inv h d tsk hva (hcap ▸ hfit)
  cases ok with
  | false =>
    refine ⟨iff_of_false Bool.false_ne_true fun hall => ?_, fun hc => (by cases hc)⟩
    obtain ⟨k, hk, hbad⟩ := hfail t ht
    rw [hall k hk] at hbad
    cases hbad
  | true =>
    obtain ⟨⟨pg, himage⟩, hread⟩ := hok t ht
    refine ⟨iff_of_true rfl hread, fun _ k hk => ?_⟩
    have hroom : d.sectors * 512 ≤ (d.sectors + 7) / 8 * 4096 := by omega
    have hpage : k < d.pages * PAGE_SIZE := by
      rw [Disk.pages, PAGE_SIZE]
      exact hk.trans_le hroom
    obtain ⟨desc, htr, -, -, hbyte⟩ := himage.translate k hpage
    refine ⟨desc, htr, ?_⟩
    rw [hbyte, Disk.image, if_pos (hcap ▸ hk)]

/-- **The capacity is exact below `2 ^ 23` sectors**, and for no larger disk. -/
theorem capacityExact_iff (n : ℕ) : CapacityExact n ↔ n < 2 ^ 23 := by
  constructor
  · intro h
    have hcap := h.capacity
    rw [sectors_of_capacity] at hcap
    rw [← hcap]
    exact Nat.mod_lt n (by decide)
  · intro hn
    have hmod : n % 2 ^ 23 = n := Nat.mod_eq_of_lt hn
    refine ⟨by rw [sectors_of_capacity, hmod], ?_, ?_⟩
    · rintro δ D s c r rfl hr
      rw [VirtioBlk.readWriteDisk_accepts hr, D.sector_nums_eq, VirtioBlk.BlkDevice.sectors, hmod]
    · rintro L events s hlegal hs d tsk va rfl hva hfit ok t ht
      have hsectors : d.sectors = d.DEVICE_CONFIG_SPACE0 := d.sectors_eq.trans hmod
      rw [← hsectors] at hfit ⊢
      exact loaderLoadFile_all (Isolation.inv_of_run hlegal hs).tree hva hfit ht

/-- **A disk of 4 GiB** has no sectors at all for the driver. -/
theorem capacity_wraps : 2 ^ 23 < 2 ^ 32 ∧ getDiskCapacity (2 ^ 23) / kDiskSectorSize = 0 ∧
    ¬CapacityExact (2 ^ 23) :=
  ⟨by decide, rfl, fun h => absurd h.capacity (by decide)⟩

end Evisor
