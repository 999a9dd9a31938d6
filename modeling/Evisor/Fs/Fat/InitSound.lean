import Evisor.Fs.Fat.Init

/-!
# Which volumes are accepted

What `Init` takes for a volume, for every partition table and every boot sector. The sector
that it looks at and the start that it notes down are those of the first partition, for all
four. Of a volume it asks for a sector size, a signature, three letters, and for clusters
enough; but the number of clusters is computed with 32 bits, from a number of sectors that may
have wrapped around and that may be more than the volume has, and divided by what may be
zero. What has to hold of the card for nothing of this to happen is
`Evisor.Fat32Fs.SafePartition`.
-/

namespace Evisor

namespace Fat32Fs

/-- The sectors before the data, as a number that does not wrap around. -/
def Bpb.sectors (bpb : Bpb) : ℕ :=
  bpb.BPB_RsvdSecCnt + bpb.BPB_FATSz32 * bpb.BPB_NumFATs + bpb.rde_sectors

/-- **A sound volume** of partition `i`. -/
structure Sound (d : Mmc) (i : ℕ) (fat : Volume) : Prop where
  system : PT_System d i = 0xc
  first_lba : fat.first_lba = PT_LbaOfs d i
  bytsPerSec : fat.BPB_BytsPerSec = 512
  secPerClus : fat.BPB_SecPerClus ≠ 0
  fat_first_sector : fat.fat_first_sector = (bootBlock d fat.first_lba).BPB_RsvdSecCnt
  data_first_sector : (bootBlock d fat.first_lba).sectors = fat.data_first_sector
  data_le : fat.data_first_sector ≤ (bootBlock d fat.first_lba).BPB_TotSec32
  clusters : 65526 ≤ ((bootBlock d fat.first_lba).BPB_TotSec32 - fat.data_first_sector) /
    fat.BPB_SecPerClus

/-- **What has to hold of a partition**, if the sector that the first one starts with passes
the checks: its clusters have sectors; it is the first one, or starts where that does, if
there are clusters enough; and if the sectors before the data are more than there are, then
the difference is, modulo `2 ^ 32`, too small for clusters enough. -/
structure SafePartition (d : Mmc) (i : ℕ) (bpb : Bpb) : Prop where
  divisor : bpb.BPB_SecPerClus ≠ 0
  own : bpb.sectors ≤ bpb.BPB_TotSec32 →
    65526 * bpb.BPB_SecPerClus ≤ bpb.BPB_TotSec32 - bpb.sectors → PT_LbaOfs d i = PT_LbaOfs d 0
  fits : bpb.BPB_TotSec32 < bpb.sectors →
    ((bpb.BPB_TotSec32 : ℤ) - bpb.sectors) % 2 ^ 32 < 65526 * bpb.BPB_SecPerClus

variable {L : Layout} {d : Mmc} {first_lba : ℕ}

/-- **What `Init` finds in partition `i`**: the volume that starts where the first one does, if
the partition is to be one. -/
theorem init_roots {heap heap' : HeapMap} {roots : List (Option Root)}
    (h : init L d heap = .ok (some roots, heap')) {i : ℕ} (hi : i < MAX_FAT_VOLUME_SIZE) :
    roots[i]? = some (if PT_System d i = 0xc then rootOf d (PT_LbaOfs d 0) else none) := by
  have hroots := ((init_exact L d heap).ok _ h).1
  split_ifs at hroots
  rw [Option.some.inj hroots, List.getElem?_map, List.getElem?_range hi, Option.map_some]

/-! ### What makes it sound -/

variable {bpb : Bpb}

theorem data_first_sector_eq (h : bpb.sectors < 2 ^ 32) : bpb.data_first_sector = bpb.sectors := by
  rw [Bpb.sectors] at *
  rw [Bpb.data_first_sector, Bpb.fat_sectors]
  generalize bpb.BPB_FATSz32 * bpb.BPB_NumFATs = product at *
  omega

/-- **The sectors of the data**, as the code has them: the difference modulo `2 ^ 32`. -/
theorem data_sectors_cast (bpb : Bpb) :
    (bpb.data_sectors : ℤ) = ((bpb.BPB_TotSec32 : ℤ) - bpb.sectors) % 2 ^ 32 := by
  rw [Bpb.data_sectors, Bpb.data_first_sector, Bpb.fat_sectors, Bpb.sectors]
  generalize bpb.BPB_FATSz32 * bpb.BPB_NumFATs = product
  omega

theorem data_sectors_eq (hle : bpb.sectors ≤ bpb.BPB_TotSec32) (hlt : bpb.BPB_TotSec32 < 2 ^ 32) :
    bpb.data_sectors = bpb.BPB_TotSec32 - bpb.sectors := by
  have := data_sectors_cast bpb
  omega

/-- Clusters enough, without a division. -/
theorem valid_iff (hcheck : checkBpb bpb) (hpos : bpb.BPB_SecPerClus ≠ 0) :
    bpb.Valid ↔ 65526 * bpb.BPB_SecPerClus ≤ bpb.data_sectors := by
  rw [Bpb.Valid, and_iff_right hcheck, Nat.not_lt, Nat.le_div_iff_mul_le (Nat.pos_of_ne_zero hpos)]

theorem rootOf_valid (h : (bootBlock d first_lba).Valid) : rootOf d first_lba =
    some ⟨(bootBlock d first_lba).volume h first_lba, [(bootBlock d first_lba).BPB_RootClus]⟩ :=
  dif_pos h

theorem Bpb.load_totSec32_lt (byte : ℕ → ℕ) : (Bpb.load byte).BPB_TotSec32 < 2 ^ 32 := by
  have h : (Bpb.load byte).BPB_TotSec32 < 256 ^ 4 := member_lt byte 32 4
  omega

theorem Bpb.load_rsvdSecCnt_lt (byte : ℕ → ℕ) : (Bpb.load byte).BPB_RsvdSecCnt < 2 ^ 32 := by
  have h : (Bpb.load byte).BPB_RsvdSecCnt < 256 ^ 2 := member_lt byte 14 2
  omega

/-- The start that is noted down. -/
theorem volume_first_lba (d : Mmc) (h : (bootBlock d (PT_LbaOfs d 0)).Valid) :
    ((bootBlock d (PT_LbaOfs d 0)).volume h (PT_LbaOfs d 0)).first_lba = PT_LbaOfs d 0 :=
  Nat.mod_eq_of_lt (member_lt d.byte (446 + 16 * 0 + 8) 4)

/-- **A volume of a safe partition** is sound. -/
theorem SafePartition.sound {i : ℕ} (h : SafePartition d i (bootBlock d (PT_LbaOfs d 0)))
    (hsystem : PT_System d i = 0xc) (hvalid : (bootBlock d (PT_LbaOfs d 0)).Valid) :
    Sound d i ((bootBlock d (PT_LbaOfs d 0)).volume hvalid (PT_LbaOfs d 0)) := by
  have htot : (bootBlock d (PT_LbaOfs d 0)).BPB_TotSec32 < 2 ^ 32 := Bpb.load_totSec32_lt _
  have hlba := volume_first_lba d hvalid
  have hmany := (valid_iff hvalid.1 h.divisor).mp hvalid
  have hle : (bootBlock d (PT_LbaOfs d 0)).sectors ≤
      (bootBlock d (PT_LbaOfs d 0)).BPB_TotSec32 := by
    by_contra hlt
    have hfew := h.fits (Nat.not_le.mp hlt)
    have hcast := data_sectors_cast (bootBlock d (PT_LbaOfs d 0))
    omega
  have hsectors := data_sectors_eq hle htot
  have hfirst : ((bootBlock d (PT_LbaOfs d 0)).volume hvalid (PT_LbaOfs d 0)).data_first_sector =
      (bootBlock d (PT_LbaOfs d 0)).sectors := data_first_sector_eq (hle.trans_lt htot)
  refine ⟨hsystem, ?_, hvalid.1.1, h.divisor, ?_, ?_, ?_, ?_⟩
  · rw [hlba, h.own hle (hsectors ▸ hmany)]
  · rw [hlba]
    exact Nat.mod_eq_of_lt (Bpb.load_rsvdSecCnt_lt _)
  · rw [hlba, hfirst]
  · rw [hlba, hfirst]
    exact hle
  · rw [hlba, hfirst, ← hsectors]
    exact Nat.not_lt.mp hvalid.2

/-- **A partition whose volume is sound**, if it is one, is safe. -/
theorem safePartition_of_sound {i : ℕ} (hcheck : checkBpb (bootBlock d (PT_LbaOfs d 0)))
    (hpos : (bootBlock d (PT_LbaOfs d 0)).BPB_SecPerClus ≠ 0)
    (h : ∀ hvalid, Sound d i ((bootBlock d (PT_LbaOfs d 0)).volume hvalid (PT_LbaOfs d 0))) :
    SafePartition d i (bootBlock d (PT_LbaOfs d 0)) := by
  have htot : (bootBlock d (PT_LbaOfs d 0)).BPB_TotSec32 < 2 ^ 32 := Bpb.load_totSec32_lt _
  refine ⟨hpos, fun hle hmany => ?_, fun hlt => ?_⟩
  · have hvalid := (valid_iff hcheck hpos).mpr (by rwa [data_sectors_eq hle htot])
    exact (h hvalid).first_lba.symm.trans (volume_first_lba d hvalid)
  · by_contra hmany
    have hcast := data_sectors_cast (bootBlock d (PT_LbaOfs d 0))
    have hvalid := (valid_iff hcheck hpos).mpr (by omega)
    have hsound := h hvalid
    have hfirst := hsound.data_first_sector
    have hle := hsound.data_le
    rw [volume_first_lba d hvalid] at hfirst hle
    omega

/-- **`Init` divides by zero** nowhere exactly if each partition that is to be a volume has
clusters with sectors, in case the sector that the first one starts with passes the checks. -/
theorem init_divides_iff {heap : HeapMap}
    (hroom : ∀ f, init L d heap = .error f → ¬f.OutOfMemory) :
    init L d heap ≠ .error .divisionByZero ↔ NoDivisionByZero d := by
  have hexact := init_exact L d heap
  constructor
  · intro hne
    cases hinit : init L d heap with
    | ok r => exact (hexact.ok r hinit).2
    | error f =>
      obtain ⟨rfl, -⟩ := (hexact.error f hinit).resolve_left (hroom f hinit)
      exact absurd hinit hne
  · rintro hdiv hinit
    rcases hexact.error _ hinit with hmem | ⟨-, hzero⟩
    · exact hroom _ hinit hmem
    · exact hzero hdiv

/-- **`Init` accepts sound volumes only, and divides by zero nowhere**, exactly if each
partition that is to be a volume is safe, in case the sector that the first one starts with
passes the checks. There are pages for the nodes. -/
theorem init_sound_iff {heap : HeapMap}
    (hroom : ∀ f, init L d heap = .error f → ¬f.OutOfMemory) :
    ((∀ roots heap', init L d heap = .ok (some roots, heap') →
        ∀ i < MAX_FAT_VOLUME_SIZE, ∀ root, roots[i]? = some (some root) → Sound d i root.fat) ∧
      init L d heap ≠ .error .divisionByZero) ↔
    (MBR_Sig d = kBootSignature → ∀ i < MAX_FAT_VOLUME_SIZE, PT_System d i = 0xc →
      checkBpb (bootBlock d (PT_LbaOfs d 0)) →
      SafePartition d i (bootBlock d (PT_LbaOfs d 0))) := by
  have hexact := init_exact L d heap
  rw [init_divides_iff hroom]
  constructor
  · rintro ⟨hsound, hdiv⟩ hsig i hi hsystem hcheck
    have hpos := hdiv hsig i hi hsystem hcheck
    refine safePartition_of_sound hcheck hpos fun hvalid => ?_
    cases hinit : init L d heap with
    | error f =>
      rcases hexact.error f hinit with hmem | ⟨-, hzero⟩
      · exact absurd hmem (hroom f hinit)
      · exact absurd hdiv hzero
    | ok r =>
      obtain ⟨found, heap'⟩ := r
      obtain ⟨roots, rfl⟩ : ∃ roots, found = some roots :=
        ⟨_, (hexact.ok _ hinit).1.trans (if_pos hsig)⟩
      have hroot := init_roots hinit hi
      rw [if_pos hsystem, rootOf_valid hvalid] at hroot
      exact hsound roots heap' hinit i hi _ hroot
  · intro hsafe
    refine ⟨fun roots heap' hinit i hi root hroot => ?_,
      fun hsig i hi hsystem hcheck => (hsafe hsig i hi hsystem hcheck).divisor⟩
    have hsig : MBR_Sig d = kBootSignature := by
      by_contra hsig
      cases (hexact.ok _ hinit).1.trans (if_neg hsig)
    rw [init_roots hinit hi] at hroot
    split_ifs at hroot with hsystem
    · rw [rootOf] at hroot
      split_ifs at hroot with hvalid
      · obtain rfl := Option.some.inj (Option.some.inj hroot)
        exact (hsafe hsig i hi hsystem hvalid.1).sound hsystem hvalid
      · cases hroot
    · cases hroot

/-! ### Two cards -/

/-- A card with one partition. -/
def Mmc.onePartition : Mmc := .ofList (Mmc.format 8 16)

/-- A card with a second one, which starts at sector 131072. -/
def Mmc.twoPartitions : Mmc := .ofList (Mmc.format 8 16 ++ [(466, 0x0c), (472, 2)])

/-- `Init` finds the one volume there is, which is sound. -/
theorem init_sound_iff_one : ∃ roots heap,
    init .qemu .onePartition (fun _ => false) = .ok (some roots, heap) ∧
      (∃ root, roots[0]? = some (some root)) ∧
      (∀ i < MAX_FAT_VOLUME_SIZE, ∀ root, roots[i]? = some (some root) →
        Sound .onePartition i root.fat) ∧
      init .qemu .onePartition (fun _ => false) ≠ .error .divisionByZero := by
  obtain ⟨⟨found, heap⟩, h, hfirst⟩ : ∃ r, init .qemu .onePartition (fun _ => false) = .ok r ∧
      (r.1.any fun roots => (roots[0]?.join).isSome) = true := Lib.exists_ok_of_any rfl
  obtain ⟨roots, rfl⟩ : ∃ roots, found = some roots := by
    cases found with
    | none => cases hfirst
    | some roots => exact ⟨roots, rfl⟩
  obtain ⟨root, hroot⟩ := Option.isSome_iff_exists.mp hfirst
  obtain ⟨hsound, hdiv⟩ := (@init_sound_iff .qemu .onePartition (fun _ => false)
    fun f hf => by cases h.symm.trans hf).mpr fun _ i hi hsystem _ => by
      have hone : ∀ i < MAX_FAT_VOLUME_SIZE, PT_System .onePartition i = 0xc → i = 0 := by decide
      obtain rfl := hone i hi hsystem
      exact ⟨by decide, fun _ _ => rfl, fun hlt => absurd hlt (by decide)⟩
  exact ⟨roots, heap, h, ⟨root, Option.join_eq_some_iff.mp hroot⟩, hsound roots heap h, hdiv⟩

/-- **The second partition** is taken to start where the first one does, and a volume whose
clusters have no sectors is divided by zero. -/
theorem second_partition_misplaced : (∃ roots heap,
    init .qemu .twoPartitions (fun _ => false) = .ok (some roots, heap) ∧
      ∃ root, roots[1]? = some (some root) ∧ root.fat.first_lba = 2048 ∧
        PT_LbaOfs .twoPartitions 1 = 131072 ∧ ¬Sound .twoPartitions 1 root.fat) ∧
    init .qemu (.ofList (Mmc.format 0 16)) (fun _ => false) = .error .divisionByZero :=
  ⟨⟨_, _, rfl, _, rfl, rfl, rfl, fun h => absurd h.first_lba (by decide)⟩, rfl⟩

end Fat32Fs

end Evisor
