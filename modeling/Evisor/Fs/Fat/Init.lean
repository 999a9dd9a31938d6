import Evisor.Fs.Fat.Volume

/-!
# Finding the volumes of a card

`Fat32Fs::Init` of `fs/fat/fat32.cc`. The first sector of the card says which of its four
partitions are to be FAT32 volumes; one of them is a valid volume if the sector it starts
with passes some checks.

The sector that is looked at is, for each of the four, the one the *first* partition
starts with.
-/

namespace Evisor

namespace Fat32Fs

/-- `kBootSignature`. -/
def kBootSignature : ℕ := 0xAA55

/-- `MAX_FAT_VOLUME_SIZE`. -/
def MAX_FAT_VOLUME_SIZE : ℕ := 4

/-- A member of a packed structure: the number of `n` bytes from `offset` on. -/
def member (byte : ℕ → ℕ) (offset n : ℕ) : ℕ := Lib.ofBytes n (fun i => byte (offset + i)) % 256 ^ n

theorem member_lt (byte : ℕ → ℕ) (offset n : ℕ) : member byte offset n < 256 ^ n :=
  Nat.mod_lt _ (Nat.pow_pos (by decide))

/-- A member depends on the bytes of its structure only. -/
theorem member_congr {f g : ℕ → ℕ} {w offset n : ℕ} (h : ∀ b < w, f b = g b)
    (hle : offset + n ≤ w) : member f offset n = member g offset n :=
  congrArg (· % 256 ^ n) (Lib.ofBytes_congr fun _ hb => h _ (by omega))

/-! ### The code -/

/-- `fat32_bpb_t`, as far as it is looked at. -/
structure Bpb where
  BPB_BytsPerSec : ℕ
  BPB_SecPerClus : ℕ
  BPB_RsvdSecCnt : ℕ
  BPB_NumFATs : ℕ
  BPB_RootEntCnt : ℕ
  BPB_TotSec32 : ℕ
  BPB_FATSz32 : ℕ
  BPB_RootClus : ℕ
  /-- The first three bytes of it. -/
  BS_FilSysType : List ℕ
  BS_BootSign : ℕ
  secPerClus_lt : BPB_SecPerClus < 256
  deriving DecidableEq

/-- The structure at the start of a buffer. -/
def Bpb.load (byte : ℕ → ℕ) : Bpb := {
  BPB_BytsPerSec := member byte 11 2
  BPB_SecPerClus := member byte 13 1
  BPB_RsvdSecCnt := member byte 14 2
  BPB_NumFATs := member byte 16 1
  BPB_RootEntCnt := member byte 17 2
  BPB_TotSec32 := member byte 32 4
  BPB_FATSz32 := member byte 36 4
  BPB_RootClus := member byte 44 4
  BS_FilSysType := (List.range 3).map fun i => member byte (82 + i) 1
  BS_BootSign := member byte 510 2
  secPerClus_lt := member_lt byte 13 1 }

/-- `Fat32Fs::CheckBpb`. -/
def checkBpb (bpb : Bpb) : Prop :=
  bpb.BPB_BytsPerSec = kBlockSize ∧ bpb.BS_BootSign = kBootSignature ∧
    bpb.BS_FilSysType = ['F'.toNat, 'A'.toNat, 'T'.toNat]

instance (bpb : Bpb) : Decidable (checkBpb bpb) := inferInstanceAs (Decidable (_ ∧ _))

/-- `fat_sectors`. -/
def Bpb.fat_sectors (bpb : Bpb) : ℕ := bpb.BPB_FATSz32 * bpb.BPB_NumFATs % 2 ^ 32

/-- `rde_sectors`. -/
def Bpb.rde_sectors (bpb : Bpb) : ℕ :=
  (32 * bpb.BPB_RootEntCnt + bpb.BPB_BytsPerSec - 1) / bpb.BPB_BytsPerSec

/-- `data_first_sector`. -/
def Bpb.data_first_sector (bpb : Bpb) : ℕ :=
  (bpb.BPB_RsvdSecCnt + bpb.fat_sectors + bpb.rde_sectors) % 2 ^ 32

/-- `data_sectors`. -/
def Bpb.data_sectors (bpb : Bpb) : ℕ :=
  (bpb.BPB_TotSec32 + 2 ^ 32 - bpb.data_first_sector) % 2 ^ 32

/-- What `Init` divides by. -/
def Bpb.divisors (bpb : Bpb) : List ℕ := [bpb.BPB_BytsPerSec, bpb.BPB_SecPerClus]

/-- The divisions of `Init`, which it comes to if a block passes the checks. -/
def Bpb.divide (bpb : Bpb) : Except Fault Unit :=
  if checkBpb bpb ∧ 0 ∈ bpb.divisors then .error .divisionByZero else .ok ()

/-- What is asked of a volume, once nothing has been divided by zero. -/
def Bpb.Valid (bpb : Bpb) : Prop :=
  checkBpb bpb ∧ ¬bpb.data_sectors / bpb.BPB_SecPerClus < 65526

instance (bpb : Bpb) : Decidable bpb.Valid := inferInstanceAs (Decidable (_ ∧ _))

theorem Bpb.Valid.secPerClus_pos {bpb : Bpb} (h : bpb.Valid) : 0 < bpb.BPB_SecPerClus := by
  refine Nat.pos_of_ne_zero fun h0 => h.2 ?_
  rw [h0, Nat.div_zero]
  decide

/-- The volume of a valid block. -/
def Bpb.volume (bpb : Bpb) (h : bpb.Valid) (first_lba : ℕ) : Volume := {
  first_lba := first_lba % 2 ^ 32
  fat_first_sector := bpb.BPB_RsvdSecCnt % 2 ^ 32
  data_first_sector := bpb.data_first_sector
  BPB_SecPerClus := bpb.BPB_SecPerClus
  BPB_BytsPerSec := bpb.BPB_BytsPerSec
  BPB_RootClus := bpb.BPB_RootClus
  first_lba_lt := Nat.mod_lt _ (by decide)
  fat_first_sector_lt := Nat.mod_lt _ (by decide)
  data_first_sector_lt := Nat.mod_lt _ (by decide)
  secPerClus_lt := bpb.secPerClus_lt
  secPerClus_pos := h.secPerClus_pos
  bytsPerSec := h.1.1 }

/-- `fs_.volume[i]` and its `root`, if it is valid. -/
structure Root where
  fat : Volume
  /-- The list of the clusters of the root directory. -/
  list : List ℕ

/-- What `Init` does about a volume that the partition table has. -/
def initVolume (L : Layout) (d : Mmc) (first_lba : ℕ) (heap : HeapMap) :
    Except Fault (Option Root × HeapMap) := do
  let buf ← readSector d first_lba 1
  let byte ← readBuf buf 0 kBlockSize
  (Bpb.load byte).divide
  if h : (Bpb.load byte).Valid then
    let root ← Clusters.push L ⟨[], heap⟩ (Bpb.load byte).BPB_RootClus
    return (some ⟨(Bpb.load byte).volume h first_lba, root.val⟩, root.heap)
  else return (none, heap)

/-- The second loop of `Init`, over the volumes that may be valid. -/
def initVolumes (L : Layout) (d : Mmc) (first_lba : ℕ) :
    List Bool → HeapMap → Except Fault (List (Option Root) × HeapMap)
  | [], heap => .ok ([], heap)
  | true :: rest, heap => do
    let (root, heap) ← initVolume L d first_lba heap
    let (roots, heap) ← initVolumes L d first_lba rest heap
    return (root :: roots, heap)
  | false :: rest, heap => do
    let (roots, heap) ← initVolumes L d first_lba rest heap
    return (none :: roots, heap)

/-- `Fat32Fs::Init`: the volumes, if the file system gets initialized. -/
def init (L : Layout) (d : Mmc) (heap : HeapMap) :
    Except Fault (Option (List (Option Root)) × HeapMap) := do
  let buf ← readSector d 0 1
  let byte ← readBuf buf 0 kBlockSize
  if member byte 510 2 ≠ kBootSignature then return (none, heap)
  else
    -- the system of each partition, and the start of the first
    let valid := (List.range MAX_FAT_VOLUME_SIZE).map fun i =>
      decide (member byte (446 + 16 * i + 4) 1 = 0xc)
    let (roots, heap) ← initVolumes L d (member byte (446 + 8) 4) valid heap
    return (some roots, heap)

/-! ### What it finds -/

/-- `MBR_Sig`. -/
def MBR_Sig (d : Mmc) : ℕ := member d.byte 510 2

/-- `MBR_Partition[i].PT_System`. -/
def PT_System (d : Mmc) (i : ℕ) : ℕ := member d.byte (446 + 16 * i + 4) 1

/-- `MBR_Partition[i].PT_LbaOfs`. -/
def PT_LbaOfs (d : Mmc) (i : ℕ) : ℕ := member d.byte (446 + 16 * i + 8) 4

/-- The boot sector of a volume, as far as it is looked at. -/
def bootBlock (d : Mmc) (first_lba : ℕ) : Bpb :=
  Bpb.load fun i => d.byte (kBlockSize * first_lba % 2 ^ 32 + i)

/-- The members of a block are in the first sector of a buffer. -/
theorem Bpb.load_congr {f g : ℕ → ℕ} (h : ∀ i < kBlockSize, f i = g i) :
    Bpb.load f = Bpb.load g := by
  have hm : ∀ offset n, offset + n ≤ kBlockSize → member f offset n = member g offset n :=
    fun _ _ => member_congr h
  have htype : (List.range 3).map (fun i => member f (82 + i) 1) =
      (List.range 3).map fun i => member g (82 + i) 1 := by
    refine List.map_congr_left fun i hi => hm _ _ ?_
    have := List.mem_range.mp hi
    rw [kBlockSize]
    omega
  rw [Bpb.load, Bpb.load, Bpb.mk.injEq]
  exact ⟨hm _ _ (by decide), hm _ _ (by decide), hm _ _ (by decide), hm _ _ (by decide),
    hm _ _ (by decide), hm _ _ (by decide), hm _ _ (by decide), hm _ _ (by decide), htype,
    hm _ _ (by decide)⟩

/-- The root of a volume that starts with a sector. -/
def rootOf (d : Mmc) (first_lba : ℕ) : Option Root :=
  if h : (bootBlock d first_lba).Valid then
    some ⟨(bootBlock d first_lba).volume h first_lba, [(bootBlock d first_lba).BPB_RootClus]⟩
  else none

/-- Nothing is divided by zero. -/
def Bpb.Divisible (bpb : Bpb) : Prop := checkBpb bpb → bpb.BPB_SecPerClus ≠ 0

/-- The sectors of a block that passes the checks are not empty, so that only the clusters
may be. -/
theorem Bpb.zero_mem_divisors_iff {bpb : Bpb} :
    checkBpb bpb ∧ 0 ∈ bpb.divisors ↔ ¬bpb.Divisible := by
  rw [Divisible, Classical.not_imp, not_not, divisors, List.mem_cons,
    List.mem_singleton]
  refine and_congr_right fun hcheck => ⟨fun h => ?_, fun h => .inr h.symm⟩
  rcases h with h | h
  · rw [hcheck.1] at h
    cases h
  · exact h.symm

theorem Bpb.divide_gives (bpb : Bpb) : Lib.Gives bpb.divide (fun _ => bpb.Divisible)
    (fun f => f = .divisionByZero ∧ ¬bpb.Divisible) := by
  rw [divide]
  split
  · exact .of_error ⟨rfl, zero_mem_divisors_iff.mp ‹_›⟩
  · exact .of_ok (not_not.mp fun h => ‹¬_› (zero_mem_divisors_iff.mpr h))

variable {L : Layout} {d : Mmc} {first_lba : ℕ}

/-- The stops of `Init`: it divides by zero, or there is no page left for a node. -/
def InitStops (divisible : Prop) (f : Fault) : Prop :=
  f.OutOfMemory ∨ f = .divisionByZero ∧ ¬divisible

theorem InitStops.mono {p q : Prop} {f : Fault} (h : InitStops p f) (hqp : q → p) :
    InitStops q f :=
  h.imp_right (And.imp_right (mt hqp))

theorem initVolume_exact (heap : HeapMap) :
    Lib.Gives (initVolume L d first_lba heap)
      (fun r => r.1 = rootOf d first_lba ∧ (bootBlock d first_lba).Divisible)
      (InitStops (bootBlock d first_lba).Divisible) := by
  obtain ⟨byte, hread, hbyte⟩ := readSector_one d first_lba
  have hload : Bpb.load byte = bootBlock d first_lba := Bpb.load_congr hbyte
  rw [initVolume, hread, Lib.ok_bind, readBuf, if_pos (by decide), Lib.ok_bind]
  simp only [Nat.zero_add, hload]
  have hdiv := (bootBlock d first_lba).divide_gives
  refine Lib.Gives.bind ⟨hdiv.ok, fun f hf => .inr (hdiv.error f hf)⟩ fun _ hdivisible => ?_
  rw [rootOf]
  by_cases h : (bootBlock d first_lba).Valid
  · rw [dif_pos h, dif_pos h]
    have hpush := push_gives (L := L) ⟨[], heap⟩ (bootBlock d first_lba).BPB_RootClus
    refine Lib.Gives.bind ⟨hpush.ok, fun f hf => .inl (hpush.error f hf)⟩ fun t ht => .of_ok ?_
    rw [ht]
    exact ⟨rfl, hdivisible⟩
  · rw [dif_neg h, dif_neg h]
    exact .of_ok ⟨rfl, hdivisible⟩

theorem initVolumes_exact (valid : List Bool) (heap : HeapMap) :
    Lib.Gives (initVolumes L d first_lba valid heap)
      (fun r => r.1 = valid.map (fun v => if v then rootOf d first_lba else none) ∧
        (true ∈ valid → (bootBlock d first_lba).Divisible))
      (InitStops (true ∈ valid → (bootBlock d first_lba).Divisible)) := by
  induction valid generalizing heap with
  | nil => exact .of_ok ⟨rfl, nofun⟩
  | cons v rest ih =>
    have hrest : ∀ first heap, (v = true → (bootBlock d first_lba).Divisible) → Lib.Gives
        (initVolumes L d first_lba rest heap >>= fun r => .ok (first :: r.1, r.2))
        (fun r => r.1 = first :: rest.map (fun v => if v then rootOf d first_lba else none) ∧
          (true ∈ v :: rest → (bootBlock d first_lba).Divisible))
        (InitStops (true ∈ v :: rest → (bootBlock d first_lba).Divisible)) := by
      intro first heap hv
      refine Lib.Gives.bind ⟨(ih heap).ok, fun f hf => ((ih heap).error f hf).mono
        fun h hmem => h (List.mem_cons_of_mem v hmem)⟩ fun r hr => .of_ok ?_
      refine ⟨congrArg (first :: ·) hr.1, fun hmem => ?_⟩
      rcases List.mem_cons.mp hmem with hhead | hmem
      · exact hv hhead.symm
      · exact hr.2 hmem
    cases v with
    | true =>
      refine Lib.Gives.bind ⟨(initVolume_exact heap).ok, fun f hf =>
        ((initVolume_exact heap).error f hf).mono fun h => h List.mem_cons_self⟩ fun r hr => ?_
      exact hr.1 ▸ hrest r.1 r.2 fun _ => hr.2
    | false => exact hrest none heap nofun

/-- **A card that makes `Init` divide by zero nowhere.** -/
def NoDivisionByZero (d : Mmc) : Prop :=
  MBR_Sig d = kBootSignature → ∀ i < MAX_FAT_VOLUME_SIZE, PT_System d i = 0xc →
    (bootBlock d (PT_LbaOfs d 0)).Divisible

/-- **`Init`** finds the volume that starts where the first partition does, once for each
partition that is to be one, or nothing at all; it does not come back only when it divides by
zero, or there is no page left for a node. -/
theorem init_exact (L : Layout) (d : Mmc) (heap : HeapMap) :
    Lib.Gives (init L d heap)
      (fun r => (r.1 = if MBR_Sig d = kBootSignature then
          some ((List.range MAX_FAT_VOLUME_SIZE).map fun i =>
            if PT_System d i = 0xc then rootOf d (PT_LbaOfs d 0) else none)
        else none) ∧ NoDivisionByZero d)
      (InitStops (NoDivisionByZero d)) := by
  obtain ⟨byte, hread, hbyte⟩ := readSector_one d 0
  have hd : ∀ i < kBlockSize, byte i = d.byte i := fun i hi => by rw [hbyte i hi]; simp
  have hsig : member byte 510 2 = MBR_Sig d := member_congr hd (by decide)
  have hlba : member byte (446 + 8) 4 = PT_LbaOfs d 0 := member_congr hd (by decide)
  have hsystem : ∀ i < MAX_FAT_VOLUME_SIZE, member byte (446 + 16 * i + 4) 1 = PT_System d i := by
    refine fun i hi => member_congr hd ?_
    simp only [MAX_FAT_VOLUME_SIZE, kBlockSize] at hi ⊢
    omega
  rw [init, hread, Lib.ok_bind, readBuf, if_pos (by decide), Lib.ok_bind]
  simp only [Nat.zero_add, hsig, hlba]
  by_cases h : MBR_Sig d = kBootSignature
  · rw [if_neg (not_not.mpr h), if_pos h]
    -- a partition is looked at if it is of the system
    have hdiv : NoDivisionByZero d ↔ (true ∈ ((List.range MAX_FAT_VOLUME_SIZE).map fun i =>
        decide (member byte (446 + 16 * i + 4) 1 = 0xc)) →
          (bootBlock d (PT_LbaOfs d 0)).Divisible) := by
      rw [NoDivisionByZero, forall_prop_of_true h, List.mem_map]
      constructor
      · rintro hall ⟨i, hi, hvalid⟩
        have hi := List.mem_range.mp hi
        exact hall i hi ((hsystem i hi).symm.trans (of_decide_eq_true hvalid))
      · intro hmem i hi hvalid
        exact hmem ⟨i, List.mem_range.mpr hi, decide_eq_true ((hsystem i hi).trans hvalid)⟩
    rw [hdiv]
    refine (initVolumes_exact _ heap).bind fun r hr => .of_ok ⟨?_, hr.2⟩
    rw [hr.1, List.map_map]
    refine congrArg some (List.map_congr_left fun i hi => ?_)
    rw [Function.comp_apply, hsystem i (List.mem_range.mp hi)]
    simp only [decide_eq_true_eq]
  · rw [if_pos h, if_neg h]
    exact .of_ok ⟨rfl, fun hsig => absurd hsig h⟩

/-- **A volume that `Init` accepts**, of a card. -/
def Accepted (d : Mmc) (fat : Volume) : Prop :=
  ∃ L heap r, init L d heap = .ok r ∧ ∃ roots ∈ r.1, ∃ list, some ⟨fat, list⟩ ∈ roots

/-! ### A card -/

/-- A card with these bytes, each with its place, and zeros elsewhere. -/
def Mmc.ofList (l : List (ℕ × ℕ)) : Mmc :=
  ⟨fun k => (l.lookup k).getD 0 % 256, fun _ => 0xff, fun _ => Nat.mod_lt _ (by decide)⟩

/-- The boot sector of a volume of `size` times 32 MiB, with its root directory in cluster 2. -/
def Mmc.bootSector (place secPerClus size : ℕ) : List (ℕ × ℕ) :=
  [(12, 2), (13, secPerClus), (14, 32), (16, 2), (34, size), (37, 8), (44, 2),
    (82, 'F'.toNat), (83, 'A'.toNat), (84, 'T'.toNat), (510, 0x55), (511, 0xaa)].map
    fun e => (place + e.1, e.2)

/-- What makes it a card with a volume: 1 MiB from its start. -/
def Mmc.format (secPerClus size : ℕ) : List (ℕ × ℕ) :=
  [(450, 0x0c), (455, 8), (510, 0x55), (511, 0xaa)] ++ bootSector (2 ^ 20) secPerClus size

/-- Bytes that lie one after the other. -/
def Mmc.bytesAt (place : ℕ) (bytes : List ℕ) : List (ℕ × ℕ) :=
  bytes.zipIdx.map fun e => (place + e.2, e.1)

/-- The entry of a file in a directory: its short name, first cluster and size. -/
def Mmc.entryAt (place : ℕ) (name : List Char) (cluster size : ℕ) : List (ℕ × ℕ) :=
  bytesAt place (name.map Char.toNat ++ [0x20]) ++ bytesAt (place + 26) [cluster] ++
    bytesAt (place + 28) [size % 256, size / 256]

/-- The end of a chain of clusters, in the table. -/
def Mmc.endOfChain (cluster : ℕ) : List (ℕ × ℕ) :=
  bytesAt (512 * 2080 + cluster * 4) [0xff, 0xff, 0xff, 0x0f]

end Fat32Fs

end Evisor
