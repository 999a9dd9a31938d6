import Mathlib.Tactic.Ring
import Evisor.Lib.Float
import Evisor.Fs.Fat.Init

/-!
# Reading from a file

`Fat32Fs::Read` of `fs/fat/fat32.cc`. It copies a file sector by sector, or several
sectors at once where it can, and follows the chain of clusters meanwhile.

The two do not go together well. Behind each transfer it goes on by *one* sector, however
many it has read; to the next node of the list, whether or not a cluster is through; and
that a cluster is through it sees from the number of the sector in the volume, although
clusters are counted from `data_first_sector`. What it reads is right all the same if
nothing of this matters (`Evisor.Fat32Fs.Volume.Clear`): if clusters have one sector, if what is
asked for is in one sector or in sectors that lie one after the other, or if the steps it
takes happen to be right.
-/

namespace Evisor

namespace Fat32Fs

variable (L : Layout) (d : Mmc) (fat : Volume)

/-! ### The code -/

/-- The variables of the loop, and what has been stored through `buf`. -/
structure ReadVars where
  out : List ℕ
  remains : ℕ
  sector : ℕ
  sector_offset : ℕ
  cluster_list : Option ℕ
  clusters : Clusters

/-- `read_sectors`: `remains / 512` to the nearest whole number, where `remains` is a `float`, which
has 24 bits. -/
def readSectors (remains : ℕ) : ℕ := (Lib.roundEven 24 remains + 256) / kBlockSize

/-- `read_buf` and `copy_len`. -/
def transfer (v : ReadVars) : Except Fault (SectorBuf × ℕ) :=
  let lba := (fat.first_lba + v.sector) % 2 ^ 32
  if 0 < v.sector_offset ∨ v.remains ≤ kBlockSize ∨ fat.BPB_SecPerClus = 1 then do
    let read_buf ← readSector d lba 1
    return (read_buf, min v.remains (kBlockSize - v.sector_offset))
  else do
    let read_sectors := readSectors v.remains
    let sector_num := min read_sectors ((fat.BPB_SecPerClus + 2 ^ 32 - v.sector) % 2 ^ 32)
    let read_buf ← readSector d lba sector_num
    return (read_buf, min v.remains (kBlockSize * read_sectors % 2 ^ 32))

/-- The body of the loop. -/
def readPass (v : ReadVars) : Except Fault ReadVars := do
  let (read_buf, copy_len) ← transfer d fat v
  let byte ← readBuf read_buf v.sector_offset copy_len
  let (sector, clusters) ← calcNextSector L d fat v.clusters v.sector v.cluster_list
  let cluster_list ← clusters.next v.cluster_list
  return {
    out := v.out ++ (List.range copy_len).map byte
    remains := v.remains - copy_len
    sector, cluster_list, clusters
    sector_offset := 0 }

/-- The loop, with the passes it may still make. -/
def readLoop (cluster : ℕ) : ℕ → ReadVars → Except Fault ReadVars
  | 0, v => if 0 < v.remains ∧ isValidCluster cluster then .error .outOfFuel else .ok v
  | fuel + 1, v =>
    if 0 < v.remains ∧ isValidCluster cluster then do
      let v ← readPass L d fat v
      readLoop cluster fuel v
    else .ok v

/-- The place of the first node with a cluster. -/
def findNode (s : Clusters) (cluster : ℕ) : Except Fault ℕ :=
  match s.val.findIdx? fun val => val = cluster with
  | none => .error .nullDeref
  | some i => .ok i

/-- What `Read` leaves. -/
structure ReadResult where
  /-- What it returns. -/
  ret : ℤ
  /-- What it has stored through `buf`. -/
  out : List ℕ
  clusters : Clusters

/-- `Fat32Fs::Read`, of a file system that is initialized. -/
def read (size : ℕ) (s : Clusters) (offset len : ℕ) : Except Fault ReadResult :=
  if size < (offset + len) % 2 ^ 64 then .ok ⟨0, [], s⟩
  else do
    let tail := min ((offset + len % 2 ^ 32) % 2 ^ 32) size
    let remains := (tail + 2 ^ 32 - offset) % 2 ^ 32
    let (cluster, s) ← calcCluster L d fat s offset
    let sector := calcSector fat cluster offset
    let node ← findNode s cluster
    let v ← readLoop L d fat cluster remains
      ⟨[], remains, sector, offset % kBlockSize, some node, s⟩
    let ret := BitVec.ofNat 32 tail - BitVec.ofNat 32 offset - BitVec.ofNat 32 v.remains
    return ⟨ret.toInt, v.out, v.clusters⟩

/-! ### The file -/

/-- **The bytes of a file**: those of the clusters of its chain. -/
def Volume.fileByte (root k : ℕ) : ℕ :=
  d.byte (kBlockSize * (fat.first_lba + fat.data_first_sector +
    (fat.chain d root (k / (fat.BPB_SecPerClus * kBlockSize)) - 2) * fat.BPB_SecPerClus) +
    k % (fat.BPB_SecPerClus * kBlockSize))

/-- The sector of the volume that a sector of the file is. -/
def Volume.fileSector (root f : ℕ) : ℕ :=
  fat.data_first_sector + (fat.chain d root (f / fat.BPB_SecPerClus) - 2) * fat.BPB_SecPerClus +
    f % fat.BPB_SecPerClus

/-- The chain covers a file of this size. -/
def Volume.Covers (root size : ℕ) : Prop :=
  ∀ i, i * (fat.BPB_SecPerClus * kBlockSize) < size → isValidCluster (fat.chain d root i)

/-! ### Where it reads what it should -/

/-- **Where `CalcNextSector` goes** from sector `f` of the file, with the node at place `i` of a
list of `n` clusters: to sector `f'`. The number of the sector in the volume decides whether
it goes to the cluster behind that of the node, or to the next sector; then there has to be
a node already for the loop to go to. -/
def Volume.GoesTo (root n f i f' : ℕ) : Prop :=
  if fat.fileSector d root f % fat.BPB_SecPerClus = fat.BPB_SecPerClus - 1 then
    fat.GoesOn d root (i + 2) ∧
      fat.fileSector d root f' = fat.fileSector d root ((i + 1) * fat.BPB_SecPerClus)
  else i + 1 < n ∧ fat.fileSector d root f' = fat.fileSector d root f + 1

/-- The sectors that are read at once, to get `rest` bytes from sector `f` on, fit a page, lie
one after the other, and are not cut short by `BPB_SecPerClus - sector`. -/
structure Volume.ReadsWhole (root f rest : ℕ) : Prop where
  fits : kBlockSize * readSectors rest ≤ PAGE_SIZE
  inOrder : ∀ i < readSectors rest, fat.fileSector d root (f + i) = fat.fileSector d root f + i
  uncut : fat.fileSector d root f ≤ fat.BPB_SecPerClus →
    readSectors rest ≤ fat.BPB_SecPerClus - fat.fileSector d root f

/-- Nothing is left behind them, or a tail that is found. -/
def Volume.TailFound (root n f i rest : ℕ) : Prop :=
  rest ≤ kBlockSize * readSectors rest ∨ fat.GoesTo d root n f i (f + readSectors rest)

/-- **The passes of the loop are right**: clusters have one sector; or what is asked for is in
one sector; or it starts with a sector, and is read at once; or it starts in one, which is read
up to its end, and then what is left is in the next sector, or is read at once. -/
def Volume.PassesRight (root n offset len : ℕ) : Prop :=
  let f := offset / kBlockSize
  let q := f / fat.BPB_SecPerClus
  let rest := offset % kBlockSize + len - kBlockSize
  fat.BPB_SecPerClus = 1 ∨ offset % kBlockSize + len ≤ kBlockSize ∨
    (offset % kBlockSize = 0 ∧ fat.ReadsWhole d root f len ∧ fat.TailFound d root n f q len) ∨
    (0 < offset % kBlockSize ∧ fat.GoesTo d root n f q (f + 1) ∧
      (rest ≤ kBlockSize ∨
        fat.ReadsWhole d root (f + 1) rest ∧ fat.TailFound d root n (f + 1) (q + 1) rest))

/-- **Where `Read` reads what it should**, on a handle whose list has `n` clusters. -/
structure Volume.Clear (root n offset len : ℕ) : Prop where
  /-- `len` is a number of type `int`. -/
  short : len < 2 ^ 31
  /-- The entries of the table are in the first 4 GiB of the card. -/
  listed : ∀ i, fat.GoesOn d root (i + 1) → fat.Listed (fat.chain d root i)
  /-- So is what is asked for. -/
  inReach : ∀ f, offset / kBlockSize ≤ f → kBlockSize * f < offset + len →
    InReach (fat.first_lba + fat.fileSector d root f)
  /-- There is a cluster at the offset, even if nothing is asked for. -/
  found : len = 0 → offset / (fat.BPB_SecPerClus * kBlockSize) < n ∨
    isValidCluster (fat.chain d root (offset / (fat.BPB_SecPerClus * kBlockSize)))
  passes : fat.PassesRight d root n offset len

/-! ### Pass by pass -/

/-- What a pass of the loop copies that starts at `pos`, of the `rest` that is left. -/
def Volume.copied (pos rest : ℕ) : ℕ :=
  if 0 < pos % kBlockSize ∨ rest ≤ kBlockSize ∨ fat.BPB_SecPerClus = 1 then
    min rest (kBlockSize - pos % kBlockSize)
  else min rest (kBlockSize * readSectors rest)

/-- Where pass `t` of the loop starts, if the first does at `pos`, and all goes right up to
`stop`. -/
def Volume.passAt (stop : ℕ) : ℕ → ℕ → ℕ
  | pos, 0 => pos
  | pos, t + 1 => Volume.passAt stop (pos + fat.copied pos (stop - pos)) t

/-- The sector that pass `t` starts with is taken for the last of its cluster, and it is not the
last pass. -/
def Volume.Leaves (root stop pos t : ℕ) : Prop :=
  fat.fileSector d root (fat.passAt stop pos t / kBlockSize) % fat.BPB_SecPerClus =
    fat.BPB_SecPerClus - 1 ∧ fat.passAt stop pos (t + 1) < stop

/-- **What the passes look at**, from the one on that starts at `pos`, with the node at place `i`:
their sectors are in reach, and the nodes they go on to for another cluster are trusted. -/
structure Volume.Looks (root : ℕ) (trusted : ℕ → Prop) (stop pos i : ℕ) : Prop where
  inReach : ∀ t, fat.passAt stop pos t < stop →
    InReach (fat.first_lba + fat.fileSector d root (fat.passAt stop pos t / kBlockSize))
  trusted : ∀ t, fat.Leaves d root stop pos t → fat.GoesOn d root (i + t + 2) → trusted (i + t + 1)

variable {L d fat} {root size offset len : ℕ}

theorem le_passAt (stop pos t : ℕ) : pos ≤ fat.passAt stop pos t := by
  induction t generalizing pos with
  | zero => exact le_rfl
  | succ t ih => exact (Nat.le_add_right ..).trans (ih _)

theorem Volume.Looks.here {trusted : ℕ → Prop} {stop pos i : ℕ}
    (h : fat.Looks d root trusted stop pos i) (hpos : pos < stop) :
    InReach (fat.first_lba + fat.fileSector d root (pos / kBlockSize)) := h.inReach 0 hpos

theorem Volume.Looks.leave {trusted : ℕ → Prop} {stop pos i : ℕ}
    (h : fat.Looks d root trusted stop pos i) (hlt : pos + fat.copied pos (stop - pos) < stop)
    (hbound : fat.fileSector d root (pos / kBlockSize) % fat.BPB_SecPerClus =
      fat.BPB_SecPerClus - 1) (hgo : fat.GoesOn d root (i + 2)) : trusted (i + 1) :=
  h.trusted 0 ⟨hbound, hlt⟩ hgo

theorem Volume.Looks.next {trusted : ℕ → Prop} {stop pos i : ℕ}
    (h : fat.Looks d root trusted stop pos i) :
    fat.Looks d root trusted stop (pos + fat.copied pos (stop - pos)) (i + 1) where
  inReach t := h.inReach (t + 1)
  trusted t hleaves hgo := by
    have hplace : i + 1 + t = i + (t + 1) := by omega
    rw [hplace] at hgo ⊢
    exact h.trusted (t + 1) hleaves hgo

/-- A chain that covers a file goes on up to the cluster of an offset in it. -/
theorem Volume.Covers.goesOn (h : fat.Covers d root size) (hle : offset ≤ size) :
    fat.GoesOn d root (offset / (fat.BPB_SecPerClus * kBlockSize)) := by
  have hcs : 0 < fat.BPB_SecPerClus * kBlockSize := Nat.mul_pos fat.secPerClus_pos (by decide)
  have hstart : offset / (fat.BPB_SecPerClus * kBlockSize) * (fat.BPB_SecPerClus * kBlockSize) ≤
      size := (Nat.div_mul_le_self ..).trans hle
  exact fun i hi => h i ((Nat.mul_lt_mul_of_pos_right hi hcs).trans_le hstart)

/-! ### Counting sectors -/

/-- Up to 16 MiB nothing is lost. -/
theorem readSectors_of_lt {n : ℕ} (h : n < 2 ^ 24) : readSectors n = (n + 256) / kBlockSize := by
  rw [readSectors, Lib.roundEven_of_lt (by decide) h]

/-- What fits a page is less than that. -/
theorem readSectors_of_fits {n : ℕ} (h : kBlockSize * readSectors n ≤ PAGE_SIZE) :
    readSectors n = (n + 256) / kBlockSize := by
  refine readSectors_of_lt ?_
  by_contra hlt
  have hulp := Lib.ulp_mul_le (by decide) (Nat.le_of_not_lt hlt)
  have hnear := (Lib.roundEven_near 24 n).2
  rw [readSectors, kBlockSize, PAGE_SIZE] at h
  omega

/-- **The count is right**, up to a part of a sector. -/
theorem readSectors_near {n : ℕ} (h : n < 2 ^ 32) :
    kBlockSize * readSectors n ≤ n + 384 ∧ n < kBlockSize * readSectors n + 384 := by
  have hulp : Lib.ulp 24 n ≤ 256 := Lib.ulp_le (q := 32) (by decide) (by decide) h
  have hnear := Lib.roundEven_near 24 n
  rw [readSectors, kBlockSize]
  omega

/-! ### Sectors of the file -/

/-- A byte of the file is in its sector. -/
theorem fileByte_eq (root f : ℕ) {j : ℕ} (hj : j < kBlockSize) :
    fat.fileByte d root (kBlockSize * f + j) =
      d.byte (kBlockSize * (fat.first_lba + fat.fileSector d root f) + j) := by
  have hdiv : (kBlockSize * f + j) / (fat.BPB_SecPerClus * kBlockSize) =
      f / fat.BPB_SecPerClus := by
    rw [Nat.mul_comm fat.BPB_SecPerClus, ← Nat.div_div_eq_div_mul,
      Nat.mul_add_div (by decide), Nat.div_eq_of_lt hj, Nat.add_zero]
  have hmod : (kBlockSize * f + j) % (fat.BPB_SecPerClus * kBlockSize) =
      kBlockSize * (f % fat.BPB_SecPerClus) + j := by
    rw [Nat.mul_comm fat.BPB_SecPerClus, Nat.mod_mul, Nat.mul_add_mod, Nat.mod_eq_of_lt hj,
      Nat.mul_add_div (by decide), Nat.div_eq_of_lt hj, Nat.add_zero, Nat.add_comm]
  rw [Volume.fileByte, Volume.fileSector, hdiv, hmod]
  congr 1
  ring

/-- The sector of an offset. -/
theorem calcSector_eq {cluster f : ℕ} (hcluster : isValidCluster cluster)
    (hf : offset / kBlockSize = f)
    (hlt : fat.data_first_sector + (cluster - 2) * fat.BPB_SecPerClus + f % fat.BPB_SecPerClus <
      2 ^ 32) :
    calcSector fat cluster offset =
      fat.data_first_sector + (cluster - 2) * fat.BPB_SecPerClus + f % fat.BPB_SecPerClus := by
  obtain ⟨hlo, hhi⟩ := hcluster
  have hsub : (cluster + 2 ^ 32 - 2) % 2 ^ 32 = cluster - 2 := by omega
  have hoff : offset % (fat.BPB_SecPerClus * kBlockSize) / kBlockSize = f % fat.BPB_SecPerClus := by
    rw [Nat.mod_mul_left_div_self, hf]
  rw [calcSector, hsub, hoff]
  rw [Nat.mod_eq_of_lt (a := fat.data_first_sector + _) (by omega), Nat.mod_eq_of_lt hlt]

/-- Where a cluster starts. -/
theorem calcSector_zero {cluster : ℕ} (hcluster : isValidCluster cluster)
    (hlt : fat.data_first_sector + (cluster - 2) * fat.BPB_SecPerClus < 2 ^ 32) :
    calcSector fat cluster 0 =
      fat.data_first_sector + (cluster - 2) * fat.BPB_SecPerClus := by
  have hmod : 0 % fat.BPB_SecPerClus = 0 := Nat.zero_mod _
  have hsector : calcSector fat cluster 0 = _ := calcSector_eq (f := 0) hcluster rfl
    (by rw [hmod, Nat.add_zero]; exact hlt)
  rwa [hmod, Nat.add_zero] at hsector

/-- The first sector of a cluster of the file. -/
theorem fileSector_mul (root i : ℕ) : fat.fileSector d root (i * fat.BPB_SecPerClus) =
    fat.data_first_sector + (fat.chain d root i - 2) * fat.BPB_SecPerClus := by
  rw [Volume.fileSector, Nat.mul_div_cancel _ fat.secPerClus_pos, Nat.mul_mod_left, Nat.add_zero]

/-- **`CalcNextSector`** goes where it is said to go, and there is a node for it. -/
theorem calcNextSector_gives {s : Clusters} {trusted : ℕ → Prop} {sector p n i f g : ℕ}
    (h : FollowsOn d fat root trusted s.val) (htrusts : fat.Trusts d root trusted)
    (hp : p < s.val.length) (hsector : sector = fat.fileSector d root f) :
    Lib.Gives (calcNextSector L d fat s sector (some p))
      (fun r => s.ExtendsOn d fat root trusted r.2 ∧
        (fat.GoesTo d root n f i g → fat.chain d root p = fat.chain d root i → p ≤ i →
          n ≤ s.val.length → fat.fileSector d root g < 2 ^ 32 →
          (fat.fileSector d root f % fat.BPB_SecPerClus = fat.BPB_SecPerClus - 1 →
            fat.GoesOn d root (i + 2) → trusted (i + 1)) →
          r.1 = fat.fileSector d root g ∧ p + 1 < r.2.val.length)) Fault.OutOfMemory := by
  subst hsector
  rw [calcNextSector]
  by_cases hbound : fat.fileSector d root f % fat.BPB_SecPerClus = fat.BPB_SecPerClus - 1
  · -- taken for the last of its cluster
    rw [if_neg (not_not.mpr hbound)]
    refine (calcNextCluster_gives h hp (htrusts p)).bind ?_
    rintro ⟨next_cluster, t⟩ ⟨hnext, hlen, hext⟩
    refine .of_ok ⟨hext, fun hgo hpi hle _ hlt htrusted => ⟨?_, hlen⟩⟩
    rw [Volume.GoesTo, if_pos hbound] at hgo
    obtain ⟨hgo, hg⟩ := hgo
    have hcluster : next_cluster = fat.chain d root (i + 1) := by
      rw [← chain_add_congr hpi 1]
      exact hnext (htrusts.mono (htrusted hbound hgo) (Nat.succ_le_succ hle))
    rw [hg, fileSector_mul] at hlt ⊢
    rw [hcluster]
    exact calcSector_zero (hgo (i + 1) (Nat.lt_succ_self _)) hlt
  · rw [if_pos hbound]
    refine .of_ok ⟨⟨h, le_rfl⟩, fun hgo _ hle hn hlt _ => ?_⟩
    rw [Volume.GoesTo, if_neg hbound] at hgo
    obtain ⟨hin, hg⟩ := hgo
    rw [hg] at hlt ⊢
    have hnext : p + 1 < s.val.length := by omega
    exact ⟨Nat.mod_eq_of_lt hlt, hnext⟩

/-! ### What is copied -/

variable (d fat root offset len) in
/-- **What has been read** when the file is read up to `pos`. -/
structure Reading (pos : ℕ) (v : ReadVars) : Prop where
  le : offset ≤ pos
  remains : v.remains + pos = offset + len
  out : v.out = (List.range (pos - offset)).map fun j => fat.fileByte d root (offset + j)

variable (d fat root) in
/-- **The loop can go on** from `pos`, with the node at place `p`. -/
structure Ready (trusted : ℕ → Prop) (pos p : ℕ) (v : ReadVars) : Prop where
  sector : v.sector = fat.fileSector d root (pos / kBlockSize)
  offset : v.sector_offset = pos % kBlockSize
  node : v.cluster_list = some p
  lt : p < v.clusters.val.length
  follows : FollowsOn d fat root trusted v.clusters.val

variable {trusted : ℕ → Prop}

/-- The byte offset of a sector that is in reach. -/
theorem seek_eq {sector : ℕ} (h : InReach (fat.first_lba + sector)) :
    kBlockSize * ((fat.first_lba + sector) % 2 ^ 32) % 2 ^ 32 =
      kBlockSize * (fat.first_lba + sector) := by
  rw [InReach] at h
  rw [kBlockSize]
  omega

/-- **A single sector** is transferred, as far as it is wanted. -/
theorem transfer_single {v : ReadVars} {pos p : ℕ} (hv : Ready d fat root trusted pos p v)
    (hsingle : 0 < v.sector_offset ∨ v.remains ≤ kBlockSize ∨ fat.BPB_SecPerClus = 1)
    (hreach : InReach (fat.first_lba + fat.fileSector d root (pos / kBlockSize))) :
    ∃ buf, transfer d fat v = .ok (some buf, min v.remains (kBlockSize - pos % kBlockSize)) ∧
      ∀ j < min v.remains (kBlockSize - pos % kBlockSize),
        buf (pos % kBlockSize + j) = fat.fileByte d root (pos + j) := by
  obtain ⟨buf, hread, hbuf⟩ := readSector_one d ((fat.first_lba + v.sector) % 2 ^ 32)
  refine ⟨buf, ?_, fun j hj => ?_⟩
  · rw [transfer, if_pos hsingle, hread, Lib.ok_bind, hv.offset]
    rfl
  · have hlt : pos % kBlockSize + j < kBlockSize := by omega
    have hpos : pos + j = kBlockSize * (pos / kBlockSize) + (pos % kBlockSize + j) := by
      rw [← Nat.add_assoc, Nat.div_add_mod]
    rw [hbuf _ hlt, hv.sector, seek_eq hreach, hpos, fileByte_eq root _ hlt]

/-- **Several sectors** are transferred at once. -/
theorem transfer_whole {v : ReadVars} {f p : ℕ} (hv : Ready d fat root trusted (kBlockSize * f) p v)
    (hmany : kBlockSize < v.remains) (hone : fat.BPB_SecPerClus ≠ 1)
    (hreach : InReach (fat.first_lba + fat.fileSector d root f))
    (hwhole : fat.ReadsWhole d root f v.remains) :
    ∃ buf, transfer d fat v =
        .ok (some buf, min v.remains (kBlockSize * readSectors v.remains)) ∧
      ∀ j < min v.remains (kBlockSize * readSectors v.remains),
        buf j = fat.fileByte d root (kBlockSize * f + j) := by
  have hoffset : v.sector_offset = 0 := hv.offset.trans (Nat.mul_mod_right ..)
  have hsector : v.sector = fat.fileSector d root f := by
    rw [hv.sector, Nat.mul_div_cancel_left _ (by decide)]
  have hfits := hwhole.fits
  have huncut := hwhole.uncut
  have hspc := fat.secPerClus_lt
  have hreach' := hreach
  rw [InReach] at hreach'
  have hcount := readSectors_of_fits hfits
  set R := readSectors v.remains with hR
  have hRpos : 1 ≤ R := by
    rw [hcount]
    simp only [kBlockSize] at hmany ⊢
    omega
  simp only [kBlockSize, PAGE_SIZE] at hfits
  -- the bound on the number of sectors does not cut it short
  have hnum : min R ((fat.BPB_SecPerClus + 2 ^ 32 - v.sector) % 2 ^ 32) = R := by
    rw [hsector]
    refine min_eq_left ?_
    by_cases hle : fat.fileSector d root f ≤ fat.BPB_SecPerClus
    · have := huncut hle
      omega
    · omega
  have hsize : kBlockSize * R % 2 ^ 32 = kBlockSize * R := by
    rw [kBlockSize]
    omega
  set buf : ℕ → ℕ := fun i =>
    if i < kBlockSize * R then d.byte (kBlockSize * (fat.first_lba + fat.fileSector d root f) + i)
    else d.stale i with hbuf
  have hread : readSector d ((fat.first_lba + v.sector) % 2 ^ 32) R = .ok (some buf) := by
    rw [readSector, hsize, hsector, seek_eq hreach]
    rw [if_neg, if_neg]
    · rw [PAGE_SIZE, kBlockSize]
      omega
    · rw [kBlockSize]
      omega
  refine ⟨buf, ?_, fun j hj => ?_⟩
  · rw [transfer, if_neg]
    · dsimp only
      rw [← hR, hnum, hread, Lib.ok_bind, hsize]
      rfl
    · rintro (h | h | h)
      · omega
      · omega
      · exact hone h
  · have hj' : j < kBlockSize * R := hj.trans_le (min_le_right _ _)
    have hdiv : j / kBlockSize < R := Nat.div_lt_of_lt_mul hj'
    have hpos : kBlockSize * f + j = kBlockSize * (f + j / kBlockSize) + j % kBlockSize := by
      rw [Nat.mul_add, Nat.add_assoc, Nat.div_add_mod]
    rw [hpos, fileByte_eq root _ (Nat.mod_lt _ (by decide)), hwhole.inOrder _ hdiv]
    rw [hbuf]
    dsimp only
    rw [if_pos hj', ← Nat.add_assoc, Nat.mul_add _ _ (j / kBlockSize), Nat.add_assoc,
      Nat.div_add_mod]

/-- **A pass of the loop**: what has been transferred is copied, and the loop can go on if
`CalcNextSector` goes to where the copying has got. -/
theorem readPass_gives {v : ReadVars} {buf : ℕ → ℕ} {pos p n i g copy_len : ℕ}
    (hr : Reading d fat root offset len pos v) (hv : Ready d fat root trusted pos p v)
    (htrusts : fat.Trusts d root trusted)
    (htransfer : transfer d fat v = .ok (some buf, copy_len)) (hle : copy_len ≤ v.remains)
    (hpage : v.sector_offset + copy_len ≤ PAGE_SIZE)
    (hbuf : ∀ j < copy_len, buf (v.sector_offset + j) = fat.fileByte d root (pos + j)) :
    Lib.Gives (readPass L d fat v)
      (fun v' => Reading d fat root offset len (pos + copy_len) v' ∧
        v.clusters.ExtendsOn d fat root trusted v'.clusters ∧
        (fat.GoesTo d root n (pos / kBlockSize) i g →
          fat.chain d root p = fat.chain d root i → p ≤ i → n ≤ v.clusters.val.length →
          fat.fileSector d root g < 2 ^ 32 →
          (fat.fileSector d root (pos / kBlockSize) % fat.BPB_SecPerClus =
            fat.BPB_SecPerClus - 1 → fat.GoesOn d root (i + 2) → trusted (i + 1)) →
          pos + copy_len = kBlockSize * g →
          Ready d fat root trusted (pos + copy_len) (p + 1) v')) Fault.OutOfMemory := by
  rw [readPass, htransfer, Lib.ok_bind]
  dsimp only
  rw [readBuf, if_pos hpage, Lib.ok_bind, hv.node]
  refine (calcNextSector_gives (n := n) (i := i) (g := g) hv.follows htrusts hv.lt
    hv.sector).bind ?_
  rintro ⟨sector, clusters⟩ ⟨hext, hnext⟩
  refine .of_ok ⟨⟨?_, ?_, ?_⟩, hext, fun hgo hpi hple hn hlt htrusted hpos => ?_⟩
  · exact hr.le.trans (Nat.le_add_right _ _)
  · have := hr.remains
    change v.remains - copy_len + (pos + copy_len) = offset + len
    omega
  -- what has been stored before, and behind it what this pass copies
  · have hsplit : pos + copy_len - offset = (pos - offset) + copy_len := by
      have := hr.le
      omega
    change v.out ++ (List.range copy_len).map (fun j => buf (v.sector_offset + j)) = _
    rw [hsplit, List.range_add, List.map_append, ← hr.out, List.map_map]
    refine congrArg (v.out ++ ·) (List.map_congr_left fun j hj => ?_)
    rw [hbuf j (List.mem_range.mp hj)]
    have := hr.le
    change _ = fat.fileByte d root (offset + (pos - offset + j))
    congr 1
    omega
  · obtain ⟨hsector, hlen⟩ := hnext hgo hpi hple hn hlt htrusted
    refine ⟨?_, ?_, if_pos hlen, hlen, hext.follows⟩
    · rw [hpos, Nat.mul_div_cancel_left _ (by decide)]
      exact hsector
    · rw [hpos, Nat.mul_mod_right]

/-! ### The loop -/

variable (d fat root offset len trusted) in
/-- **What is wanted of the loop**: everything has been read. -/
def AllRead (s : Clusters) (v : ReadVars) : Prop :=
  Reading d fat root offset len (offset + len) v ∧ s.ExtendsOn d fat root trusted v.clusters

/-- When all has been read, the loop ends. -/
theorem readLoop_end {cluster fuel pos : ℕ} {s : Clusters} {v : ReadVars}
    (hr : Reading d fat root offset len pos v) (hs : s.ExtendsOn d fat root trusted v.clusters)
    (hpos : pos = offset + len) :
    Lib.Gives (readLoop L d fat cluster fuel v) (AllRead d fat root offset len trusted s)
      Fault.OutOfMemory := by
  have hzero : ¬(0 < v.remains ∧ isValidCluster cluster) := by
    have := hr.remains
    omega
  subst hpos
  cases fuel with
  | zero =>
    rw [readLoop, if_neg hzero]
    exact .of_ok ⟨hr, hs⟩
  | succ fuel =>
    rw [readLoop, if_neg hzero]
    exact .of_ok ⟨hr, hs⟩

/-- Otherwise it makes a pass. -/
theorem readLoop_pass {cluster fuel : ℕ} {v : ReadVars} (hrem : 0 < v.remains)
    (hcluster : isValidCluster cluster) :
    readLoop L d fat cluster (fuel + 1) v =
      (readPass L d fat v >>= readLoop L d fat cluster fuel) :=
  if_pos ⟨hrem, hcluster⟩

section Loop

variable {cluster fuel pos p f i n : ℕ} {s : Clusters} {v : ReadVars}
  (hcluster : isValidCluster cluster) (htrusts : fat.Trusts d root trusted)

/-- A sector in reach is one whose number is not cut. -/
theorem InReach.lt {sector : ℕ} (h : InReach (fat.first_lba + sector)) : sector < 2 ^ 32 := by
  rw [InReach] at h
  omega

include hcluster htrusts in
/-- **What is left is in one sector.** -/
theorem readLoop_last (hr : Reading d fat root offset len pos v)
    (hv : Ready d fat root trusted pos p v) (hs : s.ExtendsOn d fat root trusted v.clusters)
    (hreach : InReach (fat.first_lba + fat.fileSector d root (pos / kBlockSize)))
    (hrem : 0 < v.remains) (hin : pos % kBlockSize + v.remains ≤ kBlockSize) (hfuel : 1 ≤ fuel) :
    Lib.Gives (readLoop L d fat cluster fuel v) (AllRead d fat root offset len trusted s)
      Fault.OutOfMemory := by
  obtain ⟨fuel, rfl⟩ := Nat.exists_eq_add_of_le' hfuel
  have hpos := hr.remains
  obtain ⟨buf, htransfer, hbuf⟩ := transfer_single hv (.inr (.inl (by omega))) hreach
  have hmin : min v.remains (kBlockSize - pos % kBlockSize) = v.remains := by omega
  rw [hmin] at htransfer hbuf
  have hpage : v.sector_offset + v.remains ≤ PAGE_SIZE := by
    rw [hv.offset]
    exact hin.trans (by decide)
  rw [readLoop_pass hrem hcluster]
  refine (readPass_gives (n := 0) (i := 0) (g := 0) hr hv htrusts htransfer le_rfl hpage
    fun j hj => by rw [hv.offset]; exact hbuf j hj).bind ?_
  rintro v' ⟨hr', hext, -⟩
  exact readLoop_end hr' (hs.trans hext) (by omega)

include hcluster htrusts in
/-- **Clusters have one sector**: each pass reads one, and goes on to the next. -/
theorem readLoop_one (hone : fat.BPB_SecPerClus = 1) (hcovers : fat.Covers d root size)
    (hsize : offset + len ≤ size) (hr : Reading d fat root offset len pos v)
    (hs : s.ExtendsOn d fat root trusted v.clusters)
    (hv : pos < offset + len → Ready d fat root trusted pos p v ∧
      fat.chain d root p = fat.chain d root (pos / kBlockSize) ∧ p ≤ pos / kBlockSize ∧
      fat.Looks d root trusted (offset + len) pos (pos / kBlockSize))
    (hfuel : v.remains ≤ fuel) :
    Lib.Gives (readLoop L d fat cluster fuel v) (AllRead d fat root offset len trusted s)
      Fault.OutOfMemory := by
  induction fuel generalizing pos p v with
  | zero =>
    have := hr.remains
    exact readLoop_end hr hs (by omega)
  | succ fuel ih =>
    have hrem := hr.remains
    by_cases hend : pos = offset + len
    · exact readLoop_end hr hs hend
    have hpos : pos < offset + len := by omega
    obtain ⟨hv, hpi, hple, hlooks⟩ := hv hpos
    obtain ⟨buf, htransfer, hbuf⟩ := transfer_single hv (.inr (.inr hone)) (hlooks.here hpos)
    have hmod : pos % kBlockSize < kBlockSize := Nat.mod_lt _ (by decide)
    have hdiv := Nat.div_add_mod pos kBlockSize
    set copy_len := min v.remains (kBlockSize - pos % kBlockSize) with hcopy
    have hcopied : fat.copied pos (offset + len - pos) = copy_len := by
      rw [Volume.copied, if_pos (.inr (.inr hone)), hcopy, ← hrem, Nat.add_sub_cancel]
    have hpage : v.sector_offset + copy_len ≤ PAGE_SIZE := by
      rw [hv.offset]
      exact (by omega : _ ≤ kBlockSize).trans (by decide)
    rw [readLoop_pass (by omega) hcluster]
    refine (readPass_gives (n := 0) (i := pos / kBlockSize) (g := pos / kBlockSize + 1) hr hv
      htrusts htransfer (by omega) hpage fun j hj => by rw [hv.offset]; exact hbuf j hj).bind ?_
    rintro v' ⟨hr', hext, hnext⟩
    refine ih (p := p + 1) hr' (hs.trans hext) (fun hlt => ?_) ?_
    · have hpos : pos + copy_len = kBlockSize * (pos / kBlockSize + 1) := by
        rw [Nat.mul_add, Nat.mul_one]
        omega
      have hplace : (pos + copy_len) / kBlockSize = pos / kBlockSize + 1 := by
        rw [hpos, Nat.mul_div_cancel_left _ (by decide)]
      -- with one sector each, sector `f` is cluster `f`
      have hgo : fat.GoesTo d root 0 (pos / kBlockSize) (pos / kBlockSize)
          (pos / kBlockSize + 1) := by
        rw [Volume.GoesTo, if_pos (by rw [hone, Nat.mod_one]), hone, Nat.mul_one]
        refine ⟨fun j hj => hcovers j ?_, rfl⟩
        rw [hone, Nat.one_mul, Nat.mul_comm]
        have : kBlockSize * j ≤ kBlockSize * (pos / kBlockSize + 1) :=
          Nat.mul_le_mul_left _ (by omega)
        omega
      have hlooks' := hcopied ▸ hlooks.next
      have hreach := hlooks'.here hlt
      rw [hplace] at hreach ⊢
      have hready := hnext hgo hpi hple (Nat.zero_le _) hreach.lt
        (hlooks.leave (hcopied.symm ▸ hlt)) hpos
      exact ⟨hready, chain_add_congr hpi 1, Nat.succ_le_succ hple, hlooks'⟩
    · have := hr'.remains
      omega

include hcluster htrusts in
/-- **What is left starts with a sector**, and is read at once; there may be a tail. -/
theorem readLoop_whole (hone : fat.BPB_SecPerClus ≠ 1)
    (hr : Reading d fat root offset len (kBlockSize * f) v)
    (hv : Ready d fat root trusted (kBlockSize * f) p v)
    (hs : s.ExtendsOn d fat root trusted v.clusters)
    (hmany : kBlockSize < v.remains) (hwhole : fat.ReadsWhole d root f v.remains)
    (htail : fat.TailFound d root n f i v.remains)
    (hlooks : fat.Looks d root trusted (offset + len) (kBlockSize * f) i)
    (hpi : fat.chain d root p = fat.chain d root i) (hple : p ≤ i)
    (hn : n ≤ v.clusters.val.length) (hfuel : 2 ≤ fuel) :
    Lib.Gives (readLoop L d fat cluster fuel v) (AllRead d fat root offset len trusted s)
      Fault.OutOfMemory := by
  obtain ⟨fuel, rfl⟩ := Nat.exists_eq_add_of_le' hfuel
  have hrem := hr.remains
  have hf : kBlockSize * f / kBlockSize = f := Nat.mul_div_cancel_left _ (by decide)
  have hoffset : v.sector_offset = 0 := hv.offset.trans (Nat.mul_mod_right ..)
  have hreach := hlooks.here (by omega)
  rw [hf] at hreach
  obtain ⟨buf, htransfer, hbuf⟩ := transfer_whole hv hmany hone hreach hwhole
  have hfits := hwhole.fits
  have hR : v.remains < kBlockSize * readSectors v.remains + kBlockSize := by
    rw [readSectors_of_fits hfits, kBlockSize]
    omega
  have hcopied : fat.copied (kBlockSize * f) (offset + len - kBlockSize * f) =
      min v.remains (kBlockSize * readSectors v.remains) := by
    rw [← hrem, Nat.add_sub_cancel, Volume.copied, if_neg]
    rw [Nat.mul_mod_right]
    omega
  set R := readSectors v.remains
  set copy_len := min v.remains (kBlockSize * R) with hcopy
  rw [readLoop_pass (by omega) hcluster]
  refine (readPass_gives (n := n) (i := i) (g := f + R) hr hv htrusts htransfer (by omega)
    (by omega) fun j hj => by rw [hoffset, Nat.zero_add]; exact hbuf j hj).bind ?_
  rintro v' ⟨hr', hext, hnext⟩
  have hrem' := hr'.remains
  by_cases hall : v.remains ≤ kBlockSize * R
  · have hcopied : copy_len = v.remains := min_eq_left hall
    exact readLoop_end hr' (hs.trans hext) (by omega)
  -- there is a tail, of less than one sector
  · have hgo := htail.resolve_left hall
    have hlen : copy_len = kBlockSize * R := min_eq_right (Nat.le_of_not_le hall)
    have hpos : kBlockSize * f + copy_len = kBlockSize * (f + R) := by
      rw [Nat.mul_add]
      omega
    have hlt : kBlockSize * f + copy_len < offset + len := by omega
    have hreach' := (hcopied ▸ hlooks.next).here hlt
    have hplace : (kBlockSize * f + copy_len) / kBlockSize = f + R := by
      rw [hpos, Nat.mul_div_cancel_left _ (by decide)]
    have hready := hnext (hf.symm ▸ hgo) hpi hple hn (hplace ▸ hreach').lt
      (hlooks.leave (hcopied.symm ▸ hlt)) hpos
    refine readLoop_last hcluster htrusts hr' hready (hs.trans hext) hreach' (by omega) ?_
      (by omega)
    rw [hpos, Nat.mul_mod_right]
    omega

include hcluster htrusts in
/-- **The loop reads everything** where its passes are right. -/
theorem readLoop_gives (hcovers : fat.Covers d root size) (hsize : offset + len ≤ size)
    (hpasses : fat.PassesRight d root n offset len)
    (hlooks : 0 < len → fat.Looks d root trusted (offset + len) offset
      (offset / kBlockSize / fat.BPB_SecPerClus))
    (hr : Reading d fat root offset len offset v) (hv : Ready d fat root trusted offset p v)
    (hs : s.ExtendsOn d fat root trusted v.clusters) (hn : n ≤ v.clusters.val.length)
    (hpi : fat.chain d root p = fat.chain d root (offset / kBlockSize / fat.BPB_SecPerClus))
    (hple : p ≤ offset / kBlockSize / fat.BPB_SecPerClus) :
    Lib.Gives (readLoop L d fat cluster len v) (AllRead d fat root offset len trusted s)
      Fault.OutOfMemory := by
  have hrem := hr.remains
  have hdiv := Nat.div_add_mod offset kBlockSize
  have hmod : offset % kBlockSize < kBlockSize := Nat.mod_lt _ (by decide)
  have hblock : kBlockSize = 512 := rfl
  by_cases hzero : len = 0
  · exact readLoop_end hr hs (by omega)
  have hlooks := hlooks (Nat.pos_of_ne_zero hzero)
  have hreach := hlooks.here (by omega)
  by_cases hone : fat.BPB_SecPerClus = 1
  · rw [hone, Nat.div_one] at hpi hple hlooks
    exact readLoop_one hcluster htrusts hone hcovers hsize hr hs
      (fun _ => ⟨hv, hpi, hple, hlooks⟩) (by omega)
  by_cases hin : offset % kBlockSize + len ≤ kBlockSize
  · exact readLoop_last hcluster htrusts hr hv hs hreach (by omega) (by omega) (by omega)
  rcases hpasses with h | h | ⟨h0, hwhole, htail⟩ | ⟨hpos, hgo, hrest⟩
  · exact absurd h hone
  · exact absurd h hin
  · have hlen : v.remains = len := by omega
    have hoffset : offset = kBlockSize * (offset / kBlockSize) := by omega
    refine readLoop_whole hcluster htrusts hone (f := offset / kBlockSize) (p := p)
      (hoffset ▸ hr) (hoffset ▸ hv) hs (by omega) (hlen.symm ▸ hwhole) (hlen.symm ▸ htail)
      (hoffset ▸ hlooks) hpi hple hn (by omega)
  · -- the sector it starts in is read up to its end
    set f := offset / kBlockSize with hf
    obtain ⟨buf, htransfer, hbuf⟩ := transfer_single hv (.inl (hv.offset ▸ hpos)) hreach
    have hmin : min v.remains (kBlockSize - offset % kBlockSize) =
        kBlockSize - offset % kBlockSize := by omega
    have hcopied : fat.copied offset (offset + len - offset) =
        kBlockSize - offset % kBlockSize := by
      rw [Volume.copied, if_pos (.inl hpos)]
      omega
    rw [hmin] at htransfer hbuf
    have hpage : v.sector_offset + (kBlockSize - offset % kBlockSize) ≤ PAGE_SIZE := by
      rw [hv.offset]
      exact (by omega : _ ≤ kBlockSize).trans (by decide)
    have hend : offset + (kBlockSize - offset % kBlockSize) = kBlockSize * (f + 1) := by
      rw [Nat.mul_add]
      omega
    have hplace : kBlockSize * (f + 1) / kBlockSize = f + 1 := Nat.mul_div_cancel_left _ (by decide)
    have hlt : kBlockSize * (f + 1) < offset + len := by omega
    have hlooks' := hlooks.next
    rw [hcopied, hend] at hlooks'
    have hreach' := hlooks'.here hlt
    obtain ⟨fuel, hfuel⟩ : ∃ fuel, len = fuel + 1 := Nat.exists_eq_succ_of_ne_zero hzero
    rw [hfuel, readLoop_pass (by omega) hcluster, ← hfuel]
    refine (readPass_gives (n := n) (i := f / fat.BPB_SecPerClus) (g := f + 1) hr hv htrusts
      htransfer (by omega) hpage fun j hj => by rw [hv.offset]; exact hbuf j hj).bind ?_
    rintro v' ⟨hr', hext, hnext⟩
    have hready := hnext hgo hpi hple hn (hplace ▸ hreach').lt
      (hlooks.leave (by rwa [hcopied, hend])) hend
    have hrem' := hr'.remains
    have hleft : v'.remains = offset % kBlockSize + len - kBlockSize := by omega
    rw [hend] at hr' hready
    by_cases hshort : v'.remains ≤ kBlockSize
    · refine readLoop_last hcluster htrusts hr' hready (hs.trans hext) hreach' (by omega) ?_
        (by omega)
      rw [Nat.mul_mod_right, Nat.zero_add]
      exact hshort
    · obtain ⟨hwhole, htail⟩ := hrest.resolve_left (hleft ▸ hshort)
      rw [← hleft] at hwhole htail
      exact readLoop_whole hcluster htrusts hone hr' hready (hs.trans hext) (by omega)
        hwhole htail hlooks' (chain_add_congr hpi 1) (Nat.succ_le_succ hple) (hn.trans hext.length)
        (by omega)

end Loop

/-! ### A call -/

/-- The node with a cluster is found, if not behind the place asked for. -/
theorem findNode_ok {s : Clusters} {q cluster : ℕ} (hq : s.val[q]? = some cluster) :
    ∃ p ≤ q, findNode s cluster = .ok p ∧ s.val[p]? = some cluster := by
  rw [findNode]
  cases hfind : s.val.findIdx? fun val => val = cluster with
  | none =>
    have hnone := List.findIdx?_eq_none_iff.mp hfind cluster (List.mem_of_getElem? hq)
    exact absurd hnone (by simp)
  | some p =>
    obtain ⟨hp, hval, hfirst⟩ := List.findIdx?_eq_some_iff_getElem.mp hfind
    have heq : s.val[p] = cluster := of_decide_eq_true hval
    refine ⟨p, ?_, rfl, by rw [List.getElem?_eq_getElem hp, heq]⟩
    by_contra hlt
    obtain ⟨hq', hqval⟩ := List.getElem?_eq_some_iff.mp hq
    exact hfirst q (Nat.lt_of_not_le hlt) (decide_eq_true hqval)

/-- What is returned: a number of type `int`. -/
theorem ret_eq (offset : ℕ) (hlen : len < 2 ^ 31) :
    (BitVec.ofNat 32 (offset + len) - BitVec.ofNat 32 offset - BitVec.ofNat 32 0).toInt = len := by
  have hadd : BitVec.ofNat 32 (offset + len) - BitVec.ofNat 32 offset - BitVec.ofNat 32 0 =
      BitVec.ofNat 32 len := by
    apply BitVec.eq_of_toNat_eq
    simp only [BitVec.toNat_sub, BitVec.toNat_ofNat]
    omega
  have hmod : len % 2 ^ 32 = len := Nat.mod_eq_of_lt (by omega)
  rw [hadd, BitVec.toInt_eq_toNat_of_lt, BitVec.toNat_ofNat, hmod]
  rw [BitVec.toNat_ofNat, hmod]
  omega

variable (d fat root trusted) in
/-- **What a call relies on**, on a handle whose list has `n` clusters: a list that follows the
chain at the clusters it goes to, sectors that are in reach, and passes that are right. -/
structure ReliesOn (n offset len : ℕ) : Prop where
  short : len < 2 ^ 31
  trusts : fat.Trusts d root trusted
  start : trusted (offset / (fat.BPB_SecPerClus * kBlockSize))
  looks : 0 < len → fat.Looks d root trusted (offset + len) offset
    (offset / (fat.BPB_SecPerClus * kBlockSize))
  found : len = 0 → offset / (fat.BPB_SecPerClus * kBlockSize) < n ∨
    isValidCluster (fat.chain d root (offset / (fat.BPB_SecPerClus * kBlockSize)))
  passes : fat.PassesRight d root n offset len

/-- **`Read`**, where its passes are right: it returns `len`, and has stored the bytes of the
file. -/
theorem read_gives {s : Clusters} (h : FollowsOn d fat root trusted s.val)
    (hcovers : fat.Covers d root size) (hsize : offset + len ≤ size) (hlt : size < 2 ^ 32)
    (hrelies : ReliesOn d fat root trusted s.val.length offset len) :
    Lib.Gives (read L d fat size s offset len)
      (fun r => r.ret = len ∧
        r.out = ((List.range len).map fun j => fat.fileByte d root (offset + j)) ∧
        s.ExtendsOn d fat root trusted r.clusters) Fault.OutOfMemory := by
  obtain ⟨hshort, htrusts, hstart, hlooks, hfound, hpasses⟩ := hrelies
  have hgo := hcovers.goesOn ((Nat.le_add_right offset len).trans hsize)
  set q := offset / (fat.BPB_SecPerClus * kBlockSize) with hq
  have hqle : q * (fat.BPB_SecPerClus * kBlockSize) ≤ offset := Nat.div_mul_le_self ..
  -- the list need not have the cluster where it is only looked for
  have hend : q < s.val.length ∨ isValidCluster (fat.chain d root q) := by
    by_cases hzero : len = 0
    · exact hfound hzero
    · exact .inr (hcovers q (by omega))
  -- neither of the two sums that are cut to words is
  have htail : min ((offset + len % 2 ^ 32) % 2 ^ 32) size = offset + len := by omega
  have hremains : (offset + len + 2 ^ 32 - offset) % 2 ^ 32 = len := by omega
  rw [read, if_neg (by omega)]
  dsimp only
  rw [htail, hremains]
  refine (calcCluster_gives h htrusts hq.symm hgo hstart hend).bind ?_
  rintro ⟨cluster, t⟩ ⟨hcluster, hqlt, hext⟩
  obtain rfl : cluster = fat.chain d root q := hcluster
  -- the node that is found is the first with the cluster, which may be one further up
  obtain ⟨p, hple, hfind, hp⟩ := findNode_ok (hext.follows.val q hqlt hstart)
  have hplt : p < t.val.length := hple.trans_lt hqlt
  have hpi : fat.chain d root p = fat.chain d root q := by
    have hval := hext.follows.val p hplt (htrusts.mono hstart hple)
    exact Option.some.inj (hval.symm.trans hp)
  dsimp only
  rw [hfind, Lib.ok_bind]
  set v : ReadVars := ⟨[], len, calcSector fat (fat.chain d root q) offset, offset % kBlockSize,
    some p, t⟩ with hv
  have hr : Reading d fat root offset len offset v :=
    ⟨le_rfl, Nat.add_comm .., by rw [Nat.sub_self]; rfl⟩
  -- if there is nothing to read, it does not matter where the loop starts
  have hloop : Lib.Gives (readLoop L d fat (fat.chain d root q) len v)
      (AllRead d fat root offset len trusted s) Fault.OutOfMemory := by
    by_cases hzero : len = 0
    · exact readLoop_end hr hext (by omega)
    · have hvalid := hcovers q (by omega)
      have hqdiv : offset / kBlockSize / fat.BPB_SecPerClus = q := by
        rw [hq, Nat.div_div_eq_div_mul, Nat.mul_comm]
      have hreach := (hlooks (Nat.pos_of_ne_zero hzero)).here (by omega)
      have hsector : calcSector fat (fat.chain d root q) offset =
          fat.fileSector d root (offset / kBlockSize) := by
        have hlt := hreach.lt
        rw [Volume.fileSector, hqdiv] at hlt ⊢
        exact calcSector_eq hvalid rfl hlt
      rw [← hqdiv] at hlooks hpi hple
      exact readLoop_gives hvalid htrusts hcovers hsize hpasses hlooks hr
        ⟨hsector, rfl, rfl, hplt, hext.follows⟩ hext hext.length hpi hple
  refine hloop.bind ?_
  rintro w ⟨hw, hwext⟩
  have hzero : w.remains = 0 := by
    have := hw.remains
    omega
  refine .of_ok ⟨?_, ?_, hwext⟩
  · dsimp only
    rw [hzero]
    exact ret_eq offset hshort
  · have hout := hw.out
    rwa [Nat.add_sub_cancel_left] at hout

/-- **A call that is clear** relies on the whole of the chain. -/
theorem Volume.Clear.reliesOn {n : ℕ} (h : fat.Clear d root n offset len)
    (hgo : fat.GoesOn d root (offset / (fat.BPB_SecPerClus * kBlockSize))) :
    ReliesOn d fat root (fat.GoesOn d root) n offset len where
  short := h.short
  trusts i hi := hi.step (.inl (h.listed i hi))
  start := hgo
  looks _ := ⟨fun _ ht => h.inReach _ (Nat.div_le_div_right (le_passAt ..))
    ((Nat.mul_div_le _ _).trans_lt ht), fun _ _ hgo => hgo.mono (Nat.le_succ _)⟩
  found := h.found
  passes := h.passes

/-! ### Runs -/

/-- A call of `Read` that has returned. -/
structure ReadCall where
  offset : ℕ
  len : ℕ
  ret : ℤ
  out : List ℕ

/-- A handle, and the last call on it. -/
structure ReadState where
  clusters : Clusters
  last : Option ReadCall

/-- A call on a handle, of an offset and a length. -/
def readStep (L : Layout) (d : Mmc) (fat : Volume) (size : ℕ) (s : ReadState) (call : ℕ × ℕ) :
    Except Fault ReadState := do
  let r ← read L d fat size s.clusters call.1 call.2
  return ⟨r.clusters, some ⟨call.1, call.2, r.ret, r.out⟩⟩

variable (d fat root) in
/-- **The last call** has returned the length it was asked for, and stored the bytes of the
file. -/
def ReadRight (s : ReadState) : Prop :=
  ∀ c, s.last = some c →
    c.ret = c.len ∧ c.out = (List.range c.len).map fun j => fat.fileByte d root (c.offset + j)

/-- **`Read` returns the bytes of the file**, in every run of calls on a handle each of which is
made where the passes of the loop are right. It follows no null pointer; a call does not come
back only when there is no page left for a node. -/
theorem reads_right (L : Layout) (heap : HeapMap) (hcovers : fat.Covers d root size)
    (hlt : size < 2 ^ 32) {calls : List (ℕ × ℕ)}
    (hcalls : Lib.Each (readStep L d fat size) (fun _ c => c.1 + c.2 ≤ size)
      ⟨⟨[root], heap⟩, none⟩ calls)
    (hclear : Lib.Each (readStep L d fat size)
      (fun s c => fat.Clear d root s.clusters.val.length c.1 c.2) ⟨⟨[root], heap⟩, none⟩ calls) :
    Lib.Along (readStep L d fat size) (ReadRight d fat root) Fault.OutOfMemory
      ⟨⟨[root], heap⟩, none⟩ calls := by
  have hstep : ∀ (s : ReadState) (c : ℕ × ℕ),
      (Follows d fat root s.clusters.val ∧ ReadRight d fat root s) →
      (c.1 + c.2 ≤ size ∧ fat.Clear d root s.clusters.val.length c.1 c.2) →
      Lib.Gives (readStep L d fat size s c)
        (fun t => Follows d fat root t.clusters.val ∧ ReadRight d fat root t)
        Fault.OutOfMemory := by
    rintro s c ⟨hs, -⟩ ⟨hc, hclear⟩
    refine (read_gives hs hcovers hc hlt
      (hclear.reliesOn (hcovers.goesOn (by omega)))).bind ?_
    rintro r ⟨hret, hout, hext⟩
    refine .of_ok ⟨hext.follows, fun c' hc' => ?_⟩
    obtain rfl := Option.some.inj hc'
    exact ⟨hret, hout⟩
  exact Lib.Along.mono (fun _ h => h.2)
    (Lib.along_of_gives hstep ⟨follows_singleton root, fun _ h => (by cases h)⟩ (hcalls.and hclear))

/-- A card with a volume whose clusters have eight sectors, and one file on it. -/
def Mmc.oneFile : Mmc :=
  .ofList (format 8 32 ++ endOfChain 2 ++ endOfChain 3 ++
    entryAt (512 * 6176) ['K', 'E', 'R', 'N', 'E', 'L', '0', '1', 'B', 'I', 'N'] 3 600)

/-- Its volume. -/
def Volume.eightSectors : Volume := {
  first_lba := 2048
  fat_first_sector := 32
  data_first_sector := 4128
  BPB_SecPerClus := 8
  BPB_BytsPerSec := 512
  BPB_RootClus := 2
  first_lba_lt := by decide
  fat_first_sector_lt := by decide
  data_first_sector_lt := by decide
  secPerClus_lt := by decide
  secPerClus_pos := by decide
  bytsPerSec := rfl }

theorem accepted_eightSectors : Accepted .oneFile .eightSectors :=
  ⟨.qemu, fun _ => false, _, rfl, _, rfl, [2], .head _⟩

/-- The file has one cluster. -/
theorem covers_eightSectors : Volume.eightSectors.Covers .oneFile 3 600 := by
  intro i hi
  obtain rfl : i = 0 := by
    change i * 4096 < 600 at hi
    omega
  exact (by decide : isValidCluster 3)

/-- A card with a file of two clusters. -/
def Mmc.twoClusters : Mmc :=
  .ofList (format 8 32 ++ endOfChain 2 ++ bytesAt (512 * 2080 + 3 * 4) [4, 0, 0, 0] ++
    endOfChain 4 ++
    entryAt (512 * 6176) ['K', 'E', 'R', 'N', 'E', 'L', '0', '1', 'B', 'I', 'N'] 3 8192)

theorem accepted_twoClusters : Accepted .twoClusters .eightSectors :=
  ⟨.qemu, fun _ => false, _, rfl, _, rfl, [2], .head _⟩

/-- It covers the file. -/
theorem covers_twoClusters : Volume.eightSectors.Covers .twoClusters 3 8192 := by
  intro i hi
  have hlt : i < 2 := by
    change i * 4096 < 8192 at hi
    omega
  exact (by decide : ∀ i < 2, isValidCluster (Volume.eightSectors.chain .twoClusters 3 i)) i hlt

/-- The clusters of the file lie one after the other. -/
theorem fileSector_twoClusters : ∀ f < 16,
    Volume.eightSectors.fileSector .twoClusters 3 f = 4136 + f := by decide +kernel

/-- Where a call on this file is clear, it is for its passes. -/
theorem clear_twoClusters {n f len : ℕ} (hpos : 0 < len) (hend : 512 * f + len ≤ 8192)
    (hpasses : Volume.eightSectors.PassesRight .twoClusters 3 n (512 * f) len) :
    Volume.eightSectors.Clear .twoClusters 3 n (512 * f) len where
  short := by omega
  listed i hgo := by
    have hlt : i < 2 := by
      by_contra hge
      exact absurd (hgo 2 (by omega)) (by decide)
    exact (by decide : ∀ i < 2,
      2080 + Volume.eightSectors.chain .twoClusters 3 i * 4 / 512 < 2 ^ 23) i hlt
  inReach g _ hlt := by
    rw [kBlockSize] at hlt
    rw [fileSector_twoClusters g (by omega), InReach]
    change 2048 + (4136 + g) < _
    omega
  found hzero := absurd hzero hpos.ne'
  passes := hpasses

/-- A cluster is read at once, from its start; then the last sector of the first cluster, with a
tail in the second one; and what is in one sector. -/
theorem reads_right_one_file :
    Lib.Along (readStep .qemu .twoClusters .eightSectors 8192)
      (ReadRight .twoClusters .eightSectors 3) Fault.OutOfMemory ⟨⟨[3], fun _ => false⟩, none⟩
      [(512 * 0, 4096), (512 * 7, 600), (512 * 9, 100)] := by
  have hmany : ∀ n, Volume.eightSectors.PassesRight .twoClusters 3 n (512 * 0) 4096 := by
    have hcount : readSectors 4096 = 8 := readSectors_of_lt (by decide)
    intro n
    refine .inr (.inr (.inl
      ⟨rfl, ⟨by rw [hcount]; decide, fun i hi => ?_, fun hle => ?_⟩, .inl ?_⟩))
    · rw [hcount] at hi
      change Volume.eightSectors.fileSector _ 3 (0 + i) = Volume.eightSectors.fileSector _ 3 0 + i
      rw [fileSector_twoClusters _ (by omega), fileSector_twoClusters 0 (by decide), Nat.zero_add]
    · exact absurd hle (by decide)
    · rw [hcount]
      decide
  have htail : ∀ n, Volume.eightSectors.PassesRight .twoClusters 3 n (512 * 7) 600 := by
    have hcount : readSectors 600 = 1 := readSectors_of_lt (by decide)
    intro n
    refine .inr (.inr (.inl
      ⟨rfl, ⟨by rw [hcount]; decide, fun i hi => ?_, fun hle => ?_⟩, .inr ?_⟩))
    · rw [hcount, Nat.lt_one_iff] at hi
      rw [hi]
      rfl
    · exact absurd hle (by decide)
    · rw [hcount, Volume.GoesTo, if_pos (by decide)]
      refine ⟨fun i hi => covers_twoClusters i ?_, rfl⟩
      change i < 2 at hi
      change i * 4096 < 8192
      omega
  refine reads_right .qemu (fun _ => false) covers_twoClusters (by decide) ?_ ?_
  · exact ⟨by decide, fun _ _ => ⟨(by decide : 512 * 7 + 600 ≤ 8192),
      fun _ _ => ⟨(by decide : 512 * 9 + 100 ≤ 8192), fun _ _ => trivial⟩⟩⟩
  · exact ⟨clear_twoClusters (by decide) (by decide) (hmany _), fun _ _ =>
      ⟨clear_twoClusters (by decide) (by decide) (htail _), fun _ _ =>
        ⟨clear_twoClusters (by decide) (by decide) (.inr (.inl (by decide))),
          fun _ _ => trivial⟩⟩⟩

/-- **A null pointer is followed** when all of this file is read. -/
theorem read_follows_null : ¬∀ (L : Layout) (d : Mmc) (fat : Volume), Accepted d fat →
    ∀ (heap : HeapMap) (root size : ℕ) (calls : List (ℕ × ℕ)), fat.Covers d root size →
      size < 2 ^ 32 →
      Lib.Each (readStep L d fat size) (fun _ c => c.1 + c.2 ≤ size) ⟨⟨[root], heap⟩, none⟩ calls →
      Lib.Along (readStep L d fat size) (ReadRight d fat root) Fault.IsPanic
        ⟨⟨[root], heap⟩, none⟩ calls := by
  intro h
  have hrun := h .qemu .oneFile .eightSectors accepted_eightSectors (fun _ => false) 3 600
    [(0, 600)] covers_eightSectors (by decide) ⟨le_rfl, fun _ _ => trivial⟩
  have hnull : readStep .qemu .oneFile .eightSectors 600 ⟨⟨[3], fun _ => false⟩, none⟩ (0, 600) =
      .error .nullDeref := by
    rfl
  rw [Lib.Along, hnull] at hrun
  exact hrun.2

end Fat32Fs

end Evisor
