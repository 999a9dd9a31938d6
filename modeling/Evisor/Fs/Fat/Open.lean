import Mathlib.Data.Finset.Card
import Evisor.Fs.Fat.Name
import Evisor.Fs.Fat.Room
import Evisor.Fs.Fat.Walk

/-!
# Finding a file

`Fat32Fs::Open` of `fs/fat/fat32.cc`. It goes through the root directory sector by sector and
compares names.

As when a file is read, the node of the list goes on with every sector. Here that follows a
null pointer at once, unless the first sector of a cluster is taken for the last
(`Evisor.Fat32Fs.Volume.Aligned`); then it is the only one of its cluster that is looked at. Of
what it looks at it passes over entries that are read-only, hidden or part of the system; a
file with no clusters is given those of the root directory.
-/

namespace Evisor

namespace Fat32Fs

/-- `kDirNameEmptyEntry`. -/
def kDirNameEmptyEntry : ℕ := 0x00

/-- `kDirNameRemovedEntry`. -/
def kDirNameRemovedEntry : ℕ := 0xE5

/-- `kAttrVolumeId`. -/
def kAttrVolumeId : ℕ := 0x08

variable (L : Layout) (d : Mmc) (fat : Volume)

/-! ### The code -/

/-- `fat32_file_t`, of a file of the volume. -/
structure File where
  attr : ℕ
  size : ℕ
  cluster_root : List ℕ
  deriving DecidableEq

/-- `Fat32Fs::InitFile`. -/
def initFile (heap : HeapMap) (attr size cluster : ℕ) : Except Fault (File × HeapMap) := do
  let root ← Clusters.push L ⟨[], heap⟩ cluster
  return (⟨attr, size, root.val⟩, root.heap)

/-- `entry_filename`, and what `GetSfn` leaves behind. -/
def entryFilename (buf : ℕ → ℕ) (i : ℕ) (prev_buf : SectorBuf) (sfn : SfnBuf) :
    Except Fault (List ℕ × SfnBuf) := do
  match ← getLfn buf i prev_buf with
  | some entry_filename => return (entry_filename, sfn)
  | none =>
    let sfn := getSfn (fun b => buf (i + b)) sfn
    return (sfnString sfn, sfn)

/-- The first cluster of an entry. -/
def firstCluster (entry : ℕ → ℕ) : ℕ := member entry 20 2 <<< 16 ||| member entry 26 2

/-- `entry_cluster`. -/
def entryCluster (entry : ℕ → ℕ) : ℕ :=
  if firstCluster entry = 0 then fat.BPB_RootClus else firstCluster entry

/-- The loop over the entries of a sector, with those still to be looked at. -/
def openScan (filename : List ℕ) (buf : ℕ → ℕ) (prev_buf : SectorBuf) :
    ℕ → SfnBuf → HeapMap → Except Fault (Option File × SfnBuf × HeapMap)
  | 0, sfn, heap => .ok (none, sfn, heap)
  | left + 1, sfn, heap =>
    let i := kBlockSize - dirSize * (left + 1)
    let entry := fun b => buf (i + b)
    if entry 0 = kDirNameEmptyEntry then .ok (none, sfn, heap)
    else if entry 0 = kDirNameRemovedEntry then openScan filename buf prev_buf left sfn heap
    else if entry 11 &&& kAttrLongName ≠ 0 then openScan filename buf prev_buf left sfn heap
    else do
      let (entry_filename, sfn) ← entryFilename buf i prev_buf sfn
      if strncmp kFat32MaxFileNameSize filename entry_filename = 0 then
        let (result, heap) ← initFile L heap (entry 11) (member entry 28 4) (entryCluster fat entry)
        return (some result, sfn, heap)
      else openScan filename buf prev_buf left sfn heap

/-- The variables of the loop over the sectors. -/
structure OpenVars where
  cluster : ℕ
  cluster_list : Option ℕ
  sector : ℕ
  /-- `result`, once it is found. -/
  found : Option File
  prev_buf : SectorBuf
  clusters : Clusters
  sfn : SfnBuf

/-- `cluster_list->val`. -/
def Clusters.get (s : Clusters) (cluster_list : Option ℕ) : Except Fault ℕ :=
  match cluster_list.bind fun i => s.val[i]? with
  | none => .error .nullDeref
  | some val => .ok val

/-- The body of the loop. -/
def openPass (filename : List ℕ) (v : OpenVars) : Except Fault OpenVars := do
  let buf ← readSector d ((fat.first_lba + v.sector) % 2 ^ 32) 1
  let byte ← readBuf buf 0 kBlockSize
  let (found, sfn, heap) ←
    openScan L fat filename byte v.prev_buf (kBlockSize / dirSize) v.sfn v.clusters.heap
  let (sector, clusters) ← calcNextSector L d fat ⟨v.clusters.val, heap⟩ v.sector v.cluster_list
  let cluster_list ← clusters.next v.cluster_list
  let cluster ← clusters.get cluster_list
  return { cluster, cluster_list, sector, found, prev_buf := buf, clusters, sfn }

/-- The loop, with the passes it may still make. -/
def openLoop (filename : List ℕ) : ℕ → OpenVars → Except Fault OpenVars
  | 0, v => if v.found = none ∧ isValidCluster v.cluster then .error .outOfFuel else .ok v
  | fuel + 1, v =>
    if v.found = none ∧ isValidCluster v.cluster then do
      let v ← openPass L d fat filename v
      openLoop filename fuel v
    else .ok v

/-- How many clusters there can be: a chain that ends is no longer. -/
def clusterCount : ℕ := 2 ^ 28

/-- What is kept from one call to the next: the list of the clusters of the root directory, and
what `GetSfn` has left behind. -/
structure OpenState where
  clusters : Clusters
  sfn : SfnBuf

/-- `Fat32Fs::Open`, of a file system that is initialized and has a valid first volume: the file,
if it is found. -/
def openFile (filename : List ℕ) (s : OpenState) : Except Fault (Option File × OpenState) := do
  let cluster ← s.clusters.get (some 0)
  let v ← openLoop L d fat filename clusterCount {
    cluster
    cluster_list := some 0
    sector := calcSector fat cluster 0
    found := none
    prev_buf := none
    clusters := s.clusters
    sfn := s.sfn }
  return (v.found, ⟨v.clusters, v.sfn⟩)

/-! ### The directory -/

/-- The entries of the root directory. -/
def Volume.dirEntry : Entries := fun k b => fat.fileByte d fat.BPB_RootClus (dirSize * k + b)

/-- **A file of the root directory**, of `n` clusters: an entry before the one that marks the
end, which has not been removed and is not a volume label or a part of a long name. -/
structure Volume.IsFile (n k : ℕ) : Prop where
  lt : k < n * (16 * fat.BPB_SecPerClus)
  started : ∀ q ≤ k, fat.dirEntry d q 0 ≠ kDirNameEmptyEntry
  live : fat.dirEntry d k 0 ≠ kDirNameRemovedEntry
  named : fat.dirEntry d k 11 &&& kAttrVolumeId = 0

/-- **A root directory** of `n` clusters: its chain ends, its sectors have numbers, and no two of
its files have the same name. -/
structure Volume.RootDir (n : ℕ) : Prop where
  pos : 0 < n
  goesOn : fat.GoesOn d fat.BPB_RootClus n
  ends : ¬isValidCluster (fat.chain d fat.BPB_RootClus n)
  fits : ∀ i < n, fat.fileSector d fat.BPB_RootClus (i * fat.BPB_SecPerClus) < 2 ^ 32
  unique : ∀ k q f, fat.IsFile d n k → fat.IsFile d n q → Named (fat.dirEntry d) k f →
    Named (fat.dirEntry d) q f → k = q

/-- A file that has been opened is the one of an entry. -/
structure Volume.IsOpened (k : ℕ) (file : File) : Prop where
  attr : file.attr = fat.dirEntry d k 11
  size : file.size = member (fat.dirEntry d k) 28 4
  cluster : file.cluster_root = [firstCluster (fat.dirEntry d k)]

/-- **What `Open` should find.** -/
structure Volume.OpenRight (n : ℕ) (filename : List ℕ) (found : Option File) : Prop where
  iff : found.isSome = true ↔ ∃ k, fat.IsFile d n k ∧ Named (fat.dirEntry d) k filename
  file : ∀ file ∈ found, ∃ k, fat.IsFile d n k ∧ Named (fat.dirEntry d) k filename ∧
    fat.IsOpened d k file

/-! ### Where it finds what it should -/

/-- The first sector of a cluster is taken for its last: it is the last if clusters have one
sector. -/
def Volume.Aligned : Prop :=
  fat.data_first_sector % fat.BPB_SecPerClus = fat.BPB_SecPerClus - 1

/-- **What `Open` looks at**: in the first sector of each cluster, the entries before one that
marks the end, if they have not been removed and have none of the attributes of a part of a
long name. -/
structure Volume.LookedAt (n k : ℕ) : Prop where
  lt : k < n * (16 * fat.BPB_SecPerClus)
  first : k / 16 % fat.BPB_SecPerClus = 0
  started : ∀ q, k / 16 * 16 ≤ q → q ≤ k → fat.dirEntry d q 0 ≠ kDirNameEmptyEntry
  live : fat.dirEntry d k 0 ≠ kDirNameRemovedEntry
  plain : fat.dirEntry d k 11 &&& kAttrLongName = 0

/-- What it sees before an entry: in front of a sector that is looked at, the last entry of the
sector that was looked at before. -/
def Volume.before (k : ℕ) : ℕ := if k % 16 = 0 then k - 16 * fat.BPB_SecPerClus + 15 else k - 1

/-- **It comes to an entry** if it does not find the name before. -/
def Volume.ComesTo (n : ℕ) (filename : List ℕ) (k : ℕ) : Prop :=
  ∀ q < k, fat.LookedAt d n q → ¬Named (fat.dirEntry d) q filename

/-- No short name that it looks at before an entry has an extension. -/
def Volume.NoExtension (n k : ℕ) : Prop :=
  ∀ q < k, fat.LookedAt d n q → (¬∃ m, LongParts (fat.dirEntry d) q m) →
    fat.dirEntry d q 8 = ' '.toNat

/-- **The name of an entry can be told**, if `sfn` is what `GetSfn` has left behind before. A long
name has at most 19 parts, which are in the sector of the entry, or, where this is looked at too,
in the one before, and its characters have one byte. A short name has eight characters and three;
or eight, and nothing has been left behind it. -/
inductive Volume.Told (n : ℕ) (sfn : SfnBuf) (k : ℕ) : Prop where
  | long (m : ℕ) (parts : LongParts (fat.dirEntry d) k m) (few : m ≤ 19)
      (near : m ≤ k % 16 ∨ fat.BPB_SecPerClus = 1 ∧ m ≤ k % 16 + 16)
      (chars : ∀ u ∈ longName (fat.dirEntry d) k m, u < 256)
  | short (none : ¬∃ m, LongParts (fat.dirEntry d) k m)
      (before : 0 < k → ¬PassesFor (fat.dirEntry d) (fat.before k) k)
      (full : (∀ i < 11, Char (fat.dirEntry d k) i) ∨
        (∀ i < 8, Char (fat.dirEntry d k) i) ∧ (∀ i < 3, fat.dirEntry d k (8 + i) = ' '.toNat) ∧
          fat.NoExtension d n k ∧ sfn 8 = 0)

/-- The first entry of a cluster. -/
def Volume.firstEntry (i : ℕ) : ℕ := 16 * (i * fat.BPB_SecPerClus)

/-- **What `Open` looks at until it finds the name, it can make out**: the entries of the table for
the clusters that it goes on from can be told, the sectors it comes to are in the first 4 GiB of the
card, the entry that it finds is not behind the end, and the names it comes to can be told. -/
structure Volume.Legible (n : ℕ) (filename : List ℕ) (sfn : SfnBuf) : Prop where
  entries : ∀ i < n, fat.ComesTo d n filename (fat.firstEntry (i + 1)) →
    fat.EntryRight d (fat.chain d fat.BPB_RootClus i)
  inReach : ∀ i < n, fat.ComesTo d n filename (fat.firstEntry i) →
    InReach (fat.first_lba + fat.fileSector d fat.BPB_RootClus (i * fat.BPB_SecPerClus))
  started : ∀ k, fat.LookedAt d n k → fat.ComesTo d n filename k →
    Named (fat.dirEntry d) k filename → ∀ q ≤ k, fat.dirEntry d q 0 ≠ kDirNameEmptyEntry
  told : ∀ k, fat.LookedAt d n k → fat.ComesTo d n filename k → fat.Told d n sfn k

/-- **A file that can be seen**: its entry is in the first sector of a cluster, it is not
read-only, hidden or part of the system, and it has a cluster. -/
structure Volume.Visible (k : ℕ) : Prop where
  first : k / 16 % fat.BPB_SecPerClus = 0
  plain : fat.dirEntry d k 11 &&& kAttrLongName = 0
  cluster : firstCluster (fat.dirEntry d k) ≠ 0

variable {L d fat} {n k i j : ℕ} {filename : List ℕ} {sfn : SfnBuf}

/-! ### Entries and sectors -/

theorem dirEntry_lt (k b : ℕ) : fat.dirEntry d k b < 256 := d.byte_lt _

/-- An entry is in its sector. -/
theorem dirEntry_eq (f : ℕ) {j b : ℕ} (hj : j < 16) (hb : b < dirSize) :
    fat.dirEntry d (16 * f + j) b =
      d.byte (kBlockSize * (fat.first_lba + fat.fileSector d fat.BPB_RootClus f) +
        (dirSize * j + b)) := by
  have hlt : dirSize * j + b < kBlockSize := by
    rw [dirSize] at *
    rw [kBlockSize]
    omega
  have hplace : dirSize * (16 * f + j) + b = kBlockSize * f + (dirSize * j + b) := by
    rw [dirSize, kBlockSize]
    omega
  rw [Volume.dirEntry, hplace, fileByte_eq _ f hlt]

variable (d fat) in
/-- A buffer that has the entries of the first sector of cluster `i`. -/
def Volume.Shows (i : ℕ) (buf : ℕ → ℕ) : Prop :=
  ∀ j < 16, ∀ b < dirSize, buf (dirSize * j + b) = fat.dirEntry d (fat.firstEntry i + j) b

/-- The first sector of a cluster is read. -/
theorem readSector_shows {sector : ℕ}
    (hreach : InReach (fat.first_lba + fat.fileSector d fat.BPB_RootClus (i * fat.BPB_SecPerClus)))
    (hsector : sector = fat.fileSector d fat.BPB_RootClus (i * fat.BPB_SecPerClus)) :
    ∃ buf, readSector d ((fat.first_lba + sector) % 2 ^ 32) 1 = .ok (some buf) ∧
      fat.Shows d i buf := by
  obtain ⟨buf, hread, hbuf⟩ := readSector_one d ((fat.first_lba + sector) % 2 ^ 32)
  refine ⟨buf, hread, fun j hj b hb => ?_⟩
  have hlt : dirSize * j + b < kBlockSize := by
    rw [dirSize] at *
    rw [kBlockSize]
    omega
  rw [hbuf _ hlt, hsector, seek_eq hreach, Volume.firstEntry, dirEntry_eq _ hj hb]

/-- An entry that is looked at is in the first sector of a cluster. -/
theorem Volume.LookedAt.exists_eq (h : fat.LookedAt d n k) :
    ∃ i < n, ∃ j < 16, k = fat.firstEntry i + j := by
  have hk := h.lt
  obtain ⟨i, hi⟩ := Nat.dvd_of_mod_eq_zero h.first
  refine ⟨i, ?_, k % 16, Nat.mod_lt _ (by decide), ?_⟩
  · rw [← Nat.mul_assoc, Nat.mul_comm n, Nat.mul_assoc] at hk
    have hlt : fat.BPB_SecPerClus * i < n * fat.BPB_SecPerClus := by omega
    rw [Nat.mul_comm] at hlt
    exact Nat.lt_of_mul_lt_mul_right hlt
  · rw [Volume.firstEntry, Nat.mul_comm i, ← hi, Nat.div_add_mod]

/-- It is looked at there. -/
theorem lookedAt_iff (hi : i < n) (hj : j < 16) : fat.LookedAt d n (fat.firstEntry i + j) ↔
    (∀ q ≤ j, fat.dirEntry d (fat.firstEntry i + q) 0 ≠ kDirNameEmptyEntry) ∧
      fat.dirEntry d (fat.firstEntry i + j) 0 ≠ kDirNameRemovedEntry ∧
      fat.dirEntry d (fat.firstEntry i + j) 11 &&& kAttrLongName = 0 := by
  have hdiv : (fat.firstEntry i + j) / 16 = i * fat.BPB_SecPerClus := by
    rw [Volume.firstEntry]
    omega
  have hbase : (fat.firstEntry i + j) / 16 * 16 = fat.firstEntry i := by
    rw [hdiv, Volume.firstEntry, Nat.mul_comm]
  constructor
  · intro h
    exact ⟨fun q hq => h.started _ (by omega) (by omega), h.live, h.plain⟩
  · rintro ⟨hstarted, hlive, hplain⟩
    refine ⟨?_, by rw [hdiv, Nat.mul_mod_left], fun q hlo hhi => ?_, hlive, hplain⟩
    · have hpos := fat.secPerClus_pos
      have hle : (i + 1) * (16 * fat.BPB_SecPerClus) ≤ n * (16 * fat.BPB_SecPerClus) :=
        Nat.mul_le_mul_right _ hi
      have hcluster : (i + 1) * (16 * fat.BPB_SecPerClus) =
          fat.firstEntry i + 16 * fat.BPB_SecPerClus := by
        rw [Volume.firstEntry]
        ring
      omega
    · rw [hbase] at hlo
      have hq := hstarted (q - fat.firstEntry i) (by omega)
      rwa [Nat.add_sub_cancel' hlo] at hq

/-! ### Names that can be told -/

/-- A long name has as many parts as it has. -/
theorem LongParts.unique {E : Entries} {m m' : ℕ} (h : LongParts E k m) (h' : LongParts E k m') :
    m = m' := by
  have hle : ∀ {m m' : ℕ}, LongParts E k m → LongParts E k m' → m ≤ m' := by
    intro m m' h h'
    by_contra hlt
    have hord := h.ord m' h'.pos (by omega)
    have hlast := h'.ord m' h'.pos le_rfl
    rw [if_pos rfl] at hlast
    rw [if_neg (by omega), hlast, kLfnLastLongEntry] at hord
    omega
  exact Nat.le_antisymm (hle h h') (hle h' h)

/-- An entry has one name. -/
theorem Named.unique {E : Entries} {f g : List ℕ} (hf : Named E k f) (hg : Named E k g) :
    f = g := by
  rcases hf with ⟨m, hm, rfl⟩ | ⟨hnone, rfl⟩ <;> rcases hg with ⟨m', hm', rfl⟩ | ⟨hnone', rfl⟩
  · rw [hm.unique hm']
  · exact absurd ⟨m, hm⟩ hnone'
  · exact absurd ⟨m', hm'⟩ hnone
  · rfl

variable (d fat n sfn) in
/-- What `GetSfn` has left behind does no harm to an entry. -/
def Volume.Kept (k : ℕ) (sfn' : SfnBuf) : Prop := fat.NoExtension d n k → sfn 8 = 0 → sfn' 8 = 0

theorem Volume.Kept.mono {q : ℕ} {sfn' : SfnBuf} (h : fat.Kept d n sfn q sfn') (hq : q ≤ k) :
    fat.Kept d n sfn k sfn' := fun hno => h fun p hp => hno p (hp.trans_le hq)

variable (d fat) in
/-- The sector that was looked at before cluster `i`. -/
def Volume.ShowsBefore (i : ℕ) (prev_buf : SectorBuf) : Prop :=
  if i = 0 then prev_buf = none else ∃ buf, prev_buf = some buf ∧ fat.Shows d (i - 1) buf

section Sector

variable {buf : ℕ → ℕ} {prev_buf : SectorBuf} (hshows : fat.Shows d i buf)
  (hbefore : fat.ShowsBefore d i prev_buf) (hj : j < 16)

include hshows hbefore hj in
/-- Entries of the sector are seen, and those of the one before if clusters have one sector. -/
theorem seen_near {t : ℕ} (hpos : 1 ≤ t)
    (hnear : t ≤ j ∨ fat.BPB_SecPerClus = 1 ∧ t ≤ j + 16 ∧ t ≤ fat.firstEntry i + j) :
    Seen buf prev_buf j t (fat.dirEntry d (fat.firstEntry i + j - t)) := by
  by_cases htj : t ≤ j
  · refine .cur htj fun b hb => ?_
    rw [hshows (j - t) (by omega) b hb, ← Nat.add_sub_assoc htj]
  · obtain ⟨hone, hle, hin⟩ := hnear.resolve_left htj
    rw [Volume.firstEntry, hone, Nat.mul_one] at hin
    rw [Volume.ShowsBefore, if_neg (by omega)] at hbefore
    obtain ⟨byte, hsome, hprev⟩ := hbefore
    refine .prev byte hsome (by omega) hle fun b hb => ?_
    rw [hprev (16 + j - t) (by omega) b hb, Volume.firstEntry, Volume.firstEntry, hone]
    congr 1
    omega

include hshows hbefore hj in
/-- The entry that is seen right before another. -/
theorem seen_before (hpos : 0 < fat.firstEntry i + j) :
    Seen buf prev_buf j 1 (fat.dirEntry d (fat.before (fat.firstEntry i + j))) := by
  have hmod : (fat.firstEntry i + j) % 16 = j := by
    rw [Volume.firstEntry]
    omega
  rw [Volume.before, hmod]
  by_cases hj0 : j = 0
  · have hi : i ≠ 0 := by
      rintro rfl
      rw [Volume.firstEntry, Nat.zero_mul] at hpos
      omega
    rw [Volume.ShowsBefore, if_neg hi] at hbefore
    obtain ⟨byte, hsome, hprev⟩ := hbefore
    obtain ⟨p, rfl⟩ : ∃ p, i = p + 1 := Nat.exists_eq_succ_of_ne_zero hi
    refine .prev byte hsome (by omega) (by omega) fun b hb => ?_
    have hplace : fat.firstEntry (p + 1) + j - 16 * fat.BPB_SecPerClus + 15 =
        fat.firstEntry p + 15 := by
      simp only [Volume.firstEntry, Nat.add_one_mul]
      omega
    rw [if_pos hj0, hplace, hj0]
    exact hprev 15 (by decide) b hb
  · rw [if_neg hj0]
    exact seen_near hshows hbefore hj le_rfl (.inl (by omega))

include hshows hbefore hj in
/-- **A name that can be told** is what the code finds. -/
theorem entryFilename_told {sfn' : SfnBuf} (hlooked : fat.LookedAt d n (fat.firstEntry i + j))
    (htold : fat.Told d n sfn (fat.firstEntry i + j))
    (hkept : fat.Kept d n sfn (fat.firstEntry i + j) sfn') :
    ∃ str sfn'', entryFilename buf (dirSize * j) prev_buf sfn' = .ok (str, sfn'') ∧
      Named (fat.dirEntry d) (fat.firstEntry i + j) (cstr str) ∧
      (cstr str).length < kFat32MaxFileNameSize ∧
      fat.Kept d n sfn (fat.firstEntry i + j + 1) sfn'' := by
  have hentry := hshows j hj
  have hmod : (fat.firstEntry i + j) % 16 = j := by
    rw [Volume.firstEntry]
    omega
  -- a long name whose parts are in the two sectors, or a short one without anything in front that
  -- is taken for a part
  rcases htold with ⟨m, hparts, hfew, hnear, hchars⟩ | ⟨hnone, hfront, hfull⟩
  · rw [hmod] at hnear
    have hle := hparts.le
    have hget : getLfn buf (dirSize * j) prev_buf = _ := getLfn_long hparts hfew hentry
      fun t h1 ht => seen_near hshows hbefore hj h1
        (hnear.imp (by omega) fun h => ⟨h.1, by omega, by omega⟩)
    have hname := cstr_lfnResult (E := fat.dirEntry d) (fun p b => dirEntry_lt p b) hchars
    refine ⟨_, sfn', by rw [entryFilename, hget]; rfl, ?_, ?_, hkept.mono (Nat.le_succ _)⟩
    · rw [hname]
      exact .inl ⟨m, hparts, rfl⟩
    · have hlen := length_longName (fat.dirEntry d) (fat.firstEntry i + j) m
      rw [hname, kFat32MaxFileNameSize]
      omega
  · have hget : getLfn buf (dirSize * j) prev_buf = .ok none := by
      rcases Nat.eq_zero_or_pos (fat.firstEntry i + j) with h0 | hpos
      · have hi : i = 0 := by
          have := fat.secPerClus_pos
          rw [Volume.firstEntry] at h0
          by_contra hi
          have := Nat.mul_pos (Nat.pos_of_ne_zero hi) fat.secPerClus_pos
          omega
        have hj0 : j = 0 := by omega
        rw [Volume.ShowsBefore, if_pos hi] at hbefore
        rw [hbefore, hj0]
        exact getLfn_first buf
      · exact getLfn_none hentry (seen_before hshows hbefore hj hpos) (hfront hpos)
    have hsame := getSfn_congr sfn' hentry
    refine ⟨_, _, by rw [entryFilename, hget]; rfl, ?_, ?_, fun hno h0 => ?_⟩
    · refine .inr ⟨hnone, ?_⟩
      rw [hsame]
      rcases hfull with hfull | ⟨height, hext, hno, h0⟩
      · exact (getSfn_full sfn' hfull).symm
      · exact (getSfn_eight_only height hext (hkept hno h0)).symm
    · refine (List.takeWhile_sublist _).length_le.trans_lt ?_
      rw [sfnString, List.length_map, List.length_range]
      decide
    · rw [hsame, getSfn_eight _ (hno _ (Nat.lt_succ_self _) hlooked hnone)]
      exact hkept.mono (Nat.le_succ _) hno h0

end Sector

/-! ### A sector is gone through -/

theorem firstEntry_add_le {q : ℕ} (h : q < i) : fat.firstEntry q + 16 ≤ fat.firstEntry i := by
  have hle : (q + 1) * fat.BPB_SecPerClus ≤ i * fat.BPB_SecPerClus := Nat.mul_le_mul_right _ h
  have hpos := fat.secPerClus_pos
  rw [Nat.add_one_mul] at hle
  simp only [Volume.firstEntry]
  omega

/-- It comes to the entry behind one that does not have the name. -/
theorem Volume.ComesTo.succ (h : fat.ComesTo d n filename k)
    (hk : fat.LookedAt d n k → ¬Named (fat.dirEntry d) k filename) :
    fat.ComesTo d n filename (k + 1) := by
  intro q hq hlooked
  rcases Nat.lt_succ_iff_lt_or_eq.mp hq with hq | rfl
  · exact h q hq hlooked
  · exact hk hlooked

theorem Volume.ComesTo.mono {q : ℕ} (h : fat.ComesTo d n filename k) (hq : q ≤ k) :
    fat.ComesTo d n filename q := fun p hp => h p (hp.trans_le hq)

/-- When nothing is left to be looked at in a sector, it comes to the next cluster. -/
theorem Volume.ComesTo.next (h : fat.ComesTo d n filename (fat.firstEntry i + j))
    (hrest : ∀ q, j ≤ q → q < 16 → ¬fat.LookedAt d n (fat.firstEntry i + q)) :
    fat.ComesTo d n filename (fat.firstEntry (i + 1)) := by
  intro k hk hlooked
  obtain ⟨p, hp, q, hq, rfl⟩ := hlooked.exists_eq
  -- looked at in an earlier sector, or in this one, or not yet
  rcases Nat.lt_trichotomy p i with hpi | rfl | hpi
  · have hle : fat.firstEntry p + 16 ≤ fat.firstEntry i := firstEntry_add_le hpi
    exact h _ (by omega) hlooked
  · rcases Nat.lt_or_ge q j with hqj | hqj
    · exact h _ (by omega) hlooked
    · exact absurd hlooked (hrest q hqj hq)
  · have hnext : fat.firstEntry (i + 1) ≤ fat.firstEntry p :=
      Nat.mul_le_mul_left 16 (Nat.mul_le_mul_right _ hpi)
    omega

variable (d fat n filename) in
/-- **A file that `Open` makes** of the first entry with the name that it looks at. -/
structure Volume.OpensAs (k : ℕ) (file : File) : Prop where
  lookedAt : fat.LookedAt d n k
  comesTo : fat.ComesTo d n filename k
  named : Named (fat.dirEntry d) k filename
  attr : file.attr = fat.dirEntry d k 11
  size : file.size = member (fat.dirEntry d k) 28 4
  cluster : file.cluster_root = [entryCluster fat (fat.dirEntry d k)]

variable (d fat n filename sfn) in
/-- **What going through a sector finds.** The handle of a file takes a page. -/
structure Volume.Scanned (i : ℕ) (heap : HeapMap) (r : Option File × SfnBuf × HeapMap) : Prop where
  file : ∀ file ∈ r.1, ∃ k, fat.OpensAs d n filename k file
  none : r.1 = none → fat.ComesTo d n filename (fat.firstEntry (i + 1)) ∧ r.2.2 = heap
  kept : fat.Kept d n sfn (fat.firstEntry (i + 1)) r.2.1
  pages : freePages heap ≤ freePages r.2.2 + 1

theorem initFile_gives (heap : HeapMap) (attr size cluster : ℕ) :
    Lib.Gives (initFile L heap attr size cluster)
      (fun r => r.1 = ⟨attr, size, [cluster]⟩ ∧ freePages heap ≤ freePages r.2 + 1)
      (WantsPage heap 1) := by
  have hpush := push_room (L := L) ⟨[], heap⟩ cluster
  refine Lib.Gives.bind ⟨hpush.ok, fun f hf => ?_⟩ fun root hroot => .of_ok ⟨?_, hroot.2.ge⟩
  · obtain ⟨hpanic, hnone⟩ := hpush.error f hf
    exact ⟨hpanic, hnone ▸ Nat.one_pos⟩
  · rw [hroot.1]
    rfl

/-- **Going through a sector** finds a file with the name, if there is one to be looked at. -/
theorem openScan_gives {buf : ℕ → ℕ} {prev_buf : SectorBuf} {left : ℕ} {sfn' : SfnBuf}
    {heap : HeapMap} (hfilename : ∀ c ∈ filename, c ≠ 0) (hi : i < n)
    (hshows : fat.Shows d i buf) (hbefore : fat.ShowsBefore d i prev_buf)
    (htold : ∀ k, fat.LookedAt d n k → fat.ComesTo d n filename k → fat.Told d n sfn k)
    (hleft : j + left = 16)
    (hstarted : ∀ q < j, fat.dirEntry d (fat.firstEntry i + q) 0 ≠ kDirNameEmptyEntry)
    (hcomes : fat.ComesTo d n filename (fat.firstEntry i + j))
    (hkept : fat.Kept d n sfn (fat.firstEntry i + j) sfn') :
    Lib.Gives (openScan L fat filename buf prev_buf left sfn' heap)
      (fat.Scanned d n filename sfn i heap) (WantsPage heap 1) := by
  have hend : ∀ {j}, j ≤ 16 → fat.firstEntry i + j ≤ fat.firstEntry (i + 1) := fun hj =>
    (Nat.add_le_add_left hj _).trans (firstEntry_add_le (Nat.lt_succ_self i))
  induction left generalizing j sfn' with
  | zero =>
    refine .of_ok ⟨fun _ h => (by cases h), fun _ => ⟨hcomes.next fun q hq hlt => ?_, rfl⟩,
      hkept.mono (hend (by omega)), Nat.le_succ _⟩
    omega
  | succ left ih =>
    have hj : j < 16 := by omega
    have hplace : kBlockSize - dirSize * (left + 1) = dirSize * j := by
      rw [kBlockSize, dirSize]
      omega
    have hentry := hshows j hj
    have hfirst := hentry 0 (by decide)
    have hattrs := hentry 11 (by decide)
    rw [openScan]
    dsimp only
    rw [hplace]
    -- the scan ends at the first entry that is empty, and leaves out those that are no files
    by_cases hempty : fat.dirEntry d (fat.firstEntry i + j) 0 = kDirNameEmptyEntry
    · rw [if_pos (hfirst.trans hempty)]
      refine .of_ok ⟨fun _ h => (by cases h),
        fun _ => ⟨hcomes.next fun q hq hlt hlooked => ?_, rfl⟩, hkept.mono (hend hj.le),
        Nat.le_succ _⟩
      exact absurd hempty (((lookedAt_iff hi hlt).mp hlooked).1 j hq)
    rw [if_neg fun h => hempty (hfirst.symm.trans h)]
    have hstarted' : ∀ q < j + 1,
        fat.dirEntry d (fat.firstEntry i + q) 0 ≠ kDirNameEmptyEntry := by
      intro q hq
      rcases Nat.lt_succ_iff_lt_or_eq.mp hq with hq | rfl
      · exact hstarted q hq
      · exact hempty
    have hkept' := hkept.mono (Nat.le_succ _)
    by_cases hremoved : fat.dirEntry d (fat.firstEntry i + j) 0 = kDirNameRemovedEntry
    · rw [if_pos (hfirst.trans hremoved)]
      exact ih (by omega) hstarted' (hcomes.succ fun hlooked => absurd hremoved hlooked.live) hkept'
    rw [if_neg fun h => hremoved (hfirst.symm.trans h)]
    by_cases hattr : fat.dirEntry d (fat.firstEntry i + j) 11 &&& kAttrLongName ≠ 0
    · rw [if_pos (hattrs.symm ▸ hattr)]
      exact ih (by omega) hstarted' (hcomes.succ fun hlooked => absurd hlooked.plain hattr) hkept'
    rw [if_neg fun h => hattr (hattrs ▸ h)]
    have hlooked : fat.LookedAt d n (fat.firstEntry i + j) :=
      (lookedAt_iff hi hj).mpr
        ⟨fun q hq => hstarted' q (Nat.lt_succ_of_le hq), hremoved, not_not.mp hattr⟩
    obtain ⟨str, sfn'', hname, hnamed, hlen, hkept''⟩ :=
      entryFilename_told hshows hbefore hj hlooked (htold _ hlooked hcomes) hkept
    rw [hname, Lib.ok_bind]
    dsimp only
    have hcmp : strncmp kFat32MaxFileNameSize filename str = 0 ↔ filename = cstr str :=
      strncmp_eq_zero_iff hfilename hlen
    by_cases heq : strncmp kFat32MaxFileNameSize filename str = 0
    · rw [if_pos heq]
      -- the name asked for: the handle is made of the members of the entry
      refine (initFile_gives heap _ _ _).bind fun r hr =>
        .of_ok ⟨?_, fun h => (by cases h), hkept''.mono (hend hj), hr.2⟩
      rintro _ ⟨⟩
      have hcluster : entryCluster fat (fun b => buf (dirSize * j + b)) =
          entryCluster fat (fat.dirEntry d (fat.firstEntry i + j)) := by
        rw [entryCluster, entryCluster, firstCluster, firstCluster,
          member_congr hentry (by decide), member_congr hentry (by decide)]
      refine ⟨_, hlooked, hcomes, hcmp.mp heq ▸ hnamed, ?_, ?_, ?_⟩
      · rw [hr.1]
        exact hattrs
      · rw [hr.1]
        exact member_congr hentry (by decide)
      · rw [hr.1, hcluster]
    · rw [if_neg heq]
      refine ih (by omega) hstarted' (hcomes.succ fun _ hfilename' => ?_) hkept''
      exact heq (hcmp.mpr (hfilename'.unique hnamed))

/-! ### The directory is gone through -/

/-- The first sector of a cluster, from the number of the cluster. -/
theorem calcSector_fileSector
    (hvalid : isValidCluster (fat.chain d fat.BPB_RootClus i))
    (hfits : fat.fileSector d fat.BPB_RootClus (i * fat.BPB_SecPerClus) < 2 ^ 32) :
    calcSector fat (fat.chain d fat.BPB_RootClus i) 0 =
      fat.fileSector d fat.BPB_RootClus (i * fat.BPB_SecPerClus) := by
  rw [fileSector_mul] at hfits ⊢
  exact calcSector_zero hvalid hfits

/-- The number of the first sector of a cluster tells no more than that of the first cluster. -/
theorem fileSector_mod (i : ℕ) :
    fat.fileSector d fat.BPB_RootClus (i * fat.BPB_SecPerClus) % fat.BPB_SecPerClus =
      fat.data_first_sector % fat.BPB_SecPerClus := by
  rw [fileSector_mul, Nat.add_mul_mod_self_right]

variable (d fat n filename) in
/-- A cluster that `Open` comes to. -/
def Volume.Enters (i : ℕ) : Prop := i ≤ n ∧ fat.ComesTo d n filename (fat.firstEntry i)

variable (d fat n filename sfn) in
/-- **The loop has got to cluster `i`** and found nothing. -/
structure Volume.Reaches (i : ℕ) (v : OpenVars) : Prop where
  found : v.found = none
  comesTo : fat.ComesTo d n filename (fat.firstEntry i)
  cluster : v.cluster = fat.chain d fat.BPB_RootClus i
  node : v.cluster_list = some i
  lt : i < v.clusters.val.length
  follows : FollowsOn d fat fat.BPB_RootClus (fat.Enters d n filename) v.clusters.val
  sector : i < n → v.sector = fat.fileSector d fat.BPB_RootClus (i * fat.BPB_SecPerClus)
  before : fat.ShowsBefore d i v.prev_buf
  kept : fat.Kept d n sfn (fat.firstEntry i) v.sfn

variable (d fat n filename) in
/-- **What is found.** -/
structure Volume.Searched (found : Option File) : Prop where
  file : ∀ file ∈ found, ∃ k, fat.OpensAs d n filename k file
  none : found = none → ∀ k, fat.LookedAt d n k → ¬Named (fat.dirEntry d) k filename

section Search

variable (hfilename : ∀ c ∈ filename, c ≠ 0) (hdir : fat.RootDir d n)
  (hlegible : fat.Legible d n filename sfn) (haligned : fat.Aligned)

include hdir hlegible in
/-- The clusters that it comes to can be trusted. -/
theorem Volume.Legible.trusts : fat.Trusts d fat.BPB_RootClus (fat.Enters d n filename) := by
  rintro i ⟨hi, hcomes⟩
  obtain ⟨-, hentry⟩ := (hdir.goesOn.mono hi).step (hlegible.entries i hi hcomes)
  have hplace : fat.firstEntry i ≤ fat.firstEntry (i + 1) :=
    (Nat.le_add_right ..).trans (firstEntry_add_le (Nat.lt_succ_self i))
  exact ⟨⟨Nat.le_of_succ_le hi, hcomes.mono hplace⟩, hentry⟩

include hdir hlegible haligned in
/-- Behind the first sector of a cluster it goes on to the next cluster. -/
theorem calcNextSector_enters {s : Clusters} {sector : ℕ} (hlt : i < s.val.length)
    (hfollows : FollowsOn d fat fat.BPB_RootClus (fat.Enters d n filename) s.val)
    (hsector : sector = fat.fileSector d fat.BPB_RootClus (i * fat.BPB_SecPerClus)) :
    Lib.Gives (calcNextSector L d fat s sector (some i))
      (fun r => (fat.Enters d n filename (i + 1) → i + 1 < n →
          r.1 = fat.fileSector d fat.BPB_RootClus ((i + 1) * fat.BPB_SecPerClus)) ∧
        i + 1 < r.2.val.length ∧
        FollowsOn d fat fat.BPB_RootClus (fat.Enters d n filename) r.2.val ∧
        freePages s.heap ≤ freePages r.2.heap + 1)
      (WantsPage s.heap 1) := by
  -- each pass is at a bound between clusters, so the next one is in the cluster that follows
  have hbound : sector % fat.BPB_SecPerClus = fat.BPB_SecPerClus - 1 := by
    rw [hsector, fileSector_mod]
    exact haligned
  have htakes := calcNextSector_takes L d fat s sector (some i)
  have hgives : Lib.Gives (calcNextSector L d fat s sector (some i))
      (fun r => (fat.Enters d n filename (i + 1) → i + 1 < n →
          r.1 = fat.fileSector d fat.BPB_RootClus ((i + 1) * fat.BPB_SecPerClus)) ∧
        i + 1 < r.2.val.length ∧
        FollowsOn d fat fat.BPB_RootClus (fat.Enters d n filename) r.2.val)
      Fault.OutOfMemory := by
    rw [calcNextSector, if_neg (not_not.mpr hbound)]
    refine (calcNextCluster_gives hfollows hlt (hlegible.trusts hdir i)).bind ?_
    rintro r ⟨hcluster, hlen, hext⟩
    refine .of_ok ⟨fun henters hlt => ?_, hlen, hext.follows⟩
    rw [hcluster henters]
    exact calcSector_fileSector (hdir.goesOn _ hlt) (hdir.fits _ hlt)
  refine ⟨fun r hr => ?_, fun f hf => ⟨hgives.error f hf, htakes.error f hf (hgives.error f hf)⟩⟩
  obtain ⟨hnext, hlen, hfollows'⟩ := hgives.ok r hr
  exact ⟨hnext, hlen, hfollows', htakes.ok r hr⟩

include hfilename hdir hlegible haligned in
/-- **A pass of the loop** goes through the first sector of a cluster, and on to the next
cluster. -/
theorem openPass_gives {v : OpenVars} (hi : i < n) (hv : fat.Reaches d n filename sfn i v) :
    Lib.Gives (openPass L d fat filename v)
      (fun w => (∀ file ∈ w.found, ∃ k, fat.OpensAs d n filename k file) ∧
        (w.found = none → fat.Reaches d n filename sfn (i + 1) w ∧
          freePages v.clusters.heap ≤ freePages w.clusters.heap + 1))
      (WantsPage v.clusters.heap 2) := by
  obtain ⟨buf, hread, hshows⟩ :=
    readSector_shows (hlegible.inReach i hi hv.comesTo) (hv.sector hi)
  have hpage : (0 : ℕ) + kBlockSize ≤ PAGE_SIZE := by decide
  rw [openPass, hread, Lib.ok_bind, readBuf, if_pos hpage, Lib.ok_bind, hv.node]
  simp only [Nat.zero_add]
  have hscan : Lib.Gives (openScan L fat filename buf v.prev_buf 16 v.sfn v.clusters.heap)
      (fat.Scanned d n filename sfn i v.clusters.heap) (WantsPage v.clusters.heap 1) :=
    openScan_gives (j := 0) hfilename hi hshows hv.before hlegible.told rfl
      (fun q hq => absurd hq (Nat.not_lt_zero q)) hv.comesTo hv.kept
  refine Lib.Gives.bind ⟨hscan.ok, fun f hf => ?_⟩ ?_
  · obtain ⟨hpanic, hfew⟩ := hscan.error f hf
    exact ⟨hpanic, hfew.trans (by decide)⟩
  rintro ⟨found, sfn', heap⟩ ⟨hfile, hnone, hkept, hpages⟩
  have hsector := calcNextSector_enters (L := L) (s := ⟨v.clusters.val, heap⟩) hdir hlegible
    haligned hv.lt hv.follows (hv.sector hi)
  dsimp only at hnone hpages ⊢
  refine Lib.Gives.bind ⟨hsector.ok, fun f hf => ?_⟩ ?_
  · obtain ⟨hpanic, hfew⟩ := hsector.error f hf
    dsimp only at hfew
    exact ⟨hpanic, by omega⟩
  rintro ⟨sector, clusters⟩ ⟨hsec, hlen, hfollows, hleft⟩
  have hnext : clusters.next (some i) = .ok (some (i + 1)) := by
    rw [Clusters.next, if_pos hlen]
  have hget : clusters.get (some (i + 1)) = .ok (clusters.val.get ⟨i + 1, hlen⟩) := by
    rw [Clusters.get, Option.bind_some, List.getElem?_eq_getElem hlen]
    rfl
  dsimp only
  rw [hnext, Lib.ok_bind, hget, Lib.ok_bind]
  refine .of_ok ⟨hfile, fun hmiss => ?_⟩
  obtain ⟨hcomes, rfl⟩ := hnone hmiss
  have henters : fat.Enters d n filename (i + 1) := ⟨hi, hcomes⟩
  have hval := hfollows.val _ hlen henters
  rw [List.getElem?_eq_getElem hlen] at hval
  refine ⟨⟨hmiss, hcomes, Option.some.inj hval, rfl, hlen, hfollows, hsec henters, ?_, hkept⟩,
    hleft⟩
  rw [Volume.ShowsBefore, if_neg (Nat.succ_ne_zero i)]
  exact ⟨buf, rfl, hshows⟩

/-- The loop ends when a file is found, or behind the last cluster. -/
theorem openLoop_stop {fuel : ℕ} {v : OpenVars}
    (h : ¬(v.found = none ∧ isValidCluster v.cluster)) :
    openLoop L d fat filename fuel v = .ok v := by
  cases fuel with
  | zero => rw [openLoop, if_neg h]
  | succ fuel => rw [openLoop, if_neg h]

include hdir in
/-- Behind the last cluster everything has been looked at. -/
theorem openLoop_end {fuel : ℕ} {v : OpenVars} {pages : ℕ}
    (hv : fat.Reaches d n filename sfn n v) :
    Lib.Gives (openLoop L d fat filename fuel v) (fun w => fat.Searched d n filename w.found)
      (WantsPage v.clusters.heap pages) := by
  rw [openLoop_stop fun h => hdir.ends (hv.cluster ▸ h.2)]
  refine .of_ok ⟨fun file hfile => ?_, fun _ k hk => hv.comesTo k ?_ hk⟩
  · rw [hv.found] at hfile
    cases hfile
  · have hlt := hk.lt
    have hcount : n * (16 * fat.BPB_SecPerClus) = fat.firstEntry n := by
      rw [Volume.firstEntry]
      ring
    rwa [hcount] at hlt

include hfilename hdir hlegible haligned in
/-- **The loop goes through all clusters**, until it finds the name. Each of them may take a page,
and so does the handle of the file. -/
theorem openLoop_gives {fuel : ℕ} {v : OpenVars} (hi : i ≤ n) (hfuel : n ≤ i + fuel)
    (hv : fat.Reaches d n filename sfn i v) :
    Lib.Gives (openLoop L d fat filename fuel v) (fun w => fat.Searched d n filename w.found)
      (WantsPage v.clusters.heap (n - i + 1)) := by
  induction fuel generalizing i v with
  | zero =>
    obtain rfl : i = n := by omega
    exact openLoop_end hdir hv
  | succ fuel ih =>
    rcases Nat.eq_or_lt_of_le hi with rfl | hlt
    · exact openLoop_end hdir hv
    have hpass := openPass_gives (L := L) hfilename hdir hlegible haligned hlt hv
    rw [openLoop, if_pos ⟨hv.found, hv.cluster ▸ hdir.goesOn i hlt⟩]
    refine Lib.Gives.bind ⟨hpass.ok, fun f hf => ?_⟩ ?_
    · obtain ⟨hpanic, hfew⟩ := hpass.error f hf
      exact ⟨hpanic, hfew.trans_le (by omega)⟩
    rintro w ⟨hfile, hmiss⟩
    cases hfound : w.found with
    | some file =>
      have hsome : w.found ≠ none := by
        rw [hfound]
        exact Option.some_ne_none file
      rw [openLoop_stop fun h => hsome h.1]
      exact .of_ok ⟨hfile, fun h => absurd h hsome⟩
    | none =>
      obtain ⟨hreaches, hpages⟩ := hmiss hfound
      have hrest := ih (i := i + 1) hlt (by omega) hreaches
      refine ⟨hrest.ok, fun f hf => ?_⟩
      obtain ⟨hpanic, hfew⟩ := hrest.error f hf
      exact ⟨hpanic, by omega⟩

/-! ### A call -/

/-- **A chain that ends** has no more clusters than there are. -/
theorem Volume.RootDir.le_clusterCount (hdir : fat.RootDir d n) : n ≤ clusterCount := by
  have hinj : Set.InjOn (fat.chain d fat.BPB_RootClus) (Finset.range n) := by
    have hne : ∀ i j, i < j → j < n →
        fat.chain d fat.BPB_RootClus i ≠ fat.chain d fat.BPB_RootClus j := by
      intro i j hij hj heq
      -- the end of the chain is also found `j - i` places earlier
      have hend := chain_add_congr heq (n - j)
      rw [Nat.add_sub_cancel' hj.le] at hend
      exact hdir.ends (hend ▸ hdir.goesOn (i + (n - j)) (by omega))
    intro i hi j hj heq
    rw [Finset.mem_coe, Finset.mem_range] at hi hj
    by_contra hij
    rcases Nat.lt_or_gt_of_ne hij with hlt | hlt
    · exact hne i j hlt hj heq
    · exact hne j i hlt hi heq.symm
  have hcard := Finset.card_le_card_of_injOn _ (t := Finset.range clusterCount) ?_ hinj
  · rwa [Finset.card_range, Finset.card_range] at hcard
  · intro i hi
    obtain ⟨-, hle⟩ := hdir.goesOn i (Finset.mem_range.mp hi)
    rw [Finset.coe_range, Set.mem_Iio, clusterCount]
    omega

include hfilename hdir hlegible haligned in
/-- **`Open`** looks through what it looks at. -/
theorem openFile_gives {s : OpenState} (hs : Walked d fat fat.BPB_RootClus s.clusters.val)
    (hsfn : s.sfn = sfn) :
    Lib.Gives (openFile L d fat filename s) (fun r => fat.Searched d n filename r.1)
      (WantsPage s.clusters.heap (n + 1)) := by
  have hroot := hs.val 0 hs.pos
  have hget : s.clusters.get (some 0) = .ok fat.BPB_RootClus := by
    rw [Clusters.get, Option.bind_some, hroot]
    rfl
  have hvalid := hdir.goesOn 0 hdir.pos
  have hsector := calcSector_fileSector hvalid (hdir.fits 0 hdir.pos)
  rw [openFile, hget, Lib.ok_bind]
  refine (openLoop_gives hfilename hdir hlegible haligned (Nat.zero_le n)
    (hdir.le_clusterCount.trans (Nat.le_add_left _ _)) ?_).bind fun w hw => .of_ok hw
  refine ⟨rfl, fun q hq => absurd hq ?_, rfl, rfl, hs.pos, hs.followsOn (hlegible.trusts hdir),
    fun _ => hsector, ?_, fun _ h0 => hsfn ▸ h0⟩
  · rw [Volume.firstEntry, Nat.zero_mul]
    exact Nat.not_lt_zero q
  · rw [Volume.ShowsBefore, if_pos rfl]

end Search

/-! ### The list of the root directory -/

/-- A pass leaves a list of what has been read, and a node of it. -/
theorem openPass_walked {v w : OpenVars} (hw : Walked d fat fat.BPB_RootClus v.clusters.val)
    (hnode : ∀ p ∈ v.cluster_list, p < v.clusters.val.length)
    (h : openPass L d fat filename v = .ok w) :
    Walked d fat fat.BPB_RootClus w.clusters.val ∧
      ∀ p ∈ w.cluster_list, p < w.clusters.val.length := by
  obtain ⟨buf, -, h⟩ := Lib.bind_eq_ok.mp h
  obtain ⟨byte, -, h⟩ := Lib.bind_eq_ok.mp h
  obtain ⟨⟨found, sfn, heap⟩, -, h⟩ := Lib.bind_eq_ok.mp h
  obtain ⟨⟨sector, clusters⟩, hsector, h⟩ := Lib.bind_eq_ok.mp h
  obtain ⟨node, hnext, h⟩ := Lib.bind_eq_ok.mp h
  obtain ⟨cluster, -, h⟩ := Lib.bind_eq_ok.mp h
  obtain rfl := Except.ok.inj h
  cases hlist : v.cluster_list with
  | none =>
    rw [hlist] at hnext
    cases hnext
  | some p =>
    rw [hlist] at hsector hnext
    obtain ⟨-, hwalked, -⟩ := (calcNextSector_walks (s := ⟨v.clusters.val, heap⟩) hw
      (hnode p hlist)).ok _ hsector
    refine ⟨hwalked, fun i hi => ?_⟩
    obtain rfl := Except.ok.inj hnext
    rw [Option.mem_def, Option.ite_none_right_eq_some] at hi
    obtain ⟨hlt, hi⟩ := hi
    exact Option.some.inj hi ▸ hlt

theorem openLoop_walked {fuel : ℕ} {v w : OpenVars}
    (hw : Walked d fat fat.BPB_RootClus v.clusters.val)
    (hnode : ∀ p ∈ v.cluster_list, p < v.clusters.val.length)
    (h : openLoop L d fat filename fuel v = .ok w) :
    Walked d fat fat.BPB_RootClus w.clusters.val := by
  induction fuel generalizing v with
  | zero =>
    rw [openLoop] at h
    split at h
    · cases h
    · exact Except.ok.inj h ▸ hw
  | succ fuel ih =>
    rw [openLoop] at h
    split at h
    · obtain ⟨u, hpass, h⟩ := Lib.bind_eq_ok.mp h
      obtain ⟨hu, hnodes⟩ := openPass_walked hw hnode hpass
      exact ih hu hnodes h
    · exact Except.ok.inj h ▸ hw

/-- **A call leaves a list of what has been read.** -/
theorem openFile_walked {s : OpenState} {r : Option File × OpenState}
    (hs : Walked d fat fat.BPB_RootClus s.clusters.val)
    (h : openFile L d fat filename s = .ok r) :
    Walked d fat fat.BPB_RootClus r.2.clusters.val := by
  obtain ⟨cluster, -, h⟩ := Lib.bind_eq_ok.mp h
  obtain ⟨v, hloop, h⟩ := Lib.bind_eq_ok.mp h
  obtain rfl := Except.ok.inj h
  exact openLoop_walked hs (fun p hp => Option.some.inj hp ▸ hs.pos) hloop

/-- Where the first sector of the root directory is not taken for the last of its cluster, a null
pointer is followed. -/
theorem openPass_unaligned {v : OpenVars} (hnode : v.cluster_list = some 0)
    (hlist : v.clusters.val.length = 1)
    (hsector : v.sector % fat.BPB_SecPerClus ≠ fat.BPB_SecPerClus - 1) (w : OpenVars) :
    openPass L d fat filename v ≠ .ok w := by
  intro h
  obtain ⟨_, -, h⟩ := Lib.bind_eq_ok.mp h
  obtain ⟨_, -, h⟩ := Lib.bind_eq_ok.mp h
  obtain ⟨⟨found, sfn, heap⟩, -, h⟩ := Lib.bind_eq_ok.mp h
  have hend : Clusters.next ⟨v.clusters.val, heap⟩ (some 0) = .ok none := by
    rw [Clusters.next, if_neg (by rw [hlist]; decide)]
  dsimp only at h
  rw [calcNextSector, if_pos hsector, Lib.ok_bind, hnode] at h
  dsimp only at h
  rw [hend, Lib.ok_bind] at h
  cases h

/-- So nothing can be opened. -/
theorem openFile_unaligned (hdir : fat.RootDir d n) (haligned : ¬fat.Aligned) (heap : HeapMap)
    (sfn : SfnBuf) (r : Option File × OpenState) :
    openFile L d fat filename ⟨⟨[fat.BPB_RootClus], heap⟩, sfn⟩ ≠ .ok r := by
  intro h
  have hvalid := hdir.goesOn 0 hdir.pos
  have hsector := calcSector_fileSector hvalid (hdir.fits 0 hdir.pos)
  obtain ⟨fuel, hfuel⟩ : ∃ fuel, clusterCount = fuel + 1 := ⟨2 ^ 28 - 1, rfl⟩
  rw [openFile, Clusters.get, Option.bind_some, List.getElem?_cons_zero] at h
  dsimp only at h
  rw [Lib.ok_bind, hfuel] at h
  obtain ⟨v, hloop, -⟩ := Lib.bind_eq_ok.mp h
  rw [openLoop, if_pos ⟨rfl, hvalid⟩] at hloop
  obtain ⟨w, hpass, -⟩ := Lib.bind_eq_ok.mp hloop
  refine openPass_unaligned rfl rfl ?_ w hpass
  rw [chain_zero] at hsector
  dsimp only
  rw [hsector, fileSector_mod]
  exact haligned

/-! ### Runs -/

/-- A call of `Open`. -/
def openStep (L : Layout) (d : Mmc) (fat : Volume) (s : OpenState) (filename : List ℕ) :
    Except Fault OpenState := do
  let r ← openFile L d fat filename s
  return r.2

/-- **So do calls that come back.** -/
theorem walked_of_opens {heap : HeapMap} {earlier : List (List ℕ)} {s : OpenState}
    (hrun : Lib.runFrom (openStep L d fat) ⟨⟨[fat.BPB_RootClus], heap⟩, sfn⟩ earlier = .ok s) :
    Walked d fat fat.BPB_RootClus s.clusters.val := by
  refine Lib.runFrom_inv (I := fun u : OpenState => Walked d fat fat.BPB_RootClus u.clusters.val)
    ?_ (walked_singleton _) hrun
  intro u f t hu ht
  obtain ⟨r, hr, ht⟩ := Lib.bind_eq_ok.mp ht
  obtain rfl := Except.ok.inj ht
  exact openFile_walked hu hr

/-- The first cluster of an entry that has one. -/
theorem entryCluster_eq {entry : ℕ → ℕ} (h : firstCluster entry ≠ 0) :
    entryCluster fat entry = firstCluster entry := if_neg h

/-- A card with a volume whose clusters have one sector, and two files on it: the first has a long
name, of one part. -/
def Mmc.twoFiles : Mmc :=
  .ofList (format 1 4 ++ endOfChain 2 ++ endOfChain 3 ++ endOfChain 4 ++
    bytesAt (512 * 6176) ([0x41] ++ ['b', 'o', 'o', 't', '.'].flatMap (fun c => [c.toNat, 0]) ++
      [0x0f, 0, 8] ++ ['t', 'x', 't'].flatMap fun c => [c.toNat, 0]) ++
    entryAt (512 * 6176 + 32) ['B', 'O', 'O', 'T', '~', '1', ' ', ' ', 'T', 'X', 'T'] 3 60 ++
    entryAt (512 * 6176 + 64) ['K', 'E', 'R', 'N', 'E', 'L', '0', '1', 'B', 'I', 'N'] 4 500)

/-- Its volume. -/
def Volume.oneSector : Volume := { Volume.eightSectors with
  BPB_SecPerClus := 1
  secPerClus_lt := by decide
  secPerClus_pos := Nat.one_pos }

theorem longParts_twoFiles : LongParts (Volume.oneSector.dirEntry .twoFiles) 1 1 := by
  refine ⟨le_rfl, le_rfl, by decide, ?_, ?_, ?_⟩ <;> intro s h1 hs <;>
    obtain rfl : s = 1 := by omega
  · rfl
  · rfl
  · rfl

theorem named_twoFiles_long : Named (Volume.oneSector.dirEntry .twoFiles) 1
    (['b', 'o', 'o', 't', '.', 't', 'x', 't'].map Char.toNat) :=
  .inl ⟨1, longParts_twoFiles, by decide⟩

theorem not_longParts_twoFiles : ¬∃ m, LongParts (Volume.oneSector.dirEntry .twoFiles) 2 m := by
  rintro ⟨m, hm⟩
  exact absurd hm.passesFor.2.1 (by decide)

theorem named_twoFiles_short : Named (Volume.oneSector.dirEntry .twoFiles) 2
    (['K', 'E', 'R', 'N', 'E', 'L', '0', '1', '.', 'B', 'I', 'N'].map Char.toNat) :=
  .inr ⟨not_longParts_twoFiles, by decide⟩

theorem isFile_twoFiles {k : ℕ} (h : Volume.oneSector.IsFile .twoFiles 1 k) : k = 1 ∨ k = 2 := by
  have hlt : k < 3 := by
    by_contra hle
    exact h.started 3 (by omega) (by decide)
  have hne : k ≠ 0 := by
    rintro rfl
    exact absurd h.named (by decide)
  omega

theorem lookedAt_twoFiles {k : ℕ} (h : Volume.oneSector.LookedAt .twoFiles 1 k) :
    k = 1 ∨ k = 2 := by
  have hk := h.lt
  change k < 1 * (16 * 1) at hk
  have hlt : k < 3 := by
    by_contra hle
    exact h.started 3 (by omega) (by omega) (by decide)
  have hne : k ≠ 0 := by
    rintro rfl
    exact absurd h.plain (by decide)
  omega

theorem rootDir_twoFiles : Volume.oneSector.RootDir .twoFiles 1 := by
  refine ⟨by decide, fun i hi => ?_, by decide, fun i hi => ?_, ?_⟩
  · obtain rfl : i = 0 := by omega
    decide
  · obtain rfl : i = 0 := by omega
    decide
  · intro k q f hk hq hkf hqf
    rcases isFile_twoFiles hk with rfl | rfl <;> rcases isFile_twoFiles hq with rfl | rfl
    · rfl
    · exact absurd ((named_twoFiles_long.unique hkf).trans (hqf.unique named_twoFiles_short))
        (by decide)
    · exact absurd ((named_twoFiles_long.unique hqf).trans (hkf.unique named_twoFiles_short))
        (by decide)
    · rfl

theorem legible_twoFiles (filename : List ℕ) (sfn : SfnBuf) :
    Volume.oneSector.Legible .twoFiles 1 filename sfn := by
  refine ⟨fun i hi _ => ?_, fun i hi _ => ?_, fun k hk _ _ => ?_, fun k hk _ => ?_⟩
  · obtain rfl : i = 0 := by omega
    exact .inl (by decide : 2080 < 2 ^ 23)
  · obtain rfl : i = 0 := by omega
    exact (by decide : 6176 < 2 ^ 23)
  · have hshown : ∀ q ≤ 2, Volume.oneSector.dirEntry .twoFiles q 0 ≠ kDirNameEmptyEntry := by decide
    rcases lookedAt_twoFiles hk with rfl | rfl
    · exact fun q hq => hshown q (by omega)
    · exact hshown
  · rcases lookedAt_twoFiles hk with rfl | rfl
    · exact .long 1 longParts_twoFiles (by decide) (.inl le_rfl) (by decide)
    · exact .short not_longParts_twoFiles (fun _ h => absurd h.2.1 (by decide))
        (.inl (by simp only [Char]; decide))

/-- A card with two files whose names are short. The second has a name that `GetSfn` does not make
out. -/
def Mmc.shortNames : Mmc :=
  .ofList (format 1 4 ++ endOfChain 2 ++ endOfChain 3 ++ endOfChain 4 ++
    entryAt (512 * 6176) ['K', 'E', 'R', 'N', 'E', 'L', '0', '1', 'B', 'I', 'N'] 3 500 ++
    entryAt (512 * 6176 + 32) ['A', ' ', ' ', ' ', ' ', ' ', ' ', ' ', 'T', 'X', 'T'] 4 60)

theorem not_longParts_shortNames {k : ℕ} (hk : k < 2) :
    ¬∃ m, LongParts (Volume.oneSector.dirEntry .shortNames) k m := by
  rintro ⟨m, hm⟩
  obtain rfl | rfl : k = 0 ∨ k = 1 := by omega
  · exact absurd hm.pos (Nat.not_lt_of_le hm.le)
  · exact absurd hm.passesFor.2.1 (by decide)

theorem named_shortNames_first : Named (Volume.oneSector.dirEntry .shortNames) 0
    (['K', 'E', 'R', 'N', 'E', 'L', '0', '1', '.', 'B', 'I', 'N'].map Char.toNat) :=
  .inr ⟨not_longParts_shortNames (by decide), by decide⟩

theorem named_shortNames_second : Named (Volume.oneSector.dirEntry .shortNames) 1
    (['A', '.', 'T', 'X', 'T'].map Char.toNat) :=
  .inr ⟨not_longParts_shortNames (by decide), by decide⟩

theorem isFile_shortNames {k : ℕ} (h : Volume.oneSector.IsFile .shortNames 1 k) :
    k = 0 ∨ k = 1 := by
  have hlt : k < 2 := by
    by_contra hle
    exact h.started 2 (by omega) (by decide)
  omega

theorem rootDir_shortNames : Volume.oneSector.RootDir .shortNames 1 := by
  refine ⟨by decide, fun i hi => ?_, by decide, fun i hi => ?_, ?_⟩
  · obtain rfl : i = 0 := by omega
    decide
  · obtain rfl : i = 0 := by omega
    decide
  · intro k q f hk hq hkf hqf
    rcases isFile_shortNames hk with rfl | rfl <;> rcases isFile_shortNames hq with rfl | rfl
    · rfl
    · exact absurd ((named_shortNames_first.unique hkf).trans
        (hqf.unique named_shortNames_second)) (by decide)
    · exact absurd ((named_shortNames_first.unique hqf).trans
        (hkf.unique named_shortNames_second)) (by decide)
    · rfl

/-- The second name does not matter when the first is asked for. -/
theorem legible_shortNames (sfn : SfnBuf) : Volume.oneSector.Legible .shortNames 1
    (['K', 'E', 'R', 'N', 'E', 'L', '0', '1', '.', 'B', 'I', 'N'].map Char.toNat) sfn := by
  have hfirst : ∀ k, Volume.oneSector.ComesTo .shortNames 1
      (['K', 'E', 'R', 'N', 'E', 'L', '0', '1', '.', 'B', 'I', 'N'].map Char.toNat) k → k = 0 := by
    intro k hk
    by_contra hne
    refine hk 0 (Nat.pos_of_ne_zero hne) ⟨by decide, by decide, fun q _ hq => ?_, by decide,
      by decide⟩ named_shortNames_first
    obtain rfl := Nat.le_zero.mp hq
    decide
  refine ⟨fun i _ hcomes => ?_, fun i hi _ => ?_, fun k _ hcomes _ => ?_, fun k _ hcomes => ?_⟩
  · exact absurd (hfirst _ hcomes) (Nat.mul_ne_zero (by decide) (Nat.succ_ne_zero _))
  · obtain rfl : i = 0 := by omega
    exact (by decide : 6176 < 2 ^ 23)
  · obtain rfl := hfirst k hcomes
    intro q hq
    obtain rfl := Nat.le_zero.mp hq
    decide
  · obtain rfl := hfirst k hcomes
    exact .short (not_longParts_shortNames (by decide)) (fun h => absurd h (lt_irrefl 0))
      (.inl (by simp only [Char]; decide))

/-- The directory of the card with one file. -/
theorem rootDir_oneFile : Volume.eightSectors.RootDir .oneFile 1 := by
  have hisFile : ∀ k, Volume.eightSectors.IsFile .oneFile 1 k → k = 0 := by
    intro k hk
    by_contra hne
    exact hk.started 1 (by omega) (by decide)
  refine ⟨by decide, fun i hi => ?_, by decide, fun i hi => ?_, fun k q f hk hq _ _ => ?_⟩
  · obtain rfl : i = 0 := by omega
    decide
  · obtain rfl : i = 0 := by omega
    decide
  · rw [hisFile k hk, hisFile q hq]

end Fat32Fs

end Evisor
