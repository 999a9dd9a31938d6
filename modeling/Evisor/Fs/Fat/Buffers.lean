import Evisor.Lib.Asks
import Evisor.Arch.LdSymbols
import Evisor.Mm.Uncached
import Evisor.Fs.Fat.Open
import Evisor.Fs.Fat.ReadBounds

/-!
# Sector buffers

`Init`, `Open` and `Read` of `fs/fat/fat32.cc` with the pages that sectors are read into.
`ReadSector` takes a page of the uncached region, and reads into it; if the card fails, it
returns null, and the page is lost. Its callers give the page back: at once, or, in `Open` and
`CalcCluster`, when the next one has been read.

All of them look at what has been read without looking at the pointer first
(`Evisor.Fat32Fs.Buffers.load`).
-/

namespace Evisor

namespace Fat32Fs

namespace Buffers

/-! ### The code -/

/-- What uses the card: it asks for a number of sectors, which the card delivers or not, and takes
pages of the uncached region. Without a reason it faults by following or releasing a null
pointer to a page. -/
abbrev DiskM (α : Type) : Type := Lib.Asks ℕ RegionMap Fault α

/-- A pointer to a page of the uncached region: its address, and what it holds. -/
abbrev SectorPtr := Option (ℕ × (ℕ → ℕ))

/-- `Mmc::Read` refuses to read nothing. -/
def nonempty (sector_num : ℕ) : Bool := decide (kBlockSize ≤ kBlockSize * sector_num % 2 ^ 32)

variable (L : Layout) (d : Mmc) (fat : Volume)

/-- `Fat32Fs::ReadSector`. -/
def readSector (lba sector_num : ℕ) : DiskM SectorPtr := do
  let va ← Lib.Asks.change fun region => kmmUncachedMalloc L.kUncachedStart region PAGE_SIZE
  let buf ← Lib.Asks.lift (Fat32Fs.readSector d lba sector_num)
  let delivered ← Lib.Asks.ask nonempty sector_num
  -- the page is not given back when nothing has been delivered
  return if delivered then buf.map fun byte => (va, byte) else none

/-- Reading `n` bytes of a page. -/
def deref (buf : SectorPtr) (offset n : ℕ) : DiskM (ℕ → ℕ) :=
  match buf with
  | none => Lib.Asks.refused
  | some (_, byte) => Lib.Asks.lift (readBuf (some byte) offset n)

/-- `ReadSector`, and what each of its callers does with the page at once: it reads from it. -/
def load (lba sector_num offset n : ℕ) : DiskM (SectorPtr × (ℕ → ℕ)) := do
  let buf ← readSector L d lba sector_num
  let byte ← deref buf offset n
  return (buf, byte)

/-- `kmm_uncached_free`. -/
def free (buf : SectorPtr) : DiskM Unit :=
  match buf with
  | none => Lib.Asks.refused
  | some (va, _) => Lib.Asks.change fun region => do
    let region ← kmmUncachedFree L.kUncachedStart region va
    return ((), region)

/-- `kmm_uncached_free`, of a pointer that is not null. -/
def freeAny (buf : SectorPtr) : DiskM Unit :=
  match buf with
  | none => pure ()
  | some page => free L (some page)

/-- The entry of the table for a cluster, and the page it has been read into. -/
def loadEntry (cluster : ℕ) : DiskM (SectorPtr × ℕ) := do
  let sector := (fat.fat_first_sector + cluster * 4 % 2 ^ 32 / fat.BPB_BytsPerSec) % 2 ^ 32
  let offset := cluster * 4 % 2 ^ 32 % fat.BPB_BytsPerSec
  let (buf, byte) ← load L d ((fat.first_lba + sector) % 2 ^ 32) 1 offset 4
  return (buf, Lib.ofBytes 4 byte &&& 0x0fffffff)

/-- The loop of `CalcCluster`, with the clusters still to be passed. -/
def calcClusterLoop : ℕ → ℕ → ℕ → Clusters → SectorPtr → DiskM (ℕ × Clusters)
  | 0, _, cluster, s, buf => do
    freeAny L buf
    return (cluster, s)
  | left + 1, i, cluster, s, buf =>
    match s.val[i + 1]? with
    | some val => calcClusterLoop left (i + 1) val s buf
    | none => do
      freeAny L buf
      let (buf, cluster) ← loadEntry L d fat cluster
      if isValidCluster cluster then do
        let s ← Lib.Asks.lift (s.push L cluster)
        calcClusterLoop left (i + 1) cluster s buf
      else do
        freeAny L buf
        return (kBadCluster, s)

/-- `Fat32Fs::CalcCluster`. -/
def calcCluster (s : Clusters) (offset : ℕ) : DiskM (ℕ × Clusters) :=
  match s.val with
  | [] => Lib.Asks.lift (.error .nullDeref)
  | cluster :: _ =>
    calcClusterLoop L d fat (offset / (fat.BPB_SecPerClus * fat.BPB_BytsPerSec)) 0 cluster s none

/-- `Fat32Fs::CalcNextCluster`. -/
def calcNextCluster (s : Clusters) (cluster_list : Option ℕ) : DiskM (ℕ × Clusters) :=
  match cluster_list with
  | none => Lib.Asks.lift (.error .nullDeref)
  | some i =>
    match s.val[i]?, s.val[i + 1]? with
    | none, _ => Lib.Asks.lift (.error .nullDeref)
    | some _, some next_cluster => pure (next_cluster, s)
    | some val, none => do
      let (buf, next_cluster) ← loadEntry L d fat val
      free L buf
      let s ← Lib.Asks.lift (s.push L next_cluster)
      return (next_cluster, s)

/-- `Fat32Fs::CalcNextSector`. -/
def calcNextSector (s : Clusters) (cur_sector : ℕ) (cluster_list : Option ℕ) :
    DiskM (ℕ × Clusters) :=
  if cur_sector % fat.BPB_SecPerClus ≠ fat.BPB_SecPerClus - 1 then
    pure ((cur_sector + 1) % 2 ^ 32, s)
  else do
    let (next_cluster, s) ← calcNextCluster L d fat s cluster_list
    return (calcSector fat next_cluster 0, s)

/-- The body of the loop of `Read`. -/
def readPass (v : ReadVars) : DiskM ReadVars := do
  let a := v.access fat
  let (read_buf, byte) ← load L d a.lba a.sector_num v.sector_offset a.copy_len
  free L read_buf
  let (sector, clusters) ← calcNextSector L d fat v.clusters v.sector v.cluster_list
  let cluster_list ← Lib.Asks.lift (clusters.next v.cluster_list)
  return {
    out := v.out ++ (List.range a.copy_len).map byte
    remains := v.remains - a.copy_len
    sector, cluster_list, clusters
    sector_offset := 0 }

/-- The loop of `Read`, with the passes it may still make. -/
def readLoop (cluster : ℕ) : ℕ → ReadVars → DiskM ReadVars
  | 0, v => Lib.Asks.lift
    (if 0 < v.remains ∧ isValidCluster cluster then .error .outOfFuel else .ok v)
  | fuel + 1, v =>
    if 0 < v.remains ∧ isValidCluster cluster then do
      let v ← readPass L d fat v
      readLoop cluster fuel v
    else pure v

/-- `Fat32Fs::Read`, of a file system that is initialized. -/
def read (size : ℕ) (s : Clusters) (offset len : ℕ) : DiskM ReadResult :=
  if size < (offset + len) % 2 ^ 64 then pure ⟨0, [], s⟩
  else do
    let tail := min ((offset + len % 2 ^ 32) % 2 ^ 32) size
    let remains := (tail + 2 ^ 32 - offset) % 2 ^ 32
    let (cluster, s) ← calcCluster L d fat s offset
    let sector := calcSector fat cluster offset
    let node ← Lib.Asks.lift (findNode s cluster)
    let v ← readLoop L d fat cluster remains
      ⟨[], remains, sector, offset % kBlockSize, some node, s⟩
    let ret := BitVec.ofNat 32 tail - BitVec.ofNat 32 offset - BitVec.ofNat 32 v.remains
    return ⟨ret.toInt, v.out, v.clusters⟩

/-- What `Init` does about a volume that the partition table has. -/
def initVolume (first_lba : ℕ) (heap : HeapMap) : DiskM (Option Root × HeapMap) := do
  let (buf, byte) ← load L d first_lba 1 0 kBlockSize
  free L buf
  Lib.Asks.lift (Bpb.load byte).divide
  if h : (Bpb.load byte).Valid then do
    let root ← Lib.Asks.lift (Clusters.push L ⟨[], heap⟩ (Bpb.load byte).BPB_RootClus)
    return (some ⟨(Bpb.load byte).volume h first_lba, root.val⟩, root.heap)
  else return (none, heap)

/-- The second loop of `Init`, over the volumes that may be valid. -/
def initVolumes (first_lba : ℕ) :
    List Bool → HeapMap → DiskM (List (Option Root) × HeapMap)
  | [], heap => pure ([], heap)
  | true :: rest, heap => do
    let (root, heap) ← initVolume L d first_lba heap
    let (roots, heap) ← initVolumes first_lba rest heap
    return (root :: roots, heap)
  | false :: rest, heap => do
    let (roots, heap) ← initVolumes first_lba rest heap
    return (none :: roots, heap)

/-- `Fat32Fs::Init`: the volumes, if the file system gets initialized. -/
def init (heap : HeapMap) : DiskM (Option (List (Option Root)) × HeapMap) := do
  let (buf, byte) ← load L d 0 1 0 kBlockSize
  if member byte 510 2 ≠ kBootSignature then do
    free L buf
    return (none, heap)
  else do
    let valid := (List.range MAX_FAT_VOLUME_SIZE).map fun i =>
      decide (member byte (446 + 16 * i + 4) 1 = 0xc)
    free L buf
    let (roots, heap) ← initVolumes L d (member byte (446 + 8) 4) valid heap
    return (some roots, heap)

/-- The body of the loop of `Open`, with `prev_buf`, whose content the variables have. -/
def openPass (filename : List ℕ) (v : OpenVars) (prev_buf : SectorPtr) :
    DiskM (OpenVars × SectorPtr) := do
  let (buf, byte) ← load L d ((fat.first_lba + v.sector) % 2 ^ 32) 1 0 kBlockSize
  let (found, sfn, heap) ← Lib.Asks.lift
    (openScan L fat filename byte v.prev_buf (kBlockSize / dirSize) v.sfn v.clusters.heap)
  freeAny L prev_buf
  let (sector, clusters) ← calcNextSector L d fat ⟨v.clusters.val, heap⟩ v.sector v.cluster_list
  let cluster_list ← Lib.Asks.lift (clusters.next v.cluster_list)
  let cluster ← Lib.Asks.lift (clusters.get cluster_list)
  return ({ cluster, cluster_list, sector, found,
            prev_buf := buf.map Prod.snd, clusters, sfn }, buf)

/-- The loop of `Open`, with the passes it may still make. -/
def openLoop (filename : List ℕ) : ℕ → OpenVars → SectorPtr → DiskM (OpenVars × SectorPtr)
  | 0, v, prev_buf => Lib.Asks.lift
    (if v.found = none ∧ isValidCluster v.cluster then .error .outOfFuel else .ok (v, prev_buf))
  | fuel + 1, v, prev_buf =>
    if v.found = none ∧ isValidCluster v.cluster then do
      let (v, prev_buf) ← openPass L d fat filename v prev_buf
      openLoop filename fuel v prev_buf
    else pure (v, prev_buf)

/-- `Fat32Fs::Open`, of a file system that is initialized and has a valid first volume. -/
def openFile (filename : List ℕ) (s : OpenState) : DiskM (Option File × OpenState) := do
  let cluster ← Lib.Asks.lift (s.clusters.get (some 0))
  let (v, prev_buf) ← openLoop L d fat filename clusterCount {
    cluster
    cluster_list := some 0
    sector := calcSector fat cluster 0
    found := none
    prev_buf := none
    clusters := s.clusters
    sfn := s.sfn } none
  freeAny L prev_buf
  return (v.found, ⟨v.clusters, v.sfn⟩)

end Buffers

end Fat32Fs

end Evisor
