import Evisor.Mm.Heap

/-!
# A FAT32 volume and the chains of its clusters

`fs/fat/fat32.cc`, up to what `Open` and `Read` have in common: reading sectors from the
card, looking up the file allocation table, and following a chain of clusters.

A handle has a list of the clusters of its file (`ClusterLinkedListNode`), which is made
longer as the chain is followed. A node is named by its place in the list; nothing is ever
put anywhere but at the end, and a pointer to a node is a place or null.

Sector numbers are 32-bit words, and so are the byte offsets made of them: a sector that
lies behind the first 4 GiB of the card is not the one that is read. Where the numbers are
small enough (`Evisor.Fat32Fs.InReach`) they are what they are meant to be.
-/

namespace Evisor

namespace Fat32Fs

/-- `kBlockSize`. -/
def kBlockSize : ℕ := 512

/-- `kBadCluster`. -/
def kBadCluster : ℕ := 0x0FFFFFF7

/-- **The card**, which delivers the sectors it is asked for. -/
structure Mmc where
  /-- The bytes of all sectors, one after the other. -/
  byte : ℕ → ℕ
  /-- What a page of uncached memory holds that is handed out. -/
  stale : ℕ → ℕ
  byte_lt : ∀ k, byte k < 256

/-- **A volume**, as `Init` has found it to be valid. -/
structure Volume where
  first_lba : ℕ
  fat_first_sector : ℕ
  data_first_sector : ℕ
  BPB_SecPerClus : ℕ
  BPB_BytsPerSec : ℕ
  BPB_RootClus : ℕ
  first_lba_lt : first_lba < 2 ^ 32
  fat_first_sector_lt : fat_first_sector < 2 ^ 32
  data_first_sector_lt : data_first_sector < 2 ^ 32
  secPerClus_lt : BPB_SecPerClus < 256
  -- the number of clusters, which it divides, is not too small
  secPerClus_pos : 0 < BPB_SecPerClus
  bytsPerSec : BPB_BytsPerSec = kBlockSize

/-! ### Sectors -/

/-- A pointer to a page that sectors have been read into. -/
abbrev SectorBuf := Option (ℕ → ℕ)

/-- `Fat32Fs::ReadSector`. `Mmc::Read` refuses to read nothing; what it is asked for has to
fit the page. -/
def readSector (d : Mmc) (lba sector_num : ℕ) : Except Fault SectorBuf :=
  let offset := kBlockSize * lba % 2 ^ 32
  let size := kBlockSize * sector_num % 2 ^ 32
  if size < kBlockSize then .ok none
  else if PAGE_SIZE < size then .error .outOfBounds
  else .ok (some fun i => if i < size then d.byte (offset + i) else d.stale i)

/-- Reading `n` bytes of a page. -/
def readBuf (buf : SectorBuf) (offset n : ℕ) : Except Fault (ℕ → ℕ) :=
  match buf with
  | none => .error .nullDeref
  | some byte => if offset + n ≤ PAGE_SIZE then .ok fun i => byte (offset + i)
    else .error .outOfBounds

/-- A single sector can be read. -/
theorem readSector_one (d : Mmc) (lba : ℕ) : ∃ byte, readSector d lba 1 = .ok (some byte) ∧
    ∀ i < kBlockSize, byte i = d.byte (kBlockSize * lba % 2 ^ 32 + i) := by
  refine ⟨_, by rw [readSector, kBlockSize, PAGE_SIZE, if_neg (by decide), if_neg (by decide)], ?_⟩
  exact fun i hi => if_pos hi

/-! ### The table -/

/-- `IsValidCluster`. -/
def isValidCluster (cluster : ℕ) : Prop := 0x00000002 ≤ cluster ∧ cluster ≤ 0xffffff6

instance (cluster : ℕ) : Decidable (isValidCluster cluster) := inferInstanceAs (Decidable (_ ∧ _))

/-- The entry of the table for a cluster: the cluster that follows. -/
def fatEntry (d : Mmc) (fat : Volume) (cluster : ℕ) : Except Fault ℕ := do
  let sector := (fat.fat_first_sector + cluster * 4 % 2 ^ 32 / fat.BPB_BytsPerSec) % 2 ^ 32
  let offset := cluster * 4 % 2 ^ 32 % fat.BPB_BytsPerSec
  let buf ← readSector d ((fat.first_lba + sector) % 2 ^ 32) 1
  let byte ← readBuf buf offset 4
  return Lib.ofBytes 4 byte &&& 0x0fffffff

/-! ### The list of clusters -/

/-- The list of the clusters of a handle, and the heap its nodes are taken from. -/
structure Clusters where
  val : List ℕ
  heap : HeapMap

/-- `sizeof(ClusterLinkedListNode)`. -/
def nodeSize : ℕ := 24

variable (L : Layout) (d : Mmc) (fat : Volume)

/-- A new node at the end of the list. -/
def Clusters.push (s : Clusters) (val : ℕ) : Except Fault Clusters := do
  let (_, heap) ← kmmMalloc L s.heap nodeSize
  return ⟨s.val ++ [val], heap⟩

/-- `cluster_list->next`. -/
def Clusters.next (s : Clusters) : Option ℕ → Except Fault (Option ℕ)
  | none => .error .nullDeref
  | some i => .ok (if i + 1 < s.val.length then some (i + 1) else none)

/-- The loop of `CalcCluster`, with the clusters still to be passed: `i` is the place of
`cluster_list`. -/
def calcClusterLoop : ℕ → ℕ → ℕ → Clusters → Except Fault (ℕ × Clusters)
  | 0, _, cluster, s => .ok (cluster, s)
  | left + 1, i, cluster, s =>
    match s.val[i + 1]? with
    | some val => calcClusterLoop left (i + 1) val s
    | none => do
      let cluster ← fatEntry d fat cluster
      if isValidCluster cluster then
        let s ← s.push L cluster
        calcClusterLoop left (i + 1) cluster s
      else return (kBadCluster, s)

/-- `Fat32Fs::CalcCluster`. -/
def calcCluster (s : Clusters) (offset : ℕ) : Except Fault (ℕ × Clusters) :=
  match s.val with
  | [] => .error .nullDeref
  | cluster :: _ =>
    calcClusterLoop L d fat (offset / (fat.BPB_SecPerClus * fat.BPB_BytsPerSec)) 0 cluster s

/-- `Fat32Fs::CalcNextCluster`. -/
def calcNextCluster (s : Clusters) (cluster_list : Option ℕ) : Except Fault (ℕ × Clusters) :=
  match cluster_list with
  | none => .error .nullDeref
  | some i =>
    match s.val[i]?, s.val[i + 1]? with
    | none, _ => .error .nullDeref
    | some _, some next_cluster => .ok (next_cluster, s)
    | some val, none => do
      let next_cluster ← fatEntry d fat val
      let s ← s.push L next_cluster
      return (next_cluster, s)

/-- `Fat32Fs::CalcSector`. -/
def calcSector (cluster offset : ℕ) : ℕ :=
  let first_sector :=
    (fat.data_first_sector + (cluster + 2 ^ 32 - 2) % 2 ^ 32 * fat.BPB_SecPerClus) % 2 ^ 32
  let sector_offset := offset % (fat.BPB_SecPerClus * kBlockSize) / kBlockSize
  (first_sector + sector_offset) % 2 ^ 32

/-- `Fat32Fs::CalcNextSector`. -/
def calcNextSector (s : Clusters) (cur_sector : ℕ) (cluster_list : Option ℕ) :
    Except Fault (ℕ × Clusters) :=
  if cur_sector % fat.BPB_SecPerClus ≠ fat.BPB_SecPerClus - 1 then
    .ok ((cur_sector + 1) % 2 ^ 32, s)
  else do
    let (next_cluster, s) ← calcNextCluster L d fat s cluster_list
    return (calcSector fat next_cluster 0, s)

/-! ### What the table says -/

/-- What the code reads as the entry of a cluster. -/
def Volume.entry (cluster : ℕ) : ℕ :=
  Lib.ofBytes 4 (fun i => d.byte
    (kBlockSize * ((fat.first_lba + (fat.fat_first_sector + cluster * 4 % 2 ^ 32 / kBlockSize) %
      2 ^ 32) % 2 ^ 32) % 2 ^ 32 + (cluster * 4 % 2 ^ 32 % kBlockSize + i))) &&& 0x0fffffff

/-- The cluster that follows, as the table on the card has it. -/
def Volume.follower (cluster : ℕ) : ℕ :=
  Lib.ofBytes 4 (fun i => d.byte
    (kBlockSize * (fat.first_lba + fat.fat_first_sector) + cluster * 4 + i)) % 2 ^ 28

/-- What is on the card in place of the entry of a cluster, where its place wraps at 4 GiB. -/
def Volume.standIn (cluster : ℕ) : ℕ :=
  Lib.ofBytes 4 (fun i => d.byte
    ((kBlockSize * (fat.first_lba + fat.fat_first_sector) + cluster * 4) % 2 ^ 32 + i)) % 2 ^ 28

/-- **The chain** that starts with a cluster. -/
def Volume.chain (cluster i : ℕ) : ℕ := (fat.follower d)^[i] cluster

/-- A sector whose byte offset is a 32-bit word. -/
def InReach (lba : ℕ) : Prop := lba < 2 ^ 23

/-- The sector of the table that has the entry of a cluster is one the code can read. -/
def Volume.Listed (cluster : ℕ) : Prop :=
  InReach (fat.first_lba + fat.fat_first_sector + cluster * 4 / kBlockSize)

/-- **The entry of a cluster can be told**: it is in the first 4 GiB of the card, or what is read in
place of it is the same. -/
def Volume.EntryRight (cluster : ℕ) : Prop :=
  fat.Listed cluster ∨ fat.standIn d cluster = fat.follower d cluster

/-- The chain goes on at least to place `n`. -/
def Volume.GoesOn (cluster n : ℕ) : Prop := ∀ i < n, isValidCluster (fat.chain d cluster i)

/-- **A list follows the chain** at the places at which it is trusted. -/
structure FollowsOn (cluster : ℕ) (trusted : ℕ → Prop) (l : List ℕ) : Prop where
  pos : 0 < l.length
  val : ∀ i < l.length, trusted i → l[i]? = some (fat.chain d cluster i)

/-- It does as far as there is a chain. -/
abbrev Follows (cluster : ℕ) (l : List ℕ) : Prop :=
  FollowsOn d fat cluster (fat.GoesOn d cluster) l

/-- **Where a list can be trusted**: if at a place, then at the one before it, whose entry is read
right. -/
def Volume.Trusts (cluster : ℕ) (trusted : ℕ → Prop) : Prop :=
  ∀ i, trusted (i + 1) →
    trusted i ∧ fat.entry d (fat.chain d cluster i) = fat.chain d cluster (i + 1)

variable {L d fat} {s : Clusters} {root q p : ℕ}

theorem chain_zero (root : ℕ) : fat.chain d root 0 = root := rfl

theorem chain_succ (root i : ℕ) :
    fat.chain d root (i + 1) = fat.follower d (fat.chain d root i) :=
  Function.iterate_succ_apply' ..

/-- Two places with the same cluster are followed by the same ones. -/
theorem chain_add_congr (h : fat.chain d root p = fat.chain d root q) (k : ℕ) :
    fat.chain d root (p + k) = fat.chain d root (q + k) := by
  rw [Volume.chain, Volume.chain, Nat.add_comm, Function.iterate_add_apply, Nat.add_comm q,
    Function.iterate_add_apply]
  exact congrArg _ h

theorem Volume.GoesOn.mono {m n : ℕ} (h : fat.GoesOn d root n) (hmn : m ≤ n) :
    fat.GoesOn d root m := fun i hi => h i (hi.trans_le hmn)

/-- The list a handle starts with. -/
theorem follows_singleton (root : ℕ) : Follows d fat root [root] := by
  refine ⟨Nat.one_pos, fun i hi _ => ?_⟩
  obtain rfl : i = 0 := Nat.lt_one_iff.mp hi
  rfl

variable (d fat) in
/-- **An entry** is what is read of it. -/
theorem fatEntry_eq (cluster : ℕ) : fatEntry d fat cluster = .ok (fat.entry d cluster) := by
  obtain ⟨byte, hread, hbyte⟩ := readSector_one d ((fat.first_lba + (fat.fat_first_sector +
    cluster * 4 % 2 ^ 32 / fat.BPB_BytsPerSec) % 2 ^ 32) % 2 ^ 32)
  have hoff : cluster * 4 % 2 ^ 32 % kBlockSize + 4 ≤ kBlockSize := by
    rw [kBlockSize]
    omega
  have hword : readBuf (some byte) (cluster * 4 % 2 ^ 32 % fat.BPB_BytsPerSec) 4 =
      .ok fun i => byte (cluster * 4 % 2 ^ 32 % kBlockSize + i) := by
    rw [readBuf, fat.bytsPerSec, if_pos]
    exact hoff.trans (by decide)
  rw [fatEntry, hread, Lib.ok_bind, hword, Lib.ok_bind, Lib.pure_eq_ok, Volume.entry]
  refine congrArg (fun w => Except.ok (w &&& 0x0fffffff)) (Lib.ofBytes_congr fun i hi => ?_)
  rw [hbyte _ (by omega), fat.bytsPerSec]

/-- Of a cluster, it is the word at the place of the entry, up to multiples of 4 GiB. -/
theorem entry_eq_standIn {cluster : ℕ} (hvalid : isValidCluster cluster) :
    fat.entry d cluster = fat.standIn d cluster := by
  have hmask : ∀ w, w &&& 0x0fffffff = w % 2 ^ 28 := fun w => Nat.and_two_pow_sub_one_eq_mod w 28
  have hle := hvalid.2
  rw [Volume.entry, Volume.standIn, hmask]
  refine congrArg (· % 2 ^ 28) (Lib.ofBytes_congr fun i hi => congrArg d.byte ?_)
  rw [kBlockSize]
  omega

/-- In the first 4 GiB nothing is in its place. -/
theorem standIn_eq_follower {cluster : ℕ} (hlisted : fat.Listed cluster) :
    fat.standIn d cluster = fat.follower d cluster := by
  have hplace : kBlockSize * (fat.first_lba + fat.fat_first_sector) + cluster * 4 < 2 ^ 32 := by
    rw [Volume.Listed, InReach] at hlisted
    rw [kBlockSize] at hlisted ⊢
    omega
  rw [Volume.standIn, Nat.mod_eq_of_lt hplace]
  rfl

/-- **An entry can be told exactly if it is read right.** -/
theorem entryRight_iff {cluster : ℕ} (hvalid : isValidCluster cluster) :
    fat.EntryRight d cluster ↔ fat.entry d cluster = fat.follower d cluster := by
  rw [Volume.EntryRight, entry_eq_standIn hvalid]
  exact or_iff_right_of_imp standIn_eq_follower

/-- A node that is added. -/
theorem push_gives (s : Clusters) (val : ℕ) :
    Lib.Gives (s.push L val) (fun t => t.val = s.val ++ [val]) Fault.OutOfMemory := by
  refine Lib.Gives.bind (P := fun _ => True) ⟨fun _ _ => trivial, fun f hf => kmmMalloc_error hf⟩ ?_
  rintro ⟨page, heap⟩ -
  exact .of_ok rfl

/-- A chain can be trusted as far as its entries can be told. -/
theorem Volume.GoesOn.step (hgo : fat.GoesOn d root (p + 1))
    (h : fat.EntryRight d (fat.chain d root p)) :
    fat.GoesOn d root p ∧ fat.entry d (fat.chain d root p) = fat.chain d root (p + 1) := by
  refine ⟨hgo.mono (Nat.le_succ p), ?_⟩
  rw [chain_succ]
  exact (entryRight_iff (hgo p (Nat.lt_succ_self p))).mp h

theorem Volume.Trusts.mono {trusted : ℕ → Prop} (h : fat.Trusts d root trusted) (hq : trusted q)
    (hpq : p ≤ q) : trusted p := by
  induction q with
  | zero => rwa [Nat.le_zero.mp hpq]
  | succ q ih =>
    rcases Nat.le_succ_iff.mp hpq with hle | rfl
    · exact ih (h q hq).1 hle
    · exact hq

/-- A list that follows the chain is made longer by the cluster that follows the last. -/
theorem FollowsOn.push {trusted : ℕ → Prop} (h : FollowsOn d fat root trusted s.val) {val : ℕ}
    (hval : trusted s.val.length → val = fat.chain d root s.val.length) :
    FollowsOn d fat root trusted (s.val ++ [val]) := by
  refine ⟨by simp, fun i hi hgo => ?_⟩
  rw [List.length_append, List.length_singleton] at hi
  rcases Nat.lt_succ_iff_lt_or_eq.mp hi with hi | rfl
  · rw [List.getElem?_append_left hi]
    exact h.val i hi hgo
  · rw [List.getElem?_concat_length, hval hgo]

/-! ### Following the chain -/

/-- What following the chain does to the list: it gets no shorter, and still follows it. -/
structure Clusters.ExtendsOn (d : Mmc) (fat : Volume) (root : ℕ) (trusted : ℕ → Prop)
    (s s' : Clusters) : Prop where
  follows : FollowsOn d fat root trusted s'.val
  length : s.val.length ≤ s'.val.length

variable {trusted : ℕ → Prop}

theorem Clusters.ExtendsOn.trans {s' s'' : Clusters} (h : s.ExtendsOn d fat root trusted s')
    (h' : s'.ExtendsOn d fat root trusted s'') : s.ExtendsOn d fat root trusted s'' :=
  ⟨h'.follows, h.length.trans h'.length⟩

/-- The loop of `CalcCluster` gets to place `q`, if the chain or the list does. -/
theorem calcClusterLoop_gives {left i cluster : ℕ} (h : FollowsOn d fat root trusted s.val)
    (htrusts : fat.Trusts d root trusted) (hi : i < s.val.length) (hleft : i + left = q)
    (hcluster : cluster = fat.chain d root i) (hgo : fat.GoesOn d root q) (htrusted : trusted q)
    (hq : q < s.val.length ∨ isValidCluster (fat.chain d root q)) :
    Lib.Gives (calcClusterLoop L d fat left i cluster s)
      (fun r => r.1 = fat.chain d root q ∧ q < r.2.val.length ∧ s.ExtendsOn d fat root trusted r.2)
      Fault.OutOfMemory := by
  induction left generalizing i cluster s with
  | zero =>
    obtain rfl : i = q := hleft
    exact .of_ok ⟨hcluster, hi, h, le_rfl⟩
  | succ left ih =>
    have hnext : trusted (i + 1) := htrusts.mono htrusted (by omega)
    rw [calcClusterLoop]
    by_cases hlt : i + 1 < s.val.length
    · -- the list goes on
      rw [h.val (i + 1) hlt hnext]
      exact ih h hlt (by omega) rfl hq
    · rw [List.getElem?_eq_none (Nat.le_of_not_lt hlt)]
      have heq : fat.entry d cluster = fat.chain d root (i + 1) := hcluster ▸ (htrusts i hnext).2
      have hvalid : isValidCluster (fat.chain d root (i + 1)) := by
        rcases Nat.lt_or_ge (i + 1) q with hiq | hiq
        · exact hgo _ hiq
        · obtain rfl : i + 1 = q := by omega
          exact hq.resolve_left hlt
      have hlen : s.val.length = i + 1 := by omega
      rw [fatEntry_eq, Lib.ok_bind, if_pos (heq ▸ hvalid)]
      refine (push_gives s _).bind fun t ht => ?_
      have hfollows : FollowsOn d fat root trusted t.val := by
        rw [ht]
        exact h.push fun _ => by rw [heq, hlen]
      have htlen : t.val.length = i + 2 := by
        rw [ht, List.length_append, hlen]
        rfl
      refine (ih hfollows (by omega) (by omega) heq (.inr ?_)).mono ?_
      · rcases Nat.lt_or_ge (i + 1) q with hiq | hiq
        · exact hq.resolve_left (by omega)
        · obtain rfl : i + 1 = q := by omega
          exact hvalid
      · rintro r ⟨hr, hlen', hext⟩
        exact ⟨hr, hlen', hext.follows, by have := hext.length; omega⟩

/-- **`CalcCluster`** finds the cluster an offset is in, if the chain or the list goes that
far. -/
theorem calcCluster_gives {offset : ℕ} (h : FollowsOn d fat root trusted s.val)
    (htrusts : fat.Trusts d root trusted) (hq : offset / (fat.BPB_SecPerClus * kBlockSize) = q)
    (hgo : fat.GoesOn d root q) (htrusted : trusted q)
    (hend : q < s.val.length ∨ isValidCluster (fat.chain d root q)) :
    Lib.Gives (calcCluster L d fat s offset)
      (fun r => r.1 = fat.chain d root q ∧ q < r.2.val.length ∧ s.ExtendsOn d fat root trusted r.2)
      Fault.OutOfMemory := by
  have hroot := h.val 0 h.pos (htrusts.mono htrusted (Nat.zero_le q))
  rw [calcCluster]
  cases hval : s.val with
  | nil => exact absurd h.pos (by rw [hval]; decide)
  | cons cluster rest =>
    rw [hval] at hroot
    rw [fat.bytsPerSec, hq]
    exact calcClusterLoop_gives h htrusts h.pos (Nat.zero_add q) (Option.some.inj hroot) hgo
      htrusted hend

/-- **`CalcNextCluster`** finds the cluster that follows, unless the node is not one of the
chain. -/
theorem calcNextCluster_gives (h : FollowsOn d fat root trusted s.val) (hp : p < s.val.length)
    (hstep : trusted (p + 1) →
      trusted p ∧ fat.entry d (fat.chain d root p) = fat.chain d root (p + 1)) :
    Lib.Gives (calcNextCluster L d fat s (some p))
      (fun r => (trusted (p + 1) → r.1 = fat.chain d root (p + 1)) ∧
        p + 1 < r.2.val.length ∧ s.ExtendsOn d fat root trusted r.2) Fault.OutOfMemory := by
  rw [calcNextCluster, List.getElem?_eq_getElem hp]
  by_cases hlt : p + 1 < s.val.length
  · rw [List.getElem?_eq_getElem hlt]
    refine .of_ok ⟨fun hgo => ?_, hlt, h, le_rfl⟩
    have hnext := h.val (p + 1) hlt hgo
    rw [List.getElem?_eq_getElem hlt] at hnext
    exact Option.some.inj hnext
  · rw [List.getElem?_eq_none (Nat.le_of_not_lt hlt)]
    have heq : trusted (p + 1) → fat.entry d s.val[p] = fat.chain d root (p + 1) := by
      intro hgo
      obtain ⟨hhere, hentry⟩ := hstep hgo
      have hnode := h.val p hp hhere
      rw [List.getElem?_eq_getElem hp] at hnode
      rw [Option.some.inj hnode, hentry]
    have hlen : s.val.length = p + 1 := by omega
    dsimp only
    rw [fatEntry_eq, Lib.ok_bind]
    refine (push_gives s _).bind fun t ht => .of_ok ⟨heq, ?_, ?_, ?_⟩
    · rw [ht, List.length_append, hlen]
      exact Nat.lt_succ_self _
    · rw [ht]
      exact h.push fun hgo => by rw [hlen] at hgo ⊢; exact heq hgo
    · rw [ht, List.length_append]
      exact Nat.le_add_right _ _

end Fat32Fs

end Evisor
