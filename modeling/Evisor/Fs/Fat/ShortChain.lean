import Evisor.Fs.Fat.ReadBounds

/-!
# A chain that is too short

What `Fat32Fs::Read` does where a file has less clusters than its size says. It should return as
many bytes as its chain holds. But the loop never looks at the clusters it gets to: its condition
is about the one that it starts at. So it returns all that was asked for, or it does not return;
and where it does not start at a cluster, it needs a node that says so, or it follows a null
pointer (`Evisor.Fat32Fs.read_held_iff`).
-/

namespace Evisor

namespace Fat32Fs

variable (L : Layout) (d : Mmc) (fat : Volume)

/-! ### What a chain holds -/

/-- The chain holds byte `k` of the file: it has not ended before. -/
def Volume.InChain (root k : ℕ) : Prop :=
  fat.GoesOn d root (k / (fat.BPB_SecPerClus * kBlockSize) + 1)

/-- **Of the `len` bytes from `offset` on the chain holds `n`.** -/
structure Volume.Holds (root offset len n : ℕ) : Prop where
  le : n ≤ len
  inChain : ∀ k < n, fat.InChain d root (offset + k)
  ends : n < len → ¬fat.InChain d root (offset + n)

/-- **A call has read what the chain holds**, and nothing else. -/
def Volume.Held (root offset len : ℕ) (r : ReadResult) : Prop :=
  ∃ n, fat.Holds d root offset len n ∧ r.ret = n ∧
    r.out = (List.range n).map fun k => fat.fileByte d root (offset + k)

/-- **Where a call can return what the chain holds.** There is a cluster at the offset, and the
chain holds all that is asked for; or there is none, and a node says so. -/
inductive Volume.Whole (root : ℕ) (l : List ℕ) (offset len : ℕ) : Prop where
  | held (located : fat.Located d root l.length (offset / (fat.BPB_SecPerClus * kBlockSize)))
      (inChain : ∀ k < len, fat.InChain d root (offset + k))
  | known (known : fat.EndKnown d root l (offset / (fat.BPB_SecPerClus * kBlockSize)))
      (ends : len = 0 ∨ ¬fat.InChain d root offset)

/-- **A place of the chain that a call goes to**: it is not behind the cluster of the offset, or not
behind one that a pass of the loop goes on to. -/
def Volume.Visited (root offset len i : ℕ) : Prop :=
  fat.GoesOn d root i ∧ (i ≤ offset / (fat.BPB_SecPerClus * kBlockSize) ∨
    ∃ t, fat.Leaves d root (offset + len) offset t ∧
      i ≤ offset / (fat.BPB_SecPerClus * kBlockSize) + t + 1)

/-- **Where `Read` goes right** if the chain holds all that is asked for, on a handle whose list has
`n` clusters. -/
structure Volume.ReadsThrough (root n offset len : ℕ) : Prop where
  /-- `len` is a number of type `int`. -/
  short : len < 2 ^ 31
  /-- The entries that lead to where it goes can be told. -/
  entries : ∀ i, fat.Visited d root offset len (i + 1) → fat.EntryRight d (fat.chain d root i)
  /-- The sectors that the passes of the loop start with are in the first 4 GiB of the card. -/
  inReach : ∀ t, fat.passAt (offset + len) offset t < offset + len →
    InReach (fat.first_lba +
      fat.fileSector d root (fat.passAt (offset + len) offset t / kBlockSize))
  passes : fat.PassesRight d root n offset len

/-- The pages that a call may take: one for each node up to the cluster of the offset, and one for
each sector that it reads from. -/
def Volume.nodesFor (n offset len : ℕ) : ℕ :=
  offset / (fat.BPB_SecPerClus * kBlockSize) + 1 - n +
    (offset % kBlockSize + len + (kBlockSize - 1)) / kBlockSize

variable {L d fat} {s : Clusters} {root size offset len n : ℕ}

/-- What leads to where a call goes can be trusted. -/
theorem Volume.ReadsThrough.trusts (h : fat.ReadsThrough d root n offset len) :
    fat.Trusts d root (fat.Visited d root offset len) := by
  intro i hi
  obtain ⟨hgo, hplace⟩ := hi
  obtain ⟨hhere, hentry⟩ := hgo.step (h.entries i ⟨hgo, hplace⟩)
  refine ⟨⟨hhere, hplace.imp (by omega) ?_⟩, hentry⟩
  rintro ⟨t, hleaves, hle⟩
  exact ⟨t, hleaves, by omega⟩

/-- A call that goes right relies on where it goes. -/
theorem Volume.ReadsThrough.reliesOn (h : fat.ReadsThrough d root n offset len) (hpos : 0 < len)
    (hgo : fat.GoesOn d root (offset / (fat.BPB_SecPerClus * kBlockSize))) :
    ReliesOn d fat root (fat.Visited d root offset len) n offset len where
  short := h.short
  trusts := h.trusts
  start := ⟨hgo, .inl le_rfl⟩
  looks _ := ⟨h.inReach, fun t hleaves hgo => ⟨hgo.mono (Nat.le_succ _), .inr ⟨t, hleaves, le_rfl⟩⟩⟩
  found hzero := absurd hzero hpos.ne'
  passes := h.passes

/-- Where the chain holds all that is asked for, it covers it. -/
theorem covers_of_inChain (hpos : 0 < len) (h : ∀ k < len, fat.InChain d root (offset + k)) :
    fat.Covers d root (offset + len) := by
  have hcs : 0 < fat.BPB_SecPerClus * kBlockSize := Nat.mul_pos fat.secPerClus_pos (by decide)
  intro i hi
  rcases Nat.lt_or_ge offset (i * (fat.BPB_SecPerClus * kBlockSize)) with hlt | hge
  · have hplace := h (i * (fat.BPB_SecPerClus * kBlockSize) - offset) (by omega)
    rw [Nat.add_sub_cancel' hlt.le, Volume.InChain, Nat.mul_div_cancel _ hcs] at hplace
    exact hplace i (Nat.lt_succ_self i)
  · have hplace := h 0 hpos
    refine hplace i (Nat.lt_succ_of_le ?_)
    exact (Nat.le_div_iff_mul_le hcs).mpr hge

/-! ### Pages for the nodes -/

/-- The sectors that what is left lies in. -/
def ReadVars.sectors (v : ReadVars) : ℕ :=
  (v.sector_offset + v.remains + (kBlockSize - 1)) / kBlockSize

variable (L d fat) in
/-- A pass of the loop takes one page at most. -/
theorem readPass_takes (v : ReadVars) :
    Takes v.clusters.heap 1 (fun v' => v'.clusters.heap) (readPass L d fat v) := by
  have htransfer : Takes v.clusters.heap 0 (fun _ => v.clusters.heap) (transfer d fat v) := by
    rw [transfer_eq]
    refine Takes.bind (m := 0) (n := 0) (p := fun _ => v.clusters.heap) ?_ fun _ _ => .of_ok rfl
    rw [readSector]
    split_ifs
    · exact .of_ok rfl
    · exact .of_error not_outOfMemory_outOfBounds
    · exact .of_ok rfl
  refine Takes.bind (n := 1) htransfer fun r _ => ?_
  refine Takes.bind (m := 0) (n := 1) (p := fun _ => v.clusters.heap) ?_ fun byte _ => ?_
  · rcases r.1 with - | buf
    · exact .of_error not_outOfMemory_nullDeref
    · rw [readBuf]
      split_ifs
      · exact .of_ok rfl
      · exact .of_error not_outOfMemory_outOfBounds
  · refine Takes.bind (n := 0) (calcNextSector_takes L d fat v.clusters _ _) fun next _ => ?_
    refine Takes.bind (m := 0) (n := 0) (p := fun _ => next.2.heap) ?_ fun _ _ => .of_ok rfl
    cases v.cluster_list with
    | none => exact .of_error not_outOfMemory_nullDeref
    | some p => exact .of_ok rfl

/-- **It gets to another sector**, unless the number of bytes to be copied wraps. -/
theorem sectors_lt {v v' : ReadVars} (hpass : readPass L d fat v = .ok v')
    (hwithin : v.sector_offset < kBlockSize) (hpos : 0 < v.remains)
    (hword : v.remains + 384 < 2 ^ 32) : v'.sectors + 1 ≤ v.sectors := by
  obtain ⟨hrem, hoffset, -⟩ := readPass_ok hpass
  have hcopy : min v.remains (kBlockSize - v.sector_offset) ≤ (v.access fat).copy_len := by
    dsimp only [ReadVars.access]
    split
    · exact le_rfl
    · obtain ⟨hle, hge⟩ := readSectors_near (n := v.remains) (by omega)
      have hmany : ¬(0 < v.sector_offset ∨ v.remains ≤ kBlockSize ∨ fat.BPB_SecPerClus = 1) := ‹_›
      rw [Nat.mod_eq_of_lt (by omega)]
      rw [kBlockSize] at *
      omega
  rw [ReadVars.sectors, ReadVars.sectors, hrem, hoffset]
  rw [kBlockSize] at *
  omega

/-- **The loop takes one for each sector.** -/
theorem readLoop_wants {cluster fuel : ℕ} {v : ReadVars} {f : Fault}
    (hwithin : v.sector_offset < kBlockSize) (hword : v.remains + 384 < 2 ^ 32)
    (h : readLoop L d fat cluster fuel v = .error f) (hf : f.OutOfMemory) :
    freePages v.clusters.heap < v.sectors := by
  induction fuel generalizing v with
  | zero =>
    rw [readLoop] at h
    split_ifs at h
    obtain rfl := Except.error.inj h
    rcases hf with hf | hf <;> cases hf
  | succ fuel ih =>
    rw [readLoop] at h
    split_ifs at h with hgo
    have htakes := readPass_takes L d fat v
    cases hpass : readPass L d fat v with
    | error g =>
      rw [hpass] at h
      obtain rfl := Except.error.inj h
      have hnone := htakes.error _ hpass hf
      have hsome : 0 < v.sectors := Nat.div_pos (by rw [kBlockSize]; omega) (by decide)
      omega
    | ok v' =>
      rw [hpass, Lib.ok_bind] at h
      have hle : freePages v.clusters.heap ≤ freePages v'.clusters.heap + 1 := htakes.ok v' hpass
      obtain ⟨hrem, hoffset, -⟩ := readPass_ok hpass
      have hrest := ih (by rw [hoffset]; decide) (by omega) h
      have hlt := sectors_lt hpass hwithin hgo.1 hword
      omega

/-- **A call that stops for want of a page** has taken all that it may. -/
theorem read_wants (h : Walked d fat root s.val) (hin : offset + len ≤ size)
    (hsize : size < 2 ^ 32) (hlen : len + 384 < 2 ^ 32) {f : Fault}
    (hr : read L d fat size s offset len = .error f) (hf : f.OutOfMemory) :
    WantsPage s.heap (fat.nodesFor s.val.length offset len) f := by
  refine ⟨hf, ?_⟩
  have hremains :
      (min ((offset + len % 2 ^ 32) % 2 ^ 32) size + 2 ^ 32 - offset) % 2 ^ 32 = len := by omega
  have htakes := readStart_takes L d fat size offset len s
  rw [read_eq (by omega)] at hr
  rw [Volume.nodesFor]
  cases hs : readStart L d fat size s offset len with
  | error g =>
    rw [hs] at hr
    obtain rfl := Except.error.inj hr
    have hfew : freePages s.heap <
        offset / (fat.BPB_SecPerClus * kBlockSize) + 1 - s.val.length := htakes.error _ hs hf
    exact hfew.trans_le (Nat.le_add_right ..)
  | ok start =>
    rw [hs, Lib.ok_bind] at hr
    have hst := (readStart_gives L offset size len h).ok start hs
    rw [hremains] at hst
    have hle : freePages s.heap ≤ freePages start.2.clusters.heap +
        (offset / (fat.BPB_SecPerClus * kBlockSize) + 1 - s.val.length) := htakes.ok start hs
    cases hloop : readLoop L d fat start.1 start.2.remains start.2 with
    | ok v =>
      rw [hloop] at hr
      cases hr
    | error g =>
      rw [hloop] at hr
      obtain rfl := Except.error.inj hr
      have hwithin : start.2.sector_offset < kBlockSize :=
        hst.within ▸ Nat.mod_lt _ (by decide)
      have hwants := readLoop_wants hwithin (by rw [hst.remains]; exact hlen) hloop hf
      rw [ReadVars.sectors, hst.within, hst.remains] at hwants
      omega

/-! ### A call -/

/-- Behind what is asked for, the size of the file does not matter. -/
theorem read_size (hin : offset + len ≤ size) (hsize : size < 2 ^ 32) :
    read L d fat size s offset len = read L d fat (offset + len) s offset len := by
  have htail : min ((offset + len % 2 ^ 32) % 2 ^ 32) size =
      min ((offset + len % 2 ^ 32) % 2 ^ 32) (offset + len) := by omega
  rw [read, read, if_neg (by omega), if_neg (by omega)]
  dsimp only
  rw [htail]

/-- **Nothing is asked for**, and there is a cluster. -/
theorem read_nothing (h : Walked d fat root s.val) (hin : offset ≤ size) (hsize : size < 2 ^ 32)
    (hloc : fat.Located d root s.val.length (offset / (fat.BPB_SecPerClus * kBlockSize))) :
    Lib.Gives (read L d fat size s offset 0) (fun r => r.ret = 0 ∧ r.out = [])
      Fault.OutOfMemory := by
  have hstart := readStart_gives L offset size 0 h
  rw [read_eq (by omega)]
  refine Lib.Gives.bind ⟨hstart.ok, fun f hf => ?_⟩ fun start hst => ?_
  · rcases hstart.error f hf with hpanic | ⟨-, hnot, -⟩
    · exact hpanic
    · exact absurd hloc hnot
  · have hzero : start.2.remains = 0 := by
      rw [hst.remains]
      omega
    rw [hzero, readLoop, if_neg (by omega), Lib.ok_bind, Lib.pure_eq_ok, hst.remains, hst.out,
      ret_idle _ (by omega)]
    exact .of_ok ⟨rfl, rfl⟩

/-- **A call that returns what the chain holds** is made where it can. -/
theorem whole_of_read (h : Walked d fat root s.val) (hin : offset + len ≤ size)
    (hsize : size < 2 ^ 32) {r : ReadResult} (hr : read L d fat size s offset len = .ok r)
    (hn : fat.Holds d root offset len n) (hret : r.ret = n) :
    fat.Whole d root s.val offset len := by
  rcases read_ok h (by omega) hr with ⟨hloc, hlen, -⟩ | hend
  · have htail : min ((offset + len % 2 ^ 32) % 2 ^ 32) size = offset + len := by omega
    rw [htail] at hlen
    refine .held hloc ?_
    rcases Nat.lt_or_ge len (2 ^ 31) with hlt | hge
    · rw [ret_eq offset hlt, hret, Nat.cast_inj] at hlen
      exact fun k hk => hn.inChain k (hlen ▸ hk)
    · -- a number of type `int` is negative
      have hword : BitVec.ofNat 32 (offset + len) - BitVec.ofNat 32 offset - BitVec.ofNat 32 0 =
          BitVec.ofNat 32 len := by
        rw [BitVec.ofNat_add, BitVec.add_comm, BitVec.add_sub_cancel]
        exact BitVec.sub_zero _
      rw [hword, BitVec.toInt_eq_toNat_bmod, BitVec.toNat_ofNat, Nat.mod_eq_of_lt (by omega),
        Int.bmod_def] at hlen
      omega
  · obtain ⟨hzero, -⟩ := (read_of_endKnown h (by omega) (by omega) hend).ok r hr
    have hn0 : n = 0 := by omega
    refine .known hend ?_
    rcases Nat.eq_zero_or_pos len with hlen | hlen
    · exact .inl hlen
    · exact .inr (by simpa only [hn0, Nat.add_zero] using hn.ends (hn0 ▸ hlen))

/-- **Where it can, a call does so**, if it goes right where the chain holds everything. -/
theorem readsHeld_of_whole (h : Walked d fat root s.val) (hin : offset + len ≤ size)
    (hsize : size < 2 ^ 32)
    (hthrough : 0 < len → (∀ k < len, fat.InChain d root (offset + k)) →
      fat.ReadsThrough d root s.val.length offset len)
    (hwhole : fat.Whole d root s.val offset len) :
    Lib.Gives (read L d fat size s offset len) (fat.Held d root offset len)
      (WantsPage s.heap (fat.nodesFor s.val.length offset len)) := by
  rcases hwhole with ⟨hloc, hall⟩ | ⟨hend, hends⟩
  · have hheld : fat.Holds d root offset len len :=
      ⟨le_rfl, hall, fun hlt => absurd hlt (lt_irrefl _)⟩
    rcases Nat.eq_zero_or_pos len with rfl | hpos
    · have hgives := read_nothing (L := L) h hin hsize hloc
      refine ⟨fun r hr => ⟨0, hheld, hgives.ok r hr⟩, fun f hf => ?_⟩
      exact read_wants h hin hsize (by decide) hf (hgives.error f hf)
    · have hright := hthrough hpos hall
      have hcovers := covers_of_inChain hpos hall
      have hgives := read_gives (L := L) (h.followsOn hright.trusts) hcovers le_rfl (by omega)
        (hright.reliesOn hpos (hcovers.goesOn (Nat.le_add_right ..)))
      rw [← read_size hin hsize] at hgives
      refine ⟨fun r hr => ?_, fun f hf => ?_⟩
      · obtain ⟨hret, hout, -⟩ := hgives.ok r hr
        exact ⟨len, hheld, hret, hout⟩
      · have hshort := hright.short
        exact read_wants h hin hsize (by omega) hf (hgives.error f hf)
  · have hgives : Lib.Gives (read L d fat size s offset len) (fun r => r.ret = 0 ∧ r.out = []) _ :=
      read_of_endKnown h (by omega) (by omega) hend
    refine ⟨fun r hr => ⟨0, ⟨Nat.zero_le _, fun k hk => absurd hk (Nat.not_lt_zero k), ?_⟩,
      hgives.ok r hr⟩, fun f hf => ?_⟩
    · exact fun hpos => hends.resolve_left hpos.ne'
    · obtain ⟨hpanic, hfew⟩ := hgives.error f hf
      exact ⟨hpanic, hfew.trans_le (Nat.le_add_right ..)⟩

/-- **`Read` returns what the chain holds exactly where it can**, after any calls on the handle: if
there is a cluster at the offset and the chain holds all that is asked for, or if there is none and
a node says so. Elsewhere it does not return that number, or does not return. This is said of a
call that goes right where the chain holds everything; and it may stop, if there are fewer pages
than it takes for the nodes of the list. -/
theorem read_held_iff (L : Layout) (d : Mmc) (fat : Volume) {heap : HeapMap} {root size : ℕ}
    (hsize : size < 2 ^ 32) {calls : List (ℕ × ℕ)} {s : ReadState}
    (hs : Lib.runFrom (readStep L d fat size) ⟨⟨[root], heap⟩, none⟩ calls = .ok s)
    {offset len : ℕ} (hin : offset + len ≤ size) :
    ((∃ r n, read L d fat size s.clusters offset len = .ok r ∧ fat.Holds d root offset len n ∧
        r.ret = n) → fat.Whole d root s.clusters.val offset len) ∧
    ((0 < len → (∀ k < len, fat.InChain d root (offset + k)) →
        fat.ReadsThrough d root s.clusters.val.length offset len) →
      fat.Whole d root s.clusters.val offset len →
      Lib.Gives (read L d fat size s.clusters offset len) (fat.Held d root offset len)
        (WantsPage s.clusters.heap (fat.nodesFor s.clusters.val.length offset len))) := by
  have hw := walked_of_run hs
  refine ⟨?_, fun hthrough hwhole => readsHeld_of_whole hw hin hsize hthrough hwhole⟩
  rintro ⟨r, n, hr, hn, hret⟩
  exact whole_of_read hw hin hsize hr hn hret

/-! ### A file with one cluster too few -/

/-- A card with a file of 8192 bytes that has one cluster. -/
def Mmc.shortFile : Mmc :=
  .ofList (format 8 32 ++ endOfChain 2 ++ endOfChain 3 ++
    entryAt (512 * 6176) ['K', 'E', 'R', 'N', 'E', 'L', '0', '1', 'B', 'I', 'N'] 3 8192)

theorem accepted_shortFile : Accepted .shortFile .eightSectors :=
  ⟨.qemu, fun _ => false, _, rfl, _, rfl, [2], .head _⟩

/-- The end of the chain, once it has been read. -/
theorem known_shortFile : Volume.eightSectors.EndKnown .shortFile 3 [3, 0xfffffff] 1 :=
  .inl ⟨by decide, by decide +kernel⟩

theorem not_inChain_shortFile : ¬Volume.eightSectors.InChain .shortFile 3 4096 := by
  intro h
  exact absurd (h 1 (by decide)) (by decide +kernel)

/-- A card on which cluster 3 is followed by one whose entry is behind the first 4 GiB. -/
def Mmc.farEntry : Mmc :=
  .ofList (bootSector (kBlockSize * 0x700000) 8 32 ++
    bytesAt (kBlockSize * 0x700020 + 3 * 4) [0xf0, 0xff, 0xff, 0x0f])

/-- Its volume. -/
def Volume.farEntry : Volume := { Volume.eightSectors with
  first_lba := 0x700000
  first_lba_lt := by decide }

/-- To read the first sector, that entry does not matter. -/
theorem readsThrough_farEntry : Volume.farEntry.ReadsThrough .farEntry 3 1 0 512 where
  short := by decide
  entries := by
    rintro i ⟨-, hle | ⟨t, ⟨-, hmore⟩, -⟩⟩
    · exact absurd hle (Nat.not_succ_le_zero i)
    · -- there is one pass
      exact absurd ((le_passAt (0 + 512) 512 t).trans_lt hmore) (lt_irrefl 512)
  inReach t ht := by
    have hfirst : Volume.farEntry.passAt (0 + 512) 0 t / kBlockSize = 0 := Nat.div_eq_of_lt ht
    rw [hfirst]
    exact (by decide : 0x700000 + 4136 < 2 ^ 23)
  passes := .inr (.inl (by decide))

/-- When the last sector of the cluster has been read, a node says that no cluster follows, and
nothing is returned from there on; where one does, the first sector can be read, whatever the entry
of the next cluster is. -/
theorem read_held_iff_known :
    (∃ s, Lib.runFrom (readStep .qemu .shortFile .eightSectors 8192)
        ⟨⟨[3], fun _ => false⟩, none⟩ [(3584, 512)] = .ok s ∧
      Lib.Gives (read .qemu .shortFile .eightSectors 8192 s.clusters 4096 512)
        (Volume.eightSectors.Held .shortFile 3 4096 512)
        (WantsPage s.clusters.heap
          (Volume.eightSectors.nodesFor s.clusters.val.length 4096 512))) ∧
    Lib.Gives (read .qemu .farEntry .farEntry 8192 ⟨[3], fun _ => false⟩ 0 512)
      (Volume.farEntry.Held .farEntry 3 0 512)
      (WantsPage (fun _ => false) (Volume.farEntry.nodesFor 1 0 512)) := by
  constructor
  · obtain ⟨s, hs, hval⟩ : ∃ s,
        Lib.runFrom (readStep .qemu .shortFile .eightSectors 8192)
          ⟨⟨[3], fun _ => false⟩, none⟩ [(3584, 512)] = .ok s ∧ s.clusters.val = [3, 0xfffffff] :=
      Lib.exists_ok_of_any (by decide +kernel)
    have hnone : ¬Volume.eightSectors.InChain .shortFile 3 (4096 + 0) := not_inChain_shortFile
    refine ⟨s, hs, (read_held_iff .qemu .shortFile .eightSectors (by decide) hs (by decide)).2
      (fun _ hall => absurd (hall 0 (by decide)) hnone) (.known ?_ (.inr hnone))⟩
    rw [hval]
    exact known_shortFile
  · have hfresh : Lib.runFrom (readStep .qemu .farEntry .farEntry 8192)
        ⟨⟨[3], fun _ => false⟩, none⟩ [] = .ok ⟨⟨[3], fun _ => false⟩, none⟩ := rfl
    refine (read_held_iff .qemu .farEntry .farEntry (by decide) hfresh (by decide)).2
      (fun _ _ => readsThrough_farEntry) (.held ⟨fun j hj hle => ?_, ?_⟩ fun k hk i hi => ?_)
    · exact absurd (hj.trans hle) (by decide)
    · decide
    · have hzero : k / (8 * 512) = 0 := Nat.div_eq_of_lt (by omega)
      have hplace : i < (0 + k) / (8 * 512) + 1 := hi
      obtain rfl : i = 0 := by omega
      decide

/-- **A null pointer is followed** when the file is read behind the end of its chain. -/
theorem read_behind_chain : ¬∀ (L : Layout) (d : Mmc) (fat : Volume), Accepted d fat →
    ∀ (heap : HeapMap) (root size : ℕ), size < 2 ^ 32 → ∀ (calls : List (ℕ × ℕ)) (s : ReadState),
      Lib.runFrom (readStep L d fat size) ⟨⟨[root], heap⟩, none⟩ calls = .ok s →
      ∀ offset len, offset + len ≤ size →
        ∃ r n, read L d fat size s.clusters offset len = .ok r ∧
          fat.Holds d root offset len n ∧ r.ret = n := by
  intro h
  obtain ⟨r, n, hr, -⟩ := h .qemu .shortFile .eightSectors accepted_shortFile (fun _ => false) 3
    8192 (by decide) [] _ rfl 4096 512 (by decide)
  have hnull : read .qemu .shortFile .eightSectors 8192 ⟨[3], fun _ => false⟩ 4096 512 =
      .error .nullDeref := rfl
  rw [hnull] at hr
  cases hr

end Fat32Fs

end Evisor
