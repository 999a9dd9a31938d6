import Evisor.Fs.Fat.Room
import Evisor.Fs.Fat.Walk

/-!
# What `Read` transfers and copies

The loop of `Fat32Fs::Read` computes three lengths apart from each other: how many sectors it
transfers into a page, how many bytes it copies from there, and how many are left. The number of
sectors is what is left, as a `float`, but never more than `BPB_SecPerClus - sector`; the number
of bytes is not made smaller with it, and neither number knows of the size of a page.

So the one transfer of several sectors that a call may make is right only if all of them fit a
page and are not cut short (`Evisor.Fat32Fs.Volume.Fits`). And the sum of `offset` and `len` is
one of 64 bits, behind which the file goes on as if nothing were (`Evisor.Fat32Fs.read_safe_iff`).
-/

namespace Evisor

namespace Fat32Fs

variable (L : Layout) (d : Mmc) (fat : Volume)

/-! ### Accesses -/

/-- What one pass of the loop does: the sectors that are transferred into a page, and the bytes
that are copied from there. -/
structure Access where
  lba : ℕ
  sector_num : ℕ
  offset : ℕ
  copy_len : ℕ

/-- The transfer fits the page, and nothing else is copied. -/
def Access.Sound (a : Access) : Prop :=
  kBlockSize * a.sector_num ≤ PAGE_SIZE ∧ a.offset + a.copy_len ≤ kBlockSize * a.sector_num

/-- A pass that transfers one sector. -/
def ReadVars.Single (v : ReadVars) : Prop :=
  0 < v.sector_offset ∨ v.remains ≤ kBlockSize ∨ fat.BPB_SecPerClus = 1

instance (v : ReadVars) : Decidable (v.Single fat) := inferInstanceAs (Decidable (_ ∨ _))

/-- What a pass of the loop does. -/
def ReadVars.access (v : ReadVars) : Access where
  lba := (fat.first_lba + v.sector) % 2 ^ 32
  sector_num :=
    if v.Single fat then 1
    else min (readSectors v.remains) ((fat.BPB_SecPerClus + 2 ^ 32 - v.sector) % 2 ^ 32)
  offset := v.sector_offset
  copy_len :=
    if v.Single fat then min v.remains (kBlockSize - v.sector_offset)
    else min v.remains (kBlockSize * readSectors v.remains % 2 ^ 32)

/-- What the loop does, up to where it ends or fails, with the passes it may still make. -/
def accesses (cluster : ℕ) : ℕ → ReadVars → List Access
  | 0, _ => []
  | fuel + 1, v =>
    if 0 < v.remains ∧ isValidCluster cluster then
      v.access fat :: match readPass L d fat v with
        | .ok v => accesses cluster fuel v
        | .error _ => []
    else []

/-- What a call of `Read` does. -/
def readAccesses (size : ℕ) (s : Clusters) (offset len : ℕ) : List Access :=
  if size < (offset + len) % 2 ^ 64 then []
  else match readStart L d fat size s offset len with
    | .ok start => accesses L d fat start.1 start.2.remains start.2
    | .error _ => []

/-- **What a call should keep to.** One that asks for more than there is does nothing; if its sum is
taken for less than it is, it may stop, for want of pages for the nodes up to the cluster of the
offset. Of one that does not, each transfer fits the page it is made into, only what has been
transferred is copied, and no more than was asked for. -/
structure ReadSafe (size : ℕ) (s : Clusters) (offset len : ℕ) : Prop where
  refused : size < offset + len → offset + len < 2 ^ 64 →
    ∃ r, read L d fat size s offset len = .ok r ∧ r.ret = 0 ∧ r.out = []
  wrapped : 2 ^ 64 ≤ offset + len →
    Lib.Gives (read L d fat size s offset len) (fun r => r.ret = 0 ∧ r.out = [])
      (WantsPage s.heap (offset / (fat.BPB_SecPerClus * kBlockSize) + 1 - s.val.length))
  bounds : offset + len ≤ size → ∀ a ∈ readAccesses L d fat size s offset len, a.Sound
  total : offset + len ≤ size →
    ((readAccesses L d fat size s offset len).map Access.copy_len).sum ≤ len

/-! ### Where it does -/

/-- **To read this much from a sector on is safe**: clusters have one sector, there is no more
than one to be read, or they fit a page, and are not cut short. -/
def Volume.Fits (sector rest : ℕ) : Prop :=
  fat.BPB_SecPerClus = 1 ∨ rest ≤ kBlockSize ∨ kBlockSize * readSectors rest ≤ PAGE_SIZE ∧
    readSectors rest ≤ (fat.BPB_SecPerClus + 2 ^ 32 - sector) % 2 ^ 32

/-- What is asked for is safe: it starts with a sector, or, behind the rest of the one that it
starts in, what is left does. -/
def Volume.ReadFits (root offset len : ℕ) : Prop :=
  let q := offset / (fat.BPB_SecPerClus * kBlockSize)
  let sector := calcSector fat (fat.walk d root q) offset
  if offset % kBlockSize = 0 then fat.Fits sector len
  else fat.Fits (fat.nextSector sector (fat.walk d root (q + 1)))
    (offset % kBlockSize + len - kBlockSize)

/-- **Where a call keeps to what it should.** If `offset + len` is more than there is but, as a
number of 64 bits, is not, a node has to say that there is no cluster; and if it is not more, what
is asked for has to be safe, if there is a cluster. -/
structure Volume.ReadBounded (root size : ℕ) (l : List ℕ) (offset len : ℕ) : Prop where
  wrapped : 2 ^ 64 ≤ offset + len → offset + len ≤ 2 ^ 64 + size →
    fat.EndKnown d root l (offset / (fat.BPB_SecPerClus * kBlockSize))
  fits : offset + len ≤ size →
    fat.Located d root l.length (offset / (fat.BPB_SecPerClus * kBlockSize)) →
    fat.ReadFits d root offset len

variable {L d fat} {cluster fuel : ℕ} {v v' : ReadVars}

/-! ### A pass -/

theorem transfer_eq (v : ReadVars) : transfer d fat v = (do
    let buf ← readSector d (v.access fat).lba (v.access fat).sector_num
    return (buf, (v.access fat).copy_len)) := by
  rw [transfer]
  dsimp only [ReadVars.access]
  by_cases hsingle : v.Single fat
  · rw [if_pos hsingle, if_pos hsingle]
    exact if_pos hsingle
  · rw [if_neg hsingle, if_neg hsingle]
    exact if_neg hsingle

/-- What is copied was left. -/
theorem copy_len_le (v : ReadVars) : (v.access fat).copy_len ≤ v.remains := by
  dsimp only [ReadVars.access]
  split
  · exact Nat.min_le_left _ _
  · exact Nat.min_le_left _ _

/-- **What a pass leaves.** -/
theorem readPass_ok (h : readPass L d fat v = .ok v') :
    v'.remains = v.remains - (v.access fat).copy_len ∧ v'.sector_offset = 0 ∧
      v'.out.length = v.out.length + (v.access fat).copy_len := by
  rw [readPass, transfer_eq] at h
  obtain ⟨⟨buf, copy_len⟩, ht, h⟩ := Lib.bind_eq_ok.mp h
  obtain ⟨buf', -, ht⟩ := Lib.bind_eq_ok.mp ht
  obtain ⟨rfl, rfl⟩ := Prod.mk.inj (Except.ok.inj ht)
  obtain ⟨byte, -, h⟩ := Lib.bind_eq_ok.mp h
  obtain ⟨⟨sector, clusters⟩, -, h⟩ := Lib.bind_eq_ok.mp h
  obtain ⟨node, -, h⟩ := Lib.bind_eq_ok.mp h
  obtain rfl := Except.ok.inj h
  refine ⟨rfl, rfl, ?_⟩
  rw [List.length_append, List.length_map, List.length_range]

/-- **One sector** is transferred, and the loop goes on to the next. -/
theorem readPass_single {root p : ℕ} (hsingle : v.Single fat)
    (hlt : v.sector_offset < kBlockSize) (hw : Walked d fat root v.clusters.val)
    (hnode : v.cluster_list = some p) (hp : p < v.clusters.val.length) :
    Lib.Gives (readPass L d fat v)
      (fun v' => v'.sector = fat.nextSector v.sector (fat.walk d root (p + 1)))
      Fault.OutOfMemory := by
  obtain ⟨buf, hread, -⟩ := readSector_one d (v.access fat).lba
  have hone : (v.access fat).sector_num = 1 := if_pos hsingle
  have hcopy : (v.access fat).copy_len = min v.remains (kBlockSize - v.sector_offset) :=
    if_pos hsingle
  have hpage : v.sector_offset + (v.access fat).copy_len ≤ PAGE_SIZE := by
    rw [hcopy]
    exact (by omega : _ ≤ kBlockSize).trans (by decide)
  rw [readPass, transfer_eq, hone, hread, Lib.ok_bind, Lib.pure_eq_ok, Lib.ok_bind]
  dsimp only
  rw [readBuf, if_pos hpage, Lib.ok_bind, hnode]
  refine (calcNextSector_walks hw hp).bind ?_
  rintro ⟨sector, clusters⟩ ⟨hsector, -, -⟩
  exact .of_ok hsector

/-! ### Accesses that are sound -/

/-- One sector is always sound. -/
theorem sound_of_single (hsingle : v.Single fat) (hlt : v.sector_offset < kBlockSize) :
    (v.access fat).Sound := by
  have hone : (v.access fat).sector_num = 1 := if_pos hsingle
  have hcopy : (v.access fat).copy_len = min v.remains (kBlockSize - v.sector_offset) :=
    if_pos hsingle
  have hoffset : (v.access fat).offset = v.sector_offset := rfl
  rw [Access.Sound, hone, hcopy, hoffset, Nat.mul_one]
  exact ⟨by decide, by omega⟩

/-- **Several sectors** are sound where they fit, and leave less than one. -/
theorem sound_of_fits (hsingle : ¬v.Single fat) (hfits : fat.Fits v.sector v.remains) :
    (v.access fat).Sound ∧ v.remains - (v.access fat).copy_len ≤ kBlockSize := by
  rw [ReadVars.Single, not_or, not_or] at hsingle
  obtain ⟨hzero, hmany, hone⟩ := hsingle
  obtain ⟨hpage, huncut⟩ := (hfits.resolve_left hone).resolve_left hmany
  have hnot : ¬v.Single fat := by
    rintro (h | h | h)
    exacts [hzero h, hmany h, hone h]
  have hcount := readSectors_of_fits hpage
  have hnum : (v.access fat).sector_num = readSectors v.remains :=
    (if_neg hnot).trans (Nat.min_eq_left huncut)
  have hcopy : (v.access fat).copy_len = min v.remains (kBlockSize * readSectors v.remains) := by
    refine (if_neg hnot).trans (congrArg _ (Nat.mod_eq_of_lt (hpage.trans_lt (by decide))))
  have hoffset : (v.access fat).offset = v.sector_offset := rfl
  rw [Access.Sound, hnum, hcopy, hoffset]
  refine ⟨⟨hpage, by omega⟩, ?_⟩
  rw [hcount, kBlockSize]
  omega

/-- **They are not sound where they do not**: the page is too small, or less is transferred than
is copied. -/
theorem not_sound_of_not_fits (hzero : v.sector_offset = 0)
    (hfits : ¬fat.Fits v.sector v.remains) (hlt : v.remains + 384 < 2 ^ 32) :
    ¬(v.access fat).Sound := by
  rw [Volume.Fits, not_or, not_or] at hfits
  obtain ⟨hone, hmany, hcut⟩ := hfits
  have hnot : ¬v.Single fat := by
    rintro (h | h | h)
    exacts [absurd hzero h.ne', hmany h, hone h]
  obtain ⟨hle, hge⟩ := readSectors_near (n := v.remains) (by omega)
  have hnum : (v.access fat).sector_num = min (readSectors v.remains)
      ((fat.BPB_SecPerClus + 2 ^ 32 - v.sector) % 2 ^ 32) := if_neg hnot
  have hcopy : (v.access fat).copy_len = min v.remains (kBlockSize * readSectors v.remains) :=
    (if_neg hnot).trans (congrArg _ (Nat.mod_eq_of_lt (by omega)))
  have hoffset : (v.access fat).offset = 0 := hzero
  rw [Access.Sound, hnum, hcopy, hoffset]
  rintro ⟨hpage, hwithin⟩
  -- less is transferred than is copied, or all of it into one page
  rcases Nat.lt_or_ge ((fat.BPB_SecPerClus + 2 ^ 32 - v.sector) % 2 ^ 32)
    (readSectors v.remains) with hshort | hshort
  · rw [Nat.min_eq_right hshort.le] at hwithin
    rw [kBlockSize] at *
    omega
  · rw [Nat.min_eq_left hshort] at hpage
    exact hcut ⟨hpage, hshort⟩

/-! ### The loop -/

theorem accesses_of_not (hend : ¬(0 < v.remains ∧ isValidCluster cluster)) :
    accesses L d fat cluster fuel v = [] := by
  cases fuel with
  | zero => rfl
  | succ fuel => rw [accesses, if_neg hend]

/-- An access of the loop is that of the first pass, or of a later one. -/
theorem mem_accesses {a : Access} (ha : a ∈ accesses L d fat cluster (fuel + 1) v) :
    a = v.access fat ∨
      ∃ v', readPass L d fat v = .ok v' ∧ a ∈ accesses L d fat cluster fuel v' := by
  rw [accesses] at ha
  split at ha
  · rcases List.mem_cons.mp ha with rfl | ha
    · exact .inl rfl
    · cases hpass : readPass L d fat v with
      | error f =>
        rw [hpass] at ha
        cases ha
      | ok v' =>
        rw [hpass] at ha
        exact .inr ⟨v', rfl, ha⟩
  · cases ha

/-- The first pass of the loop. -/
theorem access_mem (hrem : 0 < v.remains) (hcluster : isValidCluster cluster) :
    v.access fat ∈ accesses L d fat cluster (fuel + 1) v := by
  rw [accesses, if_pos ⟨hrem, hcluster⟩]
  exact List.mem_cons_self

/-- The passes behind the first. -/
theorem mem_accesses_succ (hrem : 0 < v.remains) (hcluster : isValidCluster cluster)
    (hpass : readPass L d fat v = .ok v') {a : Access}
    (ha : a ∈ accesses L d fat cluster fuel v') : a ∈ accesses L d fat cluster (fuel + 1) v := by
  rw [accesses, if_pos ⟨hrem, hcluster⟩, hpass]
  exact List.mem_cons_of_mem _ ha

/-- **No more is copied than is left.** -/
theorem accesses_sum (cluster fuel : ℕ) (v : ReadVars) :
    ((accesses L d fat cluster fuel v).map Access.copy_len).sum ≤ v.remains := by
  induction fuel generalizing v with
  | zero => exact Nat.zero_le _
  | succ fuel ih =>
    rw [accesses]
    split
    · have hle : (v.access fat).copy_len ≤ v.remains := copy_len_le v
      rw [List.map_cons, List.sum_cons]
      cases hpass : readPass L d fat v with
      | error f => exact hle
      | ok v' =>
        have hrest := ih v'
        have hremains := (readPass_ok hpass).1
        dsimp only
        omega
    · exact Nat.zero_le _

/-- Passes that transfer one sector each are sound. -/
theorem accesses_single (hsingle : fat.BPB_SecPerClus = 1 ∨ v.remains ≤ kBlockSize)
    (hlt : v.sector_offset < kBlockSize) : ∀ a ∈ accesses L d fat cluster fuel v, a.Sound := by
  induction fuel generalizing v with
  | zero => exact fun a ha => (by cases ha)
  | succ fuel ih =>
    intro a ha
    rcases mem_accesses ha with rfl | ⟨v', hpass, ha⟩
    · exact sound_of_single (.inr hsingle.symm) hlt
    · obtain ⟨hrem, hzero, -⟩ := readPass_ok hpass
      exact ih (hsingle.imp id fun hle => by omega) (by rw [hzero]; decide) a ha

/-- **Passes that start with a sector** are sound where what is left fits. -/
theorem accesses_fits (hzero : v.sector_offset = 0) (hfits : fat.Fits v.sector v.remains) :
    ∀ a ∈ accesses L d fat cluster fuel v, a.Sound := by
  by_cases hsingle : v.Single fat
  · refine accesses_single ?_ (by rw [hzero]; decide)
    exact (hsingle.resolve_left (by omega)).symm
  · obtain ⟨hsound, hrest⟩ := sound_of_fits hsingle hfits
    cases fuel with
    | zero => exact fun a ha => (by cases ha)
    | succ fuel =>
      intro a ha
      rcases mem_accesses ha with rfl | ⟨v', hpass, ha⟩
      · exact hsound
      · obtain ⟨hrem, hnext, -⟩ := readPass_ok hpass
        -- behind several sectors there is at most one left
        exact accesses_single (.inr (hrem ▸ hrest)) (by rw [hnext]; decide) a ha

/-- **A loop that comes to its end** has copied all that was left. -/
theorem readLoop_ok (hcluster : isValidCluster cluster)
    (h : readLoop L d fat cluster fuel v = .ok v') :
    v'.remains = 0 ∧ v'.out.length = v.out.length + v.remains := by
  induction fuel generalizing v with
  | zero =>
    rw [readLoop] at h
    split at h
    · cases h
    case isFalse hend =>
      obtain rfl := Except.ok.inj h
      have hzero : v.remains = 0 :=
        Nat.eq_zero_of_not_pos fun hpos => hend ⟨hpos, hcluster⟩
      exact ⟨hzero, by rw [hzero, Nat.add_zero]⟩
  | succ fuel ih =>
    by_cases hpos : 0 < v.remains
    · rw [readLoop_pass hpos hcluster] at h
      obtain ⟨u, hpass, h⟩ := Lib.bind_eq_ok.mp h
      obtain ⟨hrem, -, hout⟩ := readPass_ok hpass
      have hle : (v.access fat).copy_len ≤ v.remains := copy_len_le v
      obtain ⟨hzero, hlength⟩ := ih h
      exact ⟨hzero, by omega⟩
    · rw [readLoop, if_neg fun hgo => hpos hgo.1] at h
      obtain rfl := Except.ok.inj h
      exact ⟨by omega, by omega⟩

/-! ### A call -/

section Call

variable {s : Clusters} {root size offset len : ℕ}

/-- What is returned when nothing has been read. -/
theorem ret_idle (tail : ℕ) (hoffset : offset < 2 ^ 32) :
    (BitVec.ofNat 32 tail - BitVec.ofNat 32 offset -
      BitVec.ofNat 32 ((tail + 2 ^ 32 - offset) % 2 ^ 32)).toInt = 0 := by
  have hsame : BitVec.ofNat 32 ((tail + 2 ^ 32 - offset) % 2 ^ 32) =
      BitVec.ofNat 32 tail - BitVec.ofNat 32 offset := by
    apply BitVec.eq_of_toNat_eq
    have hsplit : tail + 2 ^ 32 - offset = 2 ^ 32 - offset + tail := by omega
    rw [BitVec.toNat_sub, BitVec.toNat_ofNat, BitVec.toNat_ofNat, BitVec.toNat_ofNat, Nat.mod_mod,
      Nat.mod_eq_of_lt hoffset, Nat.add_mod_mod, hsplit]
  rw [hsame, BitVec.sub_self]
  rfl

variable (L d fat size offset len) in
/-- What is done before the loop takes the pages that `CalcCluster` does. -/
theorem readStart_takes (s : Clusters) : Takes s.heap
    (offset / (fat.BPB_SecPerClus * kBlockSize) + 1 - s.val.length) (fun r => r.2.clusters.heap)
    (readStart L d fat size s offset len) := by
  refine Takes.bind (n := 0) (calcCluster_takes L d fat s offset) fun r _ => ?_
  dsimp only
  cases hnode : findNode r.2 r.1 with
  | ok node => exact .of_ok rfl
  | error f =>
    refine .of_error fun hf => not_outOfMemory_nullDeref ?_
    rw [findNode] at hnode
    split at hnode
    · exact Except.error.inj hnode ▸ hf
    · cases hnode

/-- **A call returns at once** where a node says that there is no cluster. -/
theorem read_of_endKnown (h : Walked d fat root s.val) (hoffset : offset < 2 ^ 32)
    (hle : ¬size < (offset + len) % 2 ^ 64)
    (hend : fat.EndKnown d root s.val (offset / (fat.BPB_SecPerClus * kBlockSize))) :
    Lib.Gives (read L d fat size s offset len) (fun r => r.ret = 0 ∧ r.out = [])
      (WantsPage s.heap (offset / (fat.BPB_SecPerClus * kBlockSize) + 1 - s.val.length)) := by
  have hstart := readStart_gives L offset size len h
  rw [read_eq hle]
  refine Lib.Gives.bind ⟨hstart.ok, fun f hf => ?_⟩ fun start hst => ?_
  · rcases hstart.error f hf with hpanic | ⟨-, -, hnot⟩
    · exact ⟨hpanic, (readStart_takes L d fat size offset len s).error f hf hpanic⟩
    · exact absurd hend hnot
  · have hidle : ¬isValidCluster start.1 := fun hvalid => (hst.runs hvalid).1.not_endKnown hend
    rw [readLoop_idle hidle, Lib.ok_bind, Lib.pure_eq_ok, hst.remains, hst.out,
      ret_idle _ hoffset]
    exact .of_ok ⟨rfl, rfl⟩

/-- **A call that returns** has made the loop come to its end, or a node has said that there is no
cluster. -/
theorem read_ok (h : Walked d fat root s.val) (hle : ¬size < (offset + len) % 2 ^ 64)
    {r : ReadResult} (hr : read L d fat size s offset len = .ok r) :
    (fat.Located d root s.val.length (offset / (fat.BPB_SecPerClus * kBlockSize)) ∧
      r.ret = (BitVec.ofNat 32 (min ((offset + len % 2 ^ 32) % 2 ^ 32) size) -
        BitVec.ofNat 32 offset - BitVec.ofNat 32 0).toInt ∧
      r.out.length = (min ((offset + len % 2 ^ 32) % 2 ^ 32) size + 2 ^ 32 - offset) % 2 ^ 32) ∨
    fat.EndKnown d root s.val (offset / (fat.BPB_SecPerClus * kBlockSize)) := by
  rw [read_eq hle] at hr
  obtain ⟨start, hs, hr⟩ := Lib.bind_eq_ok.mp hr
  obtain ⟨v, hv, hr⟩ := Lib.bind_eq_ok.mp hr
  obtain rfl := Except.ok.inj hr
  have hst := (readStart_gives L offset size len h).ok start hs
  by_cases hvalid : isValidCluster start.1
  · obtain ⟨hzero, hlength⟩ := readLoop_ok hvalid hv
    refine .inl ⟨(hst.runs hvalid).1, ?_, ?_⟩
    · dsimp only
      rw [hzero]
    · dsimp only
      rw [hlength, hst.out, hst.remains, List.length_nil, Nat.zero_add]
  · exact .inr (hst.idle hvalid)

/-- The accesses of a call within the file are those of a loop that starts where it should. -/
theorem readAccesses_cases (h : Walked d fat root s.val) (hin : offset + len ≤ size)
    (hsize : size < 2 ^ 32) : readAccesses L d fat size s offset len = [] ∨
      ∃ start, readStart L d fat size s offset len = .ok start ∧ isValidCluster start.1 ∧
        Starts d fat root offset len s.val start ∧
        readAccesses L d fat size s offset len = accesses L d fat start.1 len start.2 := by
  have hstart := readStart_gives L offset size len h
  have hlen : (min ((offset + len % 2 ^ 32) % 2 ^ 32) size + 2 ^ 32 - offset) % 2 ^ 32 = len := by
    omega
  rw [hlen] at hstart
  rw [readAccesses, if_neg (by omega)]
  cases hs : readStart L d fat size s offset len with
  | error f => exact .inl rfl
  | ok start =>
    have hst := hstart.ok start hs
    dsimp only
    rw [hst.remains]
    by_cases hvalid : isValidCluster start.1
    · exact .inr ⟨start, rfl, hvalid, hst, rfl⟩
    · exact .inl (accesses_of_not fun hgo => hvalid hgo.2)

/-- The first pass of a loop, where it does not start with a sector. -/
theorem Starts.single {start : ℕ × ReadVars} (h : Starts d fat root offset len s.val start)
    (hpart : offset % kBlockSize ≠ 0) : start.2.Single fat ∧
      (start.2.access fat).copy_len = min len (kBlockSize - offset % kBlockSize) := by
  have hsingle : start.2.Single fat := .inl (h.within ▸ Nat.pos_of_ne_zero hpart)
  refine ⟨hsingle, (if_pos hsingle).trans ?_⟩
  rw [h.remains, h.within]

/-- **What is safe is kept to.** -/
theorem accesses_sound (h : Walked d fat root s.val) (hin : offset + len ≤ size)
    (hsize : size < 2 ^ 32)
    (hfits : fat.Located d root s.val.length (offset / (fat.BPB_SecPerClus * kBlockSize)) →
      fat.ReadFits d root offset len) :
    ∀ a ∈ readAccesses L d fat size s offset len, a.Sound := by
  rcases readAccesses_cases (L := L) h hin hsize with hnone | ⟨start, -, hvalid, hst, hall⟩
  · rw [hnone]
    exact fun a ha => (by cases ha)
  rw [hall]
  obtain ⟨hloc, hsector, p, hnode, hp, hpq⟩ := hst.runs hvalid
  have hsafe := hfits hloc
  rw [Volume.ReadFits, ← hsector] at hsafe
  have hmod : offset % kBlockSize < kBlockSize := Nat.mod_lt _ (by decide)
  by_cases hzero : offset % kBlockSize = 0
  · rw [if_pos hzero] at hsafe
    exact accesses_fits (hst.within.trans hzero) (hst.remains.symm ▸ hsafe)
  · rw [if_neg hzero] at hsafe
    obtain ⟨hsingle, hcopy⟩ := hst.single hzero
    cases len with
    | zero => exact fun a ha => (by cases ha)
    | succ n =>
      intro a ha
      rcases mem_accesses ha with rfl | ⟨v', hpass, ha⟩
      · exact sound_of_single hsingle (hst.within ▸ hmod)
      · have hnext := (readPass_single hsingle (hst.within ▸ hmod) hst.walked hnode hp).ok v' hpass
        obtain ⟨hrem, hstarts, -⟩ := readPass_ok hpass
        refine accesses_fits hstarts ?_ a ha
        rw [hnext, walk_succ_congr hpq, hrem, hst.remains, hcopy]
        convert hsafe using 1
        omega

/-- **What is not safe is not kept to**, if the call does not panic. -/
theorem fits_of_sound (h : Walked d fat root s.val) (hin : offset + len ≤ size)
    (hsize : size < 2 ^ 32) (hlen : 0 < offset ∨ len + 384 < 2 ^ 32)
    (hpanic : ∀ f, read L d fat size s offset len = .error f → ¬f.OutOfMemory)
    (hsound : ∀ a ∈ readAccesses L d fat size s offset len, a.Sound)
    (hloc : fat.Located d root s.val.length (offset / (fat.BPB_SecPerClus * kBlockSize))) :
    fat.ReadFits d root offset len := by
  have hstart := readStart_gives L offset size len h
  have hremains :
      (min ((offset + len % 2 ^ 32) % 2 ^ 32) size + 2 ^ 32 - offset) % 2 ^ 32 = len := by omega
  rw [hremains] at hstart
  have hle : ¬size < (offset + len) % 2 ^ 64 := by omega
  rw [read_eq hle] at hpanic
  rw [readAccesses, if_neg hle] at hsound
  cases hs : readStart L d fat size s offset len with
  | error f =>
    rw [hs] at hpanic
    rcases hstart.error f hs with hf | ⟨-, hnot, -⟩
    · exact absurd hf (hpanic f rfl)
    · exact absurd hloc hnot
  | ok start =>
    have hst := hstart.ok start hs
    have hvalid := hst.valid hloc
    obtain ⟨-, hsector, p, hnode, hp, hpq⟩ := hst.runs hvalid
    rw [hs] at hpanic hsound
    dsimp only at hsound
    rw [hst.remains] at hsound
    rw [Lib.ok_bind, hst.remains] at hpanic
    have hmod : offset % kBlockSize < kBlockSize := Nat.mod_lt _ (by decide)
    rw [Volume.ReadFits, ← hsector]
    by_contra hbad
    by_cases hzero : offset % kBlockSize = 0
    · rw [if_pos hzero] at hbad
      -- it is the first pass that is not sound
      have hmany : 0 < len := Nat.pos_of_ne_zero fun hnil => hbad (.inr (.inl (by omega)))
      obtain ⟨fuel, rfl⟩ := Nat.exists_eq_succ_of_ne_zero hmany.ne'
      have hword : fuel.succ + 384 < 2 ^ 32 := by
        rw [kBlockSize] at hzero
        omega
      refine not_sound_of_not_fits (hst.within.trans hzero) (hst.remains.symm ▸ hbad)
        (hst.remains.symm ▸ hword) (hsound _ (access_mem ?_ hvalid))
      rw [hst.remains]
      exact hmany
    · rw [if_neg hzero] at hbad
      obtain ⟨hsingle, hcopy⟩ := hst.single hzero
      -- the first pass reads up to the end of its sector, and the second is not sound
      have hmany : kBlockSize < offset % kBlockSize + len - kBlockSize :=
        Nat.lt_of_not_le fun hfew => hbad (.inr (.inl hfew))
      obtain ⟨fuel, rfl⟩ : ∃ fuel, len = fuel + 2 := ⟨len - 2, by omega⟩
      have hpos : 0 < start.2.remains := by
        rw [hst.remains]
        omega
      have hgives := readPass_single (L := L) hsingle (hst.within ▸ hmod) hst.walked hnode hp
      cases hpass : readPass L d fat start.2 with
      | error f =>
        rw [readLoop_pass hpos hvalid, hpass] at hpanic
        exact hpanic f rfl (hgives.error f hpass)
      | ok v' =>
        obtain ⟨hrem, hstarts, -⟩ := readPass_ok hpass
        have hleft : v'.remains = offset % kBlockSize + (fuel + 2) - kBlockSize := by
          rw [hrem, hst.remains, hcopy]
          omega
        have hword : v'.remains + 384 < 2 ^ 32 := by
          rw [hleft, kBlockSize] at *
          omega
        refine not_sound_of_not_fits hstarts ?_ hword
          (hsound _ (mem_accesses_succ hpos hvalid hpass (access_mem (by omega) hvalid)))
        rwa [hgives.ok v' hpass, walk_succ_congr hpq, hleft]

end Call

/-- **`Read` keeps to its page and to the file where it should**, after any calls on the handle: if
`offset + len` is not taken for less than it is, unless a node says that there is no cluster, and
if what it transfers at once fits the page and is not cut short. Elsewhere it does not, if there are
pages for the nodes of the list; only of a file of almost 4 GiB that is read at once, so that the
number of bytes to be copied wraps to zero, this is not said. -/
theorem read_safe_iff (L : Layout) (d : Mmc) (fat : Volume) {heap : HeapMap} {root size : ℕ}
    (hsize : size < 2 ^ 32) {calls : List (ℕ × ℕ)} {s : ReadState}
    (hs : Lib.runFrom (readStep L d fat size) ⟨⟨[root], heap⟩, none⟩ calls = .ok s)
    {offset len : ℕ} (hoffset : offset < 2 ^ 32) (hlen : len < 2 ^ 64) :
    (fat.ReadBounded d root size s.clusters.val offset len →
      ReadSafe L d fat size s.clusters offset len) ∧
    ((∀ f, read L d fat size s.clusters offset len = .error f → ¬f.OutOfMemory) →
      (offset + len ≤ size → 0 < offset ∨ len + 384 < 2 ^ 32) →
      ReadSafe L d fat size s.clusters offset len →
      fat.ReadBounded d root size s.clusters.val offset len) := by
  have hw := walked_of_run hs
  constructor
  · rintro ⟨hwrapped, hfits⟩
    refine ⟨fun hmore hlt => ?_, fun hwrap => ?_,
      fun hin => accesses_sound hw hin hsize (hfits hin), fun hin => ?_⟩
    · exact ⟨_, if_pos (by rwa [Nat.mod_eq_of_lt hlt]), rfl, rfl⟩
    · by_cases hle : size < (offset + len) % 2 ^ 64
      · rw [read, if_pos hle]
        exact .of_ok ⟨rfl, rfl⟩
      · exact read_of_endKnown hw hoffset hle (hwrapped hwrap (by omega))
    · rcases readAccesses_cases (L := L) hw hin hsize with hnone | ⟨start, -, -, hst, hall⟩
      · rw [hnone]
        exact Nat.zero_le _
      · rw [hall]
        exact (accesses_sum _ _ _).trans_eq hst.remains
  · rintro hpanic hnear ⟨-, hrefused, hbounds, -⟩
    refine ⟨fun hlarge hwrapped => ?_, fun hin hloc =>
      fits_of_sound hw hin hsize (hnear hin) hpanic (hbounds hin) hloc⟩
    have hgives := hrefused hlarge
    cases hr : read L d fat size s.clusters offset len with
    | error f => exact absurd (hgives.error f hr).panic (hpanic f hr)
    | ok r =>
      obtain ⟨-, hout⟩ := hgives.ok r hr
      rcases read_ok hw (by omega) hr with ⟨-, -, hlength⟩ | hend
      · -- the loop has come to its end, and there was something left
        rw [hout, List.length_nil] at hlength
        omega
      · exact hend

/-- After a call that has gone on to the second cluster, it is safe to read the first one at
once, and to ask for more than there is. -/
theorem read_safe_iff_one_file : ∃ s,
    Lib.runFrom (readStep .qemu .twoClusters .eightSectors 8192) ⟨⟨[3], fun _ => false⟩, none⟩
      [(3584, 600)] = .ok s ∧ s.clusters.val = [3, 4] ∧
    ReadSafe .qemu .twoClusters .eightSectors 8192 s.clusters 0 4096 ∧
    ReadSafe .qemu .twoClusters .eightSectors 8192 s.clusters 8000 500 := by
  obtain ⟨s, hrun, hlist⟩ : ∃ s,
      Lib.runFrom (readStep .qemu .twoClusters .eightSectors 8192) ⟨⟨[3], fun _ => false⟩, none⟩
        [(3584, 600)] = .ok s ∧ s.clusters.val = [3, 4] :=
    Lib.exists_ok_of_any (by decide +kernel)
  refine ⟨s, hrun, hlist, ?_, ?_⟩
  · refine (read_safe_iff .qemu .twoClusters .eightSectors (by decide) hrun (by decide)
      (by decide)).1 ⟨fun h => absurd h (by decide), fun _ _ => ?_⟩
    have hcount : readSectors 4096 = 8 := readSectors_of_lt (by decide)
    rw [Volume.ReadFits, if_pos (Nat.zero_mod _), Volume.Fits, hcount]
    exact .inr (.inr (by decide))
  · exact (read_safe_iff .qemu .twoClusters .eightSectors (by decide) hrun (by decide)
      (by decide)).1 ⟨fun h => absurd h (by decide), fun h => absurd h (by decide)⟩

/-- **A page is overrun** when a file of two clusters is read at once. -/
theorem read_overruns_page : ¬∀ (L : Layout) (d : Mmc) (fat : Volume), Accepted d fat →
    ∀ (heap : HeapMap) (root size : ℕ), size < 2 ^ 32 → ∀ (calls : List (ℕ × ℕ)) (s : ReadState),
      Lib.runFrom (readStep L d fat size) ⟨⟨[root], heap⟩, none⟩ calls = .ok s →
      ∀ offset < 2 ^ 32, ∀ len < 2 ^ 64, ReadSafe L d fat size s.clusters offset len := by
  intro h
  have hsafe := h .qemu .twoClusters .eightSectors accepted_twoClusters (fun _ => false) 3 8192
    (by decide) [] _ rfl 0 (by decide) 8192 (by decide)
  set v : ReadVars := ⟨[], 8192, 4136, 0, some 0, ⟨[3], fun _ => false⟩⟩
  have hstart : readStart .qemu .twoClusters .eightSectors 8192 ⟨[3], fun _ => false⟩ 0 8192 =
      .ok (3, v) := rfl
  have hfirst : v.access .eightSectors ∈
      readAccesses .qemu .twoClusters .eightSectors 8192 ⟨[3], fun _ => false⟩ 0 8192 := by
    rw [readAccesses, if_neg (by decide), hstart]
    exact access_mem (v := v) (by decide) (by decide : isValidCluster 3)
  exact absurd (hsafe.bounds le_rfl _ hfirst).1 (by decide)

end Fat32Fs

end Evisor
