import Evisor.Fs.Fat.Read

/-!
# Following a chain as the code reads it

What `Fat32Fs::Read` does whatever the file allocation table says. A chain may end too early,
it may go on with clusters that are free, bad or reserved, or come back to where it has been, and
the sectors of the table may be out of reach. Something is read all the same
(`Evisor.Fat32Fs.Volume.entry`), and the list of a handle is what has been read up to now, be it a
chain or not (`Evisor.Fat32Fs.Walked`).

`CalcCluster` looks at what it reads, and gives up at the first cluster that is none; what it
returns then, `kBadCluster`, has no node, unless the table happens to have that very number
(`Evisor.Fat32Fs.Volume.EndKnown`). `CalcNextCluster` does not look.
-/

namespace Evisor

namespace Fat32Fs

variable (L : Layout) (d : Mmc) (fat : Volume)

/-! ### What is read of the table -/

/-- **What is read as the chain** that starts with a cluster. -/
def Volume.walk (root i : ℕ) : ℕ := (fat.entry d)^[i] root

/-- **A list of what has been read.** -/
structure Walked (root : ℕ) (l : List ℕ) : Prop where
  pos : 0 < l.length
  val : ∀ i < l.length, l[i]? = some (fat.walk d root i)

/-- What is behind the first `n` places are clusters, up to place `q`. -/
def Volume.WalksTo (root n q : ℕ) : Prop :=
  ∀ j, n ≤ j → j ≤ q → isValidCluster (fat.walk d root j)

/-- **There is a cluster** at place `q`, for a list of `n` nodes. -/
def Volume.Located (root n q : ℕ) : Prop :=
  fat.WalksTo d root n q ∧ isValidCluster (fat.walk d root q)

/-- **There is none, and a node says so**: that of place `q` itself, or one that is marked bad. -/
def Volume.EndKnown (root : ℕ) (l : List ℕ) (q : ℕ) : Prop :=
  (q < l.length ∧ ¬isValidCluster (fat.walk d root q)) ∨
    (¬fat.WalksTo d root l.length q ∧ kBadCluster ∈ l)

/-- The sector `CalcNextSector` goes to, if it is this cluster that follows. -/
def Volume.nextSector (sector cluster : ℕ) : ℕ :=
  if sector % fat.BPB_SecPerClus ≠ fat.BPB_SecPerClus - 1 then (sector + 1) % 2 ^ 32
  else calcSector fat cluster 0

variable {L d fat} {s : Clusters} {root q p offset : ℕ}

theorem walk_succ (root i : ℕ) : fat.walk d root (i + 1) = fat.entry d (fat.walk d root i) :=
  Function.iterate_succ_apply' ..

/-- Behind two places with the same cluster the same is read. -/
theorem walk_succ_congr (h : fat.walk d root p = fat.walk d root q) :
    fat.walk d root (p + 1) = fat.walk d root (q + 1) := by
  rw [walk_succ, walk_succ, h]

/-- `kBadCluster` is no cluster. -/
theorem not_isValidCluster_bad : ¬isValidCluster kBadCluster := by decide

/-- Where there is a cluster, no node says that there is none. -/
theorem Volume.Located.not_endKnown {l : List ℕ} (h : fat.Located d root l.length q) :
    ¬fat.EndKnown d root l q := by
  rintro (⟨-, hend⟩ | ⟨hend, -⟩)
  · exact hend h.2
  · exact hend h.1

/-- The list a handle starts with. -/
theorem walked_singleton (root : ℕ) : Walked d fat root [root] := by
  refine ⟨Nat.one_pos, fun i hi => ?_⟩
  obtain rfl : i = 0 := Nat.lt_one_iff.mp hi
  rfl

/-- A list is made longer by what is read of its last cluster. -/
theorem Walked.push (h : Walked d fat root s.val) :
    Walked d fat root (s.val ++ [fat.walk d root s.val.length]) := by
  refine ⟨by simp, fun i hi => ?_⟩
  rw [List.length_append, List.length_singleton] at hi
  rcases Nat.lt_succ_iff_lt_or_eq.mp hi with hi | rfl
  · rw [List.getElem?_append_left hi]
    exact h.val i hi
  · rw [List.getElem?_concat_length]

/-- What is read of the table is what it says, as far as it can be trusted. -/
theorem walk_eq_chain {trusted : ℕ → Prop} (htrusts : fat.Trusts d root trusted) {i : ℕ}
    (h : trusted i) : fat.walk d root i = fat.chain d root i := by
  induction i with
  | zero => rfl
  | succ i ih =>
    obtain ⟨hhere, hentry⟩ := htrusts i h
    rw [walk_succ, ih hhere, hentry]

/-- A list of what has been read follows the chain there. -/
theorem Walked.followsOn {trusted : ℕ → Prop} (h : Walked d fat root s.val)
    (htrusts : fat.Trusts d root trusted) : FollowsOn d fat root trusted s.val :=
  ⟨h.pos, fun i hi htrusted => by rw [h.val i hi, walk_eq_chain htrusts htrusted]⟩

/-! ### The cluster of an offset -/

variable (d fat) in
/-- **What `CalcCluster` finds** at place `q`. -/
structure Finds (root q : ℕ) (s : Clusters) (r : ℕ × Clusters) : Prop where
  walked : Walked d fat root r.2.val
  length : s.val.length ≤ r.2.val.length
  reached : fat.WalksTo d root s.val.length q →
    r.1 = fat.walk d root q ∧ q < r.2.val.length
  ended : ¬fat.WalksTo d root s.val.length q →
    r.1 = kBadCluster ∧ (kBadCluster ∈ r.2.val ↔ kBadCluster ∈ s.val)

theorem calcClusterLoop_finds {left i cluster : ℕ} (h : Walked d fat root s.val)
    (hi : i < s.val.length) (hleft : i + left = q) (hcluster : cluster = fat.walk d root i) :
    Lib.Gives (calcClusterLoop L d fat left i cluster s) (Finds d fat root q s)
      Fault.OutOfMemory := by
  induction left generalizing i cluster s with
  | zero =>
    obtain rfl : i = q := hleft
    refine .of_ok ⟨h, le_rfl, fun _ => ⟨hcluster, hi⟩, fun hend => absurd ?_ hend⟩
    exact fun j hj hji => absurd (hj.trans hji) (Nat.not_le_of_lt hi)
  | succ left ih =>
    rw [calcClusterLoop]
    by_cases hlt : i + 1 < s.val.length
    · -- the list goes on
      rw [h.val (i + 1) hlt]
      exact ih h hlt (by omega) rfl
    · rw [List.getElem?_eq_none (Nat.le_of_not_lt hlt)]
      -- what the table says becomes the next node, if it is a cluster
      have hlen : s.val.length = i + 1 := by omega
      have hentry : fat.entry d cluster = fat.walk d root s.val.length := by
        rw [hlen, walk_succ, hcluster]
      rw [fatEntry_eq, Lib.ok_bind, hentry]
      by_cases hvalid : isValidCluster (fat.walk d root s.val.length)
      · rw [if_pos hvalid]
        refine (push_gives s _).bind fun t ht => ?_
        have htlen : t.val.length = s.val.length + 1 := by
          rw [ht, List.length_append, List.length_singleton]
        -- the node changes neither how far there are clusters nor which node is marked bad
        have hreach : fat.WalksTo d root t.val.length q ↔ fat.WalksTo d root s.val.length q := by
          rw [htlen]
          refine ⟨fun hr j hj hjq => ?_, fun hr j hj hjq => hr j (by omega) hjq⟩
          rcases hj.lt_or_eq with hj | rfl
          · exact hr j hj hjq
          · exact hvalid
        have hbad : kBadCluster ∈ t.val ↔ kBadCluster ∈ s.val := by
          rw [ht, List.mem_append, List.mem_singleton]
          refine or_iff_left fun heq => not_isValidCluster_bad ?_
          rwa [heq]
        refine (ih (ht ▸ h.push) (by omega) (by omega) (by rw [hlen])).mono fun r hr => ?_
        refine ⟨hr.walked, (by omega : s.val.length ≤ t.val.length).trans hr.length,
          fun hgo => hr.reached (hreach.mpr hgo), fun hend => ?_⟩
        obtain ⟨hr1, hmem⟩ := hr.ended fun hgo => hend (hreach.mp hgo)
        exact ⟨hr1, hmem.trans hbad⟩
      · rw [if_neg hvalid]
        refine .of_ok ⟨h, le_rfl, fun hgo => absurd (hgo _ le_rfl (by omega)) hvalid, fun _ => ?_⟩
        exact ⟨rfl, Iff.rfl⟩

/-- **`CalcCluster`**, whatever the table says. -/
theorem calcCluster_finds (h : Walked d fat root s.val)
    (hq : offset / (fat.BPB_SecPerClus * kBlockSize) = q) :
    Lib.Gives (calcCluster L d fat s offset) (Finds d fat root q s) Fault.OutOfMemory := by
  have hroot := h.val 0 h.pos
  rw [calcCluster]
  cases hval : s.val with
  | nil => exact absurd h.pos (by rw [hval]; decide)
  | cons cluster rest =>
    rw [hval] at hroot
    rw [fat.bytsPerSec, hq]
    exact calcClusterLoop_finds h h.pos (Nat.zero_add q) (Option.some.inj hroot)

/-! ### The sector that follows -/

/-- **`CalcNextCluster`**, whatever the table says: it leaves a node for the cluster. -/
theorem calcNextCluster_walks (h : Walked d fat root s.val) (hp : p < s.val.length) :
    Lib.Gives (calcNextCluster L d fat s (some p))
      (fun r => r.1 = fat.walk d root (p + 1) ∧ Walked d fat root r.2.val ∧
        s.val.length ≤ r.2.val.length ∧ p + 1 < r.2.val.length) Fault.OutOfMemory := by
  rw [calcNextCluster, h.val p hp]
  by_cases hlt : p + 1 < s.val.length
  · rw [h.val (p + 1) hlt]
    exact .of_ok ⟨rfl, h, le_rfl, hlt⟩
  · rw [List.getElem?_eq_none (Nat.le_of_not_lt hlt)]
    have hlen : s.val.length = p + 1 := by omega
    have hentry : fat.entry d (fat.walk d root p) = fat.walk d root s.val.length := by
      rw [hlen, walk_succ]
    dsimp only
    rw [fatEntry_eq, Lib.ok_bind, hentry]
    refine (push_gives s _).bind fun t ht => ?_
    have htlen : t.val.length = s.val.length + 1 := by
      rw [ht, List.length_append, List.length_singleton]
    have hle : s.val.length ≤ t.val.length := by omega
    have hnode : p + 1 < t.val.length := by omega
    exact .of_ok ⟨by rw [hlen], ht ▸ h.push, hle, hnode⟩

/-- **`CalcNextSector`**, whatever the table says. -/
theorem calcNextSector_walks {sector : ℕ} (h : Walked d fat root s.val) (hp : p < s.val.length) :
    Lib.Gives (calcNextSector L d fat s sector (some p))
      (fun r => r.1 = fat.nextSector sector (fat.walk d root (p + 1)) ∧
        Walked d fat root r.2.val ∧ s.val.length ≤ r.2.val.length) Fault.OutOfMemory := by
  rw [calcNextSector, Volume.nextSector]
  by_cases hbound : sector % fat.BPB_SecPerClus ≠ fat.BPB_SecPerClus - 1
  · rw [if_pos hbound, if_pos hbound]
    exact .of_ok ⟨rfl, h, le_rfl⟩
  · rw [if_neg hbound, if_neg hbound]
    -- behind the last sector of a cluster it is the next node that counts
    refine (calcNextCluster_walks h hp).bind ?_
    rintro ⟨cluster, t⟩ ⟨rfl, ht, hlen, -⟩
    exact .of_ok ⟨rfl, ht, hlen⟩

/-! ### Where the loop starts -/

variable (L d fat) in
/-- What `Read` does before its loop: the cluster that the loop looks at, and its variables. -/
def readStart (size : ℕ) (s : Clusters) (offset len : ℕ) : Except Fault (ℕ × ReadVars) := do
  let tail := min ((offset + len % 2 ^ 32) % 2 ^ 32) size
  let remains := (tail + 2 ^ 32 - offset) % 2 ^ 32
  let (cluster, s) ← calcCluster L d fat s offset
  let node ← findNode s cluster
  return (cluster, ⟨[], remains, calcSector fat cluster offset, offset % kBlockSize, some node, s⟩)

variable (d fat) in
/-- **Where the loop starts**: at a cluster, with a node for it, or not at all. -/
structure Starts (root offset remains : ℕ) (l : List ℕ) (r : ℕ × ReadVars) : Prop where
  out : r.2.out = []
  remains : r.2.remains = remains
  within : r.2.sector_offset = offset % kBlockSize
  walked : Walked d fat root r.2.clusters.val
  runs : isValidCluster r.1 →
    fat.Located d root l.length (offset / (fat.BPB_SecPerClus * kBlockSize)) ∧
    r.2.sector =
      calcSector fat (fat.walk d root (offset / (fat.BPB_SecPerClus * kBlockSize))) offset ∧
    ∃ p, r.2.cluster_list = some p ∧ p < r.2.clusters.val.length ∧
      fat.walk d root p = fat.walk d root (offset / (fat.BPB_SecPerClus * kBlockSize))
  idle : ¬isValidCluster r.1 →
    fat.EndKnown d root l (offset / (fat.BPB_SecPerClus * kBlockSize))

variable {size len : ℕ}

variable (L size offset len) in
/-- **The loop starts** at the cluster of the offset, if there is one; if a node says that there
is none, it makes no pass; else a null pointer is followed. -/
theorem readStart_gives (h : Walked d fat root s.val) :
    Lib.Gives (readStart L d fat size s offset len)
      (Starts d fat root offset ((min ((offset + len % 2 ^ 32) % 2 ^ 32) size + 2 ^ 32 - offset) %
        2 ^ 32) s.val)
      (fun f => f.OutOfMemory ∨ f = .nullDeref ∧
        ¬fat.Located d root s.val.length (offset / (fat.BPB_SecPerClus * kBlockSize)) ∧
        ¬fat.EndKnown d root s.val (offset / (fat.BPB_SecPerClus * kBlockSize))) := by
  obtain ⟨q, hq⟩ : ∃ q, offset / (fat.BPB_SecPerClus * kBlockSize) = q := ⟨_, rfl⟩
  have hfinds := calcCluster_finds (L := L) h hq
  rw [readStart, hq]
  refine Lib.Gives.bind (P := Finds d fat root q s)
    ⟨hfinds.ok, fun f hf => .inl (hfinds.error f hf)⟩ ?_
  -- there are clusters all the way, or `kBadCluster` is what is looked for in the list
  rintro ⟨cluster, t⟩ ⟨hwalked, -, hreached, hended⟩
  dsimp only at hwalked hreached hended ⊢
  by_cases hgo : fat.WalksTo d root s.val.length q
  · obtain ⟨rfl, hqlt⟩ := hreached hgo
    obtain ⟨p, -, hfind, hp⟩ := findNode_ok (hwalked.val q hqlt)
    rw [hfind, Lib.ok_bind]
    have hplt : p < t.val.length := (List.getElem?_eq_some_iff.mp hp).1
    refine .of_ok ⟨rfl, rfl, rfl, hwalked, fun hvalid => ?_, fun hnone => ?_⟩
    · rw [hq]
      exact ⟨⟨hgo, hvalid⟩, rfl, p, rfl, hplt,
        Option.some.inj ((hwalked.val p hplt).symm.trans hp)⟩
    · rw [hq]
      refine .inl ⟨Nat.lt_of_not_le fun hle => hnone (hgo q hle le_rfl), hnone⟩
  · obtain ⟨rfl, hbad⟩ := hended hgo
    by_cases hmem : kBadCluster ∈ t.val
    · obtain ⟨i, hi⟩ := List.mem_iff_getElem?.mp hmem
      obtain ⟨p, -, hfind, -⟩ := findNode_ok hi
      rw [hfind, Lib.ok_bind]
      refine .of_ok ⟨rfl, rfl, rfl, hwalked, fun hvalid => absurd hvalid not_isValidCluster_bad,
        fun _ => ?_⟩
      rw [hq]
      exact .inr ⟨hgo, hbad.mp hmem⟩
    · have hfind : findNode t kBadCluster = .error .nullDeref := by
        rw [findNode]
        cases hidx : t.val.findIdx? fun val => val = kBadCluster with
        | none => rfl
        | some i =>
          obtain ⟨hi, hval, -⟩ := List.findIdx?_eq_some_iff_getElem.mp hidx
          exact absurd (of_decide_eq_true hval ▸ List.getElem_mem hi) hmem
      rw [hfind, Lib.error_bind]
      refine .of_error (.inr ⟨rfl, fun hloc => hgo hloc.1, ?_⟩)
      rintro (⟨hlt, -⟩ | ⟨-, hin⟩)
      · exact hgo fun j hj hjq => absurd (hj.trans hjq) (Nat.not_le_of_lt hlt)
      · exact hmem (hbad.mpr hin)

/-- Where there is a cluster the loop has one. -/
theorem Starts.valid {remains : ℕ} {l : List ℕ} {r : ℕ × ReadVars}
    (h : Starts d fat root offset remains l r)
    (hloc : fat.Located d root l.length (offset / (fat.BPB_SecPerClus * kBlockSize))) :
    isValidCluster r.1 := by
  by_contra hnone
  exact hloc.not_endKnown (h.idle hnone)

/-- What `Read` does is what it does before its loop, and the loop. -/
theorem read_eq (hle : ¬size < (offset + len) % 2 ^ 64) :
    read L d fat size s offset len = (do
      let start ← readStart L d fat size s offset len
      let v ← readLoop L d fat start.1 start.2.remains start.2
      return ⟨(BitVec.ofNat 32 (min ((offset + len % 2 ^ 32) % 2 ^ 32) size) -
        BitVec.ofNat 32 offset - BitVec.ofNat 32 v.remains).toInt, v.out, v.clusters⟩) := by
  rw [read, if_neg hle, readStart]
  dsimp only
  cases hc : calcCluster L d fat s offset with
  | error f => rfl
  | ok r =>
    rw [Lib.ok_bind, Lib.ok_bind]
    cases hf : findNode r.2 r.1 with
    | error f => rfl
    | ok node => rfl

/-- A loop without a cluster does nothing. -/
theorem readLoop_idle {cluster fuel : ℕ} {v : ReadVars} (hcluster : ¬isValidCluster cluster) :
    readLoop L d fat cluster fuel v = .ok v := by
  cases fuel with
  | zero => rw [readLoop, if_neg fun hgo => hcluster hgo.2]
  | succ fuel => rw [readLoop, if_neg fun hgo => hcluster hgo.2]

/-! ### Runs -/

/-- A null node is not gone on from. -/
theorem not_readPass_null {v v' : ReadVars} (hnode : v.cluster_list = none) :
    readPass L d fat v ≠ .ok v' := by
  intro h
  obtain ⟨t, -, h⟩ := Lib.bind_eq_ok.mp h
  obtain ⟨byte, -, h⟩ := Lib.bind_eq_ok.mp h
  obtain ⟨r, -, h⟩ := Lib.bind_eq_ok.mp h
  obtain ⟨node, hnext, -⟩ := Lib.bind_eq_ok.mp h
  rw [hnode] at hnext
  cases hnext

/-- A pass leaves a list of what has been read, and a node of it or null. -/
theorem readPass_walked {v v' : ReadVars} (hw : Walked d fat root v.clusters.val)
    (hnode : ∀ p ∈ v.cluster_list, p < v.clusters.val.length)
    (h : readPass L d fat v = .ok v') :
    Walked d fat root v'.clusters.val ∧ ∀ p ∈ v'.cluster_list, p < v'.clusters.val.length := by
  cases hlist : v.cluster_list with
  | none => exact absurd h (not_readPass_null hlist)
  | some p =>
    obtain ⟨t, -, h⟩ := Lib.bind_eq_ok.mp h
    obtain ⟨byte, -, h⟩ := Lib.bind_eq_ok.mp h
    obtain ⟨⟨sector, clusters⟩, hsector, h⟩ := Lib.bind_eq_ok.mp h
    obtain ⟨node, hnext, h⟩ := Lib.bind_eq_ok.mp h
    obtain rfl := Except.ok.inj h
    rw [hlist] at hsector hnext
    obtain ⟨-, hwalked, -⟩ := (calcNextSector_walks hw (hnode p hlist)).ok _ hsector
    refine ⟨hwalked, fun i hi => ?_⟩
    obtain rfl := Except.ok.inj hnext
    rw [Option.mem_def, Option.ite_none_right_eq_some] at hi
    obtain ⟨hlt, hi⟩ := hi
    exact Option.some.inj hi ▸ hlt

theorem readLoop_walked {cluster fuel : ℕ} {v v' : ReadVars}
    (hw : Walked d fat root v.clusters.val)
    (hnode : ∀ p ∈ v.cluster_list, p < v.clusters.val.length)
    (h : readLoop L d fat cluster fuel v = .ok v') : Walked d fat root v'.clusters.val := by
  induction fuel generalizing v with
  | zero =>
    rw [readLoop] at h
    split at h
    · cases h
    · exact Except.ok.inj h ▸ hw
  | succ fuel ih =>
    rw [readLoop] at h
    split at h
    · obtain ⟨u, hpass, h⟩ := Lib.bind_eq_ok.mp h
      obtain ⟨hu, hnodes⟩ := readPass_walked hw hnode hpass
      exact ih hu hnodes h
    · exact Except.ok.inj h ▸ hw

/-- **A call leaves a list of what has been read.** -/
theorem read_walked (h : Walked d fat root s.val) {r : ReadResult}
    (hr : read L d fat size s offset len = .ok r) : Walked d fat root r.clusters.val := by
  by_cases hle : size < (offset + len) % 2 ^ 64
  · rw [read, if_pos hle] at hr
    obtain rfl := Except.ok.inj hr
    exact h
  · rw [read_eq hle] at hr
    obtain ⟨start, hs, hr⟩ := Lib.bind_eq_ok.mp hr
    obtain ⟨v, hv, hr⟩ := Lib.bind_eq_ok.mp hr
    obtain rfl := Except.ok.inj hr
    have hst := (readStart_gives L offset size len h).ok start hs
    by_cases hvalid : isValidCluster start.1
    · obtain ⟨-, -, p, hnode, hp, -⟩ := hst.runs hvalid
      refine readLoop_walked hst.walked (fun i hi => ?_) hv
      obtain rfl := Option.some.inj (hnode.symm.trans hi)
      exact hp
    · rw [readLoop_idle hvalid] at hv
      exact Except.ok.inj hv ▸ hst.walked

/-- **So does every run of calls** on a handle. -/
theorem walked_of_run {heap : HeapMap} {calls : List (ℕ × ℕ)} {t : ReadState}
    (hrun : Lib.runFrom (readStep L d fat size) ⟨⟨[root], heap⟩, none⟩ calls = .ok t) :
    Walked d fat root t.clusters.val := by
  refine Lib.runFrom_inv (I := fun u : ReadState => Walked d fat root u.clusters.val) ?_
    (walked_singleton root) hrun
  intro u c t hu ht
  obtain ⟨r, hr, ht⟩ := Lib.bind_eq_ok.mp ht
  obtain rfl := Except.ok.inj ht
  exact read_walked hu hr

end Fat32Fs

end Evisor
