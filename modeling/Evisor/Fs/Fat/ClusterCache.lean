import Mathlib.Data.List.Chain
import Mathlib.Tactic.IntervalCases
import Evisor.Lib.Loans
import Evisor.Fs.Fat.DiskErrors
import Evisor.Fs.Fat.Room

/-!
# The list that is kept of a chain

`CalcCluster` of `fs/fat/fat32.cc` goes along the list of a handle as far as there is one, and from
there on along the table, with a new node for each cluster. In one loop it looks for a cluster,
makes the list longer, and takes pages for the sectors of the table. All three go right, but for
the sectors of the table that lie behind the first 4 GiB of the card, of which others are read:
`Evisor.Fat32Fs.Traced.calcCluster_indexes_iff`.

When a page is given back a second time nothing happens, so that the map of the region does not
tell. It is done here with the pages written down that are taken and given back
(`Evisor.Fat32Fs.Traced.calcCluster`), which is otherwise the same:
`Evisor.Fat32Fs.Traced.calcCluster_projects`.
-/

namespace Evisor

namespace Fat32Fs

/-! ### The code, with the pages written down -/

/-- The uncached region, and which pages of it have been taken and given back, by address. -/
structure Pages where
  region : RegionMap
  loans : List (Lib.Loan ℕ)

namespace Traced

open Buffers (SectorPtr nonempty)

/-- What uses the card, with the pages written down. -/
abbrev TraceM (α : Type) : Type := Lib.Asks ℕ Pages Fault α

variable (L : Layout) (d : Mmc) (fat : Volume)

/-- `kmm_uncached_malloc` of a page. -/
def malloc : TraceM ℕ :=
  Lib.Asks.change fun s => (kmmUncachedMalloc L.kUncachedStart s.region PAGE_SIZE).map fun r =>
    (r.1, ⟨r.2, s.loans ++ [.taken r.1]⟩)

/-- `kmm_uncached_free`. -/
def free (buf : SectorPtr) : TraceM Unit :=
  buf.elim Lib.Asks.refused fun page => Lib.Asks.change fun s =>
    (kmmUncachedFree L.kUncachedStart s.region page.1).map fun region =>
      ((), ⟨region, s.loans ++ [.returned page.1]⟩)

/-- `kmm_uncached_free`, of a pointer that is not null. -/
def freeAny (buf : SectorPtr) : TraceM Unit :=
  buf.elim (pure ()) fun page => free L (some page)

/-- `Fat32Fs::ReadSector`. -/
def readSector (lba sector_num : ℕ) : TraceM SectorPtr := do
  let va ← malloc L
  let buf ← Lib.Asks.lift (Fat32Fs.readSector d lba sector_num)
  let delivered ← Lib.Asks.ask nonempty sector_num
  return if delivered then buf.map fun byte => (va, byte) else none

/-- Reading `n` bytes of a page. -/
def deref (buf : SectorPtr) (offset n : ℕ) : TraceM (ℕ → ℕ) :=
  buf.elim Lib.Asks.refused fun page => Lib.Asks.lift (readBuf (some page.2) offset n)

/-- The entry of the table for a cluster, and the page it has been read into. -/
def loadEntry (cluster : ℕ) : TraceM (SectorPtr × ℕ) := do
  let sector := (fat.fat_first_sector + cluster * 4 % 2 ^ 32 / fat.BPB_BytsPerSec) % 2 ^ 32
  let offset := cluster * 4 % 2 ^ 32 % fat.BPB_BytsPerSec
  let buf ← readSector L d ((fat.first_lba + sector) % 2 ^ 32) 1
  let byte ← deref buf offset 4
  return (buf, Lib.ofBytes 4 byte &&& 0x0fffffff)

/-- The loop of `CalcCluster`, with the clusters still to be passed: `i` is the place of
`cluster_list`. -/
def calcClusterLoop : ℕ → ℕ → ℕ → Clusters → SectorPtr → TraceM (ℕ × Clusters)
  | 0, _, cluster, s, buf => do
    freeAny L buf
    return (cluster, s)
  | left + 1, i, cluster, s, buf =>
    s.val[i + 1]?.elim
      (do
        freeAny L buf
        let r ← loadEntry L d fat cluster
        if isValidCluster r.2 then do
          let s ← Lib.Asks.lift (s.push L r.2)
          calcClusterLoop left (i + 1) r.2 s r.1
        else do
          freeAny L r.1
          return (kBadCluster, s))
      fun val => calcClusterLoop left (i + 1) val s buf

/-- `Fat32Fs::CalcCluster`. -/
def calcCluster (s : Clusters) (offset : ℕ) : TraceM (ℕ × Clusters) :=
  s.val.head?.elim (Lib.Asks.lift (.error .nullDeref)) fun cluster =>
    calcClusterLoop L d fat (offset / (fat.BPB_SecPerClus * fat.BPB_BytsPerSec)) 0 cluster s none

variable {L d fat}

/-! ### It is the same otherwise -/

theorem free_projects (buf : SectorPtr) :
    Lib.Asks.Projects Pages.region (free L buf) (Buffers.free L buf) := by
  rcases buf with - | ⟨va, byte⟩
  · exact Lib.Asks.projects_refused
  · rw [free, Buffers.free, Option.elim_some]
    refine Lib.Asks.projects_change fun s => ?_
    rcases kmmUncachedFree L.kUncachedStart s.region va with e | region
    · rfl
    · rfl

theorem freeAny_projects (buf : SectorPtr) :
    Lib.Asks.Projects Pages.region (freeAny L buf) (Buffers.freeAny L buf) := by
  rcases buf with - | page
  · exact Lib.Asks.projects_pure ()
  · exact free_projects (some page)

theorem readSector_projects (lba sector_num : ℕ) : Lib.Asks.Projects Pages.region
    (readSector L d lba sector_num) (Buffers.readSector L d lba sector_num) := by
  refine Lib.Asks.Projects.bind (Lib.Asks.projects_change fun s => ?_) fun va => ?_
  · rcases kmmUncachedMalloc L.kUncachedStart s.region PAGE_SIZE with e | r
    · rfl
    · rfl
  · refine (Lib.Asks.projects_lift _).bind fun buf => ?_
    exact (Lib.Asks.projects_ask ..).bind fun delivered => Lib.Asks.projects_pure _

theorem loadEntry_projects (cluster : ℕ) : Lib.Asks.Projects Pages.region
    (loadEntry L d fat cluster) (Buffers.loadEntry L d fat cluster) := by
  rw [loadEntry, Buffers.loadEntry, Buffers.load, Lib.Asks.bind_assoc]
  refine (readSector_projects _ _).bind fun buf => ?_
  rw [Lib.Asks.bind_assoc]
  refine Lib.Asks.Projects.bind ?_ fun byte => Lib.Asks.projects_pure _
  rcases buf with - | page
  · exact Lib.Asks.projects_refused
  · exact Lib.Asks.projects_lift _

theorem calcClusterLoop_projects (left i cluster : ℕ) (s : Clusters) (buf : SectorPtr) :
    Lib.Asks.Projects Pages.region (calcClusterLoop L d fat left i cluster s buf)
      (Buffers.calcClusterLoop L d fat left i cluster s buf) := by
  induction left generalizing i cluster s buf with
  | zero => exact (freeAny_projects buf).bind fun _ => Lib.Asks.projects_pure _
  | succ left ih =>
    rw [calcClusterLoop, Buffers.calcClusterLoop]
    rcases s.val[i + 1]? with - | val
    · refine (freeAny_projects buf).bind fun _ => (loadEntry_projects cluster).bind fun r => ?_
      dsimp only
      split_ifs with hvalid
      · exact (Lib.Asks.projects_lift _).bind fun t => ih (i + 1) r.2 t r.1
      · exact (freeAny_projects r.1).bind fun _ => Lib.Asks.projects_pure _
    · exact ih (i + 1) val s buf

/-- **What is written down changes nothing.** -/
theorem calcCluster_projects (s : Clusters) (offset : ℕ) : Lib.Asks.Projects Pages.region
    (calcCluster L d fat s offset) (Buffers.calcCluster L d fat s offset) := by
  rw [calcCluster, Buffers.calcCluster]
  rcases s.val with - | ⟨cluster, rest⟩
  · exact Lib.Asks.projects_lift _
  · exact calcClusterLoop_projects _ 0 cluster s none

end Traced

variable {L : Layout} {d : Mmc} {fat : Volume} {s : Clusters}

/-! ### The list -/

/-- **What a list of a chain is like**: it starts where the chain does, and has clusters only, each
of which is the one that follows the one before it. -/
structure Cached (d : Mmc) (fat : Volume) (root : ℕ) (l : List ℕ) : Prop where
  starts : l.head? = some root
  valid : ∀ c ∈ l, isValidCluster c
  linked : l.IsChain fun c next => next = fat.follower d c

/-- **What `CalcCluster` makes of a list**, for place `q` of its chain. -/
structure Indexes (d : Mmc) (fat : Volume) (root q : ℕ) (s : Clusters) (r : ℕ × Clusters) :
    Prop where
  found : fat.GoesOn d root (q + 1) → r.1 = fat.chain d root q
  bad : ¬fat.GoesOn d root (q + 1) → r.1 = kBadCluster
  extended : s.val <+: r.2.val
  cached : Cached d fat root r.2.val

/-- **The entries can be told** that are read behind a list of `n` nodes for place `q`. Where those
before one can be told and it cannot, what is read in its place is no cluster, and the chain ends
indeed. -/
def Volume.EntriesRight (d : Mmc) (fat : Volume) (root n q : ℕ) : Prop :=
  ∀ j, n ≤ j + 1 → j < q → fat.GoesOn d root (j + 1) →
    (∀ i, n ≤ i + 1 → i < j → fat.EntryRight d (fat.chain d root i)) →
    fat.EntryRight d (fat.chain d root j) ∨
      ¬isValidCluster (fat.standIn d (fat.chain d root j)) ∧ ¬fat.GoesOn d root (q + 1)

variable {root q : ℕ} {l : List ℕ}

/-- So it is where they are in the first 4 GiB of the card. -/
theorem entriesRight_of_listed {n : ℕ}
    (h : ∀ j < q, fat.GoesOn d root (j + 1) → fat.Listed (fat.chain d root j)) :
    fat.EntriesRight d root n q := fun j _ hj hgo _ => .inl (.inl (h j hj hgo))

/-- The nodes are the clusters of the chain. -/
theorem Cached.val (h : Cached d fat root l) {i : ℕ} (hi : i < l.length) :
    l[i] = fat.chain d root i := by
  induction i with
  | zero =>
    have hstarts := h.starts
    rw [List.head?_eq_getElem?, List.getElem?_eq_getElem hi] at hstarts
    exact Option.some.inj hstarts
  | succ i ih => rw [h.linked.getElem i hi, ih (Nat.lt_of_succ_lt hi), chain_succ]

theorem Cached.pos (h : Cached d fat root l) : 0 < l.length := by
  refine List.length_pos_iff.mpr fun hnil => ?_
  have hstarts := h.starts
  rw [hnil] at hstarts
  cases hstarts

theorem Cached.goesOn (h : Cached d fat root l) : fat.GoesOn d root l.length :=
  fun _ hi => h.val hi ▸ h.valid _ (List.getElem_mem hi)

/-- A node more of the chain. -/
theorem Cached.push (h : Cached d fat root l)
    (hvalid : isValidCluster (fat.chain d root l.length)) :
    Cached d fat root (l ++ [fat.chain d root l.length]) := by
  refine ⟨by rw [List.head?_append, h.starts]; rfl, fun c hc => ?_, ?_⟩
  · rcases List.mem_append.mp hc with hc | hc
    · exact h.valid c hc
    · rwa [List.mem_singleton.mp hc]
  · refine h.linked.append (.singleton _) fun c hc next hnext => ?_
    have hlast : l.length - 1 < l.length := Nat.sub_lt h.pos Nat.one_pos
    rw [List.getLast?_eq_getElem?, List.getElem?_eq_getElem hlast, h.val hlast] at hc
    obtain rfl := Option.some.inj hc
    obtain rfl := Option.some.inj hnext
    rw [← chain_succ, Nat.sub_add_cancel h.pos]

/-- A node that is not of the chain is not made good by those behind it. -/
theorem Cached.of_prefix {l' : List ℕ} {val : ℕ} (h : Cached d fat root l')
    (hpre : l ++ [val] <+: l') : val = fat.chain d root l.length := by
  obtain ⟨rest, rfl⟩ := hpre
  have hlt : l.length < (l ++ [val] ++ rest).length := by
    rw [List.length_append, List.length_append, List.length_singleton]
    omega
  rw [← h.val hlt, List.getElem_append_left (by simp), List.getElem_concat_length rfl]

/-- When an entry can be told, it is the ones behind it that count. -/
theorem entriesRight_succ {n : ℕ} (h : fat.EntryRight d (fat.chain d root n)) :
    fat.EntriesRight d root (n + 2) q ↔ fat.EntriesRight d root (n + 1) q := by
  constructor
  · intro hright j hj hjq hgo hbefore
    rcases (Nat.le_of_succ_le_succ hj).eq_or_lt with rfl | hlt
    · exact .inl h
    · exact hright j (by omega) hjq hgo fun i hi => hbefore i (by omega)
  · intro hright j hj hjq hgo hbefore
    refine hright j (by omega) hjq hgo fun i hi hij => ?_
    rcases (Nat.le_of_succ_le_succ hi).eq_or_lt with rfl | hlt
    · exact h
    · exact hbefore i (by omega) hij

/-- When one cannot, it is that one. -/
theorem entriesRight_of_not {n : ℕ} (hnot : ¬fat.EntryRight d (fat.chain d root n))
    (hgo : fat.GoesOn d root (n + 1)) (hq : n < q) :
    fat.EntriesRight d root (n + 1) q ↔
      ¬isValidCluster (fat.standIn d (fat.chain d root n)) ∧ ¬fat.GoesOn d root (q + 1) := by
  constructor
  · intro hright
    exact (hright n le_rfl hq hgo fun i hi hin => absurd hin (by omega)).resolve_left hnot
  · intro hends j hj hjq _ hbefore
    rcases (Nat.le_of_succ_le_succ hj).eq_or_lt with rfl | hlt
    · exact .inr hends
    · exact absurd (hbefore n le_rfl hlt) hnot

/-- **The list has the cluster.** -/
theorem Cached.indexes (h : Cached d fat root s.val) (hq : q < s.val.length) :
    Indexes d fat root q s (fat.chain d root q, s) :=
  ⟨fun _ => rfl, fun hnot => absurd (h.goesOn.mono hq) hnot, List.prefix_refl _, h⟩

/-- **There is no cluster**: this is right where the chain has ended. -/
theorem Cached.indexes_bad (h : Cached d fat root s.val) :
    Indexes d fat root q s (kBadCluster, s) ↔ ¬fat.GoesOn d root (q + 1) := by
  refine ⟨fun hr hgo => ?_, fun hnot => ⟨fun hgo => absurd hgo hnot, fun _ => rfl,
    List.prefix_refl _, h⟩⟩
  have hbad : kBadCluster = fat.chain d root q := hr.found hgo
  exact not_isValidCluster_bad (hbad ▸ hgo q (Nat.lt_succ_self q))

/-- **What is read behind the list is no cluster.** -/
theorem indexes_of_ended {i : ℕ} (h : Cached d fat root s.val) (hlen : s.val.length = i + 1)
    (hq : i < q) (hnone : ¬isValidCluster (fat.entry d (fat.chain d root i))) :
    Indexes d fat root q s (kBadCluster, s) ↔ fat.EntriesRight d root s.val.length q := by
  have hvalid : isValidCluster (fat.chain d root i) := h.goesOn i (by omega)
  rw [h.indexes_bad, hlen]
  by_cases hright : fat.EntryRight d (fat.chain d root i)
  · -- the chain ends here
    rw [(entryRight_iff hvalid).mp hright, ← chain_succ] at hnone
    refine iff_of_true (fun hgo => hnone (hgo _ (by omega))) ((entriesRight_succ hright).mp ?_)
    exact fun j hj _ hgo _ => absurd (hgo (i + 1) (by omega)) hnone
  · rw [entry_eq_standIn hvalid] at hnone
    rw [entriesRight_of_not hright (hlen ▸ h.goesOn) hq, and_iff_right hnone]

/-- **What is read behind the list is a cluster**, and becomes a node of it. -/
theorem indexes_of_pushed {i : ℕ} {s' : Clusters} {r : ℕ × Clusters}
    (h : Cached d fat root s.val) (hlen : s.val.length = i + 1) (hq : i < q)
    (hnext : isValidCluster (fat.entry d (fat.chain d root i)))
    (hlist : s'.val = s.val ++ [fat.entry d (fat.chain d root i)]) (hgrown : s'.val <+: r.2.val)
    (hs' : Cached d fat root s'.val →
      (Indexes d fat root q s' r ↔ fat.EntriesRight d root s'.val.length q)) :
    Indexes d fat root q s r ↔ fat.EntriesRight d root s.val.length q := by
  have hvalid : isValidCluster (fat.chain d root i) := h.goesOn i (by omega)
  have hextended : s.val <+: r.2.val := (hlist ▸ List.prefix_append _ _).trans hgrown
  have hlen' : s'.val.length = i + 2 := by
    rw [hlist, List.length_append, hlen]
    rfl
  by_cases hright : fat.EntryRight d (fat.chain d root i)
  · -- the node is the one that follows
    rw [(entryRight_iff hvalid).mp hright, ← chain_succ, ← hlen] at hnext hlist
    have hiff := hs' (hlist ▸ h.push hnext)
    rw [hlen', entriesRight_succ hright, ← hlen] at hiff
    rw [← hiff]
    exact ⟨fun hr => ⟨hr.found, hr.bad, hgrown, hr.cached⟩,
      fun hr => ⟨hr.found, hr.bad, hextended, hr.cached⟩⟩
  · -- a node that is not of the chain stays in the list
    refine iff_of_false (fun hr => hright ((entryRight_iff hvalid).mpr ?_)) ?_
    · rw [hlist] at hgrown
      rw [hr.cached.of_prefix hgrown, hlen, chain_succ]
    · rw [hlen, entriesRight_of_not hright (hlen ▸ h.goesOn) hq, ← entry_eq_standIn hvalid]
      exact fun hends => hends.1 hnext

/-! ### The pages -/

open Buffers (Page Ledger Owns pageAddr)

/-- **The pages that are held**: those of the region, and those that are written down. -/
structure Holding (L : Layout) (m₀ : RegionMap) (own : List Page) (t : Pages) : Prop where
  ledger : Ledger m₀ t.region own
  loans : Lib.outstanding [] t.loans = some (own.map (pageAddr L))

/-- **Every page has been given back**, and each one once. -/
structure Returned (m₀ : RegionMap) (t : Pages) : Prop where
  held : Lib.outstanding [] t.loans = some []
  once : ∀ va, t.loans.count (.returned va) = t.loans.count (.taken va)
  live : ∀ p : Page, (t.region p).ref_count = 0 ↔ (m₀ p).ref_count = 0

theorem Holding.returned {m₀ : RegionMap} {t : Pages} (h : Holding L m₀ [] t) : Returned m₀ t :=
  ⟨h.loans, Lib.count_returned h.loans, fun p => h.ledger.other p List.not_mem_nil⟩

/-- **There is no room**: no page of the region is free, or there are fewer than so many pages of
the heap. -/
structure NoRoom (m₀ : RegionMap) (heap : HeapMap) (nodes : ℕ) (f : Fault) : Prop where
  panic : f.IsPanic
  full : (∀ p : Page, (m₀ p).ref_count ≠ 0) ∨ freePages heap < nodes

variable {m₀ : RegionMap} {st : Pages × List ℕ}

/-- A page is not found only when there is none. -/
theorem malloc_page_error {m : RegionMap} {f : Fault}
    (h : kmmUncachedMalloc L.kUncachedStart m PAGE_SIZE = .error f) :
    f.IsPanic ∧ ∀ p : Page, (m p).ref_count ≠ 0 := by
  have hone : numPages PAGE_SIZE = 1 := by decide
  by_cases hfits : Uncached.Fits m (numPages PAGE_SIZE)
  · obtain ⟨i, -, -, hok⟩ := Uncached.malloc_of_fits L.kUncachedStart hfits
    rw [hok] at h
    cases h
  · have hused : ∀ p : Page, (m p).ref_count ≠ 0 := by
      intro p hp
      refine hfits ⟨p.val, p.2, fun j hj => ?_⟩
      rw [hone, Nat.lt_one_iff] at hj
      rw [hj, Nat.add_zero]
      exact ⟨p.2, hp⟩
    have hlast : Uncached.Used m (kRegionPageNums - 1) := ⟨by decide, hused _⟩
    rw [(Uncached.malloc_of_not_fits L.kUncachedStart hfits).1 hlast] at h
    obtain rfl := Except.error.inj h
    exact ⟨trivial, hused⟩

namespace Traced

/-- **A page is taken.** -/
theorem malloc_served (h : Holding L m₀ [] st.1) : Lib.Asks.Served (malloc L) st
    (fun va t => ∃ p, va = pageAddr L p ∧ Holding L m₀ [p] t)
    (fun f => f.IsPanic ∧ ∀ p : Page, (m₀ p).ref_count ≠ 0) := by
  refine Lib.Asks.served_change ?_
  rcases hr : kmmUncachedMalloc L.kUncachedStart st.1.region PAGE_SIZE with f | ⟨va, m⟩
  · obtain ⟨hpanic, hfull⟩ := malloc_page_error hr
    exact .of_error ⟨hpanic, fun p hp => hfull p ((h.ledger.other p List.not_mem_nil).mpr hp)⟩
  · obtain ⟨p, hfree, rfl, rfl⟩ := Buffers.malloc_page hr
    exact .of_ok ⟨p, rfl, h.ledger.take hfree, Lib.outstanding_taken h.loans⟩

/-- **A page is given back**, if there is one. -/
theorem freeAny_served {E : Fault → Prop} {buf : Buffers.SectorPtr} {content : SectorBuf}
    {own : List Page} (hbuf : Owns L buf content own) (h : Holding L m₀ own st.1) :
    Lib.Asks.Served (freeAny L buf) st (fun _ t => Holding L m₀ [] t) E := by
  rcases hbuf with - | ⟨p, byte⟩
  · exact Lib.Asks.served_pure h
  · rw [freeAny, Option.elim_some, free, Option.elim_some]
    refine Lib.Asks.served_change ?_
    rw [Buffers.free_page (h.ledger.taken p List.mem_cons_self).1]
    exact .of_ok ⟨h.ledger.put, Lib.outstanding_returned h.loans⟩

/-- **An entry is read** into a page that is taken for it. -/
theorem loadEntry_served (h : Holding L m₀ [] st.1) (cluster : ℕ) :
    Lib.Asks.Served (loadEntry L d fat cluster) st
      (fun r t => r.2 = fat.entry d cluster ∧
        ∃ p byte, r.1 = some (pageAddr L p, byte) ∧ Holding L m₀ [p] t)
      (fun f => f.IsPanic ∧ ∀ p : Page, (m₀ p).ref_count ≠ 0) := by
  obtain ⟨byte, hread, -⟩ := readSector_one d ((fat.first_lba + (fat.fat_first_sector +
    cluster * 4 % 2 ^ 32 / fat.BPB_BytsPerSec) % 2 ^ 32) % 2 ^ 32)
  have hentry := fatEntry_eq d fat cluster
  rw [fatEntry, hread, Lib.ok_bind] at hentry
  obtain ⟨word, hword, hvalue⟩ := Lib.bind_eq_ok.mp hentry
  rw [loadEntry]
  refine Lib.Asks.Served.bind (P := fun buf t => ∃ p, buf = some (pageAddr L p, byte) ∧
    Holding L m₀ [p] t) ?_ ?_
  · rw [readSector]
    refine (malloc_served h).bind ?_
    rintro va t ⟨p, rfl, ht⟩
    rw [hread]
    refine (Lib.Asks.served_lift (.of_ok (P := fun buf => buf = some byte) rfl)).bind ?_
    rintro buf u ⟨rfl, hu⟩
    refine (Lib.Asks.served_ask (by decide)).bind ?_
    rintro delivered w ⟨rfl, hw⟩
    exact Lib.Asks.served_pure ⟨p, rfl, by rwa [hw, hu]⟩
  · rintro buf t ⟨p, rfl, ht⟩
    rw [deref, Option.elim_some, hword]
    refine (Lib.Asks.served_lift (.of_ok (P := fun byte => byte = word) rfl)).bind ?_
    rintro _ u ⟨rfl, hu⟩
    exact Lib.Asks.served_pure ⟨Except.ok.inj hvalue, p, byte, rfl, by rwa [hu]⟩

/-- **The loop of `CalcCluster`**, from the node at place `i` on: if the list is one of the chain it
indexes that exactly where the entries can be told, and it only ever gets longer. -/
theorem calcClusterLoop_served {left i cluster : ℕ} {cs : Clusters} {buf : Buffers.SectorPtr}
    {content : SectorBuf} {own : List Page} (hcluster : cs.val[i]? = some cluster)
    (hleft : i + left = q) (hbuf : Owns L buf content own) (h : Holding L m₀ own st.1) :
    Lib.Asks.Served (calcClusterLoop L d fat left i cluster cs buf) st
      (fun r t => (cs.val <+: r.2.val ∧ (Cached d fat root cs.val →
        (Indexes d fat root q cs r ↔ fat.EntriesRight d root cs.val.length q))) ∧
        Holding L m₀ [] t)
      (NoRoom m₀ cs.heap (q + 1 - cs.val.length)) := by
  induction left generalizing i cluster cs buf content own st with
  | zero =>
    obtain rfl : i = q := hleft
    obtain ⟨hi, hnode⟩ := List.getElem?_eq_some_iff.mp hcluster
    rw [calcClusterLoop]
    refine (freeAny_served hbuf h).bind fun _ t ht => Lib.Asks.served_pure
      ⟨⟨List.prefix_refl _, fun hc => iff_of_true ?_ fun j hj hjq => by omega⟩, ht⟩
    rw [← hnode, hc.val hi]
    exact hc.indexes hi
  | succ left ih =>
    obtain ⟨hi, hnode⟩ := List.getElem?_eq_some_iff.mp hcluster
    rw [calcClusterLoop]
    rcases hnext : cs.val[i + 1]? with - | val
    · have hlen : cs.val.length = i + 1 := by
        have hle := List.getElem?_eq_none_iff.mp hnext
        omega
      refine (freeAny_served hbuf h).bind fun _ t ht => Lib.Asks.Served.bind
        ((loadEntry_served ht cluster).mono (fun _ _ hr => hr) fun f hf => ⟨hf.1, .inl hf.2⟩) ?_
      rintro ⟨buf', val⟩ u ⟨hval, p, byte, hbuf', hu⟩
      dsimp only at hval hbuf' hu ⊢
      subst hval hbuf'
      have hlast : Cached d fat root cs.val → cluster = fat.chain d root i :=
        fun hc => hnode ▸ hc.val hi
      split_ifs with hvalid
      · -- a node more, and a page less for the nodes that are to come
        refine (Lib.Asks.served_lift ⟨(push_room cs _).ok, fun f hf => ?_⟩).bind ?_
        · obtain ⟨hpanic, hnone⟩ := (push_room cs _).error f hf
          exact ⟨hpanic.isPanic, .inr (by omega)⟩
        · rintro cs' v ⟨⟨hlist, hheap⟩, hv⟩
          have hlen' : cs'.val.length = cs.val.length + 1 := by rw [hlist]; exact List.length_append
          have hnode' : cs'.val[i + 1]? = some (fat.entry d cluster) := by
            rw [hlist, ← hlen, List.getElem?_concat_length]
          refine (ih hnode' (by omega) (.page p byte) (hv ▸ hu)).mono ?_ ?_
          · rintro r w ⟨⟨hgrown, hindexes⟩, hw⟩
            refine ⟨⟨(hlist ▸ List.prefix_append _ _).trans hgrown, fun hc => ?_⟩, hw⟩
            rw [hlast hc] at hvalid hlist
            exact indexes_of_pushed hc hlen (by omega) hvalid hlist hgrown hindexes
          · rintro f ⟨hpanic, hfull⟩
            exact ⟨hpanic, hfull.imp_right fun hfew => by omega⟩
      · -- what the entry says is not a cluster
        refine (freeAny_served (.page p byte) hu).bind fun _ v hv => Lib.Asks.served_pure
          ⟨⟨List.prefix_refl _, fun hc => ?_⟩, hv⟩
        rw [hlast hc] at hvalid
        exact indexes_of_ended hc hlen (by omega) hvalid
    · -- the list goes on
      exact ih hnext (by omega) hbuf h

/-- **`CalcCluster` indexes the chain**: it returns the cluster of the offset if there are clusters
as far as that, and `kBadCluster` if not. What it has added to the list are clusters of the chain,
and each page that it has taken has been given back once. Only the pages can run out, where the
card delivers each sector of the table. -/
def IndexesChain (L : Layout) (d : Mmc) (fat : Volume) (root : ℕ) (s : Clusters) (offset : ℕ)
    (region : RegionMap) (log : List ℕ) : Prop :=
  Lib.Asks.Served (calcCluster L d fat s offset) (⟨region, []⟩, log)
    (fun r t => Indexes d fat root (offset / (fat.BPB_SecPerClus * kBlockSize)) s r ∧
      Returned region t)
    (NoRoom region s.heap (offset / (fat.BPB_SecPerClus * kBlockSize) + 1 - s.val.length))

/-- `CalcCluster` indexes the chain if the entries can be told, and only then when it returns. -/
theorem calcCluster_served (L : Layout) (h : Cached d fat root s.val) (offset : ℕ)
    (region : RegionMap) (log : List ℕ) :
    Lib.Asks.Served (calcCluster L d fat s offset) (⟨region, []⟩, log)
      (fun r t => (Indexes d fat root (offset / (fat.BPB_SecPerClus * kBlockSize)) s r ↔
          fat.EntriesRight d root s.val.length (offset / (fat.BPB_SecPerClus * kBlockSize))) ∧
        Returned region t)
      (NoRoom region s.heap
        (offset / (fat.BPB_SecPerClus * kBlockSize) + 1 - s.val.length)) := by
  have hnode : s.val[0]? = some root := List.head?_eq_getElem? ▸ h.starts
  rw [calcCluster, h.starts, Option.elim_some, fat.bytsPerSec]
  exact (calcClusterLoop_served hnode (Nat.zero_add _) .null
    ⟨Buffers.ledger_refl region, rfl⟩).mono
      (fun _ _ hr => ⟨hr.1.2 h, hr.2.returned⟩) fun _ hf => hf

/-- **`CalcCluster` indexes the chain exactly where the entries can be told**, whatever the table
says and as far as the list goes, and in the second part, as there is room for what it takes. -/
theorem calcCluster_indexes_iff (L : Layout) (d : Mmc) (fat : Volume) {root : ℕ} {s : Clusters}
    (h : Cached d fat root s.val) (offset : ℕ) (region : RegionMap) (log : List ℕ) :
    (fat.EntriesRight d root s.val.length (offset / (fat.BPB_SecPerClus * kBlockSize)) →
      IndexesChain L d fat root s offset region log) ∧
    ((∃ p : Page, (region p).ref_count = 0) →
      offset / (fat.BPB_SecPerClus * kBlockSize) + 1 ≤ s.val.length + freePages s.heap →
      IndexesChain L d fat root s offset region log →
      fat.EntriesRight d root s.val.length (offset / (fat.BPB_SecPerClus * kBlockSize))) := by
  have hserved := calcCluster_served L h offset region log
  refine ⟨fun hright => hserved.mono (fun r t hr => ⟨hr.1.mpr hright, hr.2⟩) fun _ hf => hf, ?_⟩
  rintro ⟨p, hp⟩ hroom hindexes
  rcases hr : (calcCluster L d fat s offset Lib.Asks.always (⟨region, []⟩, log)).1 with e | r
  · obtain ⟨f, -, -, hfull⟩ := hserved.error e hr
    rcases hfull with hfull | hfew
    · exact absurd hp (hfull p)
    · omega
  · exact (hserved.ok r hr).1.mp (hindexes.ok r hr).1

/-- The list that the handle of a file starts with, whose first cluster is 3. -/
theorem cached_three (d : Mmc) (fat : Volume) : Cached d fat 3 [3] := by
  refine ⟨rfl, fun c hc => ?_, .singleton 3⟩
  rw [List.mem_singleton.mp hc]
  decide

/-! ### A table behind 4 GiB -/

end Traced

/-- A card with a volume whose table starts at 4 GiB; it says that cluster 4 follows cluster 3. -/
def Mmc.farTable : Mmc :=
  .ofList ([(450, 0x0c), (454, 0xe0), (455, 0xff), (456, 0x7f), (510, 0x55), (511, 0xaa)] ++
    bootSector (kBlockSize * 0x7fffe0) 8 32 ++
    bytesAt (2 ^ 32 + 3 * 4) [4, 0, 0, 0] ++ bytesAt (2 ^ 32 + 4 * 4) [0xff, 0xff, 0xff, 0x0f])

/-- Its volume. -/
def Volume.farTable : Volume := { Volume.eightSectors with
  first_lba := 0x7fffe0
  first_lba_lt := by decide }

theorem accepted_farTable : Accepted .farTable .farTable :=
  ⟨.qemu, fun _ => false, _, rfl, _, rfl, [2], .head _⟩

/-- The entry of cluster 3 is at 4 GiB and 12 bytes; in its place the master boot record is read. -/
theorem not_entryRight_farTable : ¬Volume.farTable.EntryRight .farTable 3 := by
  rintro (hlisted | hsame)
  · exact absurd hlisted (by decide : ¬0x7fffe0 + 32 + 3 * 4 / 512 < 2 ^ 23)
  · exact absurd hsame (by decide +kernel)

/-- The table has a second cluster. -/
theorem goesOn_farTable : Volume.farTable.GoesOn .farTable 3 2 := by
  intro i hi
  interval_cases i
  · decide
  · decide +kernel

namespace Traced

/-- The second cluster of a file of two is found; on a card whose table starts at 4 GiB it is
not. -/
theorem calcCluster_indexes_iff_two_clusters :
    IndexesChain .qemu .twoClusters .eightSectors 3 ⟨[3], fun _ => false⟩ 5000 .zero [] ∧
    ¬IndexesChain .qemu .farTable .farTable 3 ⟨[3], fun _ => false⟩ 5000 .zero [] := by
  constructor
  · refine (calcCluster_indexes_iff .qemu .twoClusters .eightSectors (s := ⟨[3], fun _ => false⟩)
      (cached_three ..) 5000 .zero []).1 (entriesRight_of_listed fun j hj _ => ?_)
    obtain rfl : j = 0 := Nat.lt_one_iff.mp hj
    exact (by decide : 2048 + 32 + 3 * 4 / 512 < 2 ^ 23)
  · intro h
    have hright := (calcCluster_indexes_iff .qemu .farTable .farTable
      (s := ⟨[3], fun _ => false⟩) (cached_three ..) 5000 .zero []).2
      ⟨⟨0, by decide⟩, rfl⟩ (by rw [freePages_free]; decide) h
    rcases hright 0 le_rfl Nat.one_pos (goesOn_farTable.mono (by decide)) (by simp) with
      htold | ⟨-, hends⟩
    · exact not_entryRight_farTable htold
    · exact hends goesOn_farTable

/-- **The second cluster is not found** where the table starts at 4 GiB. -/
theorem calcCluster_reads_elsewhere : ¬∀ (L : Layout) (d : Mmc) (fat : Volume), Accepted d fat →
    ∀ (root : ℕ) (s : Clusters), Cached d fat root s.val → ∀ (offset : ℕ) (region : RegionMap)
      (log : List ℕ), IndexesChain L d fat root s offset region log := by
  intro h
  have hindexes := h .qemu .farTable .farTable accepted_farTable 3 ⟨[3], fun _ => false⟩
    (cached_three ..) 4096 .zero []
  have hreturns : ∃ r, (calcCluster .qemu .farTable .farTable ⟨[3], fun _ => false⟩ 4096
      Lib.Asks.always (⟨.zero, []⟩, [])).1 = .ok r ∧ r.1 = kBadCluster :=
    ⟨_, rfl, rfl⟩
  obtain ⟨r, hr, hbad⟩ := hreturns
  have hfound : r.1 = Volume.farTable.chain .farTable 3 1 :=
    (hindexes.ok r hr).1.found goesOn_farTable
  exact not_isValidCluster_bad (hbad ▸ hfound ▸ goesOn_farTable 1 (by decide))

end Traced

end Fat32Fs

end Evisor
