import Evisor.Fs.Fat.Buffers

/-!
# A card that fails

What `Init`, `Open` and `Read` do when the card does not deliver what they ask it for. None of
them looks at the pointer it gets, so that the first failure is one too many: a null pointer is
followed (`Evisor.Fat32Fs.Buffers.disk_errors_iff`). As long as the card delivers they do what they
do without buffers, and every page of the uncached region that they take they give back.

The pages that they have at a time are kept in a ledger (`Evisor.Fat32Fs.Buffers.Ledger`).
-/

namespace Evisor

namespace Fat32Fs

namespace Buffers

/-! ### The pages that are taken -/

/-- A page of the uncached region, by its place. -/
abbrev Page := Fin kRegionPageNums

/-- **The pages that have been taken** since the region was `m₀`, and not given back. -/
structure Ledger (m₀ m : RegionMap) (pages : List Page) : Prop where
  nodup : pages.Nodup
  taken : ∀ p ∈ pages, m p = ⟨1, 1⟩ ∧ (m₀ p).ref_count = 0
  other : ∀ p ∉ pages, (m p).ref_count = 0 ↔ (m₀ p).ref_count = 0

/-- The address of a page. -/
def pageAddr (L : Layout) (p : Page) : ℕ := (L.kUncachedStart + p.val * PAGE_SIZE) % 2 ^ 64

/-- The map with a page that is taken. -/
def take (m : RegionMap) (p : Page) : RegionMap := fun q => if q = p then ⟨1, 1⟩ else m q

variable {L : Layout} {d : Mmc} {fat : Volume} {m₀ m : RegionMap} {pages : List Page} {p : Page}

/-- Two maps that agree on which pages are live. -/
theorem ledger_refl (m : RegionMap) : Ledger m m [] :=
  ⟨List.nodup_nil, fun p hp => (by cases hp), fun _ _ => Iff.rfl⟩

/-- The order in which pages have been taken does not matter. -/
theorem Ledger.perm {pages' : List Page} (h : Ledger m₀ m pages) (hp : pages.Perm pages') :
    Ledger m₀ m pages' :=
  ⟨hp.nodup_iff.mp h.nodup, fun q hq => h.taken q (hp.mem_iff.mpr hq),
    fun q hq => h.other q fun hmem => hq (hp.mem_iff.mp hmem)⟩

/-- A page that is free is taken. -/
theorem Ledger.take (h : Ledger m₀ m pages) (hfree : (m p).ref_count = 0) :
    Ledger m₀ (take m p) (p :: pages) := by
  have hnew : p ∉ pages := by
    intro hp
    rw [(h.taken p hp).1] at hfree
    exact absurd hfree (by decide)
  refine ⟨List.nodup_cons.mpr ⟨hnew, h.nodup⟩, fun q hq => ?_, fun q hq => ?_⟩
  · by_cases hqp : q = p
    · subst hqp
      exact ⟨if_pos rfl, (h.other q hnew).mp hfree⟩
    · obtain ⟨hm, h₀⟩ := h.taken q ((List.mem_cons.mp hq).resolve_left hqp)
      exact ⟨(if_neg hqp).trans hm, h₀⟩
  · rw [List.mem_cons, not_or] at hq
    obtain ⟨hqp, hq⟩ := hq
    rw [Buffers.take, if_neg hqp]
    exact h.other q hq

/-- It is given back. -/
theorem Ledger.put (h : Ledger m₀ m (p :: pages)) : Ledger m₀ (m.put p ⟨0, 0⟩) pages := by
  obtain ⟨hp, hnodup⟩ := List.nodup_cons.mp h.nodup
  have hput : ∀ q, q ≠ p → m.put p ⟨0, 0⟩ q = m q := fun q hq => if_neg fun hv => hq (Fin.ext hv)
  refine ⟨hnodup, fun q hq => ?_, fun q hq => ?_⟩
  · rw [hput q fun hqp => hp (hqp ▸ hq)]
    exact h.taken q (List.mem_cons_of_mem _ hq)
  · by_cases hqp : q = p
    · subst hqp
      have hzero : m.put q ⟨0, 0⟩ q = ⟨0, 0⟩ := if_pos rfl
      rw [hzero]
      exact iff_of_true rfl (h.taken q List.mem_cons_self).2
    · rw [hput q hqp]
      exact h.other q fun hmem => (List.mem_cons.mp hmem).elim hqp hq

/-- **`kmm_uncached_malloc` of a page** takes one that is free. -/
theorem malloc_page {va : ℕ} {m' : RegionMap}
    (h : kmmUncachedMalloc L.kUncachedStart m PAGE_SIZE = .ok (va, m')) :
    ∃ p : Page, (m p).ref_count = 0 ∧ va = pageAddr L p ∧ m' = take m p := by
  have hone : numPages PAGE_SIZE = 1 := by decide
  by_cases hfits : Uncached.Fits m (numPages PAGE_SIZE)
  · obtain ⟨i, hi, hrun, hok⟩ := Uncached.malloc_of_fits L.kUncachedStart hfits
    rw [hok, hone] at h
    rw [hone] at hrun
    obtain ⟨hva, hm⟩ := Prod.mk.inj (Except.ok.inj h)
    obtain ⟨hin, hfree⟩ := hrun 0 Nat.one_pos
    obtain ⟨p, rfl⟩ : ∃ p : Page, p.val = i := ⟨⟨i, hi⟩, rfl⟩
    have hzero : (m p).ref_count = 0 := hfree
    refine ⟨p, hzero, hva.symm, ?_⟩
    rw [← hm]
    funext q
    by_cases hq : q = p
    · subst hq
      rw [Uncached.marked_of_mem ⟨le_rfl, Nat.lt_succ_self q.val⟩, take, if_pos rfl, hzero]
      rfl
    · rw [take, if_neg hq, Uncached.marked_of_not_mem]
      rintro ⟨hle, hlt⟩
      exact hq (Fin.ext (by omega))
  · by_cases hlast : Uncached.Used m (kRegionPageNums - 1)
    · rw [(Uncached.malloc_of_not_fits L.kUncachedStart hfits).1 hlast] at h
      cases h
    · rw [(Uncached.malloc_of_not_fits L.kUncachedStart hfits).2 hlast] at h
      cases h

/-- **`kmm_uncached_free` of a page** gives it back. -/
theorem free_page (h : m p = ⟨1, 1⟩) :
    kmmUncachedFree L.kUncachedStart m (pageAddr L p) = .ok (m.put p ⟨0, 0⟩) := by
  rw [kmmUncachedFree, pageAddr, Uncached.pageIdx_paddr L.kUncachedStart p.2,
    Uncached.get_of_lt p.2, Lib.ok_bind, Uncached.unmark_eq p.2, Fin.eta, h]
  rfl

/-! ### Pages that are held -/

/-- **A pointer to a page that is held**, and what the page holds; or a null pointer. -/
inductive Owns (L : Layout) : SectorPtr → SectorBuf → List Page → Prop where
  | null : Owns L none none []
  | page (p : Page) (byte : ℕ → ℕ) : Owns L (some (pageAddr L p, byte)) (some byte) [p]

/-- What is returned is the same, and the pages taken are these. -/
def Keeps (m₀ : RegionMap) (pages : List Page) {α : Type} (a c : α) (m : RegionMap) : Prop :=
  a = c ∧ Ledger m₀ m pages

variable {s : RegionMap × List ℕ} {buf : SectorPtr} {content : SectorBuf} {own : List Page}

theorem strict_free (h : Ledger m₀ s.1 (p :: pages)) (byte : ℕ → ℕ) :
    Lib.Asks.Strict nonempty (free L (some (pageAddr L p, byte))) s (.ok ())
      fun _ _ m => Ledger m₀ m pages := by
  rw [free]
  refine Lib.Asks.strict_change fun a t ht => ?_
  rw [free_page (h.taken p List.mem_cons_self).1] at ht
  rw [← (Prod.mk.inj (Except.ok.inj ht)).2]
  exact h.put

theorem strict_freeAny (hbuf : Owns L buf content own) (h : Ledger m₀ s.1 (own ++ pages)) :
    Lib.Asks.Strict nonempty (freeAny L buf) s (.ok ()) fun _ _ m => Ledger m₀ m pages := by
  cases hbuf with
  | null => exact Lib.Asks.strict_pure h
  | page p byte => exact strict_free h byte

variable (d) in
/-- Reading sectors, and then from them, without a page to read into. -/
def loadPlain (lba sector_num offset n : ℕ) : Except Fault (SectorBuf × (ℕ → ℕ)) := do
  let buf ← Fat32Fs.readSector d lba sector_num
  let byte ← readBuf buf offset n
  return (buf, byte)

theorem loadPlain_bind {α : Type} {lba sector_num offset n : ℕ}
    (k : SectorBuf → (ℕ → ℕ) → Except Fault α) :
    (Fat32Fs.readSector d lba sector_num >>= fun buf => readBuf buf offset n >>= fun byte =>
      k buf byte) = loadPlain d lba sector_num offset n >>= fun r => k r.1 r.2 := by
  rw [loadPlain]
  cases Fat32Fs.readSector d lba sector_num with
  | error f => rfl
  | ok buf =>
    rw [Lib.ok_bind, Lib.ok_bind]
    cases readBuf buf offset n with
    | error f => rfl
    | ok byte => rfl

/-- **A sector is read** into a page that is taken for it. -/
theorem strict_load {lba sector_num offset n : ℕ} (h : Ledger m₀ s.1 pages) :
    Lib.Asks.Strict nonempty (load L d lba sector_num offset n) s
      (loadPlain d lba sector_num offset n) fun r c m => r.2 = c.2 ∧
        ∃ p byte, r.1 = some (pageAddr L p, byte) ∧ c.1 = some byte ∧
          Ledger m₀ m (p :: pages) := by
  rw [load, loadPlain, readSector, Lib.Asks.bind_assoc]
  refine Lib.Asks.Strict.seq (c := ()) (Q := fun va _ m => ∃ p, va = pageAddr L p ∧
    Ledger m₀ m (p :: pages)) (Lib.Asks.strict_change fun va t ht => ?_) ?_
  · obtain ⟨p, hfree, rfl, rfl⟩ := malloc_page ht
    exact ⟨p, rfl, h.take hfree⟩
  rintro va t ⟨p, rfl, ht⟩
  rw [Lib.Asks.bind_assoc]
  refine Lib.Asks.strict_lift_bind fun a hread => ?_
  rw [Lib.Asks.bind_assoc]
  refine Lib.Asks.strict_ask (fun _ _ => ⟨rfl, rfl⟩) fun hsize => ?_
  -- what is not empty has been delivered
  obtain ⟨byte, rfl⟩ : ∃ byte, a = some byte := by
    have hle := of_decide_eq_true hsize
    rw [Fat32Fs.readSector, if_neg (by omega)] at hread
    split at hread
    · cases hread
    · exact ⟨_, (Except.ok.inj hread).symm⟩
  refine Lib.Asks.strict_lift_bind (y := readBuf (some byte) offset n) fun b _ => ?_
  exact Lib.Asks.strict_pure ⟨rfl, p, byte, rfl, rfl, ht⟩

/-! ### What each function does -/

theorem strict_loadEntry (h : Ledger m₀ s.1 pages) (cluster : ℕ) :
    Lib.Asks.Strict nonempty (loadEntry L d fat cluster) s (fatEntry d fat cluster)
      fun r c m => r.2 = c ∧ ∃ p byte, r.1 = some (pageAddr L p, byte) ∧
        Ledger m₀ m (p :: pages) := by
  rw [loadEntry, fatEntry]
  dsimp only
  rw [loadPlain_bind]
  refine (strict_load h).bind ?_
  rintro ⟨buf, byte⟩ ⟨buf', byte'⟩ t - ⟨rfl, p, bytes, rfl, rfl, ht⟩
  exact Lib.Asks.strict_pure ⟨rfl, p, bytes, rfl, ht⟩

theorem strict_calcClusterLoop {left i cluster : ℕ} {cs : Clusters}
    (hbuf : Owns L buf content own) (h : Ledger m₀ s.1 (own ++ pages)) :
    Lib.Asks.Strict nonempty (calcClusterLoop L d fat left i cluster cs buf) s
      (Fat32Fs.calcClusterLoop L d fat left i cluster cs) (Keeps m₀ pages) := by
  induction left generalizing i cluster cs s buf content own with
  | zero =>
    rw [calcClusterLoop, Fat32Fs.calcClusterLoop]
    exact (strict_freeAny hbuf h).seq fun _ _ ht => Lib.Asks.strict_pure ⟨rfl, ht⟩
  | succ left ih =>
    rw [calcClusterLoop, Fat32Fs.calcClusterLoop]
    cases cs.val[i + 1]? with
    | some val => exact ih hbuf h
    | none =>
      -- the page of the pass before is given back, and the new one is kept for the next
      refine (strict_freeAny hbuf h).seq fun _ t ht => (strict_loadEntry ht cluster).bind ?_
      rintro ⟨buf, val⟩ c u - ⟨rfl, p, byte, rfl, hu⟩
      dsimp only
      by_cases hvalid : isValidCluster val
      · rw [if_pos hvalid, if_pos hvalid]
        exact Lib.Asks.strict_lift_bind fun _ _ => ih (.page p byte) hu
      · rw [if_neg hvalid, if_neg hvalid]
        exact (strict_freeAny (.page p byte) hu).seq fun _ _ hw => Lib.Asks.strict_pure ⟨rfl, hw⟩

theorem strict_calcCluster {cs : Clusters} {offset : ℕ} (h : Ledger m₀ s.1 pages) :
    Lib.Asks.Strict nonempty (calcCluster L d fat cs offset) s
      (Fat32Fs.calcCluster L d fat cs offset) (Keeps m₀ pages) := by
  rw [calcCluster, Fat32Fs.calcCluster]
  cases cs.val with
  | nil => exact Lib.Asks.strict_lift fun _ hnone => (by cases hnone)
  | cons cluster rest => exact strict_calcClusterLoop .null h

theorem strict_calcNextCluster {cs : Clusters} {node : Option ℕ} (h : Ledger m₀ s.1 pages) :
    Lib.Asks.Strict nonempty (calcNextCluster L d fat cs node) s
      (Fat32Fs.calcNextCluster L d fat cs node) (Keeps m₀ pages) := by
  rw [calcNextCluster.eq_def, Fat32Fs.calcNextCluster.eq_def]
  cases node with
  | none => exact Lib.Asks.strict_lift fun _ hnone => (by cases hnone)
  | some i =>
    dsimp only
    cases cs.val[i]? with
    | none => exact Lib.Asks.strict_lift fun _ hnone => (by cases hnone)
    | some val =>
      cases cs.val[i + 1]? with
      | some next_cluster => exact Lib.Asks.strict_pure ⟨rfl, h⟩
      | none =>
        dsimp only
        refine (strict_loadEntry h val).bind ?_
        rintro ⟨buf, next_cluster⟩ c t - ⟨rfl, p, byte, rfl, ht⟩
        refine (strict_free ht byte).seq fun _ u hu => ?_
        exact Lib.Asks.strict_lift_bind fun _ _ => Lib.Asks.strict_pure ⟨rfl, hu⟩

theorem strict_calcNextSector {cs : Clusters} {sector : ℕ} {node : Option ℕ}
    (h : Ledger m₀ s.1 pages) :
    Lib.Asks.Strict nonempty (calcNextSector L d fat cs sector node) s
      (Fat32Fs.calcNextSector L d fat cs sector node) (Keeps m₀ pages) := by
  rw [calcNextSector, Fat32Fs.calcNextSector]
  by_cases hbound : sector % fat.BPB_SecPerClus ≠ fat.BPB_SecPerClus - 1
  · rw [if_pos hbound, if_pos hbound]
    exact Lib.Asks.strict_pure ⟨rfl, h⟩
  · rw [if_neg hbound, if_neg hbound]
    refine (strict_calcNextCluster h).bind ?_
    rintro ⟨next_cluster, cs'⟩ _ t - ⟨rfl, ht⟩
    exact Lib.Asks.strict_pure ⟨rfl, ht⟩

/-! ### Reading -/

theorem strict_readPass {v : ReadVars} (h : Ledger m₀ s.1 pages) :
    Lib.Asks.Strict nonempty (readPass L d fat v) s (Fat32Fs.readPass L d fat v)
      (Keeps m₀ pages) := by
  have hplain : Fat32Fs.readPass L d fat v =
      (loadPlain d (v.access fat).lba (v.access fat).sector_num v.sector_offset
        (v.access fat).copy_len >>= fun r =>
        Fat32Fs.calcNextSector L d fat v.clusters v.sector v.cluster_list >>= fun q =>
        q.2.next v.cluster_list >>= fun node => .ok {
          out := v.out ++ (List.range (v.access fat).copy_len).map r.2
          remains := v.remains - (v.access fat).copy_len
          sector := q.1
          cluster_list := node
          clusters := q.2
          sector_offset := 0 }) := by
    rw [Fat32Fs.readPass, transfer_eq, loadPlain]
    cases Fat32Fs.readSector d (v.access fat).lba (v.access fat).sector_num with
    | error f => rfl
    | ok buf =>
      simp only [Lib.ok_bind, Lib.pure_eq_ok]
      cases readBuf buf v.sector_offset (v.access fat).copy_len with
      | error f => rfl
      | ok byte => rfl
  rw [hplain, readPass]
  refine (strict_load h).bind ?_
  rintro ⟨buf, byte⟩ ⟨buf', byte'⟩ t - ⟨rfl, p, bytes, rfl, -, ht⟩
  refine (strict_free ht bytes).seq fun _ u hu => (strict_calcNextSector hu).bind ?_
  rintro ⟨sector, cs⟩ _ w - ⟨rfl, hw⟩
  exact Lib.Asks.strict_lift_bind fun _ _ => Lib.Asks.strict_pure ⟨rfl, hw⟩

theorem strict_readLoop {cluster fuel : ℕ} {v : ReadVars} (h : Ledger m₀ s.1 pages) :
    Lib.Asks.Strict nonempty (readLoop L d fat cluster fuel v) s
      (Fat32Fs.readLoop L d fat cluster fuel v) (Keeps m₀ pages) := by
  induction fuel generalizing v s with
  | zero => exact Lib.Asks.strict_lift fun _ _ => ⟨rfl, h⟩
  | succ fuel ih =>
    rw [readLoop, Fat32Fs.readLoop]
    by_cases hgo : 0 < v.remains ∧ isValidCluster cluster
    · rw [if_pos hgo, if_pos hgo]
      refine (strict_readPass h).bind ?_
      rintro v' _ t - ⟨rfl, ht⟩
      exact ih ht
    · rw [if_neg hgo, if_neg hgo]
      exact Lib.Asks.strict_pure ⟨rfl, h⟩

/-- **`Read`** is strict, and gives its pages back. -/
theorem strict_read {size offset len : ℕ} {cs : Clusters} (h : Ledger m₀ s.1 pages) :
    Lib.Asks.Strict nonempty (read L d fat size cs offset len) s
      (Fat32Fs.read L d fat size cs offset len) (Keeps m₀ pages) := by
  rw [read, Fat32Fs.read]
  by_cases hle : size < (offset + len) % 2 ^ 64
  · rw [if_pos hle, if_pos hle]
    exact Lib.Asks.strict_pure ⟨rfl, h⟩
  · rw [if_neg hle, if_neg hle]
    refine (strict_calcCluster h).bind ?_
    rintro ⟨cluster, cs'⟩ _ t - ⟨rfl, ht⟩
    refine Lib.Asks.strict_lift_bind fun _ _ => (strict_readLoop ht).bind ?_
    rintro v _ w - ⟨rfl, hw⟩
    exact Lib.Asks.strict_pure ⟨rfl, hw⟩

/-! ### Finding the volumes -/

theorem strict_initVolume {first_lba : ℕ} {heap : HeapMap} (h : Ledger m₀ s.1 pages) :
    Lib.Asks.Strict nonempty (initVolume L d first_lba heap) s
      (Fat32Fs.initVolume L d first_lba heap) (Keeps m₀ pages) := by
  rw [initVolume, Fat32Fs.initVolume, loadPlain_bind]
  refine (strict_load h).bind ?_
  rintro ⟨buf, byte⟩ ⟨buf', byte'⟩ t - ⟨rfl, p, bytes, rfl, -, ht⟩
  refine (strict_free ht bytes).seq fun _ u hu => Lib.Asks.strict_lift_bind fun _ _ => ?_
  dsimp only
  by_cases hvalid : (Bpb.load byte).Valid
  · rw [dif_pos hvalid, dif_pos hvalid]
    exact Lib.Asks.strict_lift_bind fun _ _ => Lib.Asks.strict_pure ⟨rfl, hu⟩
  · rw [dif_neg hvalid, dif_neg hvalid]
    exact Lib.Asks.strict_pure ⟨rfl, hu⟩

theorem strict_initVolumes {first_lba : ℕ} {valid : List Bool} {heap : HeapMap}
    (h : Ledger m₀ s.1 pages) :
    Lib.Asks.Strict nonempty (initVolumes L d first_lba valid heap) s
      (Fat32Fs.initVolumes L d first_lba valid heap) (Keeps m₀ pages) := by
  induction valid generalizing heap s with
  | nil => exact Lib.Asks.strict_pure ⟨rfl, h⟩
  | cons v rest ih =>
    cases v with
    | true =>
      refine (strict_initVolume h).bind ?_
      rintro ⟨root, heap'⟩ _ t - ⟨rfl, ht⟩
      refine (ih ht).bind ?_
      rintro ⟨roots, heap''⟩ _ u - ⟨rfl, hu⟩
      exact Lib.Asks.strict_pure ⟨rfl, hu⟩
    | false =>
      refine (ih h).bind ?_
      rintro ⟨roots, heap'⟩ _ t - ⟨rfl, ht⟩
      exact Lib.Asks.strict_pure ⟨rfl, ht⟩

/-- **`Init`** is strict, and gives its pages back. -/
theorem strict_init {heap : HeapMap} (h : Ledger m₀ s.1 pages) :
    Lib.Asks.Strict nonempty (init L d heap) s (Fat32Fs.init L d heap) (Keeps m₀ pages) := by
  rw [init, Fat32Fs.init, loadPlain_bind]
  refine (strict_load h).bind ?_
  rintro ⟨buf, byte⟩ ⟨buf', byte'⟩ t - ⟨rfl, p, bytes, rfl, -, ht⟩
  dsimp only
  by_cases hsig : member byte 510 2 ≠ kBootSignature
  · rw [if_pos hsig, if_pos hsig]
    exact (strict_free ht bytes).seq fun _ _ hu => Lib.Asks.strict_pure ⟨rfl, hu⟩
  · rw [if_neg hsig, if_neg hsig]
    refine (strict_free ht bytes).seq fun _ u hu => (strict_initVolumes hu).bind ?_
    rintro ⟨roots, heap'⟩ _ w - ⟨rfl, hw⟩
    exact Lib.Asks.strict_pure ⟨rfl, hw⟩

/-! ### Finding a file -/

/-- What is returned is the same, beside a pointer to the last page, which is held. -/
def Carries (L : Layout) (m₀ : RegionMap) (pages : List Page) (r : OpenVars × SectorPtr)
    (v : OpenVars) (m : RegionMap) : Prop :=
  r.1 = v ∧ ∃ own, Owns L r.2 v.prev_buf own ∧ Ledger m₀ m (own ++ pages)

theorem strict_openPass {filename : List ℕ} {v : OpenVars} (hbuf : Owns L buf v.prev_buf own)
    (h : Ledger m₀ s.1 (own ++ pages)) :
    Lib.Asks.Strict nonempty (openPass L d fat filename v buf) s
      (Fat32Fs.openPass L d fat filename v) (Carries L m₀ pages) := by
  rw [openPass, Fat32Fs.openPass, loadPlain_bind]
  refine (strict_load h).bind ?_
  rintro ⟨buf', byte⟩ ⟨buf'', byte'⟩ t - ⟨rfl, p, bytes, rfl, rfl, ht⟩
  refine Lib.Asks.strict_lift_bind fun r _ => ?_
  -- the page before is given back while the new one is held
  have hswap : Ledger m₀ t.1 (own ++ p :: pages) := ht.perm List.perm_middle.symm
  refine (strict_freeAny hbuf hswap).seq fun _ w hw => (strict_calcNextSector hw).bind ?_
  rintro ⟨sector, cs⟩ _ x - ⟨rfl, hx⟩
  refine Lib.Asks.strict_lift_bind fun _ _ => Lib.Asks.strict_lift_bind fun _ _ => ?_
  exact Lib.Asks.strict_pure ⟨rfl, [p], .page p bytes, hx⟩

theorem strict_openLoop {filename : List ℕ} {fuel : ℕ} {v : OpenVars}
    (hbuf : Owns L buf v.prev_buf own) (h : Ledger m₀ s.1 (own ++ pages)) :
    Lib.Asks.Strict nonempty (openLoop L d fat filename fuel v buf) s
      (Fat32Fs.openLoop L d fat filename fuel v) (Carries L m₀ pages) := by
  induction fuel generalizing v s buf own with
  | zero =>
    rw [openLoop, Fat32Fs.openLoop]
    by_cases hgo : v.found = none ∧ isValidCluster v.cluster
    · rw [if_pos hgo, if_pos hgo]
      refine Lib.Asks.strict_of_silent (e := .error (some .outOfFuel)) (t := s.1) (fun _ => rfl)
        (fun hnone => (by cases hnone)) fun a ha => (by cases ha)
    · rw [if_neg hgo, if_neg hgo]
      exact Lib.Asks.strict_pure (a := (v, buf)) ⟨rfl, own, hbuf, h⟩
  | succ fuel ih =>
    rw [openLoop, Fat32Fs.openLoop]
    by_cases hgo : v.found = none ∧ isValidCluster v.cluster
    · rw [if_pos hgo, if_pos hgo]
      refine (strict_openPass hbuf h).bind ?_
      rintro ⟨v', buf'⟩ _ t - ⟨rfl, own', hbuf', ht⟩
      exact ih hbuf' ht
    · rw [if_neg hgo, if_neg hgo]
      exact Lib.Asks.strict_pure ⟨rfl, own, hbuf, h⟩

/-- **`Open`** is strict, and gives its pages back. -/
theorem strict_openFile {filename : List ℕ} {os : OpenState} (h : Ledger m₀ s.1 pages) :
    Lib.Asks.Strict nonempty (openFile L d fat filename os) s
      (Fat32Fs.openFile L d fat filename os) (Keeps m₀ pages) := by
  rw [openFile, Fat32Fs.openFile]
  refine Lib.Asks.strict_lift_bind fun _ _ => (strict_openLoop .null h).bind ?_
  rintro ⟨v, buf⟩ _ u - ⟨rfl, own, hbuf, hu⟩
  exact (strict_freeAny hbuf hu).seq fun _ _ hw => Lib.Asks.strict_pure ⟨rfl, hw⟩

/-! ### What a failure does -/

section Failures

variable {α : Type}

/-- What a call asks a card for that delivers everything: numbers of sectors. -/
def transfers (x : DiskM α) (region : RegionMap) : List ℕ := (x Lib.Asks.always (region, [])).2.2

/-- The card delivers all of this: it does not fail, and is not asked for nothing. -/
def Delivered (answers : ℕ → Bool) (requests : List ℕ) : Prop :=
  Lib.Asks.Granted nonempty answers 0 requests

/-- **A call contains the failures of the card**: it follows and releases no null pointer to a page;
and if it returns, then having reported a failure, and with the pages that are live being those that
were live before. -/
structure Contained (x : DiskM α) (reports : α → Prop) (answers : ℕ → Bool)
    (region : RegionMap) : Prop where
  noNull : (x answers (region, [])).1 ≠ .error none
  reported : ∀ a, (x answers (region, [])).1 = .ok a →
    ¬Delivered answers (x answers (region, [])).2.2 → reports a
  balanced : ∀ a, (x answers (region, [])).1 = .ok a →
    ∀ p, ((x answers (region, [])).2.1 p).ref_count = 0 ↔ (region p).ref_count = 0

/-- **What is strict, and gives its pages back, contains no failure**, and all is well if there is
none. -/
theorem contained_iff {x : DiskM α} {y : Except Fault α} {region : RegionMap}
    (h : Lib.Asks.Strict nonempty x (region, []) y (Keeps region [])) (reports : α → Prop)
    (answers : ℕ → Bool) :
    Contained x reports answers region ↔ Delivered answers (transfers x region) := by
  constructor
  · intro hc
    by_contra hfail
    exact hc.noNull (h.stops answers hfail)
  · intro hall
    obtain ⟨hsame, hne⟩ := h.same answers hall
    rw [← hsame] at hne
    refine ⟨hne, fun a _ hfail => ?_, fun a ha p => ?_⟩
    · rw [hsame] at hfail
      exact absurd hall hfail
    · rw [hsame] at ha ⊢
      obtain ⟨c, -, -, hledger⟩ := h.ok a ha
      exact hledger.other p List.not_mem_nil

end Failures

/-- **`Init`, `Open` and `Read` contain the failures of the card exactly if there are none**, in any
state, and whatever is on the card. -/
theorem disk_errors_iff (L : Layout) (d : Mmc) (answers : ℕ → Bool) (region : RegionMap) :
    (∀ heap, Contained (init L d heap) (fun r => r.1 = none) answers region ↔
      Delivered answers (transfers (init L d heap) region)) ∧
    (∀ fat filename s,
      Contained (openFile L d fat filename s) (fun r => r.1 = none) answers region ↔
        Delivered answers (transfers (openFile L d fat filename s) region)) ∧
    ∀ fat size s offset len,
      Contained (read L d fat size s offset len) (fun r => r.ret < len) answers region ↔
        Delivered answers (transfers (read L d fat size s offset len) region) := by
  have hstart : Ledger region region [] := ledger_refl region
  exact ⟨fun heap => contained_iff (strict_init hstart) _ _,
    fun fat filename s => contained_iff (strict_openFile hstart) _ _,
    fun fat size s offset len => contained_iff (strict_read hstart) _ _⟩

example : transfers (init .qemu .oneFile fun _ => false) .zero = [1, 1] := by decide +kernel

/-- **A failure of the first transfer** makes `Init` follow a null pointer. -/
theorem init_follows_null : ¬∀ (L : Layout) (d : Mmc) (answers : ℕ → Bool) (region : RegionMap)
    (heap : HeapMap), Contained (init L d heap) (fun r => r.1 = none) answers region := by
  intro h
  refine (h .qemu .oneFile (fun _ => false) .zero fun _ => false).noNull ?_
  rfl

end Buffers

end Fat32Fs

end Evisor
