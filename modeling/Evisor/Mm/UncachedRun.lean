import Mathlib.Data.List.Perm.Basic
import Evisor.Mm.Uncached

/-!
# The uncached allocator and the blocks its caller holds

The region map is only right relative to the blocks that are out: every page of a
live block counts one reference and records the length of the block, and every
other page counts none (`Evisor.Uncached.Good`). This file runs the two calls
against that bookkeeping, from the map at boot and in any order the caller likes.

Two things break it. A block of two or more pages is released one page short of
all but the first (`Evisor.Uncached.not_good_of_free`), and a request nothing fits
is scanned past the end of the map when the last page of the region is free. A
step is *harmless* when it is neither (`Evisor.Uncached.Harmless`), and the
bookkeeping is right along a run exactly when every step of it is
(`Evisor.Uncached.good_iff_harmless`).
-/

namespace Evisor

namespace Uncached

variable (kUncachedStart : ℕ)

/-- A block the caller holds: the address it was given, and its length in pages. -/
structure Block where
  /-- The pointer returned by `kmm_uncached_malloc`. -/
  va : ℕ
  /-- The pages the request was rounded up to. -/
  pages : ℕ
  deriving DecidableEq

/-- Whether page `p` of the region belongs to the block. -/
def Block.Covers (b : Block) (p : Fin kRegionPageNums) : Prop :=
  pageIdx kUncachedStart b.va ≤ p.val ∧ p.val < pageIdx kUncachedStart b.va + b.pages

/-- The allocator, and the blocks that are out. -/
structure State where
  /-- The region map. -/
  map : RegionMap
  /-- The blocks handed out and not released yet. -/
  live : List Block

/-- The allocator at boot. -/
def State.boot : State := ⟨RegionMap.zero, []⟩

/-- A call of the allocator. -/
inductive Op where
  /-- `kmm_uncached_malloc(size)`. -/
  | malloc (size : ℕ)
  /-- `kmm_uncached_free` of a block's address. -/
  | free (b : Block)

/-- One call. -/
def step (s : State) : Op → Except Fault State
  | .malloc size => do
    let (va, m) ← kmmUncachedMalloc kUncachedStart s.map size
    return ⟨m, s.live ++ [⟨va, numPages size⟩]⟩
  | .free b => do
    let m ← kmmUncachedFree kUncachedStart s.map b.va
    return ⟨m, s.live.erase b⟩

/-- A call a caller may make: a request for at least one byte, or the release of a
block it holds. -/
def Legal (s : State) : Op → Prop
  | .malloc size => 1 ≤ size ∧ size < 2 ^ 64
  | .free b => b ∈ s.live

/-- **The bookkeeping is right**: a page of a live block counts one reference and
records the block's length, and every other page counts none. -/
structure Good (s : State) : Prop where
  /-- The pages of the live blocks. -/
  live_page : ∀ b ∈ s.live, ∀ p, b.Covers kUncachedStart p → s.map p = ⟨b.pages, 1⟩
  /-- All the others. -/
  other_page : ∀ p, (∀ b ∈ s.live, ¬b.Covers kUncachedStart p) → (s.map p).ref_count = 0

/-- **The calls that do no harm**: a request that fits, or one that nothing fits
while the last page is in use; and the release of a block of one page, or of an
empty block whose address is not that of a page in use. -/
def Harmless (s : State) : Op → Prop
  | .malloc size => Fits s.map (numPages size) ∨ Used s.map (kRegionPageNums - 1)
  | .free b => b.pages = 1 ∨ b.pages = 0 ∧ ¬Used s.map (pageIdx kUncachedStart b.va)

instance (s : State) : ∀ op, Decidable (Legal s op)
  | .malloc size => inferInstanceAs (Decidable (1 ≤ size ∧ size < 2 ^ 64))
  | .free b => inferInstanceAs (Decidable (b ∈ s.live))

instance (s : State) : ∀ op, Decidable (Harmless kUncachedStart s op)
  | .malloc size =>
    inferInstanceAs (Decidable (Fits s.map (numPages size) ∨ Used s.map (kRegionPageNums - 1)))
  | .free b => inferInstanceAs
    (Decidable (b.pages = 1 ∨ b.pages = 0 ∧ ¬Used s.map (pageIdx kUncachedStart b.va)))

/-- What a run of harmless calls keeps, beyond `Evisor.Uncached.Good`. -/
structure Inv (s : State) : Prop where
  /-- The pages of the live blocks. -/
  live_page : ∀ b ∈ s.live, ∀ p, b.Covers kUncachedStart p → s.map p = ⟨b.pages, 1⟩
  /-- A page of no block is as it was at boot. -/
  other_page : ∀ p, (∀ b ∈ s.live, ¬b.Covers kUncachedStart p) → s.map p = ⟨0, 0⟩
  /-- A live block starts and ends inside the region. -/
  inside : ∀ b ∈ s.live, pageIdx kUncachedStart b.va < kRegionPageNums ∧
    pageIdx kUncachedStart b.va + b.pages ≤ kRegionPageNums
  /-- Two live blocks share no page. -/
  disjoint : s.live.Pairwise fun b c => ∀ p, b.Covers kUncachedStart p → ¬c.Covers kUncachedStart p

/-- **What is always true of the blocks that are out**, whatever has been released: their
pages are theirs. -/
structure Held (s : State) : Prop where
  /-- The pages of the live blocks. -/
  live_page : ∀ b ∈ s.live, ∀ p, b.Covers kUncachedStart p → s.map p = ⟨b.pages, 1⟩
  /-- A live block starts and ends inside the region. -/
  inside : ∀ b ∈ s.live, pageIdx kUncachedStart b.va < kRegionPageNums ∧
    pageIdx kUncachedStart b.va + b.pages ≤ kRegionPageNums
  /-- Two live blocks share no page. -/
  disjoint : s.live.Pairwise fun b c => ∀ p, b.Covers kUncachedStart p → ¬c.Covers kUncachedStart p

variable {kUncachedStart} {s : State}

theorem Inv.held (h : Inv kUncachedStart s) : Held kUncachedStart s :=
  ⟨h.live_page, h.inside, h.disjoint⟩

theorem Inv.good (h : Inv kUncachedStart s) : Good kUncachedStart s where
  live_page := h.live_page
  other_page p hp := by rw [h.other_page p hp]

theorem inv_boot : Inv kUncachedStart State.boot where
  live_page := by simp [State.boot]
  other_page _ _ := rfl
  inside := by simp [State.boot]
  disjoint := List.Pairwise.nil

/-- A page is in use exactly when a live block covers it. -/
theorem Inv.used_iff (h : Inv kUncachedStart s) (p : Fin kRegionPageNums) :
    Used s.map p ↔ ∃ b ∈ s.live, b.Covers kUncachedStart p := by
  constructor
  · rintro ⟨_, hu⟩
    by_contra hcon
    have : s.map p = ⟨0, 0⟩ := h.other_page p fun b hb hc => hcon ⟨b, hb, hc⟩
    exact hu (by rw [this])
  · rintro ⟨b, hb, hc⟩
    refine ⟨p.isLt, ?_⟩
    rw [h.live_page b hb p hc]
    exact (by decide : (1 : UInt8) ≠ 0)

/-- A page that is free is of no live block. -/
theorem Held.not_covers (h : Held kUncachedStart s) {p : Fin kRegionPageNums}
    (hfree : Free s.map p.val) {b : Block} (hb : b ∈ s.live) : ¬b.Covers kUncachedStart p := by
  intro hbp
  obtain ⟨_, hf⟩ := hfree
  rw [h.live_page b hb p hbp] at hf
  exact (by decide : (1 : UInt8) ≠ 0) hf

/-- A request that fits gets pages that no live block has. -/
theorem Held.malloc (h : Held kUncachedStart s) {n i : ℕ} (hi : i < kRegionPageNums)
    (hrun : Run s.map n i) : Held kUncachedStart
      ⟨marked s.map i n, s.live ++ [⟨(kUncachedStart + i * PAGE_SIZE) % 2 ^ 64, n⟩]⟩ := by
  set b : Block := ⟨(kUncachedStart + i * PAGE_SIZE) % 2 ^ 64, n⟩ with hbdef
  have hidx : pageIdx kUncachedStart b.va = i := pageIdx_paddr kUncachedStart hi
  have hcov : ∀ p : Fin kRegionPageNums, b.Covers kUncachedStart p ↔
      i ≤ p.val ∧ p.val < i + n := fun p => by rw [Block.Covers, hidx]
  have hfree : ∀ p : Fin kRegionPageNums, b.Covers kUncachedStart p → Free s.map p.val := by
    intro p hp
    have hp' := (hcov p).mp hp
    have := hrun (p.val - i) (by omega)
    rwa [show i + (p.val - i) = p.val by omega] at this
  refine ⟨fun c hc p hp => ?_, fun c hc => ?_, ?_⟩
  · rcases List.mem_append.mp hc with hc | hc
    · refine (marked_of_not_mem fun hcon => ?_).trans (h.live_page c hc p hp)
      exact h.not_covers (hfree p ((hcov p).mpr hcon)) hc hp
    · obtain rfl := List.mem_singleton.mp hc
      obtain ⟨_, hzero⟩ := hfree p hp
      refine (marked_of_mem ((hcov p).mp hp)).trans ?_
      rw [hzero]
      rfl
  · rcases List.mem_append.mp hc with hc | hc
    · exact h.inside c hc
    · obtain rfl := List.mem_singleton.mp hc
      rw [hidx]
      exact ⟨hi, hrun.le hi⟩
  · refine List.pairwise_append.mpr ⟨h.disjoint, List.pairwise_singleton _ _, ?_⟩
    intro c hc d hd p hcp hdp
    obtain rfl := List.mem_singleton.mp hd
    exact h.not_covers (hfree p hdp) hc hcp

/-- Among the blocks that stay, none covers a page of the one released. -/
theorem Held.not_covers_erase (h : Held kUncachedStart s) {b c : Block} (hb : b ∈ s.live)
    (hc : c ∈ s.live.erase b) {p : Fin kRegionPageNums} (hbp : b.Covers kUncachedStart p) :
    ¬c.Covers kUncachedStart p := by
  have hperm : s.live.Perm (b :: s.live.erase b) := List.perm_cons_erase hb
  have hdis : (b :: s.live.erase b).Pairwise fun b c =>
      ∀ p, b.Covers kUncachedStart p → ¬c.Covers kUncachedStart p :=
    hperm.pairwise h.disjoint fun {x y} hxy p hy hx => hxy p hx hy
  exact (List.pairwise_cons.mp hdis).1 c hc p hbp

/-! ### The harmless calls keep the bookkeeping -/

/-- A request that fits keeps the invariant. -/
theorem Inv.malloc (h : Inv kUncachedStart s) {size : ℕ} {t : State}
    (hfits : Fits s.map (numPages size)) (ht : step kUncachedStart s (.malloc size) = .ok t) :
    Inv kUncachedStart t := by
  obtain ⟨i, hi, hrun, heq⟩ := malloc_of_fits kUncachedStart hfits
  simp only [step, heq, Lib.ok_bind, Lib.pure_eq_ok] at ht
  obtain rfl := (Except.ok.inj ht).symm
  obtain ⟨hlive, hinside, hdisjoint⟩ := h.held.malloc hi hrun
  refine ⟨hlive, fun p hp => ?_, hinside, hdisjoint⟩
  refine (marked_of_not_mem fun hcon =>
    hp _ (List.mem_append_right _ (List.mem_singleton_self _)) ?_).trans
    (h.other_page p fun c hc => hp c (List.mem_append_left _ hc))
  rwa [Block.Covers, pageIdx_paddr kUncachedStart hi]

/-- Forgetting a block whose pages are all as at boot keeps the invariant. -/
theorem Inv.erase (h : Inv kUncachedStart s) {b : Block} (hb : b ∈ s.live) {m : RegionMap}
    (hin : ∀ p, b.Covers kUncachedStart p → m p = ⟨0, 0⟩)
    (hout : ∀ p, ¬b.Covers kUncachedStart p → m p = s.map p) :
    Inv kUncachedStart ⟨m, s.live.erase b⟩ where
  live_page c hc p hp := by
    change m p = _
    rw [hout p fun hbp => h.held.not_covers_erase hb hc hbp hp]
    exact h.live_page c (List.mem_of_mem_erase hc) p hp
  other_page p hp := by
    change m p = _
    by_cases hbp : b.Covers kUncachedStart p
    · exact hin p hbp
    · rw [hout p hbp]
      refine h.other_page p fun c hc hcp => ?_
      rcases eq_or_ne c b with rfl | hne
      · exact hbp hcp
      · exact hp c ((List.mem_erase_of_ne hne).mpr hc) hcp
  inside c hc := h.inside c (List.mem_of_mem_erase hc)
  disjoint := h.disjoint.sublist List.erase_sublist

/-- The size recorded on the first page of a block that is being released. -/
theorem Inv.size_of_pages (h : Inv kUncachedStart s) {b : Block} (hb : b ∈ s.live)
    (hi : pageIdx kUncachedStart b.va < kRegionPageNums) (hpos : 0 < b.pages) :
    s.map ⟨_, hi⟩ = ⟨b.pages, 1⟩ :=
  h.live_page b hb ⟨_, hi⟩ ⟨le_refl _, by simp only; omega⟩

/-- The release of a block of one page keeps the invariant. -/
theorem Inv.free_one (h : Inv kUncachedStart s) {b : Block} (hb : b ∈ s.live) (hone : b.pages = 1)
    {t : State} (ht : step kUncachedStart s (.free b) = .ok t) : Inv kUncachedStart t := by
  have hi := (h.inside b hb).1
  rw [step, free_eq kUncachedStart hi, h.size_of_pages hb hi (by omega), hone, if_neg (by simp),
    Lib.ok_bind, Lib.pure_eq_ok] at ht
  obtain rfl := (Except.ok.inj ht).symm
  refine h.erase hb (fun p hp => ?_) fun p hp => ?_
  · rw [RegionMap.put, if_pos (by simp only [Block.Covers, hone] at hp; omega)]
    rfl
  · rw [RegionMap.put, if_neg fun hc => hp ⟨by omega, by omega⟩]

/-- The release of an empty block keeps the invariant when its address is that of
no page in use. -/
theorem Inv.free_zero (h : Inv kUncachedStart s) {b : Block} (hb : b ∈ s.live) (hzero : b.pages = 0)
    (hu : ¬Used s.map (pageIdx kUncachedStart b.va)) {t : State}
    (ht : step kUncachedStart s (.free b) = .ok t) : Inv kUncachedStart t := by
  have hi := (h.inside b hb).1
  have hsize : s.map ⟨_, hi⟩ = ⟨0, 0⟩ :=
    h.other_page _ fun c hc hcp => hu ((h.used_iff ⟨_, hi⟩).mpr ⟨c, hc, hcp⟩)
  rw [step, free_eq kUncachedStart hi, hsize, if_pos rfl, Lib.ok_bind, Lib.pure_eq_ok] at ht
  obtain rfl := (Except.ok.inj ht).symm
  refine h.erase hb (fun p hp => ?_) fun p _ => rfl
  exact absurd hp (by simp only [Block.Covers, hzero]; omega)

/-- **A harmless call keeps the invariant.** -/
theorem Inv.keep (h : Inv kUncachedStart s) {op : Op} {t : State} (hl : Legal s op)
    (hh : Harmless kUncachedStart s op) (ht : step kUncachedStart s op = .ok t) :
    Inv kUncachedStart t := by
  cases op with
  | malloc size =>
    by_cases hfits : Fits s.map (numPages size)
    · exact h.malloc hfits ht
    · rw [step, (malloc_of_not_fits kUncachedStart hfits).1 (hh.resolve_left hfits)] at ht
      exact absurd ht (by simp)
  | free b =>
    rcases hh with hone | ⟨hzero, hu⟩
    · exact h.free_one hl hone ht
    · exact h.free_zero hl hzero hu ht

/-- The release of a live block always comes back. -/
theorem Inv.free_ok (h : Inv kUncachedStart s) {b : Block} (hb : b ∈ s.live) :
    ∃ m, step kUncachedStart s (.free b) = .ok ⟨m, s.live.erase b⟩ :=
  ⟨_, by rw [step, free_eq kUncachedStart (h.inside b hb).1, Lib.ok_bind, Lib.pure_eq_ok]⟩

/-- A harmless call faults only by `PANIC`. -/
theorem Inv.isPanic (h : Inv kUncachedStart s) {op : Op} {f : Fault} (hl : Legal s op)
    (hh : Harmless kUncachedStart s op) (hf : step kUncachedStart s op = .error f) :
    f.IsPanic := by
  cases op with
  | malloc size =>
    by_cases hfits : Fits s.map (numPages size)
    · obtain ⟨i, -, -, heq⟩ := malloc_of_fits kUncachedStart hfits
      rw [step, heq] at hf
      exact absurd hf (by simp)
    · rw [step, (malloc_of_not_fits kUncachedStart hfits).1 (hh.resolve_left hfits),
        Lib.error_bind] at hf
      obtain rfl := (Except.error.inj hf).symm
      trivial
  | free b =>
    obtain ⟨m, hm⟩ := h.free_ok hl
    exact absurd (hm.symm.trans hf) (by simp)

/-! ### The others break it -/

/-- A request that leaves the map faults, and not by `PANIC`. -/
theorem malloc_outOfBounds {size : ℕ} (hh : ¬Harmless kUncachedStart s (.malloc size)) :
    step kUncachedStart s (.malloc size) = .error .outOfBounds := by
  have hfits : ¬Fits s.map (numPages size) := fun hf => hh (Or.inl hf)
  have hlast : ¬Used s.map (kRegionPageNums - 1) := fun hu => hh (Or.inr hu)
  rw [step, (malloc_of_not_fits kUncachedStart hfits).2 hlast, Lib.error_bind]

/-- **The release of a block of two or more pages loses them**: only its first page
is given back, so that its second one still counts a reference though no live block
has it. The release of an empty block at the address of a live one takes the live
block's first page away from it. -/
theorem not_good_of_free (h : Inv kUncachedStart s) {b : Block} (hb : b ∈ s.live)
    (hh : ¬Harmless kUncachedStart s (.free b)) :
    ∃ t, step kUncachedStart s (.free b) = .ok t ∧ ¬Good kUncachedStart t := by
  obtain ⟨hi, hle⟩ := h.inside b hb
  refine ⟨_, by rw [step, free_eq kUncachedStart hi, Lib.ok_bind, Lib.pure_eq_ok], fun hgood => ?_⟩
  rcases Nat.eq_zero_or_pos b.pages with hzero | hpos
  · -- an empty block: the page at its address belongs to another block, which stays
    have hu : Used s.map (pageIdx kUncachedStart b.va) := by
      by_contra hu
      exact hh (Or.inr ⟨hzero, hu⟩)
    obtain ⟨c, hc, hcp⟩ := (h.used_iff ⟨_, hi⟩).mp hu
    have hpages : 0 < c.pages := by simp only [Block.Covers] at hcp; omega
    have hne : c ≠ b := fun heq => by rw [heq] at hpages; omega
    have hsize := h.live_page c hc _ hcp
    have hpage := hgood.live_page c ((List.mem_erase_of_ne hne).mpr hc) _ hcp
    rw [hsize, if_neg (by simp only; omega)] at hpage
    have hput : RegionMap.put s.map (pageIdx kUncachedStart b.va) ⟨0, 1 - UInt8.ofNat c.pages⟩
        ⟨_, hi⟩ = ⟨0, 1 - UInt8.ofNat c.pages⟩ := by rw [RegionMap.put, if_pos rfl]
    have : (0 : ℕ) = c.pages := congrArg PageBlock.size (hput.symm.trans hpage)
    omega
  · -- at least two pages: the second one is left counted
    have htwo : 2 ≤ b.pages := by
      by_contra hcon
      exact hh (Or.inl (by omega))
    have hsize := h.size_of_pages hb hi hpos
    have h2 : pageIdx kUncachedStart b.va + 1 < kRegionPageNums := by omega
    have hcov : b.Covers kUncachedStart ⟨_, h2⟩ := ⟨by simp only; omega, by simp only; omega⟩
    have hzero := hgood.other_page ⟨_, h2⟩ fun c hc => h.held.not_covers_erase hb hc hcov
    rw [hsize, if_neg (by simp only; omega)] at hzero
    simp only [RegionMap.put, if_neg (show ¬pageIdx kUncachedStart b.va + 1 =
      pageIdx kUncachedStart b.va by omega), h.live_page b hb _ hcov] at hzero
    exact absurd hzero (by decide)

/-! ### Whole runs -/

/-- **Along any sequence of calls, the bookkeeping is right exactly when every call
is harmless.** -/
theorem good_iff_harmless {ops : List Op}
    (hops : Lib.Each (step kUncachedStart) Legal State.boot ops) :
    Lib.Along (step kUncachedStart) (Good kUncachedStart) Fault.IsPanic State.boot ops ↔
      Lib.Each (step kUncachedStart) (Harmless kUncachedStart) State.boot ops := by
  refine Lib.along_iff_each (I := Inv kUncachedStart) (fun s h => h.good)
    (fun s op t h hl hh ht => h.keep hl hh ht) (fun s op f h hl hh hf => h.isPanic hl hh hf)
    (fun s op h hl hh => ?_) inv_boot hops
  cases op with
  | malloc size => exact Or.inr ⟨_, malloc_outOfBounds hh, id⟩
  | free b => exact Or.inl (not_good_of_free h hl hh)

/-! ### Releasing what was just requested -/

/-- A successful request adds one block, at the end of the list of live ones. -/
theorem Inv.malloc_live (h : Inv kUncachedStart s) {size : ℕ} {t : State}
    (ht : step kUncachedStart s (.malloc size) = .ok t) :
    ∃ b : Block, b.pages = numPages size ∧ t.live = s.live ++ [b] ∧ Inv kUncachedStart t := by
  by_cases hfits : Fits s.map (numPages size)
  · have hinv := h.malloc hfits ht
    obtain ⟨i, -, -, heq⟩ := malloc_of_fits kUncachedStart hfits
    simp only [step, heq, Lib.ok_bind, Lib.pure_eq_ok] at ht
    obtain rfl := (Except.ok.inj ht).symm
    exact ⟨_, rfl, rfl, hinv⟩
  · obtain ⟨hused, hnot⟩ := malloc_of_not_fits kUncachedStart hfits
    by_cases hlast : Used s.map (kRegionPageNums - 1)
    · rw [step, hused hlast] at ht
      exact absurd ht (by simp)
    · rw [step, hnot hlast] at ht
      exact absurd ht (by simp)

/-- **Releasing a block right after requesting it restores the map exactly when the
release is harmless.** -/
theorem Inv.restored_iff (h : Inv kUncachedStart s) {size : ℕ} {t : State}
    (ht : step kUncachedStart s (.malloc size) = .ok t) :
    ∃ b u, b.pages = numPages size ∧ t.live = s.live ++ [b] ∧
      step kUncachedStart t (.free b) = .ok u ∧
      (u.map = s.map ↔ Harmless kUncachedStart t (.free b)) := by
  obtain ⟨b, hpages, hlive, hinv⟩ := h.malloc_live ht
  have hb : b ∈ t.live := by simp [hlive]
  obtain ⟨m, hu⟩ := hinv.free_ok hb
  refine ⟨b, _, hpages, hlive, hu, ?_⟩
  -- the blocks left are those there were before the request
  have hperm : (t.live.erase b).Perm s.live := by
    rw [hlive]
    have := (List.perm_append_singleton b s.live).erase b
    rwa [List.erase_cons_head] at this
  constructor
  · intro hmap
    by_contra hh
    obtain ⟨u', hu', hgood⟩ := not_good_of_free hinv hb hh
    obtain rfl := Except.ok.inj (hu.symm.trans hu')
    refine hgood ⟨fun c hc p hp => ?_, fun p hp => ?_⟩
    · rw [hmap]
      exact h.live_page c (hperm.mem_iff.mp hc) p hp
    · rw [hmap, h.other_page p fun c hc => hp c (hperm.mem_iff.mpr hc)]
  · intro hh
    have hinv' : Inv kUncachedStart _ := Inv.keep hinv (show Legal t (.free b) from hb) hh hu
    funext p
    by_cases hp : ∃ c ∈ s.live, c.Covers kUncachedStart p
    · obtain ⟨c, hc, hcp⟩ := hp
      rw [h.live_page c hc p hcp, hinv'.live_page c (hperm.mem_iff.mpr hc) p hcp]
    · rw [h.other_page p fun c hc hcp => hp ⟨c, hc, hcp⟩,
        hinv'.other_page p fun c hc hcp => hp ⟨c, hperm.mem_iff.mp hc, hcp⟩]

/-- **Releasing a block gives all its pages back exactly when it has at most one.** -/
theorem Inv.free_again_iff (h : Inv kUncachedStart s) {b : Block} (hb : b ∈ s.live) :
    ∃ u, step kUncachedStart s (.free b) = .ok u ∧
      ((∀ p : Fin kRegionPageNums, b.Covers kUncachedStart p → Free u.map p) ↔ b.pages ≤ 1) := by
  obtain ⟨hi, hle⟩ := h.inside b hb
  refine ⟨_, by rw [step, free_eq kUncachedStart hi, Lib.ok_bind, Lib.pure_eq_ok], ?_⟩
  constructor
  · intro hall
    by_contra hcon
    have h2 : pageIdx kUncachedStart b.va + 1 < kRegionPageNums := by omega
    have hcov : b.Covers kUncachedStart ⟨_, h2⟩ := ⟨by simp only; omega, by simp only; omega⟩
    obtain ⟨_, hfree⟩ := hall _ hcov
    rw [h.size_of_pages hb hi (by omega), if_neg (by simp only; omega)] at hfree
    simp only [RegionMap.put, if_neg (show ¬pageIdx kUncachedStart b.va + 1 =
      pageIdx kUncachedStart b.va by omega), h.live_page b hb _ hcov] at hfree
    exact absurd hfree (by decide)
  · intro hone p hp
    have hpi : p.val = pageIdx kUncachedStart b.va := by simp only [Block.Covers] at hp; omega
    have hb1 : b.pages = 1 := by simp only [Block.Covers] at hp; omega
    refine ⟨p.isLt, ?_⟩
    rw [h.size_of_pages hb hi (by omega), hb1, if_neg (by simp)]
    simp only [RegionMap.put, hpi, if_true]
    rfl

/-- **When the uncached allocator neither leaks nor corrupts.** Along any sequence of
calls the bookkeeping is right exactly when every call is harmless; and wherever such
a sequence leads, releasing a block gives its pages back exactly when it has at most
one, and releasing a block right after requesting it restores the region map exactly
when that release is harmless. -/
theorem uncached_sound_iff (kUncachedStart : ℕ) {ops : List Op}
    (hops : Lib.Each (step kUncachedStart) Legal State.boot ops) :
    (Lib.Along (step kUncachedStart) (Good kUncachedStart) Fault.IsPanic State.boot ops ↔
      Lib.Each (step kUncachedStart) (Harmless kUncachedStart) State.boot ops) ∧
    (Lib.Each (step kUncachedStart) (Harmless kUncachedStart) State.boot ops →
      ∀ s, Lib.runFrom (step kUncachedStart) State.boot ops = .ok s →
      (∀ b ∈ s.live, ∃ u, step kUncachedStart s (.free b) = .ok u ∧
        ((∀ p : Fin kRegionPageNums, b.Covers kUncachedStart p → Free u.map p) ↔ b.pages ≤ 1)) ∧
      ∀ size t, step kUncachedStart s (.malloc size) = .ok t →
        ∃ b u, b.pages = numPages size ∧ t.live = s.live ++ [b] ∧
          step kUncachedStart t (.free b) = .ok u ∧
          (u.map = s.map ↔ Harmless kUncachedStart t (.free b))) := by
  refine ⟨good_iff_harmless hops, fun hh s hs => ?_⟩
  have hinv : Inv kUncachedStart s := Lib.Along.last (Q := Fault.IsPanic)
    (Lib.along_of_each (C := fun s op => Legal s op ∧ Harmless kUncachedStart s op)
      (fun s op t h hc ht => h.keep hc.1 hc.2 ht) (fun s op f h hc hf => h.isPanic hc.1 hc.2 hf)
      inv_boot (hops.and hh)) hs
  exact ⟨fun b hb => hinv.free_again_iff hb, fun size t ht => hinv.restored_iff ht⟩

/-- Pages that are requested, released and requested again. -/
theorem uncached_sound_one_page :
    Lib.Each (step 0x44000000) Legal State.boot [.malloc 4096, .malloc 100,
      .free ⟨0x44000000, 1⟩, .malloc 4096, .free ⟨0x44001000, 1⟩, .free ⟨0x44000000, 1⟩] ∧
    Lib.Along (step 0x44000000) (Good 0x44000000) Fault.IsPanic State.boot [.malloc 4096,
      .malloc 100, .free ⟨0x44000000, 1⟩, .malloc 4096, .free ⟨0x44001000, 1⟩,
      .free ⟨0x44000000, 1⟩] := by
  have hops : Lib.Each (step 0x44000000) Legal State.boot [.malloc 4096, .malloc 100,
      .free ⟨0x44000000, 1⟩, .malloc 4096, .free ⟨0x44001000, 1⟩, .free ⟨0x44000000, 1⟩] := by
    decide +kernel
  exact ⟨hops, (uncached_sound_iff 0x44000000 hops).1.mpr (by decide +kernel)⟩

/-- **The 8 KiB buffer of the mailbox driver**: requested and released once, it leaves
its second page counted for ever. -/
theorem uncached_two_pages_leak :
    Lib.Each (step 0x44000000) Legal State.boot [.malloc 8192, .free ⟨0x44000000, 2⟩] ∧
    ¬Lib.Along (step 0x44000000) (Good 0x44000000) Fault.IsPanic State.boot
      [.malloc 8192, .free ⟨0x44000000, 2⟩] := by
  have hrun : Run RegionMap.zero 2 0 := fun j hj =>
    ⟨by simp [kRegionPageNums, PAGE_SIZE]; omega, rfl⟩
  have hm : step 0x44000000 State.boot (.malloc 8192) =
      .ok ⟨marked RegionMap.zero 0 2, [⟨0x44000000, 2⟩]⟩ := by
    have hscan : kmmUncachedMalloc 0x44000000 RegionMap.zero 8192 =
        .ok (0x44000000, marked RegionMap.zero 0 2) :=
      scan_of_first 0x44000000 hrun (by decide) (by omega) (le_refl 0) (by decide)
    rw [step, State.boot, hscan]
    rfl
  have hops :
      Lib.Each (step 0x44000000) Legal State.boot [.malloc 8192, .free ⟨0x44000000, 2⟩] := by
    refine ⟨⟨by decide, by decide⟩, fun t ht => ⟨?_, fun _ _ => trivial⟩⟩
    obtain rfl := Except.ok.inj (hm.symm.trans ht)
    exact List.mem_singleton_self _
  refine ⟨hops, fun hgood => ?_⟩
  obtain ⟨-, hrest⟩ := (good_iff_harmless hops).mp hgood
  rcases (hrest _ hm).1 with h | ⟨h, -⟩ <;> exact absurd h (by decide)

end Uncached

end Evisor
