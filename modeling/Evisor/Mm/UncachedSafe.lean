import Evisor.Arch.LdSymbols
import Evisor.Mm.UncachedRun

/-!
# Uncached blocks do not overlap

Releasing blocks leaves the region map wrong, but not so that a page could be handed out
twice: what `Evisor.Uncached.Held` says of the live blocks is kept by every call, whatever
has been released before. So a request is answered with pages that no live block has, if
it is answered. What can go wrong is that it is not answered as it should be: when
nothing fits and the last page of the region is free, the scan leaves the map; and a
size that is rounded up beyond 64 bits is taken for none at all.
-/

namespace Evisor

namespace Uncached

/-- The pages that bytes take: `align_up(size) / 4096`. -/
def pagesNeeded (size : ℕ) : ℕ := (size + (PAGE_SIZE - 1)) / PAGE_SIZE

/-- A request that is rounded up within 64 bits. -/
def Rounds (size : ℕ) : Prop := size ≤ 2 ^ 64 - PAGE_SIZE

/-- The region ends far below the last address. -/
theorem region_end (L : Layout) : L.kUncachedStart + kRegionPageNums * PAGE_SIZE ≤ 2 ^ 64 := by
  have := L.uncached_end
  have := L.user_end
  simp only [kRegionPageNums, PAGE_SIZE, kUncachedSize, kUserSize] at *
  omega

/-- The pages of a request are counted right exactly when it is rounded up within 64 bits. -/
theorem numPages_eq {size : ℕ} (h : Rounds size) : numPages size = pagesNeeded size := by
  simp only [Rounds, numPages, alignUp, pagesNeeded, PAGE_SIZE] at *
  rw [Nat.mod_eq_of_lt (by omega), Nat.mul_div_cancel _ (by decide)]

theorem numPages_eq_zero {size : ℕ} (h64 : size < 2 ^ 64) (h : ¬Rounds size) :
    numPages size = 0 := by
  simp only [Rounds, numPages, alignUp, PAGE_SIZE] at *
  omega

/-- **What a request is answered with**: a run of free pages in the region, as many as it
needs, that no live block has. -/
def IsBlock (L : Layout) (s : State) (size : ℕ) (r : ℕ × RegionMap) : Prop :=
  ∃ i, i + pagesNeeded size ≤ kRegionPageNums ∧ r.1 = L.kUncachedStart + i * PAGE_SIZE ∧
    r.1 + pagesNeeded size * PAGE_SIZE ≤ L.kUncachedStart + kUncachedSize ∧
    Run s.map (pagesNeeded size) i ∧ r.2 = marked s.map i (pagesNeeded size) ∧
    ∀ b ∈ s.live, ∀ p, b.Covers L.kUncachedStart p →
      ¬(i ≤ p.val ∧ p.val < i + pagesNeeded size)

/-- **A request is safe**: only entries of the map are looked at, and a block that is
returned is as it should be. -/
def MallocSafe (L : Layout) (s : State) (size : ℕ) : Prop :=
  match kmmUncachedMalloc L.kUncachedStart s.map size with
  | .ok r => IsBlock L s size r
  | .error e => e.IsPanic

variable {kUncachedStart : ℕ} {s t : State}

theorem held_boot : Held kUncachedStart State.boot := inv_boot.held

/-- Releasing a block touches no page of another. -/
theorem Held.free (h : Held kUncachedStart s) {b : Block} (hb : b ∈ s.live)
    (hpos : 0 < b.pages) (ht : step kUncachedStart s (.free b) = .ok t) :
    Held kUncachedStart t := by
  have hi := (h.inside b hb).1
  have hfirst : b.Covers kUncachedStart ⟨_, hi⟩ := ⟨le_rfl, Nat.lt_add_of_pos_right hpos⟩
  rw [step, free_eq kUncachedStart hi, h.live_page b hb _ hfirst, if_neg hpos.ne', Lib.ok_bind,
    Lib.pure_eq_ok] at ht
  obtain rfl := (Except.ok.inj ht).symm
  refine ⟨fun c hc p hp => ?_, fun c hc => h.inside c (List.mem_of_mem_erase hc),
    h.disjoint.sublist List.erase_sublist⟩
  have hne : p.val ≠ pageIdx kUncachedStart b.va := by
    intro heq
    obtain rfl : p = ⟨_, hi⟩ := Fin.ext heq
    exact h.not_covers_erase hb hc hfirst hp
  exact (if_neg hne).trans (h.live_page c (List.mem_of_mem_erase hc) p hp)

/-- No live block is empty. -/
def NoneEmpty (s : State) : Prop := ∀ b ∈ s.live, 0 < b.pages

/-- What the calls of a run are: legal, and not of a size that is rounded up beyond 64
bits. -/
def Sized (s : State) (op : Op) : Prop :=
  Legal s op ∧ ∀ size, op = .malloc size → Rounds size

/-- **One call** keeps the pages of live blocks theirs. -/
theorem held_step (h : Held kUncachedStart s) (hpos : NoneEmpty s) {op : Op} (hop : Sized s op)
    (ht : step kUncachedStart s op = .ok t) : Held kUncachedStart t ∧ NoneEmpty t := by
  obtain ⟨hlegal, hround⟩ := hop
  cases op with
  | malloc size =>
    have hpages := numPages_eq (hround size rfl)
    by_cases hfits : Fits s.map (numPages size)
    · obtain ⟨i, hi, hrun, heq⟩ := malloc_of_fits kUncachedStart hfits
      simp only [step, heq, Lib.ok_bind, Lib.pure_eq_ok] at ht
      obtain rfl := (Except.ok.inj ht).symm
      refine ⟨h.malloc hi hrun, fun b hb => ?_⟩
      rcases List.mem_append.mp hb with hb | hb
      · exact hpos b hb
      · obtain rfl := List.mem_singleton.mp hb
        have h1 : 1 ≤ size := hlegal.1
        simp only [hpages, pagesNeeded, PAGE_SIZE]
        omega
    · rw [step] at ht
      obtain ⟨r, hr, -⟩ := Lib.bind_eq_ok.mp ht
      by_cases hlast : Used s.map (kRegionPageNums - 1)
      · rw [(malloc_of_not_fits kUncachedStart hfits).1 hlast] at hr
        cases hr
      · rw [(malloc_of_not_fits kUncachedStart hfits).2 hlast] at hr
        cases hr
  | free b =>
    refine ⟨h.free hlegal (hpos b hlegal) ht, ?_⟩
    rw [step] at ht
    obtain ⟨m, -, hm⟩ := Lib.bind_eq_ok.mp ht
    obtain rfl := Except.ok.inj hm
    exact fun c hc => hpos c (List.mem_of_mem_erase hc)

/-- **Whole runs** do. -/
theorem held_run {ops : List Op} (hops : Lib.Each (step kUncachedStart) Sized State.boot ops)
    (hs : Lib.runFrom (step kUncachedStart) State.boot ops = .ok s) : Held kUncachedStart s :=
  (Lib.Along.last (Q := fun _ => True)
    (Lib.along_of_each (I := fun s => Held kUncachedStart s ∧ NoneEmpty s)
      (fun _ _ _ h hop ht => held_step h.1 h.2 hop ht) (fun _ _ _ _ _ _ => trivial)
      ⟨held_boot, by simp [NoneEmpty, State.boot]⟩ hops) hs).1

/-- **A request is safe exactly when** its size is rounded up within 64 bits, and either
some run of pages fits it or the last page of the region is in use, wherever a run of
requests and releases has led. -/
theorem malloc_safe_iff (L : Layout) {ops : List Op}
    (hops : Lib.Each (step L.kUncachedStart) Sized State.boot ops)
    (hs : Lib.runFrom (step L.kUncachedStart) State.boot ops = .ok s) {size : ℕ}
    (h1 : 1 ≤ size) (h64 : size < 2 ^ 64) : MallocSafe L s size ↔
      Rounds size ∧ (Fits s.map (pagesNeeded size) ∨ Used s.map (kRegionPageNums - 1)) := by
  have hheld := held_run hops hs
  by_cases hround : Rounds size
  · have hpages := numPages_eq hround
    rw [← hpages, and_iff_right hround, MallocSafe]
    by_cases hfits : Fits s.map (numPages size)
    · obtain ⟨i, hi, hrun, heq⟩ := malloc_of_fits L.kUncachedStart hfits
      have hle := hrun.le hi
      have hend := L.uncached_end
      have huser := L.user_end
      have hva : (L.kUncachedStart + i * PAGE_SIZE) % 2 ^ 64 =
          L.kUncachedStart + i * PAGE_SIZE := by
        simp only [kRegionPageNums, PAGE_SIZE, kUserSize] at *
        exact Nat.mod_eq_of_lt (by omega)
      rw [heq, hva]
      rw [hpages] at hrun hle ⊢
      refine iff_of_true ⟨i, hle, rfl, ?_, hrun, rfl, fun b hb p hp hcov => ?_⟩ (.inl ?_)
      · simp only [kRegionPageNums, PAGE_SIZE, kUncachedSize] at *
        omega
      · have hfree := hrun (p.val - i) (by omega)
        rw [show i + (p.val - i) = p.val by omega] at hfree
        exact hheld.not_covers hfree hb hp
      · rwa [← hpages]
    · by_cases hlast : Used s.map (kRegionPageNums - 1)
      · rw [(malloc_of_not_fits L.kUncachedStart hfits).1 hlast]
        exact iff_of_true trivial (.inr hlast)
      · rw [(malloc_of_not_fits L.kUncachedStart hfits).2 hlast]
        exact iff_of_false id (not_or.mpr ⟨hfits, hlast⟩)
  · -- a request that is taken for none is given a block of no pages
    refine iff_of_false (fun hsafe => ?_) fun h => hround h.1
    have hzero := numPages_eq_zero h64 hround
    have hfits : Fits s.map (numPages size) :=
      ⟨0, by decide, fun j hj => absurd hj (by omega)⟩
    obtain ⟨i, hi, hrun, heq⟩ := malloc_of_fits L.kUncachedStart hfits
    rw [MallocSafe, heq] at hsafe
    obtain ⟨j, hj, -⟩ := hsafe
    simp only [Rounds, pagesNeeded, kRegionPageNums, PAGE_SIZE] at *
    omega

/-- A page is requested, and then two. -/
theorem malloc_safe_iff_two :
    Lib.Each (step Layout.qemu.kUncachedStart) Sized State.boot [.malloc 4096] ∧
    ∃ s, Lib.runFrom (step Layout.qemu.kUncachedStart) State.boot [.malloc 4096] = .ok s ∧
      MallocSafe .qemu s 8192 := by
  have hops : Lib.Each (step Layout.qemu.kUncachedStart) Sized State.boot [.malloc 4096] := by
    refine ⟨⟨⟨by decide, by decide⟩, fun size hsize => ?_⟩, fun _ _ => trivial⟩
    obtain rfl := Op.malloc.inj hsize
    exact (by decide : 4096 ≤ 2 ^ 64 - PAGE_SIZE)
  have hzero : Run RegionMap.zero 1 0 := fun j hj =>
    ⟨by simp only [kRegionPageNums, PAGE_SIZE]; omega, rfl⟩
  have hmalloc : kmmUncachedMalloc Layout.qemu.kUncachedStart RegionMap.zero 4096 =
      .ok (Layout.qemu.kUncachedStart, marked RegionMap.zero 0 1) :=
    scan_of_first _ hzero (by decide) (by omega) (le_refl 0) (by decide)
  have hs : Lib.runFrom (step Layout.qemu.kUncachedStart) State.boot [.malloc 4096] =
      .ok ⟨marked RegionMap.zero 0 1, [⟨Layout.qemu.kUncachedStart, 1⟩]⟩ := by
    rw [Lib.runFrom, step, State.boot, hmalloc]
    rfl
  refine ⟨hops, _, hs, (malloc_safe_iff .qemu hops hs (by decide) (by decide)).mpr
    ⟨(by decide : 8192 ≤ 2 ^ 64 - PAGE_SIZE), .inl ⟨1, by decide, fun j hj => ?_⟩⟩⟩
  have hj : j < 2 := hj
  refine ⟨by simp only [kRegionPageNums, PAGE_SIZE]; omega, ?_⟩
  exact congrArg PageBlock.ref_count (if_neg (by simp only; omega))

/-- **A request for more than there is** is looked for past the end of the map. -/
theorem malloc_past_end :
    kmmUncachedMalloc Layout.qemu.kUncachedStart State.boot.map (2 * 1024 * 1024) =
      .error .outOfBounds ∧ ¬MallocSafe .qemu State.boot (2 * 1024 * 1024) := by
  have hpages : numPages (2 * 1024 * 1024) = 512 := by decide
  have hno : ¬Fits State.boot.map (numPages (2 * 1024 * 1024)) := by
    rintro ⟨i, hi, hrun⟩
    rw [hpages] at hrun
    have hle := hrun.le hi
    simp only [kRegionPageNums, PAGE_SIZE] at hle hi
    omega
  have hlast : ¬Used State.boot.map (kRegionPageNums - 1) := by
    rintro ⟨_, hu⟩
    exact hu rfl
  have hres := (malloc_of_not_fits Layout.qemu.kUncachedStart hno).2 hlast
  refine ⟨hres, ?_⟩
  rw [MallocSafe, hres]
  exact id

end Uncached

end Evisor
