import Mathlib.Data.Nat.Find
import Evisor.Basic

/-!
# The uncached allocator

`mm/uncached/kmm_uncached_malloc.cc` hands out runs of whole pages of the 1 MiB
uncached region. Its bookkeeping is `kernelUncachedMemoryRegionMap_`, one
`Evisor.PageBlock` a page, holding the number of pages of the block the page
belongs to and a reference count that is meant to be `1` or `0`.

`Evisor.kmmUncachedMalloc` and `Evisor.kmmUncachedFree` are the two calls. The
scan of the first one does not stop at the end of the map: a candidate that starts
close to it is read past the array, which is `Evisor.Fault.outOfBounds` here. The
loop of the second one runs once for each page of the block, but on the block's
first page only; `Evisor.Uncached.free_eq` says what that leaves behind.

`Evisor.Uncached.step` is the allocator with the set of blocks its caller holds,
and `Evisor.Uncached.Good` the agreement between the two that both calls should
keep.
-/

namespace Evisor

/-! ### The region map -/

/-- `PageBlock` of `mm/mm_local.h`. -/
@[ext]
structure PageBlock where
  /-- The number of pages of the block this page belongs to. -/
  size : ℕ
  /-- The reference count, an eight-bit counter. -/
  ref_count : UInt8
  deriving DecidableEq, Repr

/-- `kRegionPageNums`: the pages of the 1 MiB region. -/
def kRegionPageNums : ℕ := 1 * 1024 * 1024 / PAGE_SIZE

/-- `kernelUncachedMemoryRegionMap_`. -/
abbrev RegionMap := Fin kRegionPageNums → PageBlock

/-- The map at boot, `= {}`. -/
def RegionMap.zero : RegionMap := fun _ => ⟨0, 0⟩

/-- Indexing the map. -/
def RegionMap.get (m : RegionMap) (i : ℕ) : Except Fault PageBlock :=
  if h : i < kRegionPageNums then .ok (m ⟨i, h⟩) else .error .outOfBounds

/-- Storing into the map. -/
def RegionMap.put (m : RegionMap) (i : ℕ) (b : PageBlock) : RegionMap :=
  fun p => if p.val = i then b else m p

/-! ### The calls -/

/-- `__builtin_align_up(size, PAGE_SIZE)`, on a 64-bit size. -/
def alignUp (size : ℕ) : ℕ := (size + (PAGE_SIZE - 1)) % 2 ^ 64 / PAGE_SIZE * PAGE_SIZE

/-- `num_pages`. -/
def numPages (size : ℕ) : ℕ := alignUp size / PAGE_SIZE

/-- `kmm_is_spaces_available(start, num_pages)`, with the pages left to look at. -/
def kmmIsSpacesAvailable (m : RegionMap) (start : ℕ) : ℕ → Except Fault Bool
  | 0 => .ok true
  | left + 1 => do
    let page ← m.get start
    if page.ref_count != 0 then return false
    kmmIsSpacesAvailable m (start + 1) left

/-- The marking loop of `kmm_uncached_malloc`, with the pages left to mark. -/
def kmmUncachedMark (num_pages : ℕ) (m : RegionMap) (start : ℕ) : ℕ → Except Fault RegionMap
  | 0 => .ok m
  | left + 1 => do
    let page ← m.get start
    kmmUncachedMark num_pages (m.put start ⟨num_pages, page.ref_count + 1⟩) (start + 1) left

/-- The scan of `kmm_uncached_malloc` from candidate `i` on, with the candidates
left to try. -/
def kmmUncachedScan (kUncachedStart : ℕ) (m : RegionMap) (num_pages : ℕ) (i : ℕ) :
    ℕ → Except Fault (ℕ × RegionMap)
  | 0 => .error (.panic "No free space!")
  | left + 1 => do
    let paddr := (kUncachedStart + i * PAGE_SIZE) % 2 ^ 64
    if ← kmmIsSpacesAvailable m i num_pages then
      let m' ← kmmUncachedMark num_pages m i num_pages
      return (paddr, m')
    kmmUncachedScan kUncachedStart m num_pages (i + 1) left

/-- `kmm_uncached_malloc(size)`: the address of the block and the new map. -/
def kmmUncachedMalloc (kUncachedStart : ℕ) (m : RegionMap) (size : ℕ) :
    Except Fault (ℕ × RegionMap) :=
  kmmUncachedScan kUncachedStart m (numPages size) 0 kRegionPageNums

/-- `page_idx` of `kmm_uncached_free(va)`, computed in 64 bits. -/
def pageIdx (kUncachedStart va : ℕ) : ℕ :=
  (va + (2 ^ 64 - kUncachedStart % 2 ^ 64)) % 2 ^ 64 / PAGE_SIZE

/-- The loop of `kmm_uncached_free`. The index does not depend on the loop counter. -/
def kmmUncachedUnmark (m : RegionMap) (page_idx : ℕ) : ℕ → Except Fault RegionMap
  | 0 => .ok m
  | left + 1 => do
    let page ← m.get page_idx
    kmmUncachedUnmark (m.put page_idx ⟨0, page.ref_count - 1⟩) page_idx left

/-- `kmm_uncached_free(va)`. -/
def kmmUncachedFree (kUncachedStart : ℕ) (m : RegionMap) (va : ℕ) : Except Fault RegionMap := do
  let page ← m.get (pageIdx kUncachedStart va)
  kmmUncachedUnmark m (pageIdx kUncachedStart va) page.size

namespace Uncached

/-! ### Pages and candidates -/

/-- A page with reference count `0`, indexed by a number that may lie past the map. -/
def Free (m : RegionMap) (i : ℕ) : Prop := ∃ h : i < kRegionPageNums, (m ⟨i, h⟩).ref_count = 0

/-- A page of the map in use. -/
def Used (m : RegionMap) (i : ℕ) : Prop := ∃ h : i < kRegionPageNums, (m ⟨i, h⟩).ref_count ≠ 0

instance (m : RegionMap) (i : ℕ) : Decidable (Free m i) := inferInstanceAs (Decidable (∃ _, _))

instance (m : RegionMap) (i : ℕ) : Decidable (Used m i) := inferInstanceAs (Decidable (∃ _, _))

/-- **A run of free pages**: `n` of them from page `i` on, all inside the map. -/
def Run (m : RegionMap) (n i : ℕ) : Prop := ∀ j < n, Free m (i + j)

instance (m : RegionMap) (n i : ℕ) : Decidable (Run m n i) :=
  inferInstanceAs (Decidable (∀ j < n, Free m (i + j)))

theorem used_of_not_free {m : RegionMap} {i : ℕ} (hi : i < kRegionPageNums) (h : ¬Free m i) :
    Used m i := ⟨hi, fun hc => h ⟨hi, hc⟩⟩

/-- A candidate that is not a run of free pages meets a page that is not free. -/
theorem exists_not_free {m : RegionMap} {n i : ℕ} (h : ¬Run m n i) : ∃ j < n, ¬Free m (i + j) := by
  by_contra hcon
  refine h fun j hj => ?_
  by_contra hf
  exact hcon ⟨j, hj, hf⟩

theorem get_of_lt {m : RegionMap} {i : ℕ} (h : i < kRegionPageNums) :
    m.get i = .ok (m ⟨i, h⟩) := by rw [RegionMap.get, dif_pos h]

theorem get_of_ge {m : RegionMap} {i : ℕ} (h : kRegionPageNums ≤ i) :
    m.get i = .error .outOfBounds := by rw [RegionMap.get, dif_neg (by omega)]

/-- The scan of a candidate reports a run of free pages exactly when there is one. -/
theorem available_of_run {m : RegionMap} : ∀ {n i : ℕ}, Run m n i →
    kmmIsSpacesAvailable m i n = .ok true
  | 0, _, _ => rfl
  | n + 1, i, h => by
    obtain ⟨hi, hf⟩ := h 0 (by omega)
    have hrest : Run m n (i + 1) := fun j hj => by
      have := h (j + 1) (by omega)
      rwa [show i + (j + 1) = i + 1 + j by omega] at this
    rw [kmmIsSpacesAvailable, get_of_lt (i := i) hi, Lib.ok_bind]
    simp only [Nat.add_zero] at hf
    rw [if_neg (by simp [hf]), available_of_run hrest]

/-- A candidate is refused when a page in use comes before the end of the map. -/
theorem available_of_used {m : RegionMap} : ∀ {n i j : ℕ}, j < n → Used m (i + j) →
    kmmIsSpacesAvailable m i n = .ok false
  | 0, _, _, hj, _ => absurd hj (by omega)
  | n + 1, i, j, hj, hu => by
    have hi : i < kRegionPageNums := by
      obtain ⟨h, -⟩ := hu
      omega
    rw [kmmIsSpacesAvailable, get_of_lt hi, Lib.ok_bind]
    by_cases hf : (m ⟨i, hi⟩).ref_count = 0
    · rw [if_neg (by simp [hf])]
      cases j with
      | zero =>
        obtain ⟨_, hne⟩ := hu
        exact absurd hf hne
      | succ j =>
        exact available_of_used (j := j) (by omega)
          (by rwa [show i + 1 + j = i + (j + 1) by omega])
    · rw [if_pos (by simpa using hf), Lib.pure_eq_ok]

/-- A candidate whose pages are free up to the end of the map, and that needs more,
is read past the map. -/
theorem available_outOfBounds {m : RegionMap} : ∀ {n i : ℕ}, i ≤ kRegionPageNums →
    kRegionPageNums < i + n → (∀ p, i ≤ p → p < kRegionPageNums → Free m p) →
    kmmIsSpacesAvailable m i n = .error .outOfBounds
  | 0, _, hi, hn, _ => absurd hn (by omega)
  | n + 1, i, hi, hn, h => by
    rw [kmmIsSpacesAvailable]
    by_cases hlt : i < kRegionPageNums
    · obtain ⟨_, hf⟩ := h i (le_refl i) hlt
      rw [get_of_lt hlt, Lib.ok_bind, if_neg (by simp [hf])]
      exact available_outOfBounds (by omega) (by omega) fun p hp => h p (by omega)
    · rw [get_of_ge (by omega), Lib.error_bind]

/-- The map after `n` pages from `i` on have been marked as one block. -/
def marked (m : RegionMap) (i n : ℕ) : RegionMap := fun p =>
  if i ≤ p.val ∧ p.val < i + n then ⟨n, (m p).ref_count + 1⟩ else m p

theorem marked_of_mem {m : RegionMap} {i n : ℕ} {p : Fin kRegionPageNums}
    (h : i ≤ p.val ∧ p.val < i + n) : marked m i n p = ⟨n, (m p).ref_count + 1⟩ := if_pos h

theorem marked_of_not_mem {m : RegionMap} {i n : ℕ} {p : Fin kRegionPageNums}
    (h : ¬(i ≤ p.val ∧ p.val < i + n)) : marked m i n p = m p := if_neg h

theorem mark_eq (num : ℕ) {n : ℕ} : ∀ {m : RegionMap} {i : ℕ}, i + n ≤ kRegionPageNums →
    kmmUncachedMark num m i n =
      .ok fun p => if i ≤ p.val ∧ p.val < i + n then ⟨num, (m p).ref_count + 1⟩ else m p := by
  induction n with
  | zero =>
    intro m i _
    rw [kmmUncachedMark]
    refine congrArg Except.ok (funext fun p => ?_)
    rw [if_neg (by omega)]
  | succ n ih =>
    intro m i h
    rw [kmmUncachedMark, get_of_lt (i := i) (by omega), Lib.ok_bind, ih (by omega)]
    refine congrArg Except.ok (funext fun p => ?_)
    simp only [RegionMap.put]
    by_cases hp : p.val = i
    · have hpi : p = ⟨i, by omega⟩ := Fin.ext hp
      rw [if_neg (by omega), if_pos hp, if_pos (by omega), hpi]
    · simp only [if_neg hp]
      refine if_congr (by omega) rfl rfl

/-! ### What an allocation does -/

/-- `kmm_uncached_malloc` finds room: some run of free pages lies inside the map. -/
def Fits (m : RegionMap) (n : ℕ) : Prop := ∃ i < kRegionPageNums, Run m n i

instance (m : RegionMap) (n : ℕ) : Decidable (Fits m n) :=
  inferInstanceAs (Decidable (∃ i < kRegionPageNums, Run m n i))

/-- A run that is not empty ends inside the map. -/
theorem Run.le {m : RegionMap} {n i : ℕ} (h : Run m n i) (hi : i < kRegionPageNums) :
    i + n ≤ kRegionPageNums := by
  cases n with
  | zero => omega
  | succ n =>
    obtain ⟨hn, -⟩ := h n (by omega)
    omega

/-- A candidate before the first run that fits is refused without leaving the map. -/
theorem available_of_not_run {m : RegionMap} {n i i₀ : ℕ} (h₀ : Run m n i₀)
    (hi₀ : i₀ < kRegionPageNums) (hlt : i < i₀) (h : ¬Run m n i) :
    kmmIsSpacesAvailable m i n = .ok false := by
  have hle := h₀.le hi₀
  obtain ⟨j, hj, hfree⟩ := exists_not_free h
  exact available_of_used hj (used_of_not_free (by omega) hfree)

/-- **The scan takes the first run that fits.** -/
theorem scan_of_first (kUncachedStart : ℕ) {m : RegionMap} {n i₀ : ℕ} (h₀ : Run m n i₀)
    (hi₀ : i₀ < kRegionPageNums) (hfirst : ∀ i < i₀, ¬Run m n i) :
    ∀ {left i : ℕ}, i ≤ i₀ → i₀ < i + left →
    kmmUncachedScan kUncachedStart m n i left =
      .ok ((kUncachedStart + i₀ * PAGE_SIZE) % 2 ^ 64, marked m i₀ n)
  | 0, i, hle, hlt => absurd hlt (by omega)
  | left + 1, i, hle, hlt => by
    rw [kmmUncachedScan]
    rcases Nat.eq_or_lt_of_le hle with rfl | hi
    · rw [available_of_run h₀, Lib.ok_bind, if_pos rfl, mark_eq n (h₀.le hi₀), Lib.ok_bind,
        Lib.pure_eq_ok]
      rfl
    · rw [available_of_not_run h₀ hi₀ hi (hfirst i hi), Lib.ok_bind, if_neg (by simp)]
      exact scan_of_first kUncachedStart h₀ hi₀ hfirst (by omega) (by omega)

/-- When nothing fits and the last page is in use, the scan ends in `PANIC`. -/
theorem scan_panic (kUncachedStart : ℕ) {m : RegionMap} {n : ℕ}
    (hno : ¬Fits m n) (hlast : Used m (kRegionPageNums - 1)) :
    ∀ {left i : ℕ}, i + left ≤ kRegionPageNums →
    kmmUncachedScan kUncachedStart m n i left = .error (.panic "No free space!")
  | 0, i, _ => rfl
  | left + 1, i, hle => by
    have havail : kmmIsSpacesAvailable m i n = .ok false := by
      obtain ⟨j, hj, hfree⟩ := exists_not_free fun h => hno ⟨i, by omega, h⟩
      by_cases hin : i + j < kRegionPageNums
      · exact available_of_used hj (used_of_not_free hin hfree)
      · exact available_of_used (j := kRegionPageNums - 1 - i) (by omega)
          (by rwa [show i + (kRegionPageNums - 1 - i) = kRegionPageNums - 1 by omega])
    rw [kmmUncachedScan, havail, Lib.ok_bind, if_neg (by simp)]
    exact scan_panic kUncachedStart hno hlast (by omega)

/-- When nothing fits and the last page is free, some candidate is read past the
map. -/
theorem scan_outOfBounds (kUncachedStart : ℕ) {m : RegionMap} {n : ℕ}
    (hno : ¬Fits m n) (hlast : ¬Used m (kRegionPageNums - 1)) :
    ∀ {left i : ℕ}, 0 < left → i + left = kRegionPageNums →
    kmmUncachedScan kUncachedStart m n i left = .error .outOfBounds
  | 0, i, hpos, _ => absurd hpos (by omega)
  | left + 1, i, _, hle => by
    have hi : i < kRegionPageNums := by omega
    rw [kmmUncachedScan]
    by_cases hall : ∀ p, i ≤ p → p < kRegionPageNums → Free m p
    · have hn : kRegionPageNums < i + n := by
        by_contra hcon
        exact hno ⟨i, hi, fun j hj => hall (i + j) (by omega) (by omega)⟩
      rw [available_outOfBounds (Nat.le_of_lt hi) hn hall, Lib.error_bind]
    · obtain ⟨p, hip, hp, hf⟩ : ∃ p, i ≤ p ∧ p < kRegionPageNums ∧ ¬Free m p := by
        by_contra hcon
        exact hall fun p hip hp => by
          by_contra hf
          exact hcon ⟨p, hip, hp, hf⟩
      have hu : Used m p := used_of_not_free hp hf
      have hpne : p ≠ kRegionPageNums - 1 := fun hc => hlast (hc ▸ hu)
      by_cases hin : p < i + n
      · rw [available_of_used (j := p - i) (by omega) (by rwa [show i + (p - i) = p by omega]),
          Lib.ok_bind, if_neg (by simp)]
        exact scan_outOfBounds kUncachedStart hno hlast (by omega) (by omega)
      · obtain ⟨j, hj, hfree⟩ := exists_not_free fun h => hno ⟨i, hi, h⟩
        rw [available_of_used hj (used_of_not_free (by omega) hfree), Lib.ok_bind,
          if_neg (by simp)]
        exact scan_outOfBounds kUncachedStart hno hlast (by omega) (by omega)

/-- **What `kmm_uncached_malloc` does when there is room**: it marks the pages of
the first run that fits. -/
theorem malloc_of_fits (kUncachedStart : ℕ) {m : RegionMap} {size : ℕ}
    (h : Fits m (numPages size)) :
    ∃ i < kRegionPageNums, Run m (numPages size) i ∧ kmmUncachedMalloc kUncachedStart m size =
      .ok ((kUncachedStart + i * PAGE_SIZE) % 2 ^ 64, marked m i (numPages size)) := by
  classical
  have hspec := Nat.find_spec h
  refine ⟨Nat.find h, hspec.1, hspec.2, scan_of_first kUncachedStart hspec.2 hspec.1
    (fun i hi hrun => Nat.find_min h hi ⟨by omega, hrun⟩) (Nat.zero_le _) (by omega)⟩

/-- **What `kmm_uncached_malloc` does when there is none**: with the last page of
the region in use it stops in `PANIC`, with that page free it leaves the map. -/
theorem malloc_of_not_fits (kUncachedStart : ℕ) {m : RegionMap} {size : ℕ}
    (h : ¬Fits m (numPages size)) :
    (Used m (kRegionPageNums - 1) →
      kmmUncachedMalloc kUncachedStart m size = .error (.panic "No free space!")) ∧
    (¬Used m (kRegionPageNums - 1) →
      kmmUncachedMalloc kUncachedStart m size = .error .outOfBounds) :=
  ⟨fun hl => scan_panic kUncachedStart h hl (by omega),
    fun hl => scan_outOfBounds kUncachedStart h hl (by decide) (by omega)⟩

/-- **The next pages** are those behind the ones taken. -/
theorem malloc_of_used {kUncachedStart n : ℕ} {map : RegionMap}
    (hend : kUncachedStart + kRegionPageNums * PAGE_SIZE ≤ 2 ^ 64) (size : ℕ)
    (hused : ∀ p : Fin kRegionPageNums, (map p).ref_count ≠ 0 ↔ p.val < n)
    (hpos : 0 < numPages size) (hfit : n + numPages size ≤ kRegionPageNums) :
    kmmUncachedMalloc kUncachedStart map size =
        .ok (kUncachedStart + n * PAGE_SIZE, marked map n (numPages size)) ∧
      ∀ p : Fin kRegionPageNums, (marked map n (numPages size) p).ref_count ≠ 0 ↔
        p.val < n + numPages size := by
  have hfree : ∀ p : Fin kRegionPageNums, ¬p.val < n → (map p).ref_count = 0 := fun p hp =>
    not_not.mp fun hne => hp ((hused p).mp hne)
  have hrun : Run map (numPages size) n := fun j hj =>
    ⟨by omega, hfree ⟨n + j, by omega⟩ (by dsimp only; omega)⟩
  have hfirst : ∀ i < n, ¬Run map (numPages size) i := by
    intro i hi h
    obtain ⟨hlt, hzero⟩ := h 0 hpos
    exact (hused ⟨i + 0, hlt⟩).mpr hi hzero
  have hlt : kUncachedStart + n * PAGE_SIZE < 2 ^ 64 := by
    have hle : (n + 1) * PAGE_SIZE ≤ kRegionPageNums * PAGE_SIZE :=
      Nat.mul_le_mul_right PAGE_SIZE (by omega)
    have hpage : 0 < PAGE_SIZE := by decide
    rw [Nat.add_mul] at hle
    omega
  refine ⟨?_, fun p => ?_⟩
  · rw [kmmUncachedMalloc, scan_of_first kUncachedStart hrun (by omega) hfirst
      (Nat.zero_le n) (by omega), Nat.mod_eq_of_lt hlt]
  · by_cases hp : n ≤ p.val ∧ p.val < n + numPages size
    · rw [marked_of_mem hp, hfree p (by omega)]
      have hone : (0 + 1 : UInt8) ≠ 0 := by decide
      exact iff_of_true hone hp.2
    · rw [marked_of_not_mem hp, hused]
      omega

/-! ### What a release does -/

/-- The loop of `kmm_uncached_free`, run `n` times, takes `n` references off the
block's first page, clears its size, and touches nothing else. -/
theorem unmark_eq {i : ℕ} (hi : i < kRegionPageNums) : ∀ {n : ℕ} {m : RegionMap},
    kmmUncachedUnmark m i n =
      .ok (if n = 0 then m else m.put i ⟨0, (m ⟨i, hi⟩).ref_count - UInt8.ofNat n⟩)
  | 0, m => rfl
  | n + 1, m => by
    rw [kmmUncachedUnmark, get_of_lt hi, Lib.ok_bind, unmark_eq hi, if_neg (Nat.succ_ne_zero n)]
    refine congrArg Except.ok (funext fun p => ?_)
    by_cases hp : p.val = i
    · cases n with
      | zero => simp [RegionMap.put, hp]
      | succ n =>
        simp only [Nat.succ_ne_zero, if_false, RegionMap.put, hp, if_true]
        refine PageBlock.ext rfl ?_
        simp only [UInt8.ofNat_add]
        grind
    · split_ifs <;> simp [RegionMap.put, hp]

/-- **What `kmm_uncached_free` does.** -/
theorem free_eq (kUncachedStart : ℕ) {m : RegionMap} {va : ℕ}
    (hi : pageIdx kUncachedStart va < kRegionPageNums) :
    kmmUncachedFree kUncachedStart m va = .ok (if (m ⟨_, hi⟩).size = 0 then m else
      m.put (pageIdx kUncachedStart va)
        ⟨0, (m ⟨_, hi⟩).ref_count - UInt8.ofNat (m ⟨_, hi⟩).size⟩) := by
  rw [kmmUncachedFree, get_of_lt hi, Lib.ok_bind, unmark_eq hi]

/-- The address handed out for candidate `i` is the one page `i` is found at. -/
theorem pageIdx_paddr (kUncachedStart : ℕ) {i : ℕ} (hi : i < kRegionPageNums) :
    pageIdx kUncachedStart ((kUncachedStart + i * PAGE_SIZE) % 2 ^ 64) = i := by
  simp only [kRegionPageNums, PAGE_SIZE] at hi
  simp only [pageIdx, PAGE_SIZE]
  omega

end Uncached

end Evisor
