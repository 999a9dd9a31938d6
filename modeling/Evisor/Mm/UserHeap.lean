import Mathlib.Data.Nat.Bitwise
import Evisor.Mm.Heap

/-!
# The user region

`mm/user_heap/umm_malloc.cc`, from which guests get their pages. The region has a bit
for each of its pages, and `nextFreeSpaceIndex` is where the search for a clear bit
starts: one above the last page handed out, so that it never looks back
(`Evisor.ummMallocScan_ok`).
-/

namespace Evisor

/-- `kPagingPages`. -/
def kPagingPages : ℕ := 1024 * 1024 * 1024 * 2 / PAGE_SIZE

/-- The state of the allocator. -/
structure UserMap where
  /-- `userMemoryRegionMap_`. -/
  userMemoryRegionMap : ℕ → ℕ
  /-- `nextFreeSpaceIndex`. -/
  nextFreeSpaceIndex : ℕ

/-- The allocator at boot. -/
def UserMap.boot : UserMap := ⟨fun _ => 0, 0⟩

/-- The page of the user region with index `i`. -/
def Layout.userPage (L : Layout) (i : ℕ) : ℕ := L.kUserStart + i * PAGE_SIZE

/-- The scan of `umm_malloc`, with the pages still to be looked at. -/
def ummMallocScan (L : Layout) (u : UserMap) : ℕ → Except Fault (ℕ × UserMap)
  | 0 => .error (.panic "No free pages in user memory region!")
  | left + 1 =>
    let i := kPagingPages - (left + 1)
    let j := i / 8
    let bit := 1 <<< (i % 8)
    if u.userMemoryRegionMap j &&& bit = 0 then
      .ok (L.userPage i, ⟨Function.update u.userMemoryRegionMap j
        (u.userMemoryRegionMap j ||| bit), i + 1⟩)
    else ummMallocScan L u left

/-- `umm_malloc`. A request for less than a page, or for a part of one, is answered
with a null pointer. -/
def ummMalloc (L : Layout) (u : UserMap) (size : ℕ) : Except Fault (ℕ × UserMap) :=
  if size < PAGE_SIZE then .ok (0, u)
  else if size % PAGE_SIZE ≠ 0 then .ok (0, u)
  else ummMallocScan L u (kPagingPages - u.nextFreeSpaceIndex)

/-- `umm_zalloc`. -/
def ummZalloc (L : Layout) (m : Mem) (u : UserMap) (size : ℕ) :
    Except Fault (ℕ × Mem × UserMap) := do
  let (alloc, u) ← ummMalloc L u size
  return (alloc, if alloc = 0 then m else m.memzero alloc size, u)

/-- `umm_free`, which clears the bit of the page that a block starts with. -/
def ummFree (L : Layout) (u : UserMap) (va : ℕ) : Except Fault UserMap :=
  let page := (va + 2 ^ 64 - L.kUserStart) % 2 ^ 64 / PAGE_SIZE % 2 ^ 32
  let i := page / 8
  let bit := 1 <<< (page % 8)
  if kPagingPages ≤ i then .error .outOfBounds
  else .ok ⟨Function.update u.userMemoryRegionMap i
    (u.userMemoryRegionMap i &&& (255 ^^^ bit)), u.nextFreeSpaceIndex⟩

/-- The page with index `i` is out. -/
def UserMap.Out (u : UserMap) (i : ℕ) : Prop := (u.userMemoryRegionMap (i / 8)).testBit (i % 8)

/-! ### What an allocation yields -/

theorem userPage_inj {L : Layout} {i j : ℕ} (h : L.userPage i = L.userPage j) : i = j := by
  simp only [Layout.userPage, PAGE_SIZE] at h
  omega

theorem inUser_userPage (L : Layout) {i : ℕ} (hi : i < kPagingPages) : L.InUser (L.userPage i) := by
  have := L.user_aligned
  simp only [Layout.InUser, Layout.userPage, kPagingPages, kUserSize, PAGE_SIZE] at *
  omega

theorem Layout.InUser.bounds {L : Layout} {page : ℕ} (h : L.InUser page) :
    page % 4096 = 0 ∧ 0 < page ∧ page < 2 ^ 36 := by
  have := L.heap_pos
  have := L.heap_end
  have := L.uncached_end
  have := L.user_end
  obtain ⟨hal, hlo, hhi⟩ := h
  simp only [kHeapSize, kUncachedSize, kUserSize, PAGE_SIZE] at *
  omega

theorem ummMallocScan_ok {L : Layout} {u u' : UserMap} {left page : ℕ} (hleft : left ≤ kPagingPages)
    (h : ummMallocScan L u left = .ok (page, u')) :
    ∃ i < kPagingPages, kPagingPages - left ≤ i ∧ page = L.userPage i ∧
      u'.nextFreeSpaceIndex = i + 1 := by
  induction left with
  | zero => cases h
  | succ left ih =>
    rw [ummMallocScan] at h
    split at h
    · obtain ⟨rfl, rfl⟩ := Prod.mk.inj (Except.ok.inj h)
      exact ⟨_, by omega, le_rfl, rfl, rfl⟩
    · obtain ⟨i, hi, hle, hpage, hnext⟩ := ih (Nat.le_of_succ_le hleft) h
      exact ⟨i, hi, by omega, hpage, hnext⟩

/-- Marking a page. -/
theorem UserMap.out_mark (u : UserMap) (i next j : ℕ) :
    UserMap.Out ⟨Function.update u.userMemoryRegionMap (i / 8)
      (u.userMemoryRegionMap (i / 8) ||| 1 <<< (i % 8)), next⟩ j ↔ u.Out j ∨ j = i := by
  rw [Out, Out]
  dsimp only
  by_cases hdiv : j / 8 = i / 8
  · rw [hdiv, Function.update_self, Nat.testBit_or, Nat.one_shiftLeft, Nat.testBit_two_pow,
      Bool.or_eq_true, decide_eq_true_eq]
    refine or_congr_right ⟨fun h => ?_, fun h => by rw [h]⟩
    omega
  · rw [Function.update_of_ne hdiv]
    refine (or_iff_left ?_).symm
    rintro rfl
    exact hdiv rfl

/-- **An allocation marks the page it yields**, which was not marked. -/
theorem ummMallocScan_out {L : Layout} {u u' : UserMap} {left i : ℕ}
    (h : ummMallocScan L u left = .ok (L.userPage i, u')) :
    ¬u.Out i ∧ ∀ j, u'.Out j ↔ u.Out j ∨ j = i := by
  induction left with
  | zero => cases h
  | succ left ih =>
    rw [ummMallocScan] at h
    split_ifs at h with hclear
    · obtain ⟨hpage, rfl⟩ := Prod.mk.inj (Except.ok.inj h)
      obtain rfl := userPage_inj hpage
      refine ⟨?_, fun j => UserMap.out_mark u _ _ j⟩
      rw [Nat.one_shiftLeft, Nat.and_two_pow] at hclear
      rw [UserMap.Out]
      intro hbit
      rw [hbit] at hclear
      simp at hclear
    · exact ih h

theorem ummMallocScan_error {L : Layout} {u : UserMap} {left : ℕ} {f : Fault}
    (h : ummMallocScan L u left = .error f) : f.OutOfMemory := by
  induction left with
  | zero =>
    obtain rfl := Except.error.inj h
    exact .inr rfl
  | succ left ih =>
    rw [ummMallocScan] at h
    split at h
    · cases h
    · exact ih h

/-- **A page above all those handed out before**, cleared. -/
theorem ummZalloc_ok {L : Layout} {m m' : Mem} {u u' : UserMap} {page : ℕ}
    (h : ummZalloc L m u PAGE_SIZE = .ok (page, m', u')) :
    ∃ i < kPagingPages, u.nextFreeSpaceIndex ≤ i ∧ page = L.userPage i ∧
      u'.nextFreeSpaceIndex = i + 1 ∧ m' = m.memzero page PAGE_SIZE := by
  obtain ⟨⟨alloc, u₁⟩, hm, h⟩ := Lib.bind_eq_ok.mp h
  have hscan : ummMallocScan L u (kPagingPages - u.nextFreeSpaceIndex) = .ok (alloc, u₁) := hm
  obtain ⟨i, hi, hle, rfl, hnext⟩ := ummMallocScan_ok (Nat.sub_le ..) hscan
  obtain ⟨-, hpos, -⟩ := (inUser_userPage L hi).bounds
  simp only [if_neg hpos.ne', Lib.pure_eq_ok, Except.ok.injEq, Prod.mk.injEq] at h
  obtain ⟨rfl, rfl, rfl⟩ := h
  exact ⟨i, hi, by omega, rfl, hnext, rfl⟩

theorem ummZalloc_out {L : Layout} {m m' : Mem} {u u' : UserMap} {i : ℕ}
    (h : ummZalloc L m u PAGE_SIZE = .ok (L.userPage i, m', u')) :
    ¬u.Out i ∧ ∀ j, u'.Out j ↔ u.Out j ∨ j = i := by
  obtain ⟨⟨alloc, u₁⟩, hm, h⟩ := Lib.bind_eq_ok.mp h
  obtain ⟨rfl, h⟩ := Prod.mk.inj (Except.ok.inj h)
  obtain ⟨-, rfl⟩ := Prod.mk.inj h
  exact ummMallocScan_out hm

/-- The only way an allocation fails is to stop. -/
theorem ummZalloc_error {L : Layout} {m : Mem} {u : UserMap} {f : Fault}
    (h : ummZalloc L m u PAGE_SIZE = .error f) : f.OutOfMemory := by
  rcases Lib.bind_eq_error.mp h with h | ⟨_, -, h⟩
  · exact ummMallocScan_error h
  · cases h

end Evisor
