import Evisor.Basic

/-!
# The memory layout

The linker scripts (`arch/arm64/scripts/*/linker.ld`) lay the kernel heap, the
uncached region and the user region out one after the other, each starting on a page
boundary, somewhere above the kernel image. Where exactly depends on the image, so
that all of the development is about any layout of this kind.
-/

namespace Evisor

/-- The bytes of the heap, `__heap_size`. -/
def kHeapSize : ℕ := 1024 * 1024 * 64

/-- The bytes of the uncached region, `__uncached_space_size`. -/
def kUncachedSize : ℕ := 1024 * 1024 * 1

/-- The bytes of the user region, `__user_space_size`. -/
def kUserSize : ℕ := 1024 * 1024 * 1024 * 2

/-- **A layout the linker scripts produce.** -/
structure Layout where
  /-- `kHeapStart`. -/
  kHeapStart : ℕ
  /-- `kUncachedStart`. -/
  kUncachedStart : ℕ
  /-- `kUserStart`. -/
  kUserStart : ℕ
  /-- The kernel image is below the heap. -/
  heap_pos : 0 < kHeapStart
  heap_aligned : kHeapStart % PAGE_SIZE = 0
  heap_end : kHeapStart + kHeapSize ≤ kUncachedStart
  uncached_end : kUncachedStart + kUncachedSize ≤ kUserStart
  user_aligned : kUserStart % PAGE_SIZE = 0
  /-- Memory ends below what a 36 bit physical address reaches. -/
  user_end : kUserStart + kUserSize ≤ 2 ^ 36

/-- The layout of the QEMU board, for a kernel image that ends at `0x40400000`. -/
def Layout.qemu : Layout where
  kHeapStart := 0x40400000
  kUncachedStart := 0x44400000
  kUserStart := 0x44500000
  heap_pos := by decide
  heap_aligned := by decide
  heap_end := by decide
  uncached_end := by decide
  user_aligned := by decide
  user_end := by decide

/-- A page of the heap. -/
def Layout.InHeap (L : Layout) (page : ℕ) : Prop :=
  page % PAGE_SIZE = 0 ∧ L.kHeapStart ≤ page ∧ page + PAGE_SIZE ≤ L.kHeapStart + kHeapSize

/-- A page of the user region. -/
def Layout.InUser (L : Layout) (page : ℕ) : Prop :=
  page % PAGE_SIZE = 0 ∧ L.kUserStart ≤ page ∧ page + PAGE_SIZE ≤ L.kUserStart + kUserSize

/-- What an address of an allocated page can be. -/
theorem Layout.InHeap.bounds {L : Layout} {page : ℕ} (h : L.InHeap page) :
    page % 4096 = 0 ∧ 0 < page ∧ page < 2 ^ 36 := by
  have := L.heap_pos
  have := L.heap_end
  have := L.uncached_end
  have := L.user_end
  obtain ⟨hal, hlo, hhi⟩ := h
  simp only [kHeapSize, kUncachedSize, kUserSize, PAGE_SIZE] at *
  omega

end Evisor
