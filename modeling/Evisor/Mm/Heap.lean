import Mathlib.Data.List.GetD
import Mathlib.Logic.Function.Basic
import Evisor.Arch.LdSymbols
import Evisor.Lib.Bits

/-!
# The kernel heap

`mm/heap/kmm_malloc.cc` hands out one page per request, whatever the size asked for:
the first page of the heap not marked in `kernelHeapMemMap`. `mm/heap/kmm_zalloc.cc`
clears what was asked for.

The hypervisor runs with its own addresses mapped one to one, so that an address is
a physical address. Its tables are arrays of 64 bit words on page boundaries, and
memory is what such words hold: a word is named by its address, a multiple of eight.
-/

namespace Evisor

/-- Memory: the 64 bit word at each address. -/
abbrev Mem := ℕ → ℕ

/-- `memzero`. -/
def Mem.memzero (m : Mem) (va size : ℕ) : Mem := fun a => if va ≤ a ∧ a < va + size then 0 else m a

/-- The byte of memory at an address: a word is stored with its lowest byte first. -/
def Mem.byte (m : Mem) (a : ℕ) : ℕ := Lib.byte (m (a / 8 * 8)) (a % 8)

/-- `memcpy`, of whole words: the bytes `src` are stored from `dst` on. -/
def Mem.memcpy (m : Mem) (dst : ℕ) (src : ℕ → ℕ) (size : ℕ) : Mem := fun a =>
  if dst ≤ a ∧ a < dst + size then Lib.word fun i => src (a - dst + i) else m a

/-- `memcpy`, of bytes: those of the list are stored from `dst` on. -/
def Mem.storeBytes (m : Mem) (dst : ℕ) (bytes : List ℕ) : Mem := fun a =>
  if dst / 8 * 8 ≤ a ∧ a < dst + bytes.length then
    Lib.word fun i =>
      if dst ≤ a + i ∧ a + i < dst + bytes.length then bytes.getD (a + i - dst) 0
      else m.byte (a + i)
  else m a

/-- `HEAP_PAGES`. -/
def HEAP_PAGES : ℕ := kHeapSize / PAGE_SIZE

/-- `kernelHeapMemMap`, whose entries are those below `HEAP_PAGES`. -/
abbrev HeapMap := ℕ → Bool

/-- The scan of `kmm_malloc`, with the pages still to be looked at. -/
def kmmMallocScan (L : Layout) (map : HeapMap) : ℕ → Except Fault (ℕ × HeapMap)
  | 0 => .error (.panic "No free space!")
  | left + 1 =>
    let i := HEAP_PAGES - (left + 1)
    if map i then kmmMallocScan L map left
    else .ok (L.kHeapStart + i * PAGE_SIZE, Function.update map i true)

/-- `kmm_malloc`. A request for nothing is answered with a null pointer. -/
def kmmMalloc (L : Layout) (map : HeapMap) (size : ℕ) : Except Fault (ℕ × HeapMap) :=
  if size < 1 then .ok (0, map) else kmmMallocScan L map HEAP_PAGES

/-- `kmm_free`, which does not look at what the page is. -/
def kmmFree (L : Layout) (map : HeapMap) (va : ℕ) : Except Fault HeapMap :=
  let i := (va + 2 ^ 64 - L.kHeapStart) % 2 ^ 64 / PAGE_SIZE
  if i < HEAP_PAGES then .ok (Function.update map i false) else .error .outOfBounds

/-- `kmm_zalloc`. -/
def kmmZalloc (L : Layout) (m : Mem) (map : HeapMap) (size : ℕ) :
    Except Fault (ℕ × Mem × HeapMap) := do
  let (alloc, map) ← kmmMalloc L map size
  return (alloc, if alloc = 0 then m else m.memzero alloc size, map)

/-! ### Bytes of memory -/

/-- Bytes of the same word are the same. -/
theorem Mem.byte_congr {m m' : Mem} {a : ℕ} (h : m' (a / 8 * 8) = m (a / 8 * 8)) :
    m'.byte a = m.byte a := by
  rw [Mem.byte, Mem.byte, h]

/-- **The bytes copied** are read back, and no other byte has changed. -/
theorem Mem.memcpy_byte (m : Mem) {dst size : ℕ} {src : ℕ → ℕ} (hdst : dst % 8 = 0)
    (hsize : size % 8 = 0) (hsrc : ∀ i, src i < 256) (a : ℕ) :
    (m.memcpy dst src size).byte a =
      if dst ≤ a ∧ a < dst + size then src (a - dst) else m.byte a := by
  rw [Mem.byte, Mem.memcpy]
  by_cases h : dst ≤ a ∧ a < dst + size
  · rw [if_pos h, if_pos (by omega), Lib.byte_word (fun _ => hsrc _) (Nat.mod_lt a (by decide))]
    congr 1
    omega
  · rw [if_neg h, if_neg (by omega)]
    rfl

/-- Bytes that are stored one by one are read back, and no other byte has changed. -/
theorem Mem.storeBytes_byte (m : Mem) {dst : ℕ} {bytes : List ℕ} (hbytes : ∀ c ∈ bytes, c < 256)
    (a : ℕ) : (m.storeBytes dst bytes).byte a =
      if dst ≤ a ∧ a < dst + bytes.length then bytes.getD (a - dst) 0 else m.byte a := by
  have hword : a / 8 * 8 + a % 8 = a := Nat.div_add_mod' a 8
  rw [Mem.byte, Mem.storeBytes]
  by_cases h : dst / 8 * 8 ≤ a / 8 * 8 ∧ a / 8 * 8 < dst + bytes.length
  · have hlt : ∀ i, (if dst ≤ a / 8 * 8 + i ∧ a / 8 * 8 + i < dst + bytes.length then
        bytes.getD (a / 8 * 8 + i - dst) 0 else m.byte (a / 8 * 8 + i)) < 256 := by
      intro i
      split
      · rw [List.getD_eq_getElem _ _ (by omega)]
        exact hbytes _ (List.getElem_mem _)
      · exact Nat.mod_lt _ (by decide)
    rw [if_pos h, Lib.byte_word hlt (Nat.mod_lt a (by decide)), hword]
  · rw [if_neg h, if_neg (by omega)]
    rfl

/-- The bytes cleared read zero, and no other byte has changed. -/
theorem Mem.memzero_byte (m : Mem) {va size : ℕ} (hva : va % 8 = 0) (hsize : size % 8 = 0)
    (a : ℕ) : (m.memzero va size).byte a = if va ≤ a ∧ a < va + size then 0 else m.byte a := by
  rw [Mem.byte, Mem.memzero]
  by_cases h : va ≤ a ∧ a < va + size
  · rw [if_pos h, if_pos (by omega), Lib.byte_zero]
  · rw [if_neg h, if_neg (by omega)]
    rfl

/-! ### What an allocation yields -/

/-- The page of the heap with index `i`. -/
def Layout.heapPage (L : Layout) (i : ℕ) : ℕ := L.kHeapStart + i * PAGE_SIZE

/-- A page of the heap that is handed out. -/
def Allocated (L : Layout) (map : HeapMap) (page : ℕ) : Prop :=
  ∃ i < HEAP_PAGES, map i = true ∧ page = L.heapPage i

theorem heapPage_inj {L : Layout} {i j : ℕ} (h : L.heapPage i = L.heapPage j) : i = j := by
  simp only [Layout.heapPage, PAGE_SIZE] at h
  omega

theorem inHeap_heapPage (L : Layout) {i : ℕ} (hi : i < HEAP_PAGES) : L.InHeap (L.heapPage i) := by
  have := L.heap_aligned
  simp only [Layout.InHeap, Layout.heapPage, HEAP_PAGES, kHeapSize, PAGE_SIZE] at *
  omega

theorem Allocated.inHeap {L : Layout} {map : HeapMap} {page : ℕ} (h : Allocated L map page) :
    L.InHeap page := by
  obtain ⟨i, hi, -, rfl⟩ := h
  exact inHeap_heapPage L hi

theorem kmmMallocScan_ok {L : Layout} {map map' : HeapMap} {left page : ℕ}
    (hleft : left ≤ HEAP_PAGES) (h : kmmMallocScan L map left = .ok (page, map')) :
    ∃ i < HEAP_PAGES, map i = false ∧ page = L.heapPage i ∧ map' = Function.update map i true := by
  induction left with
  | zero => cases h
  | succ left ih =>
    rw [kmmMallocScan] at h
    split at h
    · exact ih (Nat.le_of_succ_le hleft) h
    case isFalse hfree =>
      obtain ⟨rfl, rfl⟩ := Prod.mk.inj (Except.ok.inj h)
      exact ⟨_, by omega, Bool.not_eq_true _ ▸ hfree, rfl, rfl⟩

theorem kmmMallocScan_error {L : Layout} {map : HeapMap} {left : ℕ} {f : Fault}
    (h : kmmMallocScan L map left = .error f) : f.OutOfMemory := by
  induction left with
  | zero =>
    obtain rfl := Except.error.inj h
    exact .inl rfl
  | succ left ih =>
    rw [kmmMallocScan] at h
    split at h
    · exact ih h
    · cases h

/-- **An allocation yields a page that was not handed out**, and marks it. -/
theorem kmmMalloc_ok {L : Layout} {map map' : HeapMap} {size page : ℕ} (hsize : 1 ≤ size)
    (h : kmmMalloc L map size = .ok (page, map')) :
    ∃ i < HEAP_PAGES, map i = false ∧ page = L.heapPage i ∧ map' = Function.update map i true := by
  rw [kmmMalloc, if_neg (Nat.not_lt.mpr hsize)] at h
  exact kmmMallocScan_ok le_rfl h

/-- The only way an allocation fails is to stop. -/
theorem kmmMalloc_error {L : Layout} {map : HeapMap} {size : ℕ} {f : Fault}
    (h : kmmMalloc L map size = .error f) : f.OutOfMemory := by
  rw [kmmMalloc] at h
  split at h
  · cases h
  · exact kmmMallocScan_error h

theorem kmmMallocScan_full {L : Layout} {map : HeapMap} {left : ℕ} {f : Fault}
    (hleft : left ≤ HEAP_PAGES) (h : kmmMallocScan L map left = .error f) :
    f = .panic "No free space!" ∧ ∀ i < HEAP_PAGES, HEAP_PAGES - left ≤ i → map i = true := by
  induction left with
  | zero => exact ⟨(Except.error.inj h).symm, fun i hi hle => absurd hle (by omega)⟩
  | succ left ih =>
    rw [kmmMallocScan] at h
    split at h
    case isTrue htaken =>
      obtain ⟨hf, hrest⟩ := ih (Nat.le_of_succ_le hleft) h
      refine ⟨hf, fun i hi hle => ?_⟩
      rcases Nat.eq_or_lt_of_le hle with rfl | hlt
      · exact htaken
      · exact hrest i hi (by omega)
    · cases h

/-- **An allocation fails** only when all pages are handed out. -/
theorem kmmMalloc_full {L : Layout} {map : HeapMap} {size : ℕ} {f : Fault}
    (h : kmmMalloc L map size = .error f) :
    f = .panic "No free space!" ∧ ∀ i < HEAP_PAGES, map i = true := by
  rw [kmmMalloc] at h
  split at h
  · cases h
  · obtain ⟨hf, hfull⟩ := kmmMallocScan_full le_rfl h
    exact ⟨hf, fun i hi => hfull i hi (by omega)⟩

/-- **Giving a page back** marks it free. -/
theorem kmmFree_heapPage (L : Layout) (map : HeapMap) {i : ℕ} (hi : i < HEAP_PAGES) :
    kmmFree L map (L.heapPage i) = .ok (Function.update map i false) := by
  have hidx : (L.heapPage i + 2 ^ 64 - L.kHeapStart) % 2 ^ 64 / PAGE_SIZE = i := by
    simp only [Layout.heapPage, HEAP_PAGES, kHeapSize, PAGE_SIZE] at *
    omega
  rw [kmmFree, hidx]
  exact if_pos hi

/-- **A cleared page**: it was not handed out, it is now, and all of it reads zero. -/
theorem kmmZalloc_ok {L : Layout} {m m' : Mem} {map map' : HeapMap} {page : ℕ}
    (h : kmmZalloc L m map PAGE_SIZE = .ok (page, m', map')) :
    ∃ i < HEAP_PAGES, map i = false ∧ page = L.heapPage i ∧
      map' = Function.update map i true ∧ m' = m.memzero page PAGE_SIZE := by
  obtain ⟨⟨alloc, map₁⟩, hm, h⟩ := Lib.bind_eq_ok.mp h
  obtain ⟨i, hi, hfree, rfl, rfl⟩ := kmmMalloc_ok (by decide) hm
  obtain ⟨-, hpos, -⟩ := (inHeap_heapPage L hi).bounds
  simp only [if_neg hpos.ne', Lib.pure_eq_ok, Except.ok.injEq, Prod.mk.injEq] at h
  obtain ⟨rfl, rfl, rfl⟩ := h
  exact ⟨i, hi, hfree, rfl, rfl, rfl⟩

theorem kmmZalloc_error {L : Layout} {m : Mem} {map : HeapMap} {size : ℕ} {f : Fault}
    (h : kmmZalloc L m map size = .error f) : f.OutOfMemory := by
  rcases Lib.bind_eq_error.mp h with h | ⟨_, -, h⟩
  · exact kmmMalloc_error h
  · cases h

/-- A page that has just been handed out was not handed out before. -/
theorem not_allocated_of_free {L : Layout} {map : HeapMap} {i : ℕ} (hfree : map i = false) :
    ¬Allocated L map (L.heapPage i) := by
  rintro ⟨j, -, hj, heq⟩
  rw [heapPage_inj heq, hj] at hfree
  cases hfree

/-- Marking a page keeps the ones marked. -/
theorem Allocated.update {L : Layout} {map : HeapMap} {page : ℕ} (h : Allocated L map page)
    (i : ℕ) : Allocated L (Function.update map i true) page := by
  obtain ⟨j, hj, hjm, rfl⟩ := h
  refine ⟨j, hj, ?_, rfl⟩
  rw [Function.update_apply]
  split
  · rfl
  · exact hjm

theorem allocated_update_self {L : Layout} {map : HeapMap} {i : ℕ} (hi : i < HEAP_PAGES) :
    Allocated L (Function.update map i true) (L.heapPage i) :=
  ⟨i, hi, Function.update_self .., rfl⟩

end Evisor
