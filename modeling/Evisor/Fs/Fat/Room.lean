import Mathlib.Data.Finset.Card
import Mathlib.Data.Finset.Range
import Evisor.Fs.Fat.Volume

/-!
# Pages for the nodes

Each node at the end of the list of a handle takes a page of the heap, and none is ever given back.
So what is wanted of the heap when a chain is followed is a matter of how many nodes are added,
whatever the table says. A call that stops for want of a page has taken all there were
(`Evisor.Fat32Fs.Takes`).
-/

namespace Evisor

namespace Fat32Fs

/-- The pages of the heap that can still be handed out. -/
def freePages (map : HeapMap) : ℕ := ((Finset.range HEAP_PAGES).filter fun i => map i = false).card

/-- **A stop for want of a page**, of the so many that may be taken. -/
structure WantsPage (heap : HeapMap) (nodes : ℕ) (f : Fault) : Prop where
  panic : f.OutOfMemory
  few : freePages heap < nodes

/-- **What is done takes at most so many pages**: it leaves the others, and stops for want of a page
only if there were less. -/
def Takes {α : Type} (heap : HeapMap) (nodes : ℕ) (p : α → HeapMap) (x : Except Fault α) :
    Prop :=
  Lib.Gives x (fun a => freePages heap ≤ freePages (p a) + nodes)
    (fun f => f.OutOfMemory → freePages heap < nodes)

variable {L : Layout} {d : Mmc} {fat : Volume} {map : HeapMap} {s : Clusters}

/-! ### The pages of the heap -/

theorem freePages_free : freePages (fun _ => false) = HEAP_PAGES := by
  rw [freePages, Finset.filter_true_of_mem fun _ _ => rfl, Finset.card_range]

/-- A page less can be handed out when one has been. -/
theorem freePages_update {i : ℕ} (hi : i < HEAP_PAGES) (hfree : map i = false) :
    freePages (Function.update map i true) + 1 = freePages map := by
  have hmem : i ∈ (Finset.range HEAP_PAGES).filter fun j => map j = false :=
    Finset.mem_filter.mpr ⟨Finset.mem_range.mpr hi, hfree⟩
  have herase : (Finset.range HEAP_PAGES).filter (fun j => Function.update map i true j = false) =
      ((Finset.range HEAP_PAGES).filter fun j => map j = false).erase i := by
    ext j
    rw [Finset.mem_erase, Finset.mem_filter, Finset.mem_filter]
    rcases eq_or_ne j i with rfl | hne
    · simp
    · rw [Function.update_of_ne hne, and_iff_right hne]
  rw [freePages, herase]
  exact Finset.card_erase_add_one hmem

/-- None is left when all have been. -/
theorem freePages_full (h : ∀ i < HEAP_PAGES, map i = true) : freePages map = 0 := by
  refine Finset.card_eq_zero.mpr (Finset.filter_eq_empty_iff.mpr fun i hi => ?_)
  rw [h i (Finset.mem_range.mp hi)]
  decide

/-- **A node takes a page of the heap**, or there is none left. -/
theorem push_room (s : Clusters) (val : ℕ) :
    Lib.Gives (s.push L val)
      (fun t => t.val = s.val ++ [val] ∧ freePages t.heap + 1 = freePages s.heap)
      (fun f => f.OutOfMemory ∧ freePages s.heap = 0) := by
  refine Lib.Gives.bind (P := fun r => freePages r.2 + 1 = freePages s.heap) ⟨?_, ?_⟩ ?_
  · rintro ⟨page, heap⟩ hr
    obtain ⟨i, hi, hfree, -, rfl⟩ := kmmMalloc_ok (by decide) hr
    exact freePages_update hi hfree
  · intro f hf
    exact ⟨kmmMalloc_error hf, freePages_full (kmmMalloc_full hf).2⟩
  · rintro ⟨page, heap⟩ hheap
    exact .of_ok ⟨rfl, hheap⟩

/-! ### How many are taken -/

section Takes

variable {α β : Type} {heap : HeapMap} {m n : ℕ} {p : α → HeapMap} {q : β → HeapMap}

/-- What takes no page. -/
theorem Takes.of_ok {a : α} (h : p a = heap) : Takes heap n p (.ok a) :=
  Lib.Gives.of_ok (h ▸ Nat.le_add_right ..)

/-- What stops for another reason. -/
theorem Takes.of_error {f : Fault} (h : ¬f.OutOfMemory) : Takes heap n p (.error f) :=
  Lib.Gives.of_error fun hf => absurd hf h

/-- **One after the other** they take the pages of both. -/
theorem Takes.bind {x : Except Fault α} {f : α → Except Fault β} (h : Takes heap m p x)
    (hf : ∀ a, x = .ok a → Takes (p a) n q (f a)) : Takes heap (m + n) q (x >>= f) := by
  cases x with
  | error e =>
    exact Lib.Gives.of_error fun he => (h.error e rfl he).trans_le (Nat.le_add_right ..)
  | ok a =>
    have hle := h.ok a rfl
    have ha := hf a rfl
    refine ⟨fun b hb => ?_, fun g hg hmem => ?_⟩
    · have := ha.ok b hb
      omega
    · have := ha.error g hg hmem
      omega

end Takes

theorem not_outOfMemory_nullDeref : ¬Fault.OutOfMemory .nullDeref := by
  rintro (h | h) <;> cases h

theorem not_outOfMemory_outOfBounds : ¬Fault.OutOfMemory .outOfBounds := by
  rintro (h | h) <;> cases h

/-- A node takes one. -/
theorem push_takes (s : Clusters) (val : ℕ) :
    Takes s.heap 1 Clusters.heap (s.push L val) :=
  ⟨fun t ht => ((push_room s val).ok t ht).2.ge,
    fun f hf _ => ((push_room s val).error f hf).2 ▸ Nat.one_pos⟩

/-- **`CalcCluster` takes one for each node** that the list does not have. -/
theorem calcClusterLoop_takes {left i cluster : ℕ} :
    Takes s.heap (i + 1 + left - s.val.length) (fun r => r.2.heap)
      (calcClusterLoop L d fat left i cluster s) := by
  induction left generalizing i cluster s with
  | zero => exact .of_ok rfl
  | succ left ih =>
    rw [calcClusterLoop]
    by_cases hlt : i + 1 < s.val.length
    · rw [List.getElem?_eq_getElem hlt]
      have hplace : i + 1 + (left + 1) = i + 1 + 1 + left := by omega
      rw [hplace]
      exact ih
    · rw [List.getElem?_eq_none (Nat.le_of_not_lt hlt), fatEntry_eq]
      dsimp only
      rw [Lib.ok_bind]
      split
      · have hnodes : i + 1 + (left + 1) - s.val.length =
            1 + (i + 1 + 1 + left - (s.val.length + 1)) := by omega
        rw [hnodes]
        refine (push_takes s _).bind fun t ht => ?_
        obtain ⟨hval, -⟩ := (push_room s _).ok t ht
        have hlen : t.val.length = s.val.length + 1 := by
          rw [hval, List.length_append, List.length_singleton]
        rw [← hlen]
        exact ih
      · exact .of_ok rfl

variable (L d fat)

theorem calcCluster_takes (s : Clusters) (offset : ℕ) :
    Takes s.heap (offset / (fat.BPB_SecPerClus * kBlockSize) + 1 - s.val.length) (fun r => r.2.heap)
      (calcCluster L d fat s offset) := by
  rw [calcCluster]
  split
  · exact .of_error not_outOfMemory_nullDeref
  · have hnodes : offset / (fat.BPB_SecPerClus * kBlockSize) + 1 =
        0 + 1 + offset / (fat.BPB_SecPerClus * kBlockSize) := by omega
    rw [fat.bytsPerSec, hnodes]
    exact calcClusterLoop_takes

/-- `CalcNextCluster` takes one at most. -/
theorem calcNextCluster_takes (s : Clusters) (node : Option ℕ) :
    Takes s.heap 1 (fun r => r.2.heap) (calcNextCluster L d fat s node) := by
  rcases node with - | i
  · exact .of_error not_outOfMemory_nullDeref
  rw [calcNextCluster]
  rcases s.val[i]? with - | val
  · exact .of_error not_outOfMemory_nullDeref
  rcases s.val[i + 1]? with - | next_cluster
  · dsimp only
    rw [fatEntry_eq, Lib.ok_bind]
    exact Takes.bind (n := 0) (push_takes s _) fun t _ => .of_ok rfl
  · exact .of_ok rfl

/-- **So does `CalcNextSector`.** -/
theorem calcNextSector_takes (s : Clusters) (sector : ℕ) (node : Option ℕ) :
    Takes s.heap 1 (fun r => r.2.heap) (calcNextSector L d fat s sector node) := by
  rw [calcNextSector]
  split
  · exact .of_ok rfl
  · exact Takes.bind (n := 0) (calcNextCluster_takes L d fat s node) fun r _ => .of_ok rfl

end Fat32Fs

end Evisor
