import Evisor.Common.QueueFifo

/-!
# What a queue has asked for

The constructor of `common/queue.cc` asks `kmm_malloc` for as many *bytes* as the ring has slots,
though a slot is a word of four. A slot is used for the first time by the push that is as many
pushes behind the first as there are slots before it, so that what has been asked for is left as
soon as more has been pushed than it has room for, whatever has been popped meanwhile:
`Evisor.Queue.queue_within_iff`. That nothing comes of it is due to `kmm_malloc`, which hands out
a page (`Evisor.Queue.slots_fit`).
-/

namespace Evisor

namespace Queue

open Lib.Fifo (Call)

/-! ### The code -/

/-- The bytes that the constructor asks for. -/
def bufferBytes : ℕ := kMaxSize

/-- `Queue::Queue`, with the address of `buff_`. -/
def construct (L : Layout) (map : HeapMap) : Except Fault (ℕ × Queue × HeapMap) :=
  (kmmMalloc L map bufferBytes).map fun r => (r.1, new, r.2)

/-- The slots that a call accesses. -/
def slots (q : Queue) : Call ℕ → List ℕ
  | .push _ => if q.full then [] else [q.tail]
  | .pop => if q.empty then [] else [q.head]

/-- The slots that are accessed, call by call. -/
def accesses : Queue → List (Call ℕ) → List ℕ
  | _, [] => []
  | q, c :: calls => q.slots c ++ accesses (q.call c).2 calls

/-- How often `Push` is called. -/
def pushes : List (Call ℕ) → ℕ
  | [] => 0
  | .push _ :: calls => pushes calls + 1
  | .pop :: calls => pushes calls

/-- **Every access is within what has been asked for.** -/
def Within (q : Queue) (calls : List (Call ℕ)) : Prop :=
  ∀ i ∈ q.accesses calls, 4 * i + 4 ≤ bufferBytes

variable {q : Queue}

/-- A slot that a call does not access is not written. -/
theorem call_buff_of_notMem {c : Call ℕ} {i : ℕ} (hi : i ∉ q.slots c) :
    (q.call c).2.buff i = q.buff i := by
  rcases c with data | _
  · rw [call, push]
    rw [slots] at hi
    split_ifs at hi ⊢ with hfull
    · rfl
    · exact Function.update_of_ne (List.mem_singleton.not.mp hi) ..
  · rw [call, pop]
    split_ifs <;> rfl

/-- Nor does what is returned depend on it. -/
theorem call_fst_congr {c : Call ℕ} {buff : ℕ → ℕ} (h : ∀ i ∈ q.slots c, buff i = q.buff i) :
    (call ⟨q.head, q.tail, buff⟩ c).1 = (q.call c).1 := by
  rcases c with data | _
  · refine congrArg Sum.inl ?_
    rw [push_fst, push_fst]
    rfl
  · refine congrArg Sum.inr ?_
    have hsame : empty ⟨q.head, q.tail, buff⟩ = q.empty := rfl
    rw [slots] at h
    rw [pop, pop, hsame]
    split_ifs at h ⊢ with hempty
    · rfl
    · exact h _ (List.mem_singleton_self _)

/-! ### Where the accesses go -/

/-- **Before the ring has come round**, with the next slot one that has been asked for or the first
that has not. -/
structure Early (q : Queue) : Prop where
  head_le : q.head ≤ q.tail
  tail_le : 4 * q.tail ≤ bufferBytes

theorem new_early : new.Early := ⟨le_rfl, Nat.zero_le _⟩

theorem Early.tail_lt (h : q.Early) : q.tail + 1 < kMaxSize := by
  have htail := h.tail_le
  simp only [bufferBytes, kMaxSize] at *
  omega

theorem Early.not_full (h : q.Early) : ¬q.full = true := by
  have hhead := h.head_le
  rw [full, decide_eq_true_eq, Nat.mod_eq_of_lt h.tail_lt]
  omega

/-- A push puts into the next slot. -/
theorem Early.push_eq (h : q.Early) (data : ℕ) : (q.call (.push data)).2 =
    ⟨q.head, q.tail + 1, Function.update q.buff q.tail data⟩ := by
  rw [call, push, if_neg h.not_full]
  dsimp only
  rw [if_neg h.tail_lt.ne]

theorem Early.pop (h : q.Early) : (q.call .pop).2.Early ∧ (q.call .pop).2.tail = q.tail := by
  have hhead := h.head_le
  have hlast := h.tail_lt
  rw [call, Queue.pop]
  split_ifs with hempty
  · exact ⟨h, rfl⟩
  · have hne : q.head ≠ q.tail := by simpa [empty] using hempty
    dsimp only
    rw [if_neg (by omega)]
    exact ⟨⟨by dsimp only; omega, h.tail_le⟩, rfl⟩

/-- What is popped has been pushed. -/
theorem Early.pop_within (h : q.Early) : ∀ i ∈ q.slots .pop, 4 * i + 4 ≤ bufferBytes := by
  have hhead := h.head_le
  have htail := h.tail_le
  intro i hi
  rw [slots] at hi
  split_ifs at hi with hempty
  · cases hi
  · obtain rfl := List.mem_singleton.mp hi
    have hne : q.head ≠ q.tail := by simpa [empty] using hempty
    omega

/-- **The calls stay within what has been asked for** exactly if it has room for what they push,
behind what has been pushed. -/
theorem Early.within_iff (h : q.Early) (calls : List (Call ℕ)) :
    q.Within calls ↔ 4 * (q.tail + pushes calls) ≤ bufferBytes := by
  induction calls generalizing q with
  | nil => exact iff_of_true (fun i hi => (by cases hi)) h.tail_le
  | cons c calls ih =>
    rw [Within, accesses, List.forall_mem_append]
    rcases c with data | _
    · rw [slots, if_neg h.not_full, List.forall_mem_singleton, pushes, h.push_eq]
      by_cases hroom : 4 * q.tail + 4 ≤ bufferBytes
      · -- there is room for one more
        have hnext : Early ⟨q.head, q.tail + 1, Function.update q.buff q.tail data⟩ :=
          ⟨Nat.le_succ_of_le h.head_le, hroom⟩
        rw [and_iff_right hroom]
        refine (ih hnext).trans ?_
        rw [Nat.add_assoc, Nat.add_comm 1]
      · exact iff_of_false (fun hall => hroom hall.1) (by omega)
    · obtain ⟨hnext, htail⟩ := h.pop
      rw [and_iff_right h.pop_within, pushes, ← htail]
      exact ih hnext

theorem construct_ok {L : Layout} {map map' : HeapMap} {buff : ℕ}
    (h : construct L map = .ok (buff, q, map')) : q = new := by
  rw [construct] at h
  rcases hr : kmmMalloc L map bufferBytes with e | r
  · rw [hr] at h
    cases h
  · rw [hr] at h
    exact (Prod.mk.inj (Prod.mk.inj (Except.ok.inj h)).2).1.symm

/-- **A queue stays within what its constructor has asked for** exactly as long as all that is
pushed would fit there, also what has been popped again. -/
theorem queue_within_iff {L : Layout} {map map' : HeapMap} {buff : ℕ}
    (h : construct L map = .ok (buff, q, map')) (calls : List (Call ℕ)) :
    q.Within calls ↔ 4 * pushes calls ≤ bufferBytes := by
  obtain rfl := construct_ok h
  rw [new_early.within_iff, new, Nat.zero_add]

/-- The first queue, along a push and a pop. -/
theorem queue_within_iff_new :
    new.Within [.push 5, .pop] ↔ 4 * pushes [.push 5, .pop] ≤ bufferBytes := by
  have hnew : construct .qemu (fun _ => false) = .ok (Layout.qemu.kHeapStart, new,
    Function.update (fun _ => false) 0 true) := rfl
  exact queue_within_iff hnew _

/-- **The push after 256 others** is outside. -/
theorem queue_leaves_buffer : ¬∀ (L : Layout) (map map' : HeapMap) (buff : ℕ) (q : Queue),
    construct L map = .ok (buff, q, map') → ∀ calls, q.Within calls := by
  intro h
  have hpushes : ∀ n, pushes (List.replicate n (.push 0)) = n := by
    intro n
    induction n with
    | zero => rfl
    | succ n ih => rw [List.replicate_succ, pushes, ih]
  have hwithin := h .qemu (fun _ => false) _ _ new rfl (List.replicate 257 (.push 0))
  rw [new_early.within_iff, hpushes] at hwithin
  exact absurd hwithin (by decide)

end Queue

end Evisor
