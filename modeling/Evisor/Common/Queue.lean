import Evisor.Basic

/-!
# The queue of a console

`common/queue.cc`: a ring of `kMaxSize` slots, of which one stays free so that a full
queue can be told from an empty one.
-/

namespace Evisor

/-- `kMaxSize`. -/
def kMaxSize : ℕ := 1024

/-- `Queue`. -/
structure Queue where
  /-- `head_`: the slot the next element is taken from. -/
  head : ℕ
  /-- `tail_`: the slot the next element is put into. -/
  tail : ℕ
  /-- `buff_`, whose slots are those below `kMaxSize`. -/
  buff : ℕ → ℕ

namespace Queue

/-- `Queue::Queue`. The buffer is not cleared; a slot is written before it is read, so
that it does not matter what it holds. -/
def new : Queue := ⟨0, 0, fun _ => 0⟩

/-- `Queue::Empty`. -/
def empty (q : Queue) : Bool := q.head = q.tail

/-- `Queue::Full`. -/
def full (q : Queue) : Bool := q.head = (q.tail + 1) % kMaxSize

/-- `Queue::Push`. -/
def push (q : Queue) (data : ℕ) : Bool × Queue :=
  if q.full then (false, q)
  else
    let tail := q.tail + 1
    (true, ⟨q.head, if tail = kMaxSize then 0 else tail, Function.update q.buff q.tail data⟩)

/-- `Queue::Pop`. -/
def pop (q : Queue) : ℕ × Queue :=
  if q.empty then (0, q)
  else
    let head := q.head + 1
    (q.buff q.head, ⟨if head = kMaxSize then 0 else head, q.tail, q.buff⟩)

/-- **What a queue holds**, first in first out. -/
def contents (q : Queue) : List ℕ :=
  (List.range ((q.tail + kMaxSize - q.head) % kMaxSize)).map
    fun i => q.buff ((q.head + i) % kMaxSize)

/-- Both ends are slots. -/
structure Ok (q : Queue) : Prop where
  head_lt : q.head < kMaxSize
  tail_lt : q.tail < kMaxSize

theorem new_ok : new.Ok := ⟨by decide, by decide⟩

theorem Ok.push {q : Queue} (h : q.Ok) (data : ℕ) : (q.push data).2.Ok := by
  have := h.tail_lt
  rw [Queue.push]
  split
  · exact h
  · refine ⟨h.head_lt, ?_⟩
    dsimp only
    split
    · decide
    · omega

theorem Ok.pop {q : Queue} (h : q.Ok) : q.pop.2.Ok := by
  have := h.head_lt
  rw [Queue.pop]
  split
  · exact h
  · refine ⟨?_, h.tail_lt⟩
    dsimp only
    split
    · decide
    · omega

/-- **A queue is empty** when it holds nothing. -/
theorem Ok.contents_eq_nil {q : Queue} (h : q.Ok) : q.contents = [] ↔ q.empty = true := by
  have hh := h.head_lt
  have ht := h.tail_lt
  rw [contents, List.map_eq_nil_iff, List.range_eq_nil, empty, decide_eq_true_eq]
  simp only [kMaxSize] at *
  omega

/-- A queue that holds nothing is not full. -/
theorem Ok.not_full {q : Queue} (h : q.Ok) (hnil : q.contents = []) : q.full = false := by
  have hempty := h.contents_eq_nil.mp hnil
  have ht := h.tail_lt
  refine decide_eq_false fun hfull => ?_
  simp only [empty, kMaxSize, decide_eq_true_eq] at *
  omega

/-- **A queue is full** when it holds one element less than it has slots. -/
theorem Ok.full_iff {q : Queue} (h : q.Ok) :
    q.full = true ↔ q.contents.length = kMaxSize - 1 := by
  have hh := h.head_lt
  have ht := h.tail_lt
  rw [contents, List.length_map, List.length_range, full, decide_eq_true_eq]
  simp only [kMaxSize] at *
  omega

/-- One slot stays free. -/
theorem length_contents_lt (q : Queue) : q.contents.length < kMaxSize := by
  rw [contents, List.length_map, List.length_range]
  exact Nat.mod_lt _ (by decide)

theorem contents_new : new.contents = [] := new_ok.contents_eq_nil.mpr rfl

/-- The slot after a slot, as one goes round. -/
theorem next_slot_eq {slot : ℕ} (h : slot < kMaxSize) :
    (if slot + 1 = kMaxSize then 0 else slot + 1) = (slot + 1) % kMaxSize := by
  split_ifs with heq
  · rw [heq, Nat.mod_self]
  · exact (Nat.mod_eq_of_lt (by omega)).symm

/-- **What is put into a queue** comes last. -/
theorem Ok.contents_push {q : Queue} (h : q.Ok) (hfull : ¬q.full = true) (data : ℕ) :
    (q.push data).2.contents = q.contents ++ [data] := by
  have hh := h.head_lt
  have ht := h.tail_lt
  have hroom : q.head ≠ (q.tail + 1) % kMaxSize := by simpa [full] using hfull
  rw [Queue.push, if_neg hfull]
  simp only [contents, next_slot_eq ht]
  have hlen : ((q.tail + 1) % kMaxSize + kMaxSize - q.head) % kMaxSize =
      (q.tail + kMaxSize - q.head) % kMaxSize + 1 := by
    simp only [kMaxSize] at *
    omega
  rw [hlen, List.range_succ, List.map_append, List.map_singleton]
  refine congrArg₂ (· ++ ·) (List.map_congr_left fun i hi => ?_) (congrArg (fun v => [v]) ?_)
  · have hi' := List.mem_range.mp hi
    refine Function.update_of_ne ?_ ..
    simp only [kMaxSize] at *
    omega
  · have hslot : (q.head + (q.tail + kMaxSize - q.head) % kMaxSize) % kMaxSize = q.tail := by
      simp only [kMaxSize] at *
      omega
    rw [hslot, Function.update_self]

/-- **What is taken from a queue** came first. -/
theorem Ok.contents_pop {q : Queue} (h : q.Ok) (hempty : ¬q.empty = true) :
    q.contents = q.pop.1 :: q.pop.2.contents := by
  have hh := h.head_lt
  have ht := h.tail_lt
  have hne : q.head ≠ q.tail := by simpa [empty] using hempty
  rw [Queue.pop, if_neg hempty]
  simp only [contents, next_slot_eq hh]
  have hlen : (q.tail + kMaxSize - q.head) % kMaxSize =
      (q.tail + kMaxSize - (q.head + 1) % kMaxSize) % kMaxSize + 1 := by
    simp only [kMaxSize] at *
    omega
  rw [hlen, List.range_succ_eq_map, List.map_cons, List.map_map, Nat.add_zero,
    Nat.mod_eq_of_lt hh]
  refine congrArg (q.buff q.head :: ·) (List.map_congr_left fun i hi => ?_)
  refine congrArg q.buff ?_
  simp only [kMaxSize, Nat.succ_eq_add_one]
  omega

/-- The slot after a slot is another one. -/
theorem next_slot_ne (slot : ℕ) : (if slot + 1 = kMaxSize then 0 else slot + 1) ≠ slot := by
  split_ifs with h
  · simp only [kMaxSize] at h
    omega
  · omega

/-- Taking from a queue that is not empty changes it. -/
theorem pop_ne {q : Queue} (h : ¬q.empty = true) : q.pop.2 ≠ q := by
  intro heq
  have hhead := congrArg Queue.head heq
  rw [pop, if_neg h] at hhead
  exact next_slot_ne _ hhead

/-- Putting into a queue that is not full changes it. -/
theorem push_ne {q : Queue} (h : ¬q.full = true) (data : ℕ) : (q.push data).2 ≠ q := by
  intro heq
  have htail := congrArg Queue.tail heq
  rw [push, if_neg h] at htail
  exact next_slot_ne _ htail

end Queue

end Evisor
