import Evisor.Common.Queue
import Evisor.Lib.Fifo
import Evisor.Mm.Heap

/-!
# A queue is a list

The ring of `common/queue.cc` refines a list with room for one element less than the ring has
slots (`Lib.Fifo.step`), wherever its two ends are (`Queue.refines`). What has been pushed is
popped in the same order, and a call that fails leaves the queue as it is.
-/

namespace Evisor

namespace Queue

open Lib.Fifo (Call Answer)

/-- What `Push` and `Pop` return. -/
abbrev Return := Bool ⊕ ℕ

/-- One call. -/
def call (q : Queue) : Call ℕ → Return × Queue
  | .push data => (.inl (q.push data).1, (q.push data).2)
  | .pop => (.inr q.pop.1, q.pop.2)

/-- How an answer is returned: nothing is returned as zero. -/
def returned : Answer ℕ → Return
  | .pushed done => .inl done
  | .popped a => .inr (a.getD 0)

/-- The elements that there is room for. -/
def kRoom : ℕ := kMaxSize - 1

/-- **The slots fit** into the page that is handed out for the buffer, though no more than
`kMaxSize` bytes are asked for. -/
theorem slots_fit : 4 * kMaxSize ≤ PAGE_SIZE := by decide

variable {q : Queue}

/-- A queue is full when there is no room. -/
theorem Ok.full_iff_room (h : q.Ok) : q.full = true ↔ q.contents.length = kRoom := h.full_iff

theorem Ok.call (h : q.Ok) (c : Call ℕ) : (q.call c).2.Ok := by
  rcases c with data | _
  · exact h.push data
  · exact h.pop

/-- **A failed push** changes nothing. -/
theorem push_of_full (h : q.full = true) (data : ℕ) : q.push data = (false, q) := if_pos h

/-- **A failed pop** changes nothing. -/
theorem pop_of_empty (h : q.empty = true) : q.pop = (0, q) := if_pos h

theorem push_fst (data : ℕ) : (q.push data).1 = !q.full := by
  rw [push]
  split_ifs with h
  · rw [h]
    rfl
  · rw [Bool.not_eq_true] at h
    rw [h]
    rfl

/-- **One call** does to the contents what it does to a list. -/
theorem Ok.call_refines (h : q.Ok) (c : Call ℕ) :
    (q.call c).1 = returned (Lib.Fifo.step kRoom q.contents c).1 ∧
      (q.call c).2.contents = (Lib.Fifo.step kRoom q.contents c).2 := by
  rcases c with data | _
  · by_cases hfull : q.full = true
    · rw [Queue.call, push_of_full hfull, Lib.Fifo.step, if_pos (h.full_iff_room.mp hfull)]
      exact ⟨rfl, rfl⟩
    · rw [Lib.Fifo.step, if_neg (mt h.full_iff_room.mpr hfull)]
      refine ⟨?_, h.contents_push hfull data⟩
      rw [Queue.call, push_fst, Bool.eq_false_iff.mpr hfull]
      rfl
  · by_cases hempty : q.empty = true
    · have hnil := h.contents_eq_nil.mpr hempty
      rw [Queue.call, pop_of_empty hempty, hnil]
      exact ⟨rfl, rfl⟩
    · rw [h.contents_pop hempty]
      exact ⟨rfl, rfl⟩

/-- The answers of a list to the calls. -/
def listAnswers (q : Queue) (calls : List (Call ℕ)) : List (Answer ℕ) :=
  (Lib.answers (Lib.Fifo.step kRoom) q.contents calls).1

/-- **A queue behaves as a list** along some calls: it returns what the list answers, what has been
pushed is popped in the same order, and in the end it is full, empty, and unchanged by calls that
fail, as the list is. -/
structure BehavesAsList (q : Queue) (calls : List (Call ℕ)) : Prop where
  returns : (Lib.answers call q calls).1 = (q.listAnswers calls).map returned
  contents : (Lib.answers call q calls).2.contents =
    (Lib.answers (Lib.Fifo.step kRoom) q.contents calls).2
  order : q.contents ++ Lib.Fifo.accepted calls (q.listAnswers calls) =
    Lib.Fifo.delivered (q.listAnswers calls) ++ (Lib.answers call q calls).2.contents
  empty : (Lib.answers call q calls).2.empty = true ↔
    (Lib.answers call q calls).2.contents = []
  full : (Lib.answers call q calls).2.full = true ↔
    (Lib.answers call q calls).2.contents.length = kRoom
  push_fails : ∀ data, ((Lib.answers call q calls).2.push data).1 = false ↔
    (Lib.answers call q calls).2.contents.length = kRoom
  push_unchanged : ∀ data, ((Lib.answers call q calls).2.push data).1 = false →
    ((Lib.answers call q calls).2.push data).2 = (Lib.answers call q calls).2
  pop_unchanged : (Lib.answers call q calls).2.contents = [] →
    (Lib.answers call q calls).2.pop = (0, (Lib.answers call q calls).2)

/-- **A queue behaves as a list**, wherever its ends are, along all calls. -/
theorem queue_behaves (h : q.Ok) (calls : List (Call ℕ)) : q.BehavesAsList calls := by
  obtain ⟨hreturns, hcontents⟩ :=
    Lib.answers_refine contents returned Ok
      (fun _ c hs => Ok.call hs c) (fun _ c hs => Ok.call_refines hs c) h calls
  have hok : (Lib.answers call q calls).2.Ok :=
    Lib.answers_inv Ok (fun _ c hs => Ok.call hs c) h calls
  have hpush : ∀ data, ((Lib.answers call q calls).2.push data).1 = false ↔
      (Lib.answers call q calls).2.full = true := by
    intro data
    rw [push_fst, Bool.not_eq_false']
  refine ⟨hreturns, hcontents, ?_, hok.contents_eq_nil.symm, hok.full_iff_room, fun data => ?_,
    fun data hfail => ?_, fun hnil => pop_of_empty (hok.contents_eq_nil.mp hnil)⟩
  · rw [hcontents]
    exact Lib.Fifo.conserved q.contents calls
  · rw [hpush, hok.full_iff_room]
  · rw [push_of_full ((hpush data).mp hfail)]

/-- An empty queue whose ends are at the last slot, and a full one whose elements go round the end:
along calls that go round it, and one that fails. -/
theorem queue_behaves_new :
    (⟨kMaxSize - 1, kMaxSize - 1, id⟩ : Queue).BehavesAsList [.push 5, .push 6, .pop, .pop, .pop] ∧
    (⟨kMaxSize - 2, kMaxSize - 3, id⟩ : Queue).BehavesAsList [.push 5, .pop, .pop, .pop, .push 6] :=
  ⟨queue_behaves ⟨by decide, by decide⟩ _, queue_behaves ⟨by decide, by decide⟩ _⟩

end Queue

end Evisor
