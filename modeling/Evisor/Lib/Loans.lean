import Mathlib.Data.List.Basic

/-!
# What is taken and given back

A list of events, each of which takes something or gives something back. Whoever gives back only
what it has (`Lib.outstanding`), and has nothing in the end, has given back all that it has taken,
and each time once: `Lib.count_returned`.
-/

namespace Lib

/-- Something is taken, or it is given back. -/
inductive Loan (α : Type*) where
  | taken (a : α)
  | returned (a : α)
  deriving DecidableEq

variable {α : Type*} [DecidableEq α]

/-- **What is held after some events**, unless something is given back that is not held. -/
def outstanding : List α → List (Loan α) → Option (List α)
  | held, [] => some held
  | held, .taken a :: events => outstanding (a :: held) events
  | held, .returned a :: events =>
    if a ∈ held then outstanding (held.erase a) events else none

/-- Events come one after the other. -/
theorem outstanding_append (held : List α) (events rest : List (Loan α)) :
    outstanding held (events ++ rest) =
      (outstanding held events).bind fun held => outstanding held rest := by
  induction events generalizing held with
  | nil => rfl
  | cons event events ih =>
    rcases event with a | a
    · exact ih (a :: held)
    · rw [List.cons_append, outstanding, outstanding]
      split_ifs with hmem
      · exact ih (held.erase a)
      · rfl

variable {held : List α} {events : List (Loan α)} {a : α}

theorem outstanding_taken (h : outstanding [] events = some held) :
    outstanding [] (events ++ [.taken a]) = some (a :: held) := by
  rw [outstanding_append, h]
  rfl

/-- The last that has been taken is given back. -/
theorem outstanding_returned (h : outstanding [] events = some (a :: held)) :
    outstanding [] (events ++ [.returned a]) = some held := by
  rw [outstanding_append, h, Option.bind_some, outstanding, if_pos List.mem_cons_self,
    List.erase_cons_head]
  rfl

/-- **What is held** has been taken more often than given back. -/
theorem count_outstanding {start : List α} (h : outstanding start events = some held) (a : α) :
    start.count a + events.count (.taken a) = held.count a + events.count (.returned a) := by
  induction events generalizing start with
  | nil =>
    obtain rfl := Option.some.inj h
    rfl
  | cons event events ih =>
    rcases event with b | b
    · have hrest := ih h
      by_cases hab : b = a
      · subst hab
        rw [List.count_cons_self] at hrest
        rw [List.count_cons_self, List.count_cons_of_ne (by simp)]
        omega
      · rw [List.count_cons_of_ne hab] at hrest
        rw [List.count_cons_of_ne (by simpa using hab), List.count_cons_of_ne (by simp)]
        exact hrest
    · rw [outstanding] at h
      split_ifs at h with hmem
      have hrest := ih h
      by_cases hab : b = a
      · subst hab
        have hpos := List.count_pos_iff.mpr hmem
        rw [List.count_erase_self] at hrest
        rw [List.count_cons_self, List.count_cons_of_ne (by simp)]
        omega
      · rw [List.count_erase_of_ne (Ne.symm hab)] at hrest
        rw [List.count_cons_of_ne (by simp), List.count_cons_of_ne (by simpa using hab)]
        exact hrest

/-- **Each thing is given back as often as it has been taken** when nothing is held in the end. -/
theorem count_returned (h : outstanding [] events = some []) (a : α) :
    events.count (.returned a) = events.count (.taken a) := by
  have hcount := count_outstanding h a
  rw [List.count_nil, Nat.zero_add, Nat.zero_add] at hcount
  exact hcount.symm

end Lib
