import Mathlib.Data.List.Nodup
import Mathlib.Logic.Function.Basic
import Mathlib.Tactic.Linarith

/-!
# Assigning to many places in turn

A list of assignments to a function, made one after the other. When no place is
assigned to twice, each holds what it was given and all others are as they were, in
whatever order the assignments stand.
-/

namespace Lib

variable {κ β α : Type*} [DecidableEq κ]

/-- The assignments of a list, made from its head. -/
def assign : List (κ × β) → (κ → β) → κ → β
  | [], f => f
  | (k, v) :: rest, f => assign rest (Function.update f k v)

theorem assign_append (l l' : List (κ × β)) (f : κ → β) :
    assign (l ++ l') f = assign l' (assign l f) := by
  induction l generalizing f with
  | nil => rfl
  | cons a rest ih => exact ih _

/-- **A place not assigned to** is as it was. -/
theorem assign_of_notMem {l : List (κ × β)} {k : κ} (hk : k ∉ l.map Prod.fst) (f : κ → β) :
    assign l f k = f k := by
  induction l generalizing f with
  | nil => rfl
  | cons a rest ih =>
    rw [List.map_cons, List.mem_cons, not_or] at hk
    rw [assign, ih hk.2, Function.update_of_ne hk.1]

/-- **A place assigned to once** holds what it was given. -/
theorem assign_of_mem {l : List (κ × β)} (hl : (l.map Prod.fst).Nodup) {k : κ} {v : β}
    (hmem : (k, v) ∈ l) (f : κ → β) : assign l f k = v := by
  induction l generalizing f with
  | nil => cases hmem
  | cons a rest ih =>
    rw [List.map_cons, List.nodup_cons] at hl
    rw [assign]
    rcases List.mem_cons.mp hmem with rfl | hrest
    · rw [assign_of_notMem hl.1, Function.update_self]
    · exact ih hl.2 hrest _

/-- Assignments given by the members of a list. -/
theorem assign_map {g : α → κ} {l : List α} (hl : (l.map g).Nodup) (val : α → β) {a : α}
    (ha : a ∈ l) (f : κ → β) : assign (l.map fun a => (g a, val a)) f (g a) = val a := by
  refine assign_of_mem ?_ (List.mem_map_of_mem (f := fun a => (g a, val a)) ha) f
  rw [List.map_map]
  exact hl

theorem assign_map_of_notMem {g : α → κ} {l : List α} (val : α → β) {k : κ}
    (hk : k ∉ l.map g) (f : κ → β) : assign (l.map fun a => (g a, val a)) f k = f k := by
  refine assign_of_notMem ?_ f
  rw [List.map_map]
  exact hk

end Lib
