import Mathlib.Logic.Function.Basic

/-!
# What many clients keep in one store

A store of cells is shared by clients. A client does not name cells: it names places of its own,
and behind a place there is a cell, or nothing. What the client finds at a place
(`Lib.Tenants.view`) is what the cell behind it holds.

As long as no cell is behind two places (`Lib.Tenants.Sole`), whatever is done to one cell is seen
by one client, at one of its places. So it is enough to say of an operation which cell it gives to
whom or which one it changes, and that it leaves the others alone.
-/

namespace Lib

namespace Tenants

variable {ι φ π α : Type*}

/-- What client `i` finds at its place `f`. -/
def view (place : ι → φ → Option π) (contents : π → α) (i : ι) (f : φ) : Option α :=
  (place i f).map contents

/-- **No cell is behind two places.** -/
def Sole (place : ι → φ → Option π) : Prop :=
  ∀ i f j g p, place i f = some p → place j g = some p → i = j ∧ f = g

variable {place place' : ι → φ → Option π} {contents contents' : π → α} {i j : ι} {f g : φ} {p : π}

theorem view_of_some (h : place i f = some p) : view place contents i f = some (contents p) := by
  rw [view, h, Option.map_some]

theorem view_of_none (h : place i f = none) : view place contents i f = none := by
  rw [view, h, Option.map_none]

/-- Only the cells that are behind a place matter. -/
theorem view_congr (h : ∀ q, place i f = some q → contents' q = contents q) :
    view place contents' i f = view place contents i f := by
  cases hp : place i f with
  | none => rw [view_of_none hp, view_of_none hp]
  | some q => rw [view_of_some hp, view_of_some hp, h q hp]

variable [DecidableEq ι] [DecidableEq φ]

/-- A change at one place of one client. -/
theorem update_update_apply (own : ι → φ → α) (i : ι) (f : φ) (a : α) (j : ι) (g : φ) :
    Function.update own i (Function.update (own i) f a) j g =
      if j = i ∧ g = f then a else own j g := by
  rcases eq_or_ne j i with rfl | hj
  · rw [Function.update_self, Function.update_apply]
    exact if_congr (and_iff_right rfl).symm rfl rfl
  · rw [Function.update_of_ne hj, if_neg fun h => hj h.1]

/-- **Giving a cell** that is behind no place changes what is found at the place it is given to. -/
theorem view_give (hfresh : ∀ j g, place j g ≠ some p)
    (hplace : ∀ j g, place' j g = if j = i ∧ g = f then some p else place j g)
    (hkeep : ∀ q, q ≠ p → contents' q = contents q) (j : ι) (g : φ) :
    view place' contents' j g =
      if j = i ∧ g = f then some (contents' p) else view place contents j g := by
  by_cases hit : j = i ∧ g = f
  · rw [if_pos hit]
    exact view_of_some ((hplace j g).trans (if_pos hit))
  · rw [if_neg hit, view, hplace, if_neg hit]
    refine view_congr fun q hq => hkeep q ?_
    rintro rfl
    exact hfresh j g hq

/-- **Changing a cell** changes what is found at the place it is behind. -/
theorem view_write (hsole : Sole place) (hp : place i f = some p)
    (hkeep : ∀ q, q ≠ p → contents' q = contents q) (j : ι) (g : φ) :
    view place contents' j g =
      if j = i ∧ g = f then some (contents' p) else view place contents j g := by
  by_cases hit : j = i ∧ g = f
  · rw [if_pos hit, hit.1, hit.2]
    exact view_of_some hp
  · rw [if_neg hit]
    refine view_congr fun q hq => hkeep q ?_
    rintro rfl
    exact hit (hsole j g i f q hq hp)

end Tenants

end Lib
