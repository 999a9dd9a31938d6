import Mathlib.Data.List.Induction
import Mathlib.Tactic.Linarith

/-!
# Trees of tables

A table has a number of entries, each of which may lead to another table. What a
table is, what indexes its entries and where they are kept is left open: all there
is is a function `child : T → I → Option T`, and a family of roots, one for each
owner. `Lib.reach child roots r p` is the table that the path `p` leads to from the
root of `r`.

Tables made on demand, one at a time and each linked from one entry, never have two
paths leading to them (`Lib.Separated`). This is what makes a change to one entry a
change to one path: a link adds exactly the path through it (`Lib.reach_link`), its removal
takes away exactly those through it (`Lib.reach_cut`), a new
root the empty path of its owner (`Lib.reach_root`), and what is written at the
bottom changes no path at all (`Lib.reach_congr`). The bottom is a depth `d`: entries
of tables that deep are never taken for links.
-/

namespace Lib

section Radix

variable {T I R : Type*}

/-- The table a path leads to. -/
def follow (child : T → I → Option T) : T → List I → Option T
  | t, [] => some t
  | t, i :: p => (child t i).bind fun u => follow child u p

/-- The table a path leads to from the root of an owner. -/
def reach (child : T → I → Option T) (roots : R → Option T) (r : R) (p : List I) : Option T :=
  (roots r).bind fun t => follow child t p

/-- **No table has two paths**, of length at most `d`, leading to it. -/
structure Separated (child : T → I → Option T) (roots : R → Option T) (d : ℕ) : Prop where
  /-- The owner and the path are known from the table. -/
  inj : ∀ {r p r' p' t}, p.length ≤ d → p'.length ≤ d → reach child roots r p = some t →
    reach child roots r' p' = some t → r = r' ∧ p = p'

variable {child child' : T → I → Option T} {roots roots' : R → Option T} {d : ℕ}

@[simp] theorem follow_nil (t : T) : follow child t [] = some t := rfl

@[simp] theorem follow_cons (t : T) (i : I) (p : List I) :
    follow child t (i :: p) = (child t i).bind fun u => follow child u p := rfl

@[simp] theorem reach_nil (r : R) : reach child roots r [] = roots r := by
  simp [reach]

theorem follow_append (t : T) (p q : List I) :
    follow child t (p ++ q) = (follow child t p).bind fun u => follow child u q := by
  induction p generalizing t with
  | nil => rfl
  | cons i p ih =>
    rw [List.cons_append, follow_cons, follow_cons, Option.bind_assoc]
    exact Option.bind_congr fun u _ => ih u

/-- A path is followed up to its last step, and then that. -/
theorem reach_concat (r : R) (p : List I) (i : I) :
    reach child roots r (p ++ [i]) = (reach child roots r p).bind fun t => child t i := by
  rw [reach, reach, Option.bind_assoc]
  refine Option.bind_congr fun t _ => ?_
  rw [follow_append]
  exact Option.bind_congr fun u _ => by simp

theorem reach_concat_eq_some {r : R} {p : List I} {i : I} {t : T} :
    reach child roots r (p ++ [i]) = some t ↔
      ∃ u, reach child roots r p = some u ∧ child u i = some t := by
  rw [reach_concat, Option.bind_eq_some_iff]

/-- A path that leads nowhere does not lead anywhere when it is continued. -/
theorem reach_append_of_none {r : R} {p : List I} (q : List I)
    (h : reach child roots r p = none) : reach child roots r (p ++ q) = none := by
  induction q using List.reverseRecOn with
  | nil => rwa [List.append_nil]
  | append_singleton q i ih => rw [← List.append_assoc, reach_concat, ih, Option.bind_none]

theorem length_lt_of_concat {p : List I} {i : I} (hp : (p ++ [i]).length ≤ d) : p.length < d := by
  rwa [List.length_append, List.length_singleton] at hp

/-- **The bottom frame rule.** If the entries of the tables above depth `d` lead
where they did, so do all paths. -/
theorem reach_congr (hroots : roots' = roots)
    (hsame : ∀ {r p t}, p.length < d → reach child roots r p = some t → ∀ i, child' t i = child t i)
    (r : R) {p : List I} (hp : p.length ≤ d) :
    reach child' roots' r p = reach child roots r p := by
  subst hroots
  induction p using List.reverseRecOn with
  | nil => rw [reach_nil, reach_nil]
  | append_singleton p i ih =>
    have hlt : p.length < d := length_lt_of_concat hp
    rw [reach_concat, reach_concat, ih hlt.le]
    exact Option.bind_congr fun t ht => hsame hlt ht i

/-- Separation speaks only of where paths lead. -/
theorem Separated.congr (h : Separated child roots d)
    (hreach : ∀ r p, p.length ≤ d → reach child' roots' r p = reach child roots r p) :
    Separated child' roots' d where
  inj hp hp' ht ht' :=
    h.inj hp hp' (by rwa [hreach _ _ hp] at ht) (by rwa [hreach _ _ hp'] at ht')

section Grow

/-- **The link rule.** A new and empty table `n`, linked from an entry of a table
above the bottom that led nowhere, adds one path: the one through that entry. -/
theorem reach_link [DecidableEq R] [DecidableEq I] (hsep : Separated child roots d)
    (hroots : roots' = roots) {r₀ : R} {p₀ : List I} {t n : T} {i : I} (hp₀ : p₀.length < d)
    (ht : reach child roots r₀ p₀ = some t) (hnone : child t i = none)
    (hnew : child' t i = some n) (hempty : p₀.length + 1 < d → ∀ j, child' n j = none)
    (hfresh : ∀ {r p}, p.length ≤ d → reach child roots r p ≠ some n)
    (hsame : ∀ {r p u}, p.length < d → reach child roots r p = some u →
      ∀ j, (u = t → j ≠ i) → child' u j = child u j)
    (r : R) {p : List I} (hp : p.length ≤ d) :
    reach child' roots' r p =
      if r = r₀ ∧ p = p₀ ++ [i] then some n else reach child roots r p := by
  subst hroots
  induction p using List.reverseRecOn with
  | nil => rw [if_neg (by simp), reach_nil, reach_nil]
  | append_singleton p j ih =>
    have hlt : p.length < d := length_lt_of_concat hp
    rw [reach_concat, ih hlt.le]
    by_cases hpn : r = r₀ ∧ p = p₀ ++ [i]
    · -- the path goes on below the new table, where there was nothing either
      obtain ⟨rfl, rfl⟩ := hpn
      have hnot : ¬(r = r ∧ p₀ ++ [i] ++ [j] = p₀ ++ [i]) := by simp
      have hdeep : p₀.length + 1 < d := by
        rwa [List.length_append, List.length_singleton] at hlt
      rw [if_pos ⟨rfl, rfl⟩, Option.bind_some, hempty hdeep, if_neg hnot]
      have hdead : reach child roots' r (p₀ ++ [i]) = none := by
        rw [reach_concat, ht, Option.bind_some, hnone]
      exact (reach_append_of_none [j] hdead).symm
    · rw [if_neg hpn]
      by_cases hpi : r = r₀ ∧ p ++ [j] = p₀ ++ [i]
      · obtain ⟨rfl, hpj⟩ := hpi
        obtain ⟨rfl, hji⟩ := List.append_inj' hpj rfl
        obtain rfl := List.singleton_inj.mp hji
        rw [if_pos ⟨rfl, rfl⟩, ht, Option.bind_some, hnew]
      · rw [if_neg hpi, reach_concat]
        refine Option.bind_congr fun u hu => hsame hlt hu j ?_
        rintro rfl rfl
        obtain ⟨rfl, rfl⟩ := hsep.inj hlt.le hp₀.le hu ht
        exact hpi ⟨rfl, rfl⟩

/-- **The root rule.** A new and empty table, made the root of an owner that had
none, adds one path: the empty one. -/
theorem reach_root [DecidableEq R] {r₀ : R} {n : T} (hnone : roots r₀ = none)
    (hroots : ∀ r, roots' r = if r = r₀ then some n else roots r)
    (hempty : ∀ j, child' n j = none)
    (hsame : ∀ {r p u}, p.length < d → reach child roots r p = some u →
      ∀ j, child' u j = child u j)
    (r : R) {p : List I} (hp : p.length ≤ d) :
    reach child' roots' r p = if r = r₀ ∧ p = [] then some n else reach child roots r p := by
  induction p using List.reverseRecOn with
  | nil =>
    rw [reach_nil, reach_nil, hroots]
    simp only [and_true]
  | append_singleton p j ih =>
    have hlt : p.length < d := length_lt_of_concat hp
    have hnot : ¬(r = r₀ ∧ p ++ [j] = []) := by simp
    rw [if_neg hnot, reach_concat, reach_concat, ih hlt.le]
    by_cases hpn : r = r₀ ∧ p = []
    · obtain ⟨rfl, rfl⟩ := hpn
      rw [if_pos ⟨rfl, rfl⟩, Option.bind_some, hempty, reach_nil, hnone, Option.bind_none]
    · rw [if_neg hpn]
      exact Option.bind_congr fun u hu => hsame hlt hu j

/-- **The cut rule.** An entry that is made to lead nowhere takes away the paths through
it, and no others. -/
theorem reach_cut [DecidableEq R] [DecidableEq I] (hsep : Separated child roots d)
    (hroots : roots' = roots) {r₀ : R} {p₀ : List I} {t : T} {i : I} (hp₀ : p₀.length ≤ d)
    (ht : reach child roots r₀ p₀ = some t) (hnone : p₀.length < d → child' t i = none)
    (hsame : ∀ {r p u}, p.length < d → reach child roots r p = some u →
      ∀ j, (u = t → j ≠ i) → child' u j = child u j)
    (r : R) {p : List I} (hp : p.length ≤ d) :
    reach child' roots' r p =
      if r = r₀ ∧ p₀ ++ [i] <+: p then none else reach child roots r p := by
  subst hroots
  induction p using List.reverseRecOn with
  | nil => rw [if_neg (by simp), reach_nil, reach_nil]
  | append_singleton p j ih =>
    have hlt : p.length < d := length_lt_of_concat hp
    rw [reach_concat, ih hlt.le]
    by_cases hcut : r = r₀ ∧ p₀ ++ [i] <+: p
    · obtain ⟨rfl, hpre⟩ := hcut
      rw [if_pos ⟨rfl, hpre⟩, Option.bind_none,
        if_pos ⟨rfl, hpre.trans (List.prefix_append p [j])⟩]
    · rw [if_neg hcut]
      by_cases hpi : r = r₀ ∧ p ++ [j] = p₀ ++ [i]
      · -- the entry itself
        obtain ⟨rfl, hpj⟩ := hpi
        obtain ⟨rfl, hji⟩ := List.append_inj' hpj rfl
        obtain rfl := List.singleton_inj.mp hji
        rw [if_pos ⟨rfl, List.prefix_rfl⟩, ht, Option.bind_some, hnone hlt]
      · have hnot : ¬(r = r₀ ∧ p₀ ++ [i] <+: p ++ [j]) := by
          rintro ⟨rfl, hpre⟩
          rcases List.prefix_concat_iff.mp hpre with heq | hpre
          · exact hpi ⟨rfl, heq.symm⟩
          · exact hcut ⟨rfl, hpre⟩
        rw [if_neg hnot, reach_concat]
        refine Option.bind_congr fun u hu => hsame hlt hu j ?_
        rintro rfl rfl
        obtain ⟨rfl, rfl⟩ := hsep.inj hlt.le hp₀ hu ht
        exact hpi ⟨rfl, rfl⟩

/-- A tree that loses paths stays separated. -/
theorem Separated.cut (hsep : Separated child roots d)
    (hreach : ∀ {r p t}, p.length ≤ d → reach child' roots' r p = some t →
      reach child roots r p = some t) : Separated child' roots' d where
  inj hp hp' ht ht' := hsep.inj hp hp' (hreach hp ht) (hreach hp' ht')

/-- A tree in which one path is added, leading to a table that had none, stays
separated. -/
theorem Separated.grow (hsep : Separated child roots d) {r₀ : R} {p₀ : List I} {n : T}
    [∀ r p, Decidable (r = r₀ ∧ p = p₀)]
    (hfresh : ∀ {r p}, p.length ≤ d → reach child roots r p ≠ some n)
    (hreach : ∀ r p, p.length ≤ d → reach child' roots' r p =
      if r = r₀ ∧ p = p₀ then some n else reach child roots r p) :
    Separated child' roots' d := by
  refine ⟨fun {r p r' p' t} hp hp' ht ht' => ?_⟩
  rw [hreach r p hp] at ht
  rw [hreach r' p' hp'] at ht'
  split at ht <;> split at ht'
  · rename_i h h'
    exact ⟨h.1.trans h'.1.symm, h.2.trans h'.2.symm⟩
  · obtain rfl := Option.some.inj ht
    exact absurd ht' (hfresh hp')
  · obtain rfl := Option.some.inj ht'
    exact absurd ht (hfresh hp)
  · exact hsep.inj hp hp' ht ht'

end Grow

end Radix

end Lib
