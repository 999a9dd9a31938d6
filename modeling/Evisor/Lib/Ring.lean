import Mathlib.Data.List.Chain
import Mathlib.Data.List.Nodup
import Mathlib.Logic.Function.Basic

/-!
# Rings of linked nodes

Nodes that are linked in both directions, with a first one that closes the ring and belongs to no
element. A list of nodes is on such a ring (`Lib.Links.Ring`) when the forward links lead along it
and back to the first node, the backward links of the others lead the other way, and no node is
passed twice. Where the first node is linked back to is left open, so that a ring is one also when
that link has been forgotten.

Only the links of the nodes on the ring matter (`Lib.Links.Ring.congr`). A node that is linked in
behind the first is there afterwards (`Lib.Links.Ring.insert`), one that is linked in behind another
takes the place of all that follow it (`Lib.Links.Ring.append`), one that is taken out is gone
(`Lib.Links.Ring.remove`), and a search along the ring finds the first node there is
(`Lib.Links.Ring.search`).
-/

namespace Lib

universe u

/-- The links of nodes, forward and backward. -/
structure Links (α : Type u) where
  next : α → α
  prev : α → α

namespace Links

variable {α : Type u}

/-- **The nodes of a ring** behind the one that closes it. -/
structure Ring (k : Links α) (nil : α) (l : List α) : Prop where
  nodup : (nil :: l).Nodup
  forward : (nil :: l ++ [nil]).IsChain fun a b => k.next a = b
  backward : (nil :: l).IsChain fun a b => k.prev b = a

/-- The links with `x` behind `a`. -/
def insert [DecidableEq α] (k : Links α) (a x : α) : Links α where
  next := Function.update (Function.update k.next x (k.next a)) a x
  prev := Function.update (Function.update k.prev (k.next a) x) x a

/-- The links with `x` behind `a`, and nothing behind it up to `nil`. -/
def append [DecidableEq α] (k : Links α) (nil a x : α) : Links α where
  next := Function.update (Function.update k.next a x) x nil
  prev := Function.update k.prev x a

/-- The links without `x`. -/
def remove [DecidableEq α] (k : Links α) (x : α) : Links α where
  next := Function.update k.next (k.prev x) (k.next x)
  prev := Function.update k.prev (k.next x) (k.prev x)

/-- Going from node to node until there is one that satisfies `p`, or the ring is closed. -/
def search [DecidableEq α] (k : Links α) (nil : α) (p : α → Bool) : ℕ → α → Option α
  | 0, _ => none
  | fuel + 1, a => if a = nil ∨ p a = true then some a else k.search nil p fuel (k.next a)

variable {k k' : Links α} {nil a b x : α} {l m : List α}

/-- Forward links matter of all nodes but the last one. -/
theorem forward_congr (hnext : ∀ y ∈ l.dropLast, k'.next y = k.next y)
    (h : l.IsChain fun a b => k.next a = b) : l.IsChain fun a b => k'.next a = b := by
  induction l with
  | nil => exact .nil
  | cons a l ih =>
    cases l with
    | nil => exact .singleton a
    | cons b l =>
      obtain ⟨hab, hrest⟩ := List.isChain_cons_cons.mp h
      refine List.isChain_cons_cons.mpr ⟨?_, ih (fun y hy => ?_) hrest⟩
      · rw [hnext a List.mem_cons_self]
        exact hab
      · exact hnext y (List.mem_cons_of_mem a hy)

/-- Backward links matter of all but the first. -/
theorem backward_congr (hprev : ∀ y ∈ l.tail, k'.prev y = k.prev y)
    (h : l.IsChain fun a b => k.prev b = a) : l.IsChain fun a b => k'.prev b = a :=
  h.imp_of_mem_tail_imp fun _ b _ hb hab => (hprev b hb).trans hab

/-- **The links of other nodes** do not matter, nor does the backward link of the first. -/
theorem Ring.congr (h : k.Ring nil l) (hnext : ∀ y ∈ nil :: l, k'.next y = k.next y)
    (hprev : ∀ y ∈ l, k'.prev y = k.prev y) : k'.Ring nil l := by
  refine ⟨h.nodup, forward_congr (fun y hy => hnext y ?_) h.forward,
    backward_congr hprev h.backward⟩
  rwa [List.dropLast_concat] at hy

/-- The ring is closed: the first node is followed by the first of the others. -/
theorem Ring.next_nil (h : k.Ring nil l) : k.next nil = l.headD nil := by
  have hforward := h.forward
  cases l with
  | nil => exact (List.isChain_cons_cons.mp hforward).1
  | cons a l => exact (List.isChain_cons_cons.mp hforward).1

/-- The nodes around one on the ring. -/
theorem Ring.around (h : k.Ring nil (l ++ x :: m)) :
    k.prev x = (nil :: l).getLast (by simp) ∧ k.next x = (m ++ [nil]).head (by simp) := by
  have hbackward : (nil :: l ++ x :: m).IsChain fun a b => k.prev b = a := h.backward
  have hforward : (nil :: l ++ x :: m ++ [nil]).IsChain fun a b => k.next a = b := h.forward
  rw [List.append_assoc, List.isChain_append] at hforward
  obtain ⟨b, rest, hb⟩ := List.exists_cons_of_ne_nil (l := m ++ [nil]) (by simp)
  refine ⟨?_, ?_⟩
  · exact (List.isChain_append.mp hbackward).2.2 _ (List.getLast_mem_getLast? (by simp)) x rfl
  · have hrest : (x :: (m ++ [nil])).IsChain fun a b => k.next a = b := hforward.2.1
    simp only [hb] at hrest ⊢
    exact (List.isChain_cons_cons.mp hrest).1

/-- The part of a ring in front of a place, with its last node. -/
theorem Ring.front (h : k.Ring nil (l ++ m)) : ∃ l₁ t, nil :: l = l₁ ++ [t] ∧ t ∉ l₁ ∧ t ∉ m ∧
    (l₁ ++ [t]).IsChain (fun a b => k.next a = b) ∧
    (l₁ ++ [t]).IsChain fun a b => k.prev b = a := by
  obtain ⟨l₁, t, hl⟩ : ∃ l₁ t, nil :: l = l₁ ++ [t] :=
    ⟨_, _, (List.dropLast_append_getLast (List.cons_ne_nil nil l)).symm⟩
  have hnodup : (nil :: l ++ m).Nodup := h.nodup
  have hforward : (nil :: l ++ (m ++ [nil])).IsChain fun a b => k.next a = b := by
    rw [← List.append_assoc]
    exact h.forward
  have hbackward : (nil :: l ++ m).IsChain fun a b => k.prev b = a := h.backward
  rw [hl] at hnodup hforward hbackward
  obtain ⟨hleft, -, hdisjoint⟩ := List.nodup_append.mp hnodup
  refine ⟨l₁, t, hl, fun ht => ?_, fun ht => ?_, (List.isChain_append.mp hforward).1,
    (List.isChain_append.mp hbackward).1⟩
  · exact (List.nodup_append.mp hleft).2.2 t ht t (List.mem_singleton_self t) rfl
  · exact hdisjoint t (List.mem_append_right l₁ (List.mem_singleton_self t)) t ht rfl

section Change

variable [DecidableEq α]

/-- Where the first node is linked back to when another is linked in behind it. -/
theorem insert_prev_nil (hx : nil ≠ x) :
    (k.insert nil x).prev nil = if nil = k.next nil then x else k.prev nil := by
  simp only [Links.insert, Function.update_of_ne hx, Function.update_apply]

/-- It does not notice when one is linked in behind another. -/
theorem append_prev_nil (hx : nil ≠ x) : (k.append nil a x).prev nil = k.prev nil :=
  Function.update_of_ne hx ..

theorem remove_prev : (k.remove x).prev a = if a = k.next x then k.prev x else k.prev a :=
  Function.update_apply ..

/-- **Linking a node in** behind the first. -/
theorem Ring.insert (h : k.Ring nil l) (hx : x ∉ nil :: l) :
    (k.insert nil x).Ring nil (x :: l) := by
  obtain ⟨hnil, hl⟩ := List.nodup_cons.mp h.nodup
  obtain ⟨hxnil, hxl⟩ := not_or.mp (List.mem_cons.not.mp hx)
  have hnext : ∀ y ∈ l, (k.insert nil x).next y = k.next y := by
    intro y hy
    have hyn : y ≠ nil := fun heq => hnil (heq ▸ hy)
    have hyx : y ≠ x := fun heq => hxl (heq ▸ hy)
    simp only [Links.insert, Function.update_of_ne hyn, Function.update_of_ne hyx]
  have hnil' : (k.insert nil x).next nil = x := Function.update_self ..
  have hx' : (k.insert nil x).next x = k.next nil := by
    simp only [Links.insert, Function.update_of_ne hxnil, Function.update_self]
  have hprev : (k.insert nil x).prev x = nil := Function.update_self ..
  constructor
  case nodup =>
    refine List.nodup_cons.mpr ⟨fun hmem => ?_, List.nodup_cons.mpr ⟨hxl, hl⟩⟩
    exact (List.mem_cons.mp hmem).elim (fun heq => hxnil heq.symm) hnil
  case forward =>
    cases l with
    | nil =>
      exact List.isChain_cons_cons.mpr ⟨hnil', List.isChain_cons_cons.mpr
        ⟨hx'.trans h.next_nil, .singleton nil⟩⟩
    | cons a l =>
      refine List.isChain_cons_cons.mpr ⟨hnil', List.isChain_cons_cons.mpr
        ⟨hx'.trans h.next_nil, forward_congr (fun y hy => hnext y ?_) h.forward.tail⟩⟩
      exact (List.dropLast_concat : ((a :: l) ++ [nil]).dropLast = _) ▸ hy
  case backward =>
    cases l with
    | nil => exact List.isChain_cons_cons.mpr ⟨hprev, .singleton x⟩
    | cons a l =>
      have ha : k.next nil = a := h.next_nil
      have hxa : x ≠ a := fun heq => hxl (heq ▸ List.mem_cons_self)
      refine List.isChain_cons_cons.mpr ⟨hprev, List.isChain_cons_cons.mpr
        ⟨?_, backward_congr (fun y hy => ?_) h.backward.tail⟩⟩
      · simp only [Links.insert, Function.update_of_ne hxa.symm, ha, Function.update_self]
      · have hya : y ≠ k.next nil := fun heq => (List.nodup_cons.mp hl).1 (ha ▸ heq ▸ hy)
        have hyx : y ≠ x := fun heq => hxl (heq ▸ List.mem_cons_of_mem a hy)
        simp only [Links.insert, Function.update_of_ne hyx, Function.update_of_ne hya]

/-- **Linking a node in behind another**, and nothing behind it: what has followed is gone. -/
theorem Ring.append (h : k.Ring nil (l ++ m)) (hx : x ∉ nil :: (l ++ m)) :
    (k.append nil ((nil :: l).getLast (by simp)) x).Ring nil (l ++ [x]) := by
  obtain ⟨l₁, t, hl, ht, -, hforward, hbackward⟩ := h.front
  have hxl : ∀ y ∈ l₁ ++ [t], y ≠ x := fun y hy hyx =>
    hx (hyx ▸ List.mem_append_left m (hl ▸ hy))
  have htx : t ≠ x := hxl t (List.mem_append_right l₁ (List.mem_singleton_self t))
  simp only [hl, List.getLast_concat]
  have hring : nil :: (l ++ [x]) = l₁ ++ t :: [x] := by
    rw [← List.cons_append, hl, List.append_assoc, List.singleton_append]
  constructor
  case nodup =>
    have hleft : (nil :: l ++ m).Nodup := h.nodup
    rw [hring, List.append_cons, ← hl]
    refine List.nodup_append.mpr ⟨(List.nodup_append.mp hleft).1, List.nodup_singleton x, ?_⟩
    intro a ha b hb
    rw [List.mem_singleton.mp hb]
    exact hxl a (hl ▸ ha)
  case forward =>
    rw [hring, List.append_assoc, List.cons_append, List.singleton_append,
      List.isChain_append_cons_cons]
    refine ⟨forward_congr (fun y hy => ?_) hforward, ?_,
      List.isChain_cons_cons.mpr ⟨Function.update_self .., .singleton nil⟩⟩
    · rw [List.dropLast_concat] at hy
      have hyt : y ≠ t := fun heq => ht (heq ▸ hy)
      simp only [Links.append, Function.update_of_ne (hxl y (List.mem_append_left _ hy)),
        Function.update_of_ne hyt]
    · simp only [Links.append, Function.update_of_ne htx, Function.update_self]
  case backward =>
    rw [hring, List.isChain_append_cons_cons]
    refine ⟨backward_congr (fun y hy => ?_) hbackward, Function.update_self .., .singleton x⟩
    exact Function.update_of_ne (hxl y (List.mem_of_mem_tail hy)) ..

/-- **Taking a node out.** -/
theorem Ring.remove (h : k.Ring nil (l ++ x :: m)) : (k.remove x).Ring nil (l ++ m) := by
  obtain ⟨hback, hnext⟩ := h.around
  obtain ⟨l₁, t, hl, ht, htm, hforward, hbackward⟩ := h.front
  obtain ⟨b, rest, hb⟩ := List.exists_cons_of_ne_nil (l := m ++ [nil]) (by simp)
  simp only [hl, List.getLast_concat, hb, List.head_cons] at hback hnext
  have hmiddle := h.nodup
  rw [← List.cons_append, List.nodup_middle, List.nodup_cons, hl] at hmiddle
  obtain ⟨-, hnodup⟩ := hmiddle
  have hright : (m ++ [nil]).IsChain fun a b => k.next a = b := by
    have hforward : (nil :: l ++ x :: (m ++ [nil])).IsChain fun a b => k.next a = b := by
      rw [← List.cons_append, ← List.append_assoc]
      exact h.forward
    exact (List.isChain_append.mp hforward).2.1.tail
  have hright' : m.IsChain fun a b => k.prev b = a := by
    have hbackward : (nil :: l ++ x :: m).IsChain fun a b => k.prev b = a := h.backward
    exact (List.isChain_append.mp hbackward).2.1.tail
  have hring : nil :: (l ++ m) = l₁ ++ [t] ++ m := by rw [← hl, List.cons_append]
  -- no node in front of the place is the one behind it, to which the backward link goes
  have hfront : b ∉ l := by
    intro hmem
    have hrot : (l ++ (m ++ [nil])).Nodup := by
      rw [← List.append_assoc]
      exact (List.perm_append_singleton nil (l ++ m)).nodup_iff.mpr (hring ▸ hnodup)
    exact (List.nodup_append.mp hrot).2.2 b hmem b (hb ▸ List.mem_cons_self) rfl
  have hleft : (l₁ ++ [t]).IsChain fun a b => (k.remove x).prev b = a := by
    refine backward_congr (fun y hy => ?_) hbackward
    rw [← hl, List.tail_cons] at hy
    have hyb : y ≠ k.next x := fun heq => hfront (hnext ▸ heq ▸ hy)
    exact Function.update_of_ne hyb ..
  constructor
  case nodup => rwa [hring]
  case forward =>
    rw [hring, List.append_assoc, hb, List.append_assoc, List.singleton_append,
      List.isChain_append_cons_cons]
    have hne : ∀ y, y ≠ t → (k.remove x).next y = k.next y := by
      intro y hy
      exact Function.update_of_ne (hback ▸ hy) ..
    refine ⟨forward_congr (fun y hy => hne y fun heq => ht ?_) hforward, ?_,
      forward_congr (fun y hy => hne y fun heq => htm ?_) (hb ▸ hright)⟩
    · rw [List.dropLast_concat] at hy
      exact heq ▸ hy
    · simp only [Links.remove, hback, Function.update_self, hnext]
    · rw [← hb, List.dropLast_concat] at hy
      exact List.mem_cons_of_mem x (heq ▸ hy)
  case backward =>
    rw [hring]
    cases m with
    | nil => rwa [List.append_nil]
    | cons c m =>
      obtain rfl : c = b := (List.cons_eq_cons.mp hb).1
      have hcm : c ∉ m := (List.nodup_cons.mp (List.nodup_append.mp hnodup).2.1).1
      rw [List.append_assoc, List.singleton_append, List.isChain_append_cons_cons]
      refine ⟨hleft, ?_, backward_congr (fun y hy => ?_) hright'⟩
      · simp only [Links.remove, hback, hnext, Function.update_self]
      · have hyc : y ≠ k.next x := fun heq => hcm (hnext ▸ heq ▸ hy)
        exact Function.update_of_ne hyc ..

/-- A search along what follows a node of the ring. -/
theorem search_of_forward (p : α → Bool) {fuel : ℕ} (hfuel : l.length < fuel) (hnil : nil ∉ l)
    (h : (l ++ [nil]).IsChain fun a b => k.next a = b) :
    k.search nil p fuel (l.headD nil) = some ((l.find? p).getD nil) := by
  induction l generalizing fuel with
  | nil =>
    obtain ⟨fuel, rfl⟩ := Nat.exists_eq_add_one_of_ne_zero (Nat.ne_of_gt hfuel)
    exact if_pos (.inl rfl)
  | cons a l ih =>
    obtain ⟨fuel, rfl⟩ := Nat.exists_eq_add_one_of_ne_zero (Nat.ne_of_gt (Nat.zero_lt_of_lt hfuel))
    have ha : a ≠ nil := fun ha => hnil (ha ▸ List.mem_cons_self)
    rw [List.headD_cons, Links.search]
    cases hp : p a with
    | true => rw [if_pos (.inr rfl), List.find?_cons_of_pos hp, Option.getD_some]
    | false =>
      have hnext : k.next a = l.headD nil := by
        cases l with
        | nil => exact (List.isChain_cons_cons.mp h).1
        | cons b l => exact (List.isChain_cons_cons.mp h).1
      rw [if_neg (by simp [ha]), List.find?_cons_of_neg (by simp [hp]), hnext]
      exact ih (Nat.lt_of_succ_lt_succ hfuel) (fun hl => hnil (List.mem_cons_of_mem a hl))
        (List.IsChain.tail h)

/-- **Searching the ring.** -/
theorem Ring.search (h : k.Ring nil l) (p : α → Bool) {fuel : ℕ} (hfuel : l.length < fuel) :
    k.search nil p fuel (k.next nil) = some ((l.find? p).getD nil) := by
  rw [h.next_nil]
  exact search_of_forward p hfuel (List.nodup_cons.mp h.nodup).1 h.forward.tail

end Change

end Links

end Lib
