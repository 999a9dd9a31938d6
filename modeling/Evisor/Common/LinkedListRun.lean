import Mathlib.Data.List.Perm.Subperm
import Evisor.Common.LinkedList

/-!
# Lists on one heap

Any number of lists of `common/list.cc` live on the kernel heap, beside the pages that others get
there from `kmm_malloc`. Whatever is done to them, in whatever order, each list has keys of its own
and a back of its own (`Evisor.LinkedList.Keys`), and each page of another has the words that its
owner has stored there: `Evisor.LinkedList.lists_hold`. A run is only stopped when all pages of the
heap are taken, and then by `kmm_malloc`.

What carries this is who owns which page (`Evisor.LinkedList.Owner`). A list owns the page of the
node that closes its ring and those of its nodes; the nodes of a list that is destroyed before it is
empty are lost, and so are those that `PushBack` links a node in instead of.
-/

namespace Evisor

namespace LinkedList

/-! ### Runs -/

/-- What is done on the heap. Lists have names, and so have the pages of others; a page is read and
written by words. -/
inductive Op where
  | create (i : ℕ)
  | destroy (i : ℕ)
  | pushFront (i v : ℕ)
  | pushBack (i v : ℕ)
  | popFront (i : ℕ)
  | popBack (i : ℕ)
  | delete (i v : ℕ)
  | front (i : ℕ)
  | back (i : ℕ)
  | take (j size : ℕ)
  | give (j : ℕ)
  | store (j off v : ℕ)
  | load (j off : ℕ)

/-- Whether a page is asked for. -/
def Op.Allocates : Op → Prop
  | .create _ | .pushFront _ _ | .pushBack _ _ | .take _ _ => True
  | _ => False

/-- The heap, `nil_` of each list, the pages of others, and what has been read so far. -/
structure State where
  heap : KernelHeap
  lists : ℕ → Option ℕ
  held : ℕ → Option ℕ
  seen : List ℕ

/-- A heap of which nothing is taken, with any memory. -/
def State.boot (m : Mem) : State := ⟨⟨m, fun _ => false⟩, fun _ => none, fun _ => none, []⟩

/-- An operation on what there may be. -/
def withPtr (p : Option ℕ) (f : ℕ → Except Fault State) : Except Fault State :=
  p.elim (.error .nullDeref) f

/-- An operation that changes the heap. -/
def State.change (s : State) (i : ℕ) (f : ℕ → KernelHeap → Except Fault KernelHeap) :
    Except Fault State :=
  withPtr (s.lists i) fun nil => (f nil s.heap).map fun h => { s with heap := h }

/-- A page of another is given back. -/
def give (L : Layout) (p : ℕ) (h : KernelHeap) : Except Fault KernelHeap :=
  (kmmFree L h.map p).map fun map => { h with map := map }

/-- One operation. -/
def step (L : Layout) (s : State) : Op → Except Fault State
  | .create i => (create L s.heap).map fun r =>
    { s with heap := r.2, lists := Function.update s.lists i (some r.1) }
  | .destroy i => withPtr (s.lists i) fun nil => (destroy L nil s.heap).map fun h =>
    { s with heap := h, lists := Function.update s.lists i none }
  | .pushFront i v => s.change i fun nil => pushFront L nil v
  | .pushBack i v => s.change i fun nil => pushBack L nil v
  | .popFront i => s.change i (popFront L)
  | .popBack i => s.change i (popBack L)
  | .delete i v => s.change i fun nil => delete L nil v
  | .front i => withPtr (s.lists i) fun nil =>
    .ok { s with seen := s.seen ++ [front nil s.heap] }
  | .back i => withPtr (s.lists i) fun nil =>
    .ok { s with seen := s.seen ++ [back nil s.heap] }
  | .take j size => (kmmMalloc L s.heap.map size).map fun r =>
    { s with heap := ⟨s.heap.mem, r.2⟩, held := Function.update s.held j (some r.1) }
  | .give j => withPtr (s.held j) fun p => (give L p s.heap).map fun h =>
    { s with heap := h, held := Function.update s.held j none }
  | .store j off v => withPtr (s.held j) fun p =>
    .ok { s with heap := ⟨Function.update s.heap.mem (p + 8 * off) v, s.heap.map⟩ }
  | .load j off => withPtr (s.held j) fun p =>
    .ok { s with seen := s.seen ++ [s.heap.mem (p + 8 * off)] }

/-! ### What it is for -/

/-- **Lists and pages as their users see them**: the keys of each list, the words of each page as
far as they have been stored, how many elements have been lost, and what has been read. -/
structure Abs where
  lists : ℕ → Option Keys
  held : ℕ → Option (ℕ → Option ℕ)
  lost : ℕ
  seen : List ℕ

namespace Abs

/-- There is nothing yet. -/
def boot : Abs := ⟨fun _ => none, fun _ => none, 0, []⟩

/-- A list is changed, if it is there and can be. -/
def change (A : Abs) (i : ℕ) (f : Keys → Option Keys) : Option Abs :=
  ((A.lists i).bind f).map fun l => { A with lists := Function.update A.lists i (some l) }

/-- A key is put behind the one that is taken for the last, and those that follow that are lost. -/
def pushBack (A : Abs) (i v : ℕ) : Option Abs :=
  (A.lists i).bind fun l => l.tail.map fun k => { A with
    lists := Function.update A.lists i (some (l.pushBehind k v))
    lost := A.lost + (l.keys.length - k) }

/-- Something is read, if it can be known. -/
def read (A : Abs) (v : Option ℕ) : Option Abs := v.map fun v => { A with seen := A.seen ++ [v] }

/-- One operation, if it is one that may be done: on what is there, and what has not been made
already, to the ends of a list that has any, within a page; and at the back of a list as long as the
node is there that is taken for the last. -/
def step (A : Abs) : Op → Option Abs
  | .create i =>
    if (A.lists i).isNone then some { A with lists := Function.update A.lists i (some .empty) }
    else none
  | .destroy i => (A.lists i).map fun l =>
    { A with lists := Function.update A.lists i none, lost := A.lost + l.keys.length }
  | .pushFront i v => A.change i fun l => some (l.pushFront (v % 2 ^ 32))
  | .pushBack i v => A.pushBack i (v % 2 ^ 32)
  | .popFront i => A.change i fun l => some l.popFront
  | .popBack i => A.change i Keys.popBack
  | .delete i v => A.change i fun l => some (l.delete (v % 2 ^ 32))
  | .front i => A.read ((A.lists i).bind Keys.front)
  | .back i => A.read ((A.lists i).bind Keys.back)
  | .take j size =>
    if (A.held j).isNone ∧ 1 ≤ size then
      some { A with held := Function.update A.held j (some fun _ => none) }
    else none
  | .give j => (A.held j).map fun _ => { A with held := Function.update A.held j none }
  | .store j off v =>
    if 8 * off < PAGE_SIZE then (A.held j).map fun words =>
      { A with held := Function.update A.held j (some (Function.update words off (some v))) }
    else none
  | .load j off => A.read ((A.held j).bind fun words => words off)

/-- A sequence of operations. -/
def run (A : Abs) (ops : List Op) : Option Abs := ops.foldlM step A

end Abs

/-! ### Who owns a page -/

/-- Who has a page of the heap. -/
inductive Owner where
  | list (i : ℕ)
  | other (j : ℕ)
  | lost
  deriving DecidableEq

/-- **The map of the heap**: a page is marked if somebody has it. -/
structure Owned (L : Layout) (map : HeapMap) (owner : ℕ → Option Owner) : Prop where
  marked : ∀ i < HEAP_PAGES, map i = (owner (L.heapPage i)).isSome
  inHeap : ∀ {a : ℕ} {o : Owner}, owner a = some o → ∃ i < HEAP_PAGES, a = L.heapPage i

/-- A list where it is said to be. -/
def ListAt (m : Mem) (owner : ℕ → Option Owner) (i : ℕ) : Option ℕ → Option Keys → Prop
  | some nil, some l => ∃ nodes, Stored m nil nodes l ∧
    ∀ a, owner a = some (.list i) ↔ a ∈ nil :: nodes
  | none, none => ∀ a, owner a ≠ some (.list i)
  | _, _ => False

/-- A page of another, with the words that have been stored there. -/
def PageAt (m : Mem) (owner : ℕ → Option Owner) (j : ℕ) :
    Option ℕ → Option (ℕ → Option ℕ) → Prop
  | some p, some words => (∀ a, owner a = some (.other j) ↔ a = p) ∧
    ∀ off v, words off = some v → 8 * off < PAGE_SIZE ∧ m (p + 8 * off) = v
  | none, none => ∀ a, owner a ≠ some (.other j)
  | _, _ => False

/-- Pages that nobody will give back. -/
def LostAt (owner : ℕ → Option Owner) (n : ℕ) : Prop :=
  ∃ l : List ℕ, l.Nodup ∧ l.length = n ∧ ∀ a, owner a = some .lost ↔ a ∈ l

/-- **The state is what its users see.** -/
structure Represents (L : Layout) (s : State) (A : Abs) (owner : ℕ → Option Owner) : Prop where
  owned : Owned L s.heap.map owner
  lost : LostAt owner A.lost
  lists : ∀ i, ListAt s.heap.mem owner i (s.lists i) (A.lists i)
  held : ∀ j, PageAt s.heap.mem owner j (s.held j) (A.held j)
  seen : s.seen = A.seen

variable {L : Layout} {s t : State} {A B : Abs} {owner owner' : ℕ → Option Owner} {m m' : Mem}
  {map map' : HeapMap} {i j x : ℕ} {o : Owner}

section Owned

theorem Owned.aligned (h : Owned L map owner) (hx : owner x = some o) : x % PAGE_SIZE = 0 := by
  obtain ⟨i, hi, rfl⟩ := h.inHeap hx
  exact (inHeap_heapPage L hi).1

/-- **A page is handed out** that nobody had. -/
theorem Owned.malloc (h : Owned L map owner) {size : ℕ} (hsize : 1 ≤ size)
    (hx : kmmMalloc L map size = .ok (x, map')) (o : Owner) :
    owner x = none ∧ x % PAGE_SIZE = 0 ∧ Owned L map' (Function.update owner x (some o)) := by
  obtain ⟨k, hk, hfree, rfl, rfl⟩ := kmmMalloc_ok hsize hx
  have hnone : owner (L.heapPage k) = none := by
    have hmarked := h.marked k hk
    rw [hfree] at hmarked
    exact Option.isSome_eq_false_iff.mp hmarked.symm |> Option.isNone_iff_eq_none.mp
  refine ⟨hnone, (inHeap_heapPage L hk).1, fun i hi => ?_, fun {a o'} ha => ?_⟩
  · rw [Function.update_apply, Function.update_apply]
    rcases eq_or_ne i k with rfl | hik
    · rw [if_pos rfl, if_pos rfl]
      rfl
    · rw [if_neg hik, if_neg (fun heq => hik (heapPage_inj heq))]
      exact h.marked i hi
  · rw [Function.update_apply] at ha
    split at ha
    case isTrue hak => exact ⟨k, hk, hak⟩
    case isFalse => exact h.inHeap ha

/-- **A page is given back** that somebody had. -/
theorem Owned.free (h : Owned L map owner) (hx : owner x = some o) :
    ∃ map', kmmFree L map x = .ok map' ∧ x ≠ 0 ∧ Owned L map' (Function.update owner x none) := by
  obtain ⟨k, hk, rfl⟩ := h.inHeap hx
  refine ⟨_, kmmFree_heapPage L map hk, (inHeap_heapPage L hk).bounds.2.1.ne', fun i hi => ?_,
    fun {a o'} ha => ?_⟩
  · rw [Function.update_apply, Function.update_apply]
    rcases eq_or_ne i k with rfl | hik
    · rw [if_pos rfl, if_pos rfl]
      rfl
    · rw [if_neg hik, if_neg (fun heq => hik (heapPage_inj heq))]
      exact h.marked i hi
  · rw [Function.update_apply] at ha
    split at ha
    · cases ha
    · exact h.inHeap ha

/-- The pages that are lost with these nodes. -/
def lose (nodes : List ℕ) (owner : ℕ → Option Owner) (a : ℕ) : Option Owner :=
  if a ∈ nodes then some .lost else owner a

/-- They belong to nobody, but are not free. -/
theorem Owned.lose (h : Owned L map owner) {nodes : List ℕ}
    (hnodes : ∀ a ∈ nodes, owner a = some o) : Owned L map (lose nodes owner) := by
  have hsame : ∀ a, (LinkedList.lose nodes owner a).isSome = (owner a).isSome := by
    intro a
    rw [LinkedList.lose]
    split
    case isTrue ha => rw [hnodes a ha, Option.isSome_some, Option.isSome_some]
    case isFalse => rfl
  refine ⟨fun k hk => (h.marked k hk).trans (hsame _).symm, fun {a o'} ha => ?_⟩
  obtain ⟨o'', ha''⟩ := Option.isSome_iff_exists.mp
    ((hsame a).symm.trans (Option.isSome_iff_exists.mpr ⟨o', ha⟩))
  exact h.inHeap ha''

/-- There are no more nodes than pages. -/
theorem Owned.length_le (h : Owned L map owner) {l : List ℕ} (hl : l.Nodup)
    (howned : ∀ x ∈ l, owner x = some o) : l.length ≤ HEAP_PAGES := by
  have hsub : l ⊆ (List.range HEAP_PAGES).map L.heapPage := by
    intro x hx
    obtain ⟨k, hk, rfl⟩ := h.inHeap (howned x hx)
    exact List.mem_map_of_mem (List.mem_range.mpr hk)
  simpa using (List.subperm_of_subset hl hsub).length_le

end Owned

/-! ### What others do not notice -/

section Frame

variable {slot : Option ℕ} {keys : Option Keys} {words : Option (ℕ → Option ℕ)}

theorem ListAt.frame (h : ListAt m owner i slot keys)
    (howner : ∀ a, owner' a = some (.list i) ↔ owner a = some (.list i))
    (hmem : ∀ a, owner a = some (.list i) → ∀ k < PAGE_SIZE, m' (a + k) = m (a + k)) :
    ListAt m' owner' i slot keys := by
  cases slot with
  | none =>
    cases keys with
    | none => exact fun a ha => h a ((howner a).mp ha)
    | some keys => exact h
  | some nil =>
    cases keys with
    | none => exact h
    | some keys =>
      obtain ⟨nodes, hstored, hpages⟩ := h
      exact ⟨nodes, hstored.congr fun x hx => hmem x ((hpages x).mpr hx),
        fun a => (howner a).trans (hpages a)⟩

theorem PageAt.frame (h : PageAt m owner j slot words)
    (howner : ∀ a, owner' a = some (.other j) ↔ owner a = some (.other j))
    (hmem : ∀ a, owner a = some (.other j) → ∀ k < PAGE_SIZE, m' (a + k) = m (a + k)) :
    PageAt m' owner' j slot words := by
  cases slot with
  | none =>
    cases words with
    | none => exact fun a ha => h a ((howner a).mp ha)
    | some words => exact h
  | some p =>
    cases words with
    | none => exact h
    | some words =>
      obtain ⟨hpage, hwords⟩ := h
      refine ⟨fun a => (howner a).trans (hpage a), fun off v hv => ?_⟩
      obtain ⟨hoff, hm⟩ := hwords off v hv
      exact ⟨hoff, (hmem p ((hpage p).mpr rfl) _ hoff).trans hm⟩

theorem LostAt.congr {n : ℕ} (h : LostAt owner n)
    (howner : ∀ a, owner' a = some .lost ↔ owner a = some .lost) : LostAt owner' n := by
  obtain ⟨l, hl, hn, hmem⟩ := h
  exact ⟨l, hl, hn, fun a => (howner a).trans (hmem a)⟩

/-- **Nodes of a list are lost.** -/
theorem LostAt.lose {n : ℕ} {nodes : List ℕ} (h : LostAt owner n) (hnodes : nodes.Nodup)
    (howner : ∀ a ∈ nodes, owner a = some (.list i)) :
    LostAt (lose nodes owner) (n + nodes.length) := by
  obtain ⟨l, hl, hn, hmem⟩ := h
  refine ⟨l ++ nodes, List.nodup_append.mpr ⟨hl, hnodes, fun a ha b hb hab => ?_⟩, ?_, fun a => ?_⟩
  · have hlist := howner b hb
    rw [← hab, (hmem a).mpr ha] at hlist
    cases hlist
  · rw [List.length_append, hn]
  · rw [List.mem_append, ← hmem a, LinkedList.lose]
    split
    case isTrue ha => exact iff_of_true rfl (.inr ha)
    case isFalse ha => rw [or_iff_left ha]

/-- Nobody else notices. -/
theorem others_of_lose {nodes : List ℕ} (howner : ∀ a ∈ nodes, owner a = some (.list i)) (a : ℕ)
    (o : Owner) (ho : o ≠ .list i) (hlost : o ≠ .lost) :
    lose nodes owner a = some o ↔ owner a = some o := by
  rw [LinkedList.lose]
  split
  case isTrue ha =>
    rw [howner a ha]
    exact iff_of_false (fun heq => hlost (Option.some.inj heq).symm)
      fun heq => ho (Option.some.inj heq).symm
  case isFalse => rfl

/-- **What is done to a list** is noticed by no one else. -/
theorem Represents.setList (h : Represents L s A owner) (m' : Mem) (slot : Option ℕ)
    (keys : Option Keys) (howned : Owned L map' owner') {n : ℕ} (hlost : LostAt owner' n)
    (hlist : ListAt m' owner' i slot keys)
    (howner : ∀ a o, o ≠ .list i → o ≠ .lost → (owner' a = some o ↔ owner a = some o))
    (hmem : ∀ a o, owner a = some o → o ≠ .list i →
      ∀ k < PAGE_SIZE, m' (a + k) = s.heap.mem (a + k)) :
    Represents L { s with heap := ⟨m', map'⟩, lists := Function.update s.lists i slot }
      { A with lists := Function.update A.lists i keys, lost := n } owner' where
  owned := howned
  lost := hlost
  lists i' := by
    rcases eq_or_ne i' i with rfl | hne
    · simpa only [Function.update_self] using hlist
    · simp only [Function.update_of_ne hne]
      have hother : Owner.list i' ≠ .list i := fun heq => hne (Owner.list.inj heq)
      exact (h.lists i').frame (fun a => howner a _ hother nofun) fun a ha => hmem a _ ha hother
  held j := (h.held j).frame (fun a => howner a _ nofun nofun) fun a ha => hmem a _ ha nofun
  seen := h.seen

/-- **What is done to a page** is noticed by no one else, either. -/
theorem Represents.setPage (h : Represents L s A owner) (m' : Mem) (slot : Option ℕ)
    (words : Option (ℕ → Option ℕ)) (howned : Owned L map' owner')
    (hpage : PageAt m' owner' j slot words)
    (howner : ∀ a o, o ≠ .other j → (owner' a = some o ↔ owner a = some o))
    (hmem : ∀ a o, owner a = some o → o ≠ .other j →
      ∀ k < PAGE_SIZE, m' (a + k) = s.heap.mem (a + k)) :
    Represents L { s with heap := ⟨m', map'⟩, held := Function.update s.held j slot }
      { A with held := Function.update A.held j words } owner' where
  owned := howned
  lost := h.lost.congr fun a => howner a _ nofun
  lists i := (h.lists i).frame (fun a => howner a _ nofun) fun a ha => hmem a _ ha nofun
  held j' := by
    rcases eq_or_ne j' j with rfl | hne
    · simpa only [Function.update_self] using hpage
    · simp only [Function.update_of_ne hne]
      have hother : Owner.other j' ≠ .other j := fun heq => hne (Owner.other.inj heq)
      exact (h.held j').frame (fun a => howner a _ hother) fun a ha => hmem a _ ha hother
  seen := h.seen

end Frame

/-! ### Operations on lists -/

/-- A list that is there. -/
theorem Represents.list (h : Represents L s A owner) {l : Keys}
    (hkeys : A.lists i = some l) : ∃ nil nodes, s.lists i = some nil ∧
      Stored s.heap.mem nil nodes l ∧ ∀ a, owner a = some (.list i) ↔ a ∈ nil :: nodes := by
  have hlist := h.lists i
  rw [hkeys] at hlist
  cases hslot : s.lists i with
  | none =>
    rw [hslot] at hlist
    exact hlist.elim
  | some nil =>
    rw [hslot] at hlist
    obtain ⟨nodes, hstored⟩ := hlist
    exact ⟨nil, nodes, rfl, hstored⟩

/-- A page that is there. -/
theorem Represents.page (h : Represents L s A owner) {words : ℕ → Option ℕ}
    (hwords : A.held j = some words) : ∃ p, s.held j = some p ∧
      (∀ a, owner a = some (.other j) ↔ a = p) ∧
      ∀ off v, words off = some v → 8 * off < PAGE_SIZE ∧ s.heap.mem (p + 8 * off) = v := by
  have hpage := h.held j
  rw [hwords] at hpage
  cases hslot : s.held j with
  | none =>
    rw [hslot] at hpage
    exact hpage.elim
  | some p =>
    rw [hslot] at hpage
    exact ⟨p, rfl, hpage⟩

/-- **What an operation comes to**: what is said of it. -/
def Done (L : Layout) (r : Except Fault State) (B : Abs) : Prop :=
  ∃ t owner', r = .ok t ∧ Represents L t B owner'

/-- There is no page. -/
def Full (s : State) (r : Except Fault State) : Prop :=
  r = .error (.panic "No free space!") ∧ ∀ k < HEAP_PAGES, s.heap.map k = true

/-- Who else has a page when one is handed out. -/
theorem others_of_grant {p : Owner} (hx : owner x = none) (a : ℕ) (o : Owner) (ho : o ≠ p) :
    Function.update owner x (some p) a = some o ↔ owner a = some o := by
  rw [Function.update_apply]
  split
  case isTrue hax =>
    rw [hax, hx]
    exact iff_of_false (fun heq => ho (Option.some.inj heq).symm) nofun
  case isFalse => rfl

/-- And when one is given back. -/
theorem others_of_return {p : Owner} (hx : owner x = some p) (a : ℕ) (o : Owner) (ho : o ≠ p) :
    Function.update owner x none a = some o ↔ owner a = some o := by
  rw [Function.update_apply]
  split
  case isTrue hax =>
    rw [hax, hx]
    exact iff_of_false nofun fun heq => ho (Option.some.inj heq).symm
  case isFalse => rfl

/-- **An element is added**, by stores that put the new node on the ring and leave some nodes
behind. -/
theorem push_goes (h : Represents L s A owner) {l l' : Keys} {n : ℕ}
    (hkeys : A.lists i = some l) (link : ℕ → ℕ → Mem → Mem)
    (hlink : ∀ {nil x : ℕ} {nodes : List ℕ}, Stored s.heap.mem nil nodes l →
      x % PAGE_SIZE = 0 → x ∉ nil :: nodes → OnlyPages (x :: nil :: nodes) s.heap.mem
        (link nil x s.heap.mem) ∧ ∃ kept dropped nodes', nodes = kept ++ dropped ∧
          dropped.length = n ∧ Stored (link nil x s.heap.mem) nil nodes' l' ∧
          ∀ a, a ∈ nodes' ↔ a = x ∨ a ∈ kept) :
    Done L (s.change i fun nil heap => do
        let (x, map) ← kmmMalloc L heap.map nodeSize
        return ⟨link nil x heap.mem, map⟩)
      { A with lists := Function.update A.lists i (some l'), lost := A.lost + n } ∨
    Full s (s.change i fun nil heap => do
        let (x, map) ← kmmMalloc L heap.map nodeSize
        return ⟨link nil x heap.mem, map⟩) := by
  obtain ⟨nil, nodes, hslot, hstored, hpages⟩ := h.list hkeys
  simp only [State.change, hslot, withPtr, Option.elim_some]
  cases hx : kmmMalloc L s.heap.map nodeSize with
  | error f =>
    obtain ⟨rfl, hfull⟩ := kmmMalloc_full hx
    exact .inr ⟨rfl, hfull⟩
  | ok r =>
    obtain ⟨x, map'⟩ := r
    obtain ⟨hnone, hx, howned⟩ := h.owned.malloc (by decide) hx (.list i)
    have hnew : x ∉ nil :: nodes := fun hmem => by
      rw [(hpages x).mpr hmem] at hnone
      cases hnone
    obtain ⟨honly, kept, dropped, nodes', rfl, rfl, hstored', hnodes'⟩ := hlink hstored hx hnew
    have hother : ∀ {a o}, owner a = some o → o ≠ .list i → a ∉ x :: nil :: (kept ++ dropped) := by
      intro a o ha ho hmem
      rcases List.mem_cons.mp hmem with rfl | hmem
      · rw [hnone] at ha
        cases ha
      · exact ho (Option.some.inj (ha.symm.trans ((hpages a).mpr hmem)))
    have howner := others_of_grant (p := .list i) hnone
    -- what is left behind has been the list's
    obtain ⟨hnil, hnodup⟩ := List.nodup_cons.mp hstored.ring.nodup
    obtain ⟨-, hdropped, hapart⟩ := List.nodup_append.mp hnodup
    have hlose : ∀ a ∈ dropped, Function.update owner x (some (.list i)) a = some (.list i) := by
      intro a ha
      rw [Function.update_apply]
      split
      case isTrue => rfl
      case isFalse =>
        exact (hpages a).mpr (List.mem_cons_of_mem nil (List.mem_append_right kept ha))
    refine .inl ⟨_, lose dropped (Function.update owner x (some (.list i))), rfl, ?_⟩
    have hset := h.setList (link nil x s.heap.mem) (some nil) (some l') (howned.lose hlose)
      ((h.lost.congr fun a => howner a _ nofun).lose hdropped hlose)
      ⟨nodes', hstored', fun a => ?_⟩
      (fun a o ho hlost => (others_of_lose hlose a o ho hlost).trans (howner a o ho))
      fun a o ha ho => honly a (h.owned.aligned ha) (hother ha ho)
    · rwa [Function.update_eq_self_iff.mpr hslot.symm] at hset
    · rw [lose, List.mem_cons, hnodes']
      split
      case isTrue ha =>
        refine iff_of_false nofun ?_
        rintro (rfl | rfl | hkept)
        · exact hnil (List.mem_append_right kept ha)
        · exact hnew (List.mem_cons_of_mem nil (List.mem_append_right kept ha))
        · exact hapart a hkept a ha rfl
      case isFalse ha =>
        rw [Function.update_apply]
        split
        case isTrue hax => exact iff_of_true rfl (.inr (.inl hax))
        case isFalse hax =>
          rw [hpages, List.mem_cons, List.mem_append, or_iff_left ha, or_iff_right hax]

/-- Nothing happens to a list that does not change. -/
theorem Represents.keep (h : Represents L s A owner) {l : Keys} (hkeys : A.lists i = some l) :
    Represents L s { A with lists := Function.update A.lists i (some l) } owner := by
  rwa [Function.update_eq_self_iff.mpr hkeys.symm]

/-- **A node is deleted**, and its page given back. -/
theorem deleteNode_represents (h : Represents L s A owner) {nil : ℕ} {l : Keys}
    {before behind : List ℕ} (hslot : s.lists i = some nil)
    (hstored : Stored s.heap.mem nil (before ++ x :: behind) l)
    (hpages : ∀ a, owner a = some (.list i) ↔ a ∈ nil :: (before ++ x :: behind)) :
    ∃ heap, deleteNode L nil x s.heap = .ok heap ∧ Represents L { s with heap := heap }
      { A with lists := Function.update A.lists i (some (l.removeAt before.length)) }
      (Function.update owner x none) := by
  have hx : owner x = some (.list i) := (hpages x).mpr (by simp)
  obtain ⟨map', hfree, hne, howned⟩ := h.owned.free hx
  have hmiddle := hstored.ring.nodup
  rw [← List.cons_append, List.nodup_middle, List.nodup_cons] at hmiddle
  have hnil : x ≠ nil := fun heq => hmiddle.1 (heq ▸ List.mem_cons_self)
  refine ⟨⟨unlink x s.heap.mem, map'⟩, ?_, ?_⟩
  · rw [deleteNode, if_neg hnil, free, if_neg hne, hfree]
    rfl
  · have howner := others_of_return hx
    have hset := h.setList (unlink x s.heap.mem) (some nil) (some (l.removeAt before.length)) howned
      (h.lost.congr fun a => howner a _ nofun) ⟨_, unlink_stored hstored, fun a => ?_⟩
      (fun a o ho _ => howner a o ho) fun a o ha ho =>
        hstored.unlink_only a (h.owned.aligned ha) fun hmem =>
          ho (Option.some.inj (ha.symm.trans ((hpages a).mpr hmem)))
    · rwa [Function.update_eq_self_iff.mpr hslot.symm] at hset
    · rw [Function.update_apply]
      split
      case isTrue hax => exact iff_of_false nofun (hax ▸ hmiddle.1)
      case isFalse hax =>
        rw [hpages]
        simp only [List.mem_cons, List.mem_append, hax, false_or]

/-- **An element is removed**, or there is none. -/
theorem remove_goes (h : Represents L s A owner) {l l' : Keys} (hkeys : A.lists i = some l)
    {f : ℕ → KernelHeap → Except Fault KernelHeap}
    (hf : ∀ {nil : ℕ} {nodes : List ℕ}, Stored s.heap.mem nil nodes l →
      nodes.length ≤ HEAP_PAGES →
      f nil s.heap = deleteNode L nil nil s.heap ∧ l' = l ∨
        ∃ before x behind, nodes = before ++ x :: behind ∧
          f nil s.heap = deleteNode L nil x s.heap ∧ l' = l.removeAt before.length) :
    Done L (s.change i f) { A with lists := Function.update A.lists i (some l') } := by
  obtain ⟨nil, nodes, hslot, hstored, hpages⟩ := h.list hkeys
  have hlength : nodes.length ≤ HEAP_PAGES := h.owned.length_le
    (List.nodup_cons.mp hstored.ring.nodup).2 fun x hx =>
      (hpages x).mpr (List.mem_cons_of_mem nil hx)
  simp only [State.change, hslot, withPtr, Option.elim_some]
  rcases hf hstored hlength with ⟨hnone, rfl⟩ | ⟨before, x, behind, rfl, hone, rfl⟩
  · rw [hnone, deleteNode, if_pos rfl]
    exact ⟨s, owner, rfl, h.keep hkeys⟩
  · obtain ⟨heap, hheap, hrep⟩ := deleteNode_represents h hslot hstored hpages
    rw [hone, hheap]
    exact ⟨_, Function.update owner x none, rfl, hrep⟩

/-- `PopFront` removes the first element, if there is one. -/
theorem popFront_goes (h : Represents L s A owner) {l : Keys} (hkeys : A.lists i = some l) :
    Done L (s.change i (popFront L))
      { A with lists := Function.update A.lists i (some l.popFront) } := by
  refine remove_goes h hkeys fun {nil nodes} hstored _ => ?_
  have hnext : next s.heap.mem nil = nodes.headD nil := hstored.ring.next_nil
  rw [popFront, hnext, Keys.popFront, ← hstored.keys]
  cases nodes with
  | nil => exact .inl ⟨rfl, if_pos rfl⟩
  | cons x behind => exact .inr ⟨[], x, behind, rfl, rfl, if_neg (List.cons_ne_nil _ _)⟩

/-- `PopBack` removes the one that is taken for the last, if there is one. -/
theorem popBack_goes (h : Represents L s A owner) {l l' : Keys} (hkeys : A.lists i = some l)
    (hpop : l.popBack = some l') :
    Done L (s.change i (popBack L)) { A with lists := Function.update A.lists i (some l') } := by
  refine remove_goes h hkeys fun {nil nodes} hstored _ => ?_
  obtain ⟨k, hk, rfl⟩ := Option.map_eq_some_iff.mp hpop
  have hat := hstored.tail k hk
  rw [popBack]
  cases k with
  | zero =>
    rw [List.getElem?_cons_zero] at hat
    rw [← Option.some.inj hat]
    exact .inl ⟨rfl, if_pos rfl⟩
  | succ k =>
    rw [List.getElem?_cons_succ] at hat
    obtain ⟨hlt, hnode⟩ := List.getElem?_eq_some_iff.mp hat
    refine .inr ⟨nodes.take k, prev s.heap.mem nil, nodes.drop (k + 1), ?_, rfl, ?_⟩
    · rw [← hnode, List.getElem_cons_drop, List.take_append_drop]
    · rw [if_neg (Nat.succ_ne_zero k), List.length_take, Nat.min_eq_left hlt.le, Nat.add_sub_cancel]

/-- `Delete` removes the first element with a key. -/
theorem delete_goes (h : Represents L s A owner) {l : Keys} {v : ℕ} (hkeys : A.lists i = some l) :
    Done L (s.change i fun nil => delete L nil v)
      { A with lists := Function.update A.lists i (some (l.delete (v % 2 ^ 32))) } := by
  refine remove_goes h hkeys fun {nil nodes} hstored hlength => ?_
  have hsearch := hstored.searchNode (v := v) s.heap.map hlength
  have hdelete : delete L nil v s.heap = deleteNode L nil
      ((nodes.find? fun x => key s.heap.mem x == v % 2 ^ 32).getD nil) s.heap := by
    rw [delete, hsearch]
    rfl
  rw [hdelete, Keys.delete, ← hstored.keys]
  cases hfind : nodes.find? fun x => key s.heap.mem x == v % 2 ^ 32 with
  | none =>
    have hnot : v % 2 ^ 32 ∉ nodes.map (key s.heap.mem) := by
      intro hmem
      obtain ⟨x, hx, hxv⟩ := List.mem_map.mp hmem
      exact List.find?_eq_none.mp hfind x hx (beq_iff_eq.mpr hxv)
    rw [List.idxOf?_eq_none_iff.mpr hnot]
    exact .inl ⟨rfl, rfl⟩
  | some x =>
    obtain ⟨hxv, before, behind, rfl, hbefore⟩ := List.find?_eq_some_iff_append.mp hfind
    have hfound : ((before ++ x :: behind).map (key s.heap.mem)).idxOf? (v % 2 ^ 32) =
        some before.length := by
      refine List.idxOf?_eq_some_iff.mpr ⟨by simp, ?_, fun j hj hjv => ?_⟩
      · simpa using hxv
      · rw [List.getElem_map, List.getElem_append_left hj] at hjv
        simpa [hjv] using hbefore before[j] (List.getElem_mem hj)
    rw [hfound]
    exact .inr ⟨before, x, behind, rfl, rfl, rfl⟩

/-- **A list is made.** -/
theorem create_goes (h : Represents L s A owner) (hnone : A.lists i = none) :
    Done L (step L s (.create i)) { A with lists := Function.update A.lists i (some .empty) } ∨
      Full s (step L s (.create i)) := by
  have hlist : ∀ a, owner a ≠ some (.list i) := by
    have hlist := h.lists i
    rw [hnone] at hlist
    cases hslot : s.lists i with
    | none => rwa [hslot] at hlist
    | some nil =>
      rw [hslot] at hlist
      exact hlist.elim
  simp only [step, create]
  cases hx : kmmMalloc L s.heap.map nodeSize with
  | error f =>
    obtain ⟨rfl, hfull⟩ := kmmMalloc_full hx
    exact .inr ⟨rfl, hfull⟩
  | ok r =>
    obtain ⟨x, map'⟩ := r
    obtain ⟨hfree, hx, howned⟩ := h.owned.malloc (by decide) hx (.list i)
    have honly : OnlyPages [x] s.heap.mem (setNext x x (setPrev x x s.heap.mem)) :=
      (onlyPages_setPrev hx List.mem_cons_self).trans (onlyPages_setNext hx List.mem_cons_self)
    have howner := others_of_grant (p := .list i) hfree
    refine .inl ⟨_, _, rfl, h.setList _ _ _ howned (h.lost.congr fun a => howner a _ nofun)
      ⟨[], create_stored hx, fun a => ?_⟩ (fun a o ho _ => howner a o ho)
      fun a o ha _ => honly a (h.owned.aligned ha) fun hmem => ?_⟩
    · rw [Function.update_apply, List.mem_singleton]
      split
      case isTrue hax => exact iff_of_true rfl hax
      case isFalse hax => exact iff_of_false (hlist a) hax
    · rw [List.mem_singleton.mp hmem, hfree] at ha
      cases ha

/-- **A list is destroyed**, and its nodes are lost. -/
theorem destroy_goes (h : Represents L s A owner) {l : Keys} (hkeys : A.lists i = some l) :
    Done L (step L s (.destroy i))
      { A with lists := Function.update A.lists i none, lost := A.lost + l.keys.length } := by
  obtain ⟨nil, nodes, hslot, hstored, hpages⟩ := h.list hkeys
  obtain ⟨hnil, hnodes⟩ := List.nodup_cons.mp hstored.ring.nodup
  have hx := (hpages nil).mpr List.mem_cons_self
  obtain ⟨map', hfree, hne, howned⟩ := h.owned.free hx
  have hdestroy : destroy L nil s.heap = .ok ⟨s.heap.mem, map'⟩ := by
    rw [destroy, free, if_neg hne, hfree]
    rfl
  simp only [step, hslot, withPtr, Option.elim_some, hdestroy]
  have howner := others_of_return hx
  have hlose : ∀ a ∈ nodes, Function.update owner nil none a = some (.list i) := by
    intro a ha
    rw [Function.update_of_ne (fun heq : a = nil => hnil (heq ▸ ha))]
    exact (hpages a).mpr (List.mem_cons_of_mem nil ha)
  have hset := h.setList s.heap.mem none none (howned.lose hlose)
    ((h.lost.congr fun a => howner a _ nofun).lose hnodes hlose) (fun a ha => ?_)
    (fun a o ho hlost => (others_of_lose hlose a o ho hlost).trans (howner a o ho))
    fun _ _ _ _ _ _ => rfl
  · rw [← hstored.length] at hset
    exact ⟨_, _, rfl, hset⟩
  · rw [lose] at ha
    split at ha
    case isTrue => cases ha
    case isFalse hout =>
      rw [Function.update_apply] at ha
      split at ha
      case isTrue => cases ha
      case isFalse hne => exact (List.mem_cons.mp ((hpages a).mp ha)).elim hne hout

/-! ### Operations on pages -/

/-- **A page is taken.** -/
theorem take_goes (h : Represents L s A owner) (hnone : A.held j = none) {size : ℕ}
    (hsize : 1 ≤ size) :
    Done L (step L s (.take j size))
        { A with held := Function.update A.held j (some fun _ => none) } ∨
      Full s (step L s (.take j size)) := by
  have hpage : ∀ a, owner a ≠ some (.other j) := by
    have hpage := h.held j
    rw [hnone] at hpage
    cases hslot : s.held j with
    | none => rwa [hslot] at hpage
    | some p =>
      rw [hslot] at hpage
      exact hpage.elim
  simp only [step]
  cases hx : kmmMalloc L s.heap.map size with
  | error f =>
    obtain ⟨rfl, hfull⟩ := kmmMalloc_full hx
    exact .inr ⟨rfl, hfull⟩
  | ok r =>
    obtain ⟨x, map'⟩ := r
    obtain ⟨hfree, -, howned⟩ := h.owned.malloc hsize hx (.other j)
    refine .inl ⟨_, _, rfl, h.setPage _ _ _ howned ⟨fun a => ?_, fun _ _ hv => nomatch hv⟩
      (others_of_grant hfree) fun _ _ _ _ _ _ => rfl⟩
    rw [Function.update_apply]
    split
    case isTrue hax => exact iff_of_true rfl hax
    case isFalse hax => exact iff_of_false (hpage a) hax

/-- **A page is given back.** -/
theorem give_goes (h : Represents L s A owner) {words : ℕ → Option ℕ}
    (hwords : A.held j = some words) : Done L (step L s (.give j))
      { A with held := Function.update A.held j none } := by
  obtain ⟨p, hslot, hpage, -⟩ := h.page hwords
  have hp := (hpage p).mpr rfl
  obtain ⟨map', hfree, -, howned⟩ := h.owned.free hp
  have hgive : give L p s.heap = .ok ⟨s.heap.mem, map'⟩ := by
    rw [give, hfree]
    rfl
  have hnone : ∀ a, Function.update owner p none a ≠ some (.other j) := by
    intro a ha
    rw [Function.update_apply] at ha
    split at ha
    case isTrue => cases ha
    case isFalse hap => exact hap ((hpage a).mp ha)
  have hset := h.setPage s.heap.mem none none howned hnone (others_of_return hp)
    fun _ _ _ _ _ _ => rfl
  have hstep : step L s (.give j) = .ok { s with
      heap := ⟨s.heap.mem, map'⟩, held := Function.update s.held j none } := by
    rw [step, hslot, withPtr, Option.elim_some, hgive]
    rfl
  exact ⟨_, _, hstep, hset⟩

/-- **A word is stored.** -/
theorem store_goes (h : Represents L s A owner) {words : ℕ → Option ℕ}
    (hwords : A.held j = some words) {off : ℕ} (hoff : 8 * off < PAGE_SIZE) (v : ℕ) :
    Done L (step L s (.store j off v))
      { A with
        held := Function.update A.held j (some (Function.update words off (some v))) } := by
  obtain ⟨p, hslot, hpage, hknown⟩ := h.page hwords
  have hp := h.owned.aligned ((hpage p).mpr rfl)
  have honly : OnlyPages [p] s.heap.mem (Function.update s.heap.mem (p + 8 * off) v) :=
    onlyPages_update hp List.mem_cons_self hoff
  simp only [step, hslot, withPtr, Option.elim_some]
  have hset := h.setPage (Function.update s.heap.mem (p + 8 * off) v) (some p)
    (some (Function.update words off (some v))) h.owned ⟨hpage, fun off' v' hv' => ?_⟩
    (fun _ _ _ => Iff.rfl) fun a o ha ho => honly a (h.owned.aligned ha) fun hmem => ?_
  · have hheld : Function.update s.held j (some p) = s.held :=
      Function.update_eq_self_iff.mpr hslot.symm
    rw [hheld] at hset
    exact ⟨_, _, rfl, hset⟩
  · rw [Function.update_apply] at hv'
    rcases eq_or_ne off' off with rfl | hne
    · rw [if_pos rfl] at hv'
      exact ⟨hoff, (Function.update_self ..).trans (Option.some.inj hv')⟩
    · rw [if_neg hne] at hv'
      obtain ⟨hoff', hm⟩ := hknown off' v' hv'
      refine ⟨hoff', (Function.update_of_ne (fun heq => hne ?_) ..).trans hm⟩
      omega
  · rw [List.mem_singleton.mp hmem, (hpage p).mpr rfl] at ha
    exact ho (Option.some.inj ha).symm

/-- **Something is read**, and it is what it should be. -/
theorem Represents.read (h : Represents L s A owner) (v : ℕ) :
    Represents L { s with seen := s.seen ++ [v] } { A with seen := A.seen ++ [v] } owner where
  owned := h.owned
  lists := h.lists
  lost := h.lost
  held := h.held
  seen := congrArg (· ++ [v]) h.seen

/-! ### Runs -/

/-- **One operation** that may be done. -/
theorem step_goes (h : Represents L s A owner) {op : Op} (hop : A.step op = some B) :
    Done L (step L s op) B ∨ op.Allocates ∧ Full s (step L s op) := by
  cases op with
  | create i =>
    obtain ⟨hnone, hB⟩ := Option.ite_none_right_eq_some.mp hop
    obtain rfl := Option.some.inj hB
    exact (create_goes h (Option.isNone_iff_eq_none.mp hnone)).imp_right fun hf => ⟨trivial, hf⟩
  | destroy i =>
    obtain ⟨l, hkeys, rfl⟩ := Option.map_eq_some_iff.mp hop
    exact .inl (destroy_goes h hkeys)
  | pushFront i v =>
    obtain ⟨l', hl', rfl⟩ := Option.map_eq_some_iff.mp hop
    obtain ⟨l, hkeys, hl'⟩ := Option.bind_eq_some_iff.mp hl'
    obtain rfl := Option.some.inj hl'
    have hpush := push_goes h hkeys (fun nil x => linkFront nil x v)
      fun {nil x nodes} hstored hx hnew => ⟨hstored.linkFront_only hx hnew, nodes, [], x :: nodes,
        (List.append_nil nodes).symm, rfl, linkFront_stored hstored hx hnew, fun a => List.mem_cons⟩
    exact hpush.imp_right fun hf => ⟨trivial, hf⟩
  | pushBack i v =>
    obtain ⟨l, hkeys, hl'⟩ := Option.bind_eq_some_iff.mp hop
    obtain ⟨k, hk, rfl⟩ := Option.map_eq_some_iff.mp hl'
    have hpush := push_goes (n := l.keys.length - k) h hkeys (fun nil x => linkBack nil x v)
      fun {nil x nodes} hstored hx hnew => ⟨hstored.linkBack_only hk hx hnew, nodes.take k,
        nodes.drop k, nodes.take k ++ [x], (List.take_append_drop k nodes).symm,
        by rw [List.length_drop, hstored.length], linkBack_stored hstored hk hx hnew,
        fun a => by rw [List.mem_append, List.mem_singleton, or_comm]⟩
    exact hpush.imp_right fun hf => ⟨trivial, hf⟩
  | popFront i =>
    obtain ⟨l', hl', rfl⟩ := Option.map_eq_some_iff.mp hop
    obtain ⟨l, hkeys, hl'⟩ := Option.bind_eq_some_iff.mp hl'
    obtain rfl := Option.some.inj hl'
    exact .inl (popFront_goes h hkeys)
  | popBack i =>
    obtain ⟨l', hl', rfl⟩ := Option.map_eq_some_iff.mp hop
    obtain ⟨l, hkeys, hpop⟩ := Option.bind_eq_some_iff.mp hl'
    exact .inl (popBack_goes h hkeys hpop)
  | delete i v =>
    obtain ⟨l', hl', rfl⟩ := Option.map_eq_some_iff.mp hop
    obtain ⟨l, hkeys, hl'⟩ := Option.bind_eq_some_iff.mp hl'
    obtain rfl := Option.some.inj hl'
    exact .inl (delete_goes h hkeys)
  | front i =>
    obtain ⟨v, hv, rfl⟩ := Option.map_eq_some_iff.mp hop
    obtain ⟨l, hkeys, hv⟩ := Option.bind_eq_some_iff.mp hv
    obtain ⟨nil, nodes, hslot, hstored, -⟩ := h.list hkeys
    have hread := h.read v
    rw [← hstored.front s.heap.map hv] at hread ⊢
    exact .inl ⟨_, owner, by simp only [step, hslot, withPtr, Option.elim_some], hread⟩
  | back i =>
    obtain ⟨v, hv, rfl⟩ := Option.map_eq_some_iff.mp hop
    obtain ⟨l, hkeys, hv⟩ := Option.bind_eq_some_iff.mp hv
    obtain ⟨nil, nodes, hslot, hstored, -⟩ := h.list hkeys
    have hread := h.read v
    rw [← hstored.back s.heap.map hv] at hread ⊢
    exact .inl ⟨_, owner, by simp only [step, hslot, withPtr, Option.elim_some], hread⟩
  | take j size =>
    obtain ⟨⟨hnone, hsize⟩, hB⟩ := Option.ite_none_right_eq_some.mp hop
    obtain rfl := Option.some.inj hB
    exact (take_goes h (Option.isNone_iff_eq_none.mp hnone) hsize).imp_right
      fun hf => ⟨trivial, hf⟩
  | give j =>
    obtain ⟨words, hwords, rfl⟩ := Option.map_eq_some_iff.mp hop
    exact .inl (give_goes h hwords)
  | store j off v =>
    obtain ⟨hoff, hB⟩ := Option.ite_none_right_eq_some.mp hop
    obtain ⟨words, hwords, rfl⟩ := Option.map_eq_some_iff.mp hB
    exact .inl (store_goes h hwords hoff v)
  | load j off =>
    obtain ⟨v, hv, rfl⟩ := Option.map_eq_some_iff.mp hop
    obtain ⟨words, hwords, hv⟩ := Option.bind_eq_some_iff.mp hv
    obtain ⟨p, hslot, -, hknown⟩ := h.page hwords
    obtain ⟨-, rfl⟩ := hknown off v hv
    exact .inl ⟨_, owner, by simp only [step, hslot, withPtr, Option.elim_some], h.read _⟩

/-- **The run is stopped** at an operation that wants a page, when every page has an owner. -/
structure Stopped (L : Layout) (s : State) (A : Abs) (ops : List Op) : Prop where
  stops : Lib.runFrom (step L) s ops = .error (.panic "No free space!")
  taken : ∃ l op r t B owner, ops = l ++ op :: r ∧ op.Allocates ∧ A.run l = some B ∧
    Lib.runFrom (step L) s l = .ok t ∧ Represents L t B owner ∧
    ∀ k < HEAP_PAGES, t.heap.map k = true

theorem Abs.run_cons {op : Op} {ops : List Op} (h : A.run (op :: ops) = some B) :
    ∃ C, A.step op = some C ∧ C.run ops = some B := Option.bind_eq_some_iff.mp h

/-- **A run of operations** that may be done. -/
theorem run_goes {ops : List Op} (h : Represents L s A owner) (hops : A.run ops = some B) :
    Done L (Lib.runFrom (step L) s ops) B ∨ Stopped L s A ops := by
  induction ops generalizing s A owner with
  | nil =>
    obtain rfl := Option.some.inj hops
    exact .inl ⟨s, owner, rfl, h⟩
  | cons op ops ih =>
    obtain ⟨C, hop, hops⟩ := Abs.run_cons hops
    rcases step_goes h hop with ⟨t, owner', ht, ht'⟩ | ⟨halloc, herror, hfull⟩
    · have hrun : ∀ ops, Lib.runFrom (step L) s (op :: ops) = Lib.runFrom (step L) t ops := by
        intro ops
        rw [Lib.runFrom, ht]
      rw [hrun]
      refine (ih ht' hops).imp_right fun hstop => ⟨(hrun ops).trans hstop.stops, ?_⟩
      obtain ⟨l, op', r, u, D, owner'', rfl, halloc, hl, hu, hu'⟩ := hstop.taken
      refine ⟨op :: l, op', r, u, D, owner'', rfl, halloc, ?_, (hrun l).trans hu, hu'⟩
      exact Option.bind_eq_some_iff.mpr ⟨C, hop, hl⟩
    · refine .inr ⟨?_, [], op, ops, s, A, owner, rfl, halloc, rfl, rfl, h, hfull⟩
      rw [Lib.runFrom, herror]

/-- Nobody has a page at first. -/
theorem represents_boot (L : Layout) (m : Mem) :
    Represents L (.boot m) .boot fun _ => none where
  owned := ⟨fun _ _ => rfl, fun h => nomatch h⟩
  lost := ⟨[], List.nodup_nil, rfl, fun _ => iff_of_false nofun nofun⟩
  lists _ := fun _ => nofun
  held _ := fun _ => nofun
  seen := rfl

/-- **Lists on one heap.** Operations on any number of lists, and on the pages of others, come to
what is said of them, in whatever order they are done and whatever memory has held before. Each
list has exactly the page that closes its ring and one for each element, and gives each back when
the element goes; no page has two owners. A run is stopped by nothing but a heap of which all pages
are taken. -/
theorem lists_hold (L : Layout) (m : Mem) {ops : List Op} {A : Abs}
    (h : Abs.boot.run ops = some A) :
    Done L (Lib.runFrom (step L) (.boot m) ops) A ∨ Stopped L (.boot m) .boot ops :=
  run_goes (represents_boot L m) h

/-- Two lists and a page of another. Each list is pushed to twice at its back, and loses the first
of the two keys. -/
def twoLists : List Op :=
  [.create 0, .pushBack 0 7, .create 1, .take 0 16, .pushFront 1 7, .pushBack 0 8, .store 0 2 5,
    .pushFront 0 (2 ^ 32 + 9), .front 0, .pushBack 1 3, .back 1, .pushFront 1 6, .pushBack 1 4,
    .delete 1 4, .back 1, .popBack 1, .front 1, .delete 0 8, .back 0, .load 0 2, .destroy 0,
    .popFront 1, .popFront 1, .give 0]

theorem lists_hold_two_lists : ∃ A, Abs.boot.run twoLists = some A ∧
    (A.seen = [9, 7, 7, 6, 9, 5] ∧ A.lost = 3) ∧
    Done .qemu (Lib.runFrom (step .qemu) (.boot fun _ => 0) twoLists) A := by
  refine ⟨_, rfl, by decide, (lists_hold .qemu (fun _ => 0) rfl).resolve_right fun hstop => ?_⟩
  have hruns : (Lib.runFrom (step .qemu) (.boot fun _ => 0) twoLists).isOk = true := by
    decide +kernel
  rw [hstop.stops] at hruns
  cases hruns

end LinkedList

end Evisor
