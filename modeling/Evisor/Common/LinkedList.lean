import Evisor.Lib.Ring
import Evisor.Mm.Heap

/-!
# The linked list

`common/list.cc` over `mm/new.cc`: a list of numbers of 32 bits, as a ring of nodes on the kernel
heap. A node takes a page of its own, since `kmm_malloc` hands out nothing smaller. The node that
closes the ring is made with the list, and has no key that anybody has set.

`PushBack` links a new node in behind the one that `nil_->prev` is at, but leaves `nil_->prev` where
it was. The next one is put behind the same node, and takes the place of all that follow it; so a
list has its keys, and a place among them that is the back for its operations
(`Evisor.LinkedList.Keys`).

What is at a node is what the words of memory say there, so that a node is an address. Where a list
is stored (`Evisor.LinkedList.Stored`) the stores of each operation do this to the keys
(`Evisor.LinkedList.linkFront_stored`, `linkBack_stored` and `unlink_stored`), and change nothing
outside the pages of the list.
-/

namespace Evisor

/-- The kernel heap: what memory holds, and which pages are handed out. -/
structure KernelHeap where
  mem : Mem
  map : HeapMap

namespace LinkedList

/-! ### The code -/

/-- The bytes of a `LinkedList::Node`. -/
def nodeSize : ℕ := 24

/-- `Node::key`, the lower half of the first word. -/
def key (m : Mem) (x : ℕ) : ℕ := m x % 2 ^ 32

/-- `Node::prev`. -/
def prev (m : Mem) (x : ℕ) : ℕ := m (x + 8)

/-- `Node::next`. -/
def next (m : Mem) (x : ℕ) : ℕ := m (x + 16)

/-- `x->key = v`, which leaves the upper half of the word. -/
def setKey (x v : ℕ) (m : Mem) : Mem := Function.update m x (m x / 2 ^ 32 * 2 ^ 32 + v % 2 ^ 32)

/-- `x->prev = y`. -/
def setPrev (x y : ℕ) (m : Mem) : Mem := Function.update m (x + 8) y

/-- `x->next = y`. -/
def setNext (x y : ℕ) (m : Mem) : Mem := Function.update m (x + 16) y

/-- `Node::prev` and `Node::next`, of all nodes. -/
def links (m : Mem) : Lib.Links ℕ := ⟨next m, prev m⟩

/-- `operator delete`. -/
def free (L : Layout) (p : ℕ) (h : KernelHeap) : Except Fault KernelHeap :=
  if p = 0 then .ok h else (kmmFree L h.map p).map fun map => { h with map := map }

/-- `LinkedList::LinkedList`, with `nil_`. -/
def create (L : Layout) (h : KernelHeap) : Except Fault (ℕ × KernelHeap) := do
  let (nil, map) ← kmmMalloc L h.map nodeSize
  return (nil, ⟨setNext nil nil (setPrev nil nil h.mem), map⟩)

/-- `LinkedList::~LinkedList`. Only the node is given back that closes the ring. -/
def destroy (L : Layout) (nil : ℕ) (h : KernelHeap) : Except Fault KernelHeap := free L nil h

/-- `LinkedList::Front`. -/
def front (nil : ℕ) (h : KernelHeap) : ℕ := key h.mem (next h.mem nil)

/-- `LinkedList::Back`. -/
def back (nil : ℕ) (h : KernelHeap) : ℕ := key h.mem (prev h.mem nil)

/-- The stores of `PushFront`, to a new node. -/
def linkFront (nil x v : ℕ) (m : Mem) : Mem :=
  let m := setKey x v m
  let m := setNext x (next m nil) m
  let m := setPrev (next m nil) x m
  let m := setNext nil x m
  setPrev x nil m

/-- The stores of `PushBack`, to a new node. -/
def linkBack (nil x v : ℕ) (m : Mem) : Mem :=
  let m := setKey x v m
  let m := setPrev x (prev m nil) m
  let m := setNext (prev m nil) x m
  setNext x nil m

/-- The stores of `DeleteNode`. -/
def unlink (node : ℕ) (m : Mem) : Mem :=
  let m := setNext (prev m node) (next m node) m
  setPrev (next m node) (prev m node) m

/-- `LinkedList::PushFront`. -/
def pushFront (L : Layout) (nil v : ℕ) (h : KernelHeap) : Except Fault KernelHeap := do
  let (x, map) ← kmmMalloc L h.map nodeSize
  return ⟨linkFront nil x v h.mem, map⟩

/-- `LinkedList::PushBack`. -/
def pushBack (L : Layout) (nil v : ℕ) (h : KernelHeap) : Except Fault KernelHeap := do
  let (x, map) ← kmmMalloc L h.map nodeSize
  return ⟨linkBack nil x v h.mem, map⟩

/-- `LinkedList::DeleteNode`. -/
def deleteNode (L : Layout) (nil node : ℕ) (h : KernelHeap) : Except Fault KernelHeap :=
  if node = nil then .ok h else free L node { h with mem := unlink node h.mem }

/-- `LinkedList::PopFront`. -/
def popFront (L : Layout) (nil : ℕ) (h : KernelHeap) : Except Fault KernelHeap :=
  deleteNode L nil (next h.mem nil) h

/-- `LinkedList::PopBack`. -/
def popBack (L : Layout) (nil : ℕ) (h : KernelHeap) : Except Fault KernelHeap :=
  deleteNode L nil (prev h.mem nil) h

/-- `LinkedList::SearchNode`, with as many passes as there are pages, and one more. -/
def searchNode (nil v : ℕ) (h : KernelHeap) : Except Fault ℕ :=
  match (links h.mem).search nil (fun x => key h.mem x == v % 2 ^ 32) (HEAP_PAGES + 1)
    (next h.mem nil) with
  | some node => .ok node
  | none => .error .outOfFuel

/-- `LinkedList::Delete`. -/
def delete (L : Layout) (nil v : ℕ) (h : KernelHeap) : Except Fault KernelHeap := do
  let node ← searchNode nil v h
  deleteNode L nil node h

/-! ### The words of a node -/

section Words

variable {m : Mem} {a b v : ℕ}

@[simp] theorem next_setNext : next (setNext a v m) b = if b = a then v else next m b := by
  simp only [next, setNext, Function.update_apply, Nat.add_right_cancel_iff]

@[simp] theorem prev_setPrev : prev (setPrev a v m) b = if b = a then v else prev m b := by
  simp only [prev, setPrev, Function.update_apply, Nat.add_right_cancel_iff]

theorem key_setKey : key (setKey a v m) b = if b = a then v % 2 ^ 32 else key m b := by
  rw [key, setKey, Function.update_apply]
  split
  · omega
  · rfl

/-- The words of nodes on pages of their own do not overlap. -/
theorem update_of_apart (ha : a % PAGE_SIZE = 0) (hb : b % PAGE_SIZE = 0) {i j : ℕ}
    (hi : i < PAGE_SIZE) (hj : j < PAGE_SIZE) (hij : i ≠ j) :
    Function.update m (a + i) v (b + j) = m (b + j) := by
  refine Function.update_of_ne (fun h => hij ?_) ..
  rw [PAGE_SIZE] at *
  omega

variable (ha : a % PAGE_SIZE = 0) (hb : b % PAGE_SIZE = 0)
include ha hb

theorem prev_setNext : prev (setNext a v m) b = prev m b :=
  update_of_apart ha hb (by decide) (by decide) (by decide)

theorem next_setPrev : next (setPrev a v m) b = next m b :=
  update_of_apart ha hb (by decide) (by decide) (by decide)

theorem key_setNext : key (setNext a v m) b = key m b :=
  congrArg (· % 2 ^ 32) (update_of_apart (j := 0) ha hb (by decide) (by decide) (by decide))

theorem key_setPrev : key (setPrev a v m) b = key m b :=
  congrArg (· % 2 ^ 32) (update_of_apart (j := 0) ha hb (by decide) (by decide) (by decide))

theorem prev_setKey : prev (setKey a v m) b = prev m b :=
  update_of_apart (i := 0) ha hb (by decide) (by decide) (by decide)

theorem next_setKey : next (setKey a v m) b = next m b :=
  update_of_apart (i := 0) ha hb (by decide) (by decide) (by decide)

end Words

/-! ### The stores of an operation -/

/-- **Nothing changes outside some pages.** -/
def OnlyPages (pages : List ℕ) (m m' : Mem) : Prop :=
  ∀ b, b % PAGE_SIZE = 0 → b ∉ pages → ∀ i < PAGE_SIZE, m' (b + i) = m (b + i)

section Stores

variable {m m' m'' : Mem} {pages : List ℕ} {nil x y v : ℕ}

theorem OnlyPages.trans (h : OnlyPages pages m m') (h' : OnlyPages pages m' m'') :
    OnlyPages pages m m'' := fun b hb hout i hi =>
  (h' b hb hout i hi).trans (h b hb hout i hi)

/-- A store to a page. -/
theorem onlyPages_update (hx : x % PAGE_SIZE = 0) (hpages : x ∈ pages) {j : ℕ}
    (hj : j < PAGE_SIZE) : OnlyPages pages m (Function.update m (x + j) v) := by
  intro b hb hout i hi
  refine Function.update_of_ne (fun h => hout ?_) ..
  have hbx : b = x := by
    rw [PAGE_SIZE] at *
    omega
  exact hbx ▸ hpages

theorem onlyPages_setKey (hx : x % PAGE_SIZE = 0) (hpages : x ∈ pages) :
    OnlyPages pages m (setKey x v m) := onlyPages_update (j := 0) hx hpages (by decide)

theorem onlyPages_setPrev (hx : x % PAGE_SIZE = 0) (hpages : x ∈ pages) :
    OnlyPages pages m (setPrev x v m) := onlyPages_update hx hpages (by decide)

theorem onlyPages_setNext (hx : x % PAGE_SIZE = 0) (hpages : x ∈ pages) :
    OnlyPages pages m (setNext x v m) := onlyPages_update hx hpages (by decide)

/-- **`PushFront`** links the new node in behind the one that closes the ring. -/
theorem linkFront_words (hnil : nil % PAGE_SIZE = 0) (hx : x % PAGE_SIZE = 0)
    (hnext : next m nil % PAGE_SIZE = 0) (hne : nil ≠ x) (hy : y % PAGE_SIZE = 0) :
    next (linkFront nil x v m) y = ((links m).insert nil x).next y ∧
      prev (linkFront nil x v m) y = ((links m).insert nil x).prev y ∧
      key (linkFront nil x v m) y = if y = x then v % 2 ^ 32 else key m y := by
  have hnext₁ : next (setKey x v m) nil = next m nil := next_setKey hx hnil
  have hnext₂ : next (setNext x (next m nil) (setKey x v m)) nil = next m nil := by
    rw [next_setNext, if_neg hne, hnext₁]
  simp only [linkFront, hnext₁, hnext₂, Lib.Links.insert, links, Function.update_apply]
  refine ⟨?_, ?_, ?_⟩
  · rw [next_setPrev hx hy, next_setNext, next_setPrev hnext hy, next_setNext, next_setKey hx hy]
  · rw [prev_setPrev, prev_setNext hnil hy, prev_setPrev, prev_setNext hx hy, prev_setKey hx hy]
  · rw [key_setPrev hx hy, key_setNext hnil hy, key_setPrev hnext hy, key_setNext hx hy, key_setKey]

/-- **`PushBack`** links it in behind the one that `nil_->prev` is at. -/
theorem linkBack_words (hnil : nil % PAGE_SIZE = 0) (hx : x % PAGE_SIZE = 0)
    (hprev : prev m nil % PAGE_SIZE = 0) (hne : nil ≠ x) (hy : y % PAGE_SIZE = 0) :
    next (linkBack nil x v m) y = ((links m).append nil (prev m nil) x).next y ∧
      prev (linkBack nil x v m) y = ((links m).append nil (prev m nil) x).prev y ∧
      key (linkBack nil x v m) y = if y = x then v % 2 ^ 32 else key m y := by
  have hprev₁ : prev (setKey x v m) nil = prev m nil := prev_setKey hx hnil
  have hprev₂ : prev (setPrev x (prev m nil) (setKey x v m)) nil = prev m nil := by
    rw [prev_setPrev, if_neg hne, hprev₁]
  simp only [linkBack, hprev₁, hprev₂, Lib.Links.append, links, Function.update_apply]
  refine ⟨?_, ?_, ?_⟩
  · rw [next_setNext, next_setNext, next_setPrev hx hy, next_setKey hx hy]
  · rw [prev_setNext hx hy, prev_setNext hprev hy, prev_setPrev, prev_setKey hx hy]
  · rw [key_setNext hx hy, key_setNext hprev hy, key_setPrev hx hy, key_setKey]

/-- **`DeleteNode`** takes a node out. -/
theorem unlink_words (hx : x % PAGE_SIZE = 0) (hprev : prev m x % PAGE_SIZE = 0)
    (hnext : next m x % PAGE_SIZE = 0) (hy : y % PAGE_SIZE = 0) :
    next (unlink x m) y = ((links m).remove x).next y ∧
      prev (unlink x m) y = ((links m).remove x).prev y ∧ key (unlink x m) y = key m y := by
  have hnext₁ : next (setNext (prev m x) (next m x) m) x = next m x := by
    rw [next_setNext, ite_self]
  have hprev₁ : prev (setNext (prev m x) (next m x) m) x = prev m x := prev_setNext hprev hx
  simp only [unlink, hnext₁, hprev₁, Lib.Links.remove, links, Function.update_apply]
  refine ⟨?_, ?_, ?_⟩
  · rw [next_setPrev hnext hy, next_setNext]
  · rw [prev_setPrev, prev_setNext hprev hy]
  · rw [key_setPrev hnext hy, key_setNext hprev hy]

end Stores

/-! ### What a list is -/

/-- **A list as its operations have it**: its keys, and how many of them there are up to the one
that is taken for the last, unless the node of that one is gone. -/
structure Keys where
  keys : List ℕ
  tail : Option ℕ
  deriving DecidableEq

namespace Keys

/-- There is no key. -/
def empty : Keys := ⟨[], some 0⟩

/-- A key in front of the others, which is taken for the last if there are none. -/
def pushFront (l : Keys) (v : ℕ) : Keys where
  keys := v :: l.keys
  tail := if l.keys = [] then some 1 else l.tail.map fun k => if k = 0 then 0 else k + 1

/-- A key behind the first `k`, in place of all that follow them. -/
def pushBehind (l : Keys) (k v : ℕ) : Keys := ⟨l.keys.take k ++ [v], some k⟩

/-- **The second of two keys takes the place of the first.** -/
theorem pushBehind_pushBehind (l : Keys) {k : ℕ} (hk : k ≤ l.keys.length) (v w : ℕ) :
    (l.pushBehind k v).pushBehind k w = l.pushBehind k w := by
  have hlength : (l.keys.take k).length = k := List.length_take_of_le hk
  rw [pushBehind, pushBehind, pushBehind, List.take_append_of_le_length hlength.ge, List.take_take,
    Nat.min_self]

/-- The list without the key at place `p`. If that was the last, the one before it is; if it was
taken for it, none is. -/
def removeAt (l : Keys) (p : ℕ) : Keys where
  keys := l.keys.eraseIdx p
  tail := if p + 1 = l.keys.length then some p
    else l.tail.bind fun k => if k = p + 1 then none else some (if p < k then k - 1 else k)

/-- The list without its first key, if there is any. -/
def popFront (l : Keys) : Keys := if l.keys = [] then l else l.removeAt 0

/-- The list without the key that is taken for the last, if that is known. -/
def popBack (l : Keys) : Option Keys := l.tail.map fun k => if k = 0 then l else l.removeAt (k - 1)

/-- The list without the first of these keys. -/
def delete (l : Keys) (v : ℕ) : Keys := (l.keys.idxOf? v).elim l l.removeAt

/-- The first key. -/
def front (l : Keys) : Option ℕ := l.keys.head?

/-- The key that is taken for the last. -/
def back (l : Keys) : Option ℕ := l.tail.bind fun k => if k = 0 then none else l.keys[k - 1]?

end Keys

/-! ### What is stored -/

/-- **A list in memory**: the nodes on the ring, the keys that they hold, and the node that
`nil_->prev` is at. -/
structure Stored (m : Mem) (nil : ℕ) (nodes : List ℕ) (l : Keys) : Prop where
  ring : (links m).Ring nil nodes
  keys : nodes.map (key m) = l.keys
  pages : ∀ x ∈ nil :: nodes, x % PAGE_SIZE = 0
  tail : ∀ k ∈ l.tail, (nil :: nodes)[k]? = some (prev m nil)

section Stored

variable {m m' : Mem} {nil x v k : ℕ} {nodes : List ℕ} {l : Keys}

/-- It is a matter of its own pages. -/
theorem Stored.congr (h : Stored m nil nodes l)
    (hsame : ∀ x ∈ nil :: nodes, ∀ i < PAGE_SIZE, m' (x + i) = m (x + i)) :
    Stored m' nil nodes l where
  ring := h.ring.congr (fun y hy => hsame y hy 16 (by decide))
    fun y hy => hsame y (List.mem_cons_of_mem nil hy) 8 (by decide)
  keys := by
    refine Eq.trans (List.map_congr_left fun y hy => ?_) h.keys
    exact congrArg (· % 2 ^ 32) (hsame y (List.mem_cons_of_mem nil hy) 0 (by decide))
  pages := h.pages
  tail k hk := by
    rw [h.tail k hk]
    exact congrArg some (hsame nil List.mem_cons_self 8 (by decide)).symm

theorem Stored.length (h : Stored m nil nodes l) : l.keys.length = nodes.length := by
  rw [← h.keys, List.length_map]

/-- The node behind the one that closes the ring is on the ring. -/
theorem Stored.next_mem (h : Stored m nil nodes l) : next m nil ∈ nil :: nodes := by
  have hnext : next m nil = nodes.headD nil := h.ring.next_nil
  rw [hnext]
  cases nodes with
  | nil => exact List.mem_cons_self
  | cons a l => exact List.mem_cons_of_mem nil List.mem_cons_self

/-- So is the one that is taken for the last. -/
theorem Stored.prev_mem (h : Stored m nil nodes l) (hk : l.tail = some k) :
    prev m nil ∈ nil :: nodes := List.mem_of_getElem? (h.tail k hk)

/-- A list is made without an element. -/
theorem create_stored (hnil : nil % PAGE_SIZE = 0) :
    Stored (setNext nil nil (setPrev nil nil m)) nil [] .empty where
  ring := by
    refine ⟨List.nodup_singleton nil, List.isChain_cons_cons.mpr ⟨?_, .singleton nil⟩,
      .singleton nil⟩
    exact next_setNext.trans (if_pos rfl)
  keys := rfl
  pages := fun x hx => List.mem_singleton.mp hx ▸ hnil
  tail k hk := by
    obtain rfl : 0 = k := Option.some.inj hk
    exact congrArg some ((prev_setNext hnil hnil).trans (prev_setPrev.trans (if_pos rfl))).symm

/-- The keys that are there besides a new one. -/
theorem map_key_of_notMem (hx : x ∉ nodes) (hpages : ∀ y ∈ nodes, y % PAGE_SIZE = 0)
    (hkey : ∀ y, y % PAGE_SIZE = 0 → key m' y = if y = x then v % 2 ^ 32 else key m y) :
    nodes.map (key m') = nodes.map (key m) := by
  refine List.map_congr_left fun y hy => ?_
  rw [hkey y (hpages y hy), if_neg (fun hyx : y = x => hx (hyx ▸ hy))]

/-- **A key is put in front of the others.** -/
theorem linkFront_stored (h : Stored m nil nodes l) (hx : x % PAGE_SIZE = 0)
    (hnew : x ∉ nil :: nodes) :
    Stored (linkFront nil x v m) nil (x :: nodes) (l.pushFront (v % 2 ^ 32)) := by
  have hnil := h.pages nil List.mem_cons_self
  have hne : nil ≠ x := fun hne => hnew (hne ▸ List.mem_cons_self)
  have hwords {y : ℕ} (hy : y % PAGE_SIZE = 0) := linkFront_words (v := v) hnil hx
    (h.pages _ h.next_mem) hne hy
  have hpages : ∀ y ∈ nil :: x :: nodes, y % PAGE_SIZE = 0 := by
    simpa [hx, hnil] using fun y hy => h.pages y (List.mem_cons_of_mem nil hy)
  refine ⟨(h.ring.insert hnew).congr (fun y hy => (hwords (hpages y hy)).1)
    fun y hy => (hwords (hpages y (List.mem_cons_of_mem nil hy))).2.1, ?_, hpages, fun k hk => ?_⟩
  · rw [List.map_cons, (hwords hx).2.2, if_pos rfl, Keys.pushFront, ← h.keys]
    exact congrArg _ (map_key_of_notMem (fun hmem => hnew (List.mem_cons_of_mem nil hmem))
      (fun y hy => h.pages y (List.mem_cons_of_mem nil hy)) fun y hy => (hwords hy).2.2)
  · have hprev : prev (linkFront nil x v m) nil =
        if nil = next m nil then x else prev m nil :=
      (hwords hnil).2.1.trans (Lib.Links.insert_prev_nil hne)
    have hnext : next m nil = nodes.headD nil := h.ring.next_nil
    rw [hprev, hnext]
    cases nodes with
    | nil =>
      have hempty : l.keys = [] := h.keys.symm
      rw [Keys.pushFront, if_pos hempty] at hk
      obtain rfl := Option.some.inj hk
      rw [List.headD_nil, if_pos rfl]
      rfl
    | cons a nodes =>
      have hsome : l.keys ≠ [] := by
        rw [← h.keys]
        exact List.cons_ne_nil _ _
      have hna : nil ≠ a := fun heq =>
        (List.nodup_cons.mp h.ring.nodup).1 (heq ▸ List.mem_cons_self)
      rw [Keys.pushFront, if_neg hsome] at hk
      obtain ⟨j, hj, rfl⟩ := Option.map_eq_some_iff.mp hk
      rw [List.headD_cons, if_neg hna, ← h.tail j hj]
      cases j with
      | zero => rfl
      | succ j => rfl

/-- **A key is put behind the one that is taken for the last.** -/
theorem linkBack_stored (h : Stored m nil nodes l) (hk : l.tail = some k)
    (hx : x % PAGE_SIZE = 0) (hnew : x ∉ nil :: nodes) :
    Stored (linkBack nil x v m) nil (nodes.take k ++ [x]) (l.pushBehind k (v % 2 ^ 32)) := by
  have hnil := h.pages nil List.mem_cons_self
  have hne : nil ≠ x := fun hne => hnew (hne ▸ List.mem_cons_self)
  have hat := h.tail k hk
  have hlt : k ≤ nodes.length := Nat.le_of_lt_succ (List.getElem?_eq_some_iff.mp hat).1
  have hlast : (nil :: nodes.take k).getLast (by simp) = prev m nil := by
    refine Option.some.inj ?_
    rw [← List.getLast?_eq_some_getLast, List.getLast?_eq_getElem?, ← hat, ← List.take_succ_cons,
      List.length_take, List.length_cons, Nat.min_eq_left (Nat.succ_le_succ hlt)]
    exact List.getElem?_take_of_lt (Nat.lt_succ_self k)
  have hwords {y : ℕ} (hy : y % PAGE_SIZE = 0) := linkBack_words (v := v) hnil hx
    (h.pages _ (h.prev_mem hk)) hne hy
  have hkept : ∀ y ∈ nodes.take k, y ∈ nodes := fun y hy => List.mem_of_mem_take hy
  have hpages : ∀ y ∈ nil :: (nodes.take k ++ [x]), y % PAGE_SIZE = 0 := by
    simpa [hx, hnil, or_imp, forall_and] using
      fun y hy => h.pages y (List.mem_cons_of_mem nil (hkept y hy))
  have hring := Lib.Links.Ring.append (l := nodes.take k) (m := nodes.drop k)
    ((List.take_append_drop k nodes).symm ▸ h.ring) ((List.take_append_drop k nodes).symm ▸ hnew)
  rw [hlast] at hring
  refine ⟨hring.congr (fun y hy => (hwords (hpages y hy)).1)
    fun y hy => (hwords (hpages y (List.mem_cons_of_mem nil hy))).2.1, ?_, hpages, fun j hj => ?_⟩
  · rw [List.map_append, List.map_singleton, (hwords hx).2.2, if_pos rfl, Keys.pushBehind, ← h.keys,
      ← List.map_take]
    exact congrArg (· ++ _) (map_key_of_notMem
      (fun hmem => hnew (List.mem_cons_of_mem nil (hkept x hmem)))
      (fun y hy => h.pages y (List.mem_cons_of_mem nil (hkept y hy))) fun y hy => (hwords hy).2.2)
  · obtain rfl := Option.some.inj hj
    have hprev : prev (linkBack nil x v m) nil = prev m nil :=
      (hwords hnil).2.1.trans (Lib.Links.append_prev_nil hne)
    rw [hprev, ← hat, ← List.cons_append, List.getElem?_append_left (by simp [hlt]),
      ← List.take_succ_cons, List.getElem?_take_of_lt (Nat.lt_succ_self k)]

/-- The neighbours of a node are on the ring, too. -/
theorem Stored.around {before behind : List ℕ} (h : Stored m nil (before ++ x :: behind) l) :
    prev m x ∈ nil :: (before ++ x :: behind) ∧ next m x ∈ nil :: (before ++ x :: behind) := by
  obtain ⟨hprev, hnext⟩ : prev m x = (nil :: before).getLast (by simp) ∧
      next m x = (behind ++ [nil]).head (by simp) := h.ring.around
  constructor
  · have hmem : prev m x ∈ nil :: before := hprev ▸ List.getLast_mem _
    exact List.mem_append_left (x :: behind) hmem
  · have hmem : next m x ∈ behind ++ [nil] := hnext ▸ List.head_mem _
    rcases List.mem_append.mp hmem with hbehind | hnil
    · exact List.mem_cons_of_mem nil (List.mem_append_right _ (List.mem_cons_of_mem x hbehind))
    · exact List.mem_singleton.mp hnil ▸ List.mem_cons_self

/-- **A node is taken out**, and its key with it. -/
theorem unlink_stored {before behind : List ℕ} (h : Stored m nil (before ++ x :: behind) l) :
    Stored (unlink x m) nil (before ++ behind) (l.removeAt before.length) := by
  obtain ⟨hprev, hnext⟩ := h.around
  have hx : x ∈ nil :: (before ++ x :: behind) := by simp
  have hwords {y : ℕ} (hy : y % PAGE_SIZE = 0) :=
    unlink_words (h.pages x hx) (h.pages _ hprev) (h.pages _ hnext) hy
  have hpages : ∀ y ∈ nil :: (before ++ behind), y % PAGE_SIZE = 0 := fun y hy =>
    h.pages y (by simp only [List.mem_cons, List.mem_append] at hy ⊢; tauto)
  have hlen : l.keys.length = before.length + behind.length + 1 := by
    rw [h.length, List.length_append, List.length_cons]
    omega
  refine ⟨h.ring.remove.congr (fun y hy => (hwords (hpages y hy)).1)
    fun y hy => (hwords (hpages y (List.mem_cons_of_mem nil hy))).2.1, ?_, hpages, fun k hk => ?_⟩
  · have herase : l.keys.eraseIdx before.length = (before ++ behind).map (key m) := by
      rw [← h.keys, List.map_append, List.eraseIdx_append_of_length_le (by simp), List.length_map,
        Nat.sub_self, List.map_cons, List.eraseIdx_cons_zero, List.map_append]
    rw [Keys.removeAt, herase]
    exact List.map_congr_left fun y hy => (hwords (hpages y (List.mem_cons_of_mem nil hy))).2.2
  · obtain ⟨hback, hahead⟩ : prev m x = (nil :: before).getLast (by simp) ∧
        next m x = (behind ++ [nil]).head (by simp) := h.ring.around
    have hprev' : prev (unlink x m) nil = if nil = next m x then prev m x else prev m nil :=
      (hwords (h.pages nil List.mem_cons_self)).2.1.trans Lib.Links.remove_prev
    rw [hprev']
    simp only [Keys.removeAt, hlen] at hk
    cases behind with
    | nil =>
      -- the last node is taken out, so that the one before it is taken for the last
      have hnext : next m x = nil := hahead
      rw [List.length_nil, Nat.add_zero, if_pos rfl] at hk
      obtain rfl := Option.some.inj hk
      rw [List.append_nil, hnext, if_pos rfl, hback, ← List.getLast?_eq_some_getLast,
        List.getLast?_eq_getElem?]
      rfl
    | cons b behind =>
      have hnb : nil ≠ b := fun heq => (List.nodup_cons.mp h.ring.nodup).1 (by simp [heq])
      have herase : nil :: (before ++ b :: behind) =
          (nil :: (before ++ x :: b :: behind)).eraseIdx (before.length + 1) := by
        rw [List.eraseIdx_cons_succ, List.eraseIdx_append_of_length_le le_rfl, Nat.sub_self,
          List.eraseIdx_cons_zero]
      rw [if_neg (by rw [List.length_cons]; omega)] at hk
      obtain ⟨j, hj, hk⟩ := Option.bind_eq_some_iff.mp hk
      have hnext : next m x = b := hahead
      rw [hnext, if_neg hnb, ← h.tail j hj, herase, List.getElem?_eraseIdx]
      split at hk
      case isTrue => cases hk
      case isFalse hne =>
        obtain rfl := Option.some.inj hk
        split
        case isTrue hlt => rw [if_neg (by omega), Nat.sub_add_cancel (by omega)]
        case isFalse hle => rw [if_pos (by omega)]

/-! ### What is left alone -/

theorem Stored.linkFront_only (h : Stored m nil nodes l) (hx : x % PAGE_SIZE = 0)
    (hnew : x ∉ nil :: nodes) : OnlyPages (x :: nil :: nodes) m (linkFront nil x v m) := by
  have hnil := h.pages nil List.mem_cons_self
  have hnext₁ : next (setKey x v m) nil = next m nil := next_setKey hx hnil
  have hnext₂ : next (setNext x (next m nil) (setKey x v m)) nil = next m nil := by
    rw [next_setNext, if_neg (fun hne : nil = x => hnew (hne ▸ List.mem_cons_self)), hnext₁]
  simp only [linkFront, hnext₁, hnext₂]
  exact (onlyPages_setKey hx (by simp)).trans <| (onlyPages_setNext hx (by simp)).trans <|
    (onlyPages_setPrev (h.pages _ h.next_mem) (List.mem_cons_of_mem x h.next_mem)).trans <|
    (onlyPages_setNext hnil (by simp)).trans (onlyPages_setPrev hx (by simp))

theorem Stored.linkBack_only (h : Stored m nil nodes l) (hk : l.tail = some k)
    (hx : x % PAGE_SIZE = 0) (hnew : x ∉ nil :: nodes) :
    OnlyPages (x :: nil :: nodes) m (linkBack nil x v m) := by
  have hnil := h.pages nil List.mem_cons_self
  have hmem := h.prev_mem hk
  have hprev₁ : prev (setKey x v m) nil = prev m nil := prev_setKey hx hnil
  have hprev₂ : prev (setPrev x (prev m nil) (setKey x v m)) nil = prev m nil := by
    rw [prev_setPrev, if_neg (fun hne : nil = x => hnew (hne ▸ List.mem_cons_self)), hprev₁]
  simp only [linkBack, hprev₁, hprev₂]
  exact (onlyPages_setKey hx (by simp)).trans <| (onlyPages_setPrev hx (by simp)).trans <|
    (onlyPages_setNext (h.pages _ hmem) (List.mem_cons_of_mem x hmem)).trans
      (onlyPages_setNext hx (by simp))

theorem Stored.unlink_only {before behind : List ℕ}
    (h : Stored m nil (before ++ x :: behind) l) :
    OnlyPages (nil :: (before ++ x :: behind)) m (unlink x m) := by
  obtain ⟨hprev, hnext⟩ := h.around
  have hnext₁ : next (setNext (prev m x) (next m x) m) x = next m x := by
    rw [next_setNext, ite_self]
  simp only [unlink, hnext₁]
  exact (onlyPages_setNext (h.pages _ hprev) hprev).trans
    (onlyPages_setPrev (h.pages _ hnext) hnext)

/-! ### What is found -/

/-- **The ends of a list**, if it has any. -/
theorem Stored.front (h : Stored m nil nodes l) (map : HeapMap) (hv : l.front = some v) :
    front nil ⟨m, map⟩ = v := by
  have hnext : next m nil = nodes.headD nil := h.ring.next_nil
  rw [LinkedList.front, hnext]
  rw [Keys.front, ← h.keys] at hv
  cases nodes with
  | nil => cases hv
  | cons a l => exact Option.some.inj hv

theorem Stored.back (h : Stored m nil nodes l) (map : HeapMap) (hv : l.back = some v) :
    back nil ⟨m, map⟩ = v := by
  obtain ⟨k, hk, hv⟩ := Option.bind_eq_some_iff.mp hv
  have hat := h.tail k hk
  cases k with
  | zero => cases hv
  | succ k =>
    rw [if_neg (Nat.succ_ne_zero k), Nat.add_sub_cancel, ← h.keys, List.getElem?_map] at hv
    rw [List.getElem?_cons_succ] at hat
    rw [hat] at hv
    exact Option.some.inj hv

/-- **Searching** finds the first node with a key, or the one that closes the ring. -/
theorem Stored.searchNode (h : Stored m nil nodes l) (map : HeapMap)
    (hlength : nodes.length ≤ HEAP_PAGES) :
    searchNode nil v ⟨m, map⟩ =
      .ok ((nodes.find? fun x => key m x == v % 2 ^ 32).getD nil) := by
  have hfound := h.ring.search (fun x => key m x == v % 2 ^ 32) (Nat.lt_succ_of_le hlength)
  rw [LinkedList.searchNode]
  simp only [show next m nil = (links m).next nil from rfl, hfound]

end Stored

end LinkedList

end Evisor
