import Evisor.Fs.Loader
import Evisor.Lib.Tenants

/-!
# What a guest finds in its memory

Isolation says where the tables of a guest lead. This is about what is there: the tasks are
created, their images are loaded, their faults are answered and they store to memory, in any
order, all in one physical memory – and what each guest reads is what it would read from a memory
of its own, in which a page is zero when it is given, holds the disk when it has been loaded, and
changes only by the stores of that guest (`Evisor.GuestMemory.guest_memory_own`).

The memory of its own (`Evisor.GuestMemory.Own`) knows nothing of physical pages. Between the two
stand the pages of the user region, as cells of a store that the guests share (`Lib.Tenants`).
-/

namespace Evisor

namespace GuestMemory

open Isolation (System)

/-! ### The system -/

/-- What happens to memory: what `Evisor.Isolation` has, and the loading of whole images. -/
inductive Event where
  | sys (e : Isolation.Event)
  /-- `LoaderLoadFile` of the QEMU board, of the task that is dispatched for the first time. -/
  | load (d : Disk) (tsk : TaskId) (va : ℕ)

/-- One event. A guest that cannot be loaded stops the hypervisor. -/
def step (b : BoardKind) (L : Layout) (s : System) : Event → Except Fault System
  | .sys e => Isolation.step b L s e
  | .load d tsk va => do
    let (ok, memory) ← loaderLoadFile L d s.memory tsk va
    if ok then return { s with memory } else .error (.panic "Failed to load %s")

/-- Only tasks that exist are given pages. A disk is loaded on the QEMU board only, and it fits
the addresses of a guest. -/
def Legal (b : BoardKind) (s : System) : Event → Prop
  | .sys e => Isolation.Legal s e
  | .load d tsk va => b = .qemu ∧ tsk < s.count ∧ va + d.capacity < 2 ^ 36

/-- The task whose memory an event is about. -/
def Event.task : Event → Option TaskId
  | .sys .createTask => none
  | .sys (.pageMap tsk _) | .sys (.fault tsk _) | .sys (.store tsk _ _) | .load _ tsk _ => some tsk

/-- **What a guest finds** at an address of ordinary memory, if its tables lead there. -/
def guestByte (s : Mm) (tsk : TaskId) (ipa : ℕ) : Option ℕ :=
  match s.translate tsk ipa with
  | .page desc =>
    if desc % PAGE_SIZE = kStage2PteDram then
      some (s.mem.byte (descAddr desc + ipa % PAGE_SIZE))
    else none
  | _ => none

/-! ### A memory of one's own -/

/-- The page frames of a guest: the bits of an address that its tables look at. -/
abbrev Frame := Fin (2 ^ 27)

/-- The frame of an address. -/
def frameOf (ipa : ℕ) : Frame := ⟨ipa / PAGE_SIZE % 2 ^ 27, Nat.mod_lt _ (by decide)⟩

/-- The bytes of a page. -/
abbrev Page := Fin PAGE_SIZE → ℕ

/-- The place of an address in its page. -/
def offsetOf (ipa : ℕ) : Fin PAGE_SIZE := ⟨ipa % PAGE_SIZE, Nat.mod_lt _ (by decide)⟩

/-- **A memory of one's own**: the pages there are, by frame. -/
abbrev Own := Frame → Option Page

namespace Own

/-- The byte at an address. -/
def byte (m : Own) (ipa : ℕ) : Option ℕ := (m (frameOf ipa)).map fun page => page (offsetOf ipa)

/-- A page is given. -/
def give (m : Own) (ipa : ℕ) (page : Page) : Own :=
  Function.update m (frameOf ipa) (some page)

/-- A page after the aligned word at an address has been stored to. -/
def stored (ipa value : ℕ) (page : Page) : Page := fun o =>
  if o.val / 8 = ipa % PAGE_SIZE / 8 then Lib.byte value (o.val % 8) else page o

/-- A word is stored, if there is a page. -/
def store (m : Own) (ipa value : ℕ) : Own :=
  Function.update m (frameOf ipa) ((m (frameOf ipa)).map (stored ipa value))

/-- The first `n` pages of an image are given, from the page of `va` on. -/
def imagePages (m : Own) (d : Disk) (va n : ℕ) : Own := fun f =>
  if va / PAGE_SIZE ≤ f.val ∧ f.val < va / PAGE_SIZE + n then
    some fun o => d.image ((f.val - va / PAGE_SIZE) * PAGE_SIZE + o)
  else m f

/-- An image is given. -/
def image (m : Own) (d : Disk) (va : ℕ) : Own := m.imagePages d va d.pages

/-- What an event of a guest does to its memory. -/
def act (m : Own) : Event → Own
  | .sys .createTask => m
  | .sys (.pageMap _ ipa) => m.give ipa fun _ => 0
  | .sys (.fault _ addr) => m.give addr fun _ => 0
  | .sys (.store _ ipa value) => m.store ipa value
  | .load d _ va => m.image d va

/-- The memory of a guest after what has happened to it. -/
def after (events : List Event) : Own := events.foldl act fun _ => none

end Own

/-- The events of a run that are about one task. -/
def eventsOf (tsk : TaskId) (events : List Event) : List Event :=
  events.filter fun e => e.task = some tsk

/-! ### The pages of the user region -/

/-- The page of the user region that is behind a frame of a task. -/
def pageBehind (L : Layout) (s : Mm) (tsk : TaskId) (f : Frame) : Option ℕ :=
  let entry := s.entryOf tsk (f.val * PAGE_SIZE)
  if entry % PAGE_SIZE = kStage2PteDram then some ((descAddr entry - L.kUserStart) / PAGE_SIZE)
  else none

/-- What a page of the user region holds. -/
def pageBytes (L : Layout) (m : Mem) (i : ℕ) : Page := fun o => m.byte (L.userPage i + o)

variable {b : BoardKind} {L : BoardLayout b} {s s' : Mm} {next : ℕ} {tsk : TaskId} {f : Frame}
  {i ipa : ℕ}

theorem entryOf_frame (s : Mm) (tsk : TaskId) (ipa : ℕ) :
    s.entryOf tsk ((frameOf ipa).val * PAGE_SIZE) = s.entryOf tsk ipa := by
  have hframe : (frameOf ipa).val * PAGE_SIZE / 4096 % 2 ^ 27 = ipa / 4096 % 2 ^ 27 := by
    simp only [frameOf, PAGE_SIZE]
    omega
  obtain ⟨hpath, hlast⟩ := Mm.path_eq_iff.mpr hframe
  rw [Mm.entryOf, Mm.entryOf, hpath, hlast]

/-- An entry that has been made of a page leads to it. -/
theorem pageBehind_of_user (hi : i < kPagingPages)
    (h : s.entryOf tsk (f.val * PAGE_SIZE) = L.userPage i ||| kStage2PteDram) :
    pageBehind L.toLayout s tsk f = some i := by
  obtain ⟨hmod, haddr⟩ := Isolation.userEntry (L := L.toLayout) hi
  have hflags : (L.userPage i ||| kStage2PteDram) % PAGE_SIZE = kStage2PteDram := hmod
  rw [pageBehind, h, if_pos hflags, haddr, Layout.userPage, Nat.add_sub_cancel_left,
    Nat.mul_div_cancel _ (by decide : 0 < PAGE_SIZE)]

/-- Nothing is behind an entry that is empty, or that of a device. -/
theorem pageBehind_of_device (h : s.entryOf tsk (f.val * PAGE_SIZE) = 0 ∨
    Isolation.DeviceEntry b (s.entryOf tsk (f.val * PAGE_SIZE))) :
    pageBehind L.toLayout s tsk f = none := by
  have hnot : ¬s.entryOf tsk (f.val * PAGE_SIZE) % PAGE_SIZE = kStage2PteDram := by
    rcases h with h0 | hd
    · rw [h0]
      decide
    · exact hd.spec.1
  rw [pageBehind, if_neg hnot]

/-- **A page is behind a frame** when the entry of the frame has been made of it. -/
theorem pageBehind_eq_some (h : Isolation.Placed b L.toLayout next s.entryOf) :
    pageBehind L.toLayout s tsk f = some i ↔ i < kPagingPages ∧ i < next ∧
      s.entryOf tsk (f.val * PAGE_SIZE) = L.userPage i ||| kStage2PteDram := by
  constructor
  · intro hp
    rcases or_assoc.mpr (h.kind tsk (f.val * PAGE_SIZE)) with hd | ⟨j, hnext, hj, heq⟩
    · rw [pageBehind_of_device hd] at hp
      cases hp
    · obtain rfl := Option.some.inj ((pageBehind_of_user hj heq).symm.trans hp)
      exact ⟨hj, hnext, heq⟩
  · rintro ⟨hi, -, heq⟩
    exact pageBehind_of_user hi heq

/-- No page is behind two frames. -/
theorem pageBehind_sole (h : Isolation.Placed b L.toLayout next s.entryOf) :
    Lib.Tenants.Sole (pageBehind L.toLayout s) := by
  intro t f t' f' i hi hi'
  obtain ⟨-, -, hentry⟩ := (pageBehind_eq_some h).mp hi
  obtain ⟨-, -, hentry'⟩ := (pageBehind_eq_some h).mp hi'
  obtain ⟨ht, hframe⟩ := h.sole t _ t' _ i hentry hentry'
  have hf := f.isLt
  have hf' := f'.isLt
  simp only [PAGE_SIZE] at hframe
  exact ⟨ht, Fin.ext (by omega)⟩

/-- What the processor finds at an entry of a page of the user region. -/
theorem translationOf_user (hi : i < kPagingPages) :
    Mm.translationOf (L.userPage i ||| kStage2PteDram) =
      .page (L.userPage i ||| kStage2PteDram) := by
  obtain ⟨hmod, -⟩ := Isolation.userEntry (L := L.toLayout) hi
  have hdram : kStage2PteDram % 4 = 3 := by decide
  exact if_pos (by omega)

/-- **What a guest finds** is what the page behind the frame holds. -/
theorem guestByte_eq (htree : s.Inv L.toLayout)
    (hplaced : Isolation.Placed b L.toLayout next s.entryOf) (tsk : TaskId) (ipa : ℕ) :
    guestByte s tsk ipa = (Lib.Tenants.view (pageBehind L.toLayout s)
      (pageBytes L.toLayout s.mem) tsk (frameOf ipa)).map fun page => page (offsetOf ipa) := by
  have hentry := entryOf_frame s tsk ipa
  rw [guestByte, htree.translate_eq, ← hentry]
  cases hp : pageBehind L.toLayout s tsk (frameOf ipa) with
  | none =>
    have hnot : ¬s.entryOf tsk ((frameOf ipa).val * PAGE_SIZE) % PAGE_SIZE = kStage2PteDram := by
      intro hdram
      rw [pageBehind, if_pos hdram] at hp
      cases hp
    rw [Lib.Tenants.view_of_none hp, Option.map_none, Mm.translationOf]
    split_ifs
    · dsimp only
      rw [if_neg hnot]
    · rfl
  | some i =>
    obtain ⟨hi, -, heq⟩ := (pageBehind_eq_some hplaced).mp hp
    obtain ⟨hmod, haddr⟩ := Isolation.userEntry (L := L.toLayout) hi
    have hflags : (L.userPage i ||| kStage2PteDram) % PAGE_SIZE = kStage2PteDram := hmod
    rw [heq, translationOf_user hi]
    dsimp only
    rw [if_pos hflags, haddr, Lib.Tenants.view_of_some hp]
    rfl

/-! ### Memories that are held -/

/-- **The memories of the guests are held**: what is behind the frames of each is its own. -/
structure Held (L : BoardLayout b) (s : Mm) (next : ℕ) (own : TaskId → Own) : Prop where
  tree : s.Inv L.toLayout
  placed : Isolation.Placed b L.toLayout next s.entryOf
  view : ∀ t f, Lib.Tenants.view (pageBehind L.toLayout s) (pageBytes L.toLayout s.mem) t f =
    own t f

variable {own : TaskId → Own}

/-- **What a guest finds** is what it has of its own. -/
theorem Held.guestByte (h : Held L s next own) (tsk : TaskId) (ipa : ℕ) :
    guestByte s tsk ipa = (own tsk).byte ipa := by
  rw [guestByte_eq h.tree h.placed, h.view, Own.byte]

/-- Memory outside the heap and a page of the user region is what the other pages hold. -/
theorem pageBytes_congr {L : Layout} {m m' : Mem} {i j : ℕ} (hij : j ≠ i)
    (h : ∀ a, ¬(L.kHeapStart ≤ a ∧ a < L.kHeapStart + kHeapSize) →
      ¬(L.userPage i ≤ a ∧ a < L.userPage i + PAGE_SIZE) → m' a = m a) :
    pageBytes L m' j = pageBytes L m j := by
  funext o
  exact Mem.byte_congr (h _ (userPage_word_apart j o) (userPage_word_ne hij.symm o.isLt))

/-- What is found depends on the entries, and on memory outside the heap. -/
theorem Held.congr (h : Held L s next own) (htree : s'.Inv L.toLayout)
    (hentry : s'.entryOf = s.entryOf)
    (hout : ∀ a, ¬(L.kHeapStart ≤ a ∧ a < L.kHeapStart + kHeapSize) → s'.mem a = s.mem a) :
    Held L s' next own where
  tree := htree
  placed := by
    rw [hentry]
    exact h.placed
  view t f := by
    have hplace : pageBehind L.toLayout s' = pageBehind L.toLayout s := by
      funext t f
      rw [pageBehind, pageBehind, hentry]
    have hbytes : pageBytes L.toLayout s'.mem = pageBytes L.toLayout s.mem := by
      funext i o
      exact Mem.byte_congr (hout _ (userPage_word_apart i o))
    rw [hplace, hbytes]
    exact h.view t f

/-- Memory outside the heap is not read by any walk. -/
theorem inv_of_outside (h : s.Inv L.toLayout) {m : Mem}
    (hm : ∀ a, L.kHeapStart ≤ a ∧ a < L.kHeapStart + kHeapSize → m a = s.mem a) :
    Mm.Inv L.toLayout { s with mem := m } ∧ Mm.entryOf { s with mem := m } = s.entryOf := by
  obtain ⟨hinv, hsame⟩ := h.congr_mem (m := m) fun page hpage j => by
    have hj := j.isLt
    obtain ⟨-, hlo, hhi⟩ := hpage
    simp only [PTRS_PER_TABLE, PAGE_SIZE] at hj hhi
    exact hm _ (by omega)
  exact ⟨hinv, funext fun t => funext fun ipa => hsame t ipa⟩

/-- A page of the user region is not in the heap. -/
theorem userPage_apart (L : Layout) (i : ℕ) {a : ℕ}
    (ha : L.kHeapStart ≤ a ∧ a < L.kHeapStart + kHeapSize) :
    ¬(L.userPage i ≤ a ∧ a < L.userPage i + PAGE_SIZE) := by
  have := L.heap_end
  have := L.uncached_end
  simp only [Layout.userPage] at *
  omega

/-- The entry of a frame after one entry has been written. -/
theorem frame_entry {E E' : TaskId → ℕ → ℕ} {entry : ℕ}
    (hE : ∀ t ipa', E' t ipa' =
      if t = tsk ∧ ipa' / 4096 % 2 ^ 27 = ipa / 4096 % 2 ^ 27 then entry else E t ipa')
    (t : TaskId) (f : Frame) : E' t (f.val * PAGE_SIZE) =
      if t = tsk ∧ f = frameOf ipa then entry else E t (f.val * PAGE_SIZE) := by
  rw [hE]
  refine if_congr (and_congr_right fun _ => ?_) rfl rfl
  have hf := f.isLt
  rw [Fin.ext_iff]
  simp only [frameOf, PAGE_SIZE]
  omega

/-- **A page is given** to a task, and may have been filled. -/
theorem Held.give {s s' : Memory} (h : Held L s.mm s.user.nextFreeSpaceIndex own)
    (hp : Paged L.toLayout s tsk ipa i s') {m : Mem}
    (hin : ∀ a, ¬(L.userPage i ≤ a ∧ a < L.userPage i + PAGE_SIZE) → m a = s'.mm.mem a)
    (hout : ∀ a, ¬(L.kHeapStart ≤ a ∧ a < L.kHeapStart + kHeapSize) →
      ¬(L.userPage i ≤ a ∧ a < L.userPage i + PAGE_SIZE) → m a = s.mm.mem a) :
    Held L { s'.mm with mem := m } s'.user.nextFreeSpaceIndex
      (Function.update own tsk ((own tsk).give ipa (pageBytes L.toLayout m i))) := by
  obtain ⟨htree, hsame⟩ := inv_of_outside (L := L) hp.inv (m := m)
    fun a ha => hin a (userPage_apart L.toLayout i ha)
  have hplaced : Isolation.Placed b L.toLayout s'.user.nextFreeSpaceIndex
      (Mm.entryOf { s'.mm with mem := m }) := by
    rw [hsame, hp.next]
    exact h.placed.user hp.index hp.next_le hp.entry
  refine ⟨htree, hplaced, fun t f => ?_⟩
  rw [Own.give, Lib.Tenants.update_update_apply, ← h.view t f]
  refine Lib.Tenants.view_give (fun t f hi => ?_) (fun t f => ?_)
    (fun j hj => pageBytes_congr hj hout) t f
  · -- the page was not out
    have hlt := ((pageBehind_eq_some h.placed).mp hi).2.1
    exact absurd hp.next_le (Nat.not_le.mpr hlt)
  · have hentry := frame_entry hp.entry t f
    by_cases hit : t = tsk ∧ f = frameOf ipa
    · rw [if_pos hit]
      rw [if_pos hit] at hentry
      exact pageBehind_of_user hp.index (by rw [hsame]; exact hentry)
    · rw [if_neg hit]
      rw [if_neg hit] at hentry
      rw [pageBehind, pageBehind, hsame, hentry]

/-- **A device is mapped** for a task, at a frame that has no page. -/
theorem Held.device (h : Held L s next own) {entry : ℕ}
    (hd : Isolation.DeviceEntry b entry) (htree : s'.Inv L.toLayout)
    (hentry : ∀ t ipa', s'.entryOf t ipa' =
      if t = tsk ∧ ipa' / 4096 % 2 ^ 27 = ipa / 4096 % 2 ^ 27 then entry else s.entryOf t ipa')
    (hout : ∀ a, ¬(L.kHeapStart ≤ a ∧ a < L.kHeapStart + kHeapSize) → s'.mem a = s.mem a)
    (hnone : own tsk (frameOf ipa) = none) : Held L s' next own where
  tree := htree
  placed := h.placed.device hd hentry
  view t f := by
    have hbytes : pageBytes L.toLayout s'.mem = pageBytes L.toLayout s.mem := by
      funext i o
      exact Mem.byte_congr (hout _ (userPage_word_apart i o))
    have hframe := frame_entry hentry t f
    by_cases hit : t = tsk ∧ f = frameOf ipa
    · rw [if_pos hit] at hframe
      rw [Lib.Tenants.view_of_none (pageBehind_of_device (.inr (hframe ▸ hd))), hit.1, hit.2, hnone]
    · rw [if_neg hit] at hframe
      rw [← h.view t f, Lib.Tenants.view, Lib.Tenants.view, pageBehind, pageBehind, hframe, hbytes]

/-- The bytes of a page after the aligned word at an address has been written. -/
theorem pageBytes_store (m : Mem) (i ipa value : ℕ) :
    pageBytes L.toLayout (Function.update m (L.userPage i + ipa % PAGE_SIZE / 8 * 8) value) i =
      Own.stored ipa value (pageBytes L.toLayout m i) := by
  funext o
  have hal : L.userPage i % 8 = 0 := by
    have := L.user_aligned
    simp only [Layout.userPage, PAGE_SIZE] at *
    omega
  rw [pageBytes, Mem.byte, Own.stored]
  by_cases hword : o.val / 8 = ipa % PAGE_SIZE / 8
  · have hat : (L.userPage i + o.val) / 8 * 8 = L.userPage i + ipa % PAGE_SIZE / 8 * 8 := by
      rw [← hword]
      omega
    have hoff : (L.userPage i + o.val) % 8 = o.val % 8 := by omega
    rw [if_pos hword, hat, Function.update_self, hoff]
  · rw [if_neg hword, Function.update_of_ne (by omega)]
    rfl

/-- No word of the user region is in a page of a device. -/
theorem devicePage_word_ne {page off j : ℕ} (hdev : page ∈ b.virtualCpuPages)
    (hoff : off < PAGE_SIZE) (hj : j < kPagingPages) (o : Fin PAGE_SIZE) :
    (L.userPage j + o) / 8 * 8 ≠ page + off := by
  have hapart := L.devices_apart page (by simp only [List.mem_append]; tauto)
  have hheap := L.heap_end
  have hunc := L.uncached_end
  have hal := L.user_aligned
  obtain ⟨-, hlo, hhi⟩ := inUser_userPage L.toLayout hj
  have ho := o.isLt
  simp only [PAGE_SIZE] at *
  omega

/-- What a store outside the heap and the user region leaves. -/
theorem Held.store_outside (h : Held L s next own) {a : ℕ}
    (hheap : ¬(L.kHeapStart ≤ a ∧ a < L.kHeapStart + kHeapSize))
    (huser : ∀ j < kPagingPages, ∀ o : Fin PAGE_SIZE, (L.userPage j + o) / 8 * 8 ≠ a)
    (value : ℕ) : Held L (s.store a value) next own := by
  obtain ⟨htree, hentry⟩ := inv_of_outside (L := L) h.tree (m := Function.update s.mem a value)
    fun a' ha' => Function.update_of_ne (by rintro rfl; exact hheap ha') ..
  refine ⟨htree, ?_, fun t f => ?_⟩
  · rw [show (s.store a value).entryOf = s.entryOf from hentry]
    exact h.placed
  · have hplace : pageBehind L.toLayout (s.store a value) = pageBehind L.toLayout s := by
      funext t f
      rw [pageBehind, pageBehind, show (s.store a value).entryOf = s.entryOf from hentry]
    rw [hplace, ← h.view t f]
    refine Lib.Tenants.view_congr fun j hj => ?_
    funext o
    obtain ⟨hlt, -, -⟩ := (pageBehind_eq_some h.placed).mp hj
    exact Mem.byte_congr (Function.update_of_ne (huser j hlt o) ..)

/-- A store to a frame that has no page changes nothing of one's own. -/
theorem Own.store_of_none {m : Own} (h : m (frameOf ipa) = none) (value : ℕ) :
    m.store ipa value = m := by
  rw [Own.store, h, Option.map_none, ← h, Function.update_eq_self]

/-- **A guest stores to its memory.** -/
theorem Held.store (h : Held L s next own) (tsk : TaskId) (ipa value : ℕ) :
    Held L (Isolation.guestStore s tsk ipa value) next
      (Function.update own tsk ((own tsk).store ipa value)) := by
  rw [Isolation.guestStore, h.tree.translate_eq, ← entryOf_frame]
  have hown := h.view tsk (frameOf ipa)
  have hoff : ipa % PAGE_SIZE / 8 * 8 < PAGE_SIZE := by simp only [PAGE_SIZE]; omega
  cases hp : pageBehind L.toLayout s tsk (frameOf ipa) with
  | none =>
    rw [Lib.Tenants.view_of_none hp] at hown
    rw [Own.store_of_none hown.symm, Function.update_eq_self]
    cases htr : Mm.translationOf (s.entryOf tsk ((frameOf ipa).val * PAGE_SIZE)) with
    | invalid => exact h
    | block desc => exact h
    | page desc =>
      dsimp only
      split_ifs with hw
      · -- the entry is that of a device
        obtain ⟨rfl, h3⟩ := Isolation.translationOf_eq htr
        have hacc : Isolation.s2ap (s.entryOf tsk ((frameOf ipa).val * PAGE_SIZE)) ≠ 0 :=
          fun h0 => hw (by rw [h0]; rfl)
        have hdev : descAddr (s.entryOf tsk ((frameOf ipa).val * PAGE_SIZE)) ∈
            b.virtualCpuPages := by
          rcases h.placed.kind tsk ((frameOf ipa).val * PAGE_SIZE) with h0 | hd | ⟨i, hn, hi, heq⟩
          · rw [h0] at h3
            exact absurd h3 (by decide)
          · exact hd.spec.2.2 hacc
          · rw [pageBehind_of_user hi heq] at hp
            cases hp
        obtain ⟨hheap, -⟩ := Isolation.accessible_apart (L := L) (.inl hdev)
          (Nat.le_add_right _ _) (Nat.add_lt_add_left hoff _)
        exact h.store_outside hheap (fun j hj o => devicePage_word_ne hdev hoff hj o) value
      · exact h
  | some i =>
    obtain ⟨hi, -, heq⟩ := (pageBehind_eq_some h.placed).mp hp
    obtain ⟨-, haddr⟩ := Isolation.userEntry (L := L.toLayout) hi
    have hwrite : Isolation.s2ap (L.userPage i ||| kStage2PteDram) &&& 2 ≠ 0 := by
      obtain ⟨hmod, -⟩ := Isolation.userEntry (L := L.toLayout) hi
      rw [Isolation.s2ap_eq, hmod]
      decide
    rw [Lib.Tenants.view_of_some hp] at hown
    rw [heq, translationOf_user hi]
    dsimp only
    rw [if_pos hwrite, haddr, Own.store, ← hown, Option.map_some]
    set a := L.userPage i + ipa % PAGE_SIZE / 8 * 8 with ha
    obtain ⟨htree, hentry⟩ := inv_of_outside (L := L) h.tree (m := Function.update s.mem a value)
      fun a' ha' => Function.update_of_ne
        (fun heq' => userPage_apart L.toLayout i ha' (by omega)) ..
    refine ⟨htree, ?_, fun t f => ?_⟩
    · rw [show (s.store a value).entryOf = s.entryOf from hentry]
      exact h.placed
    · have hplace : pageBehind L.toLayout (s.store a value) = pageBehind L.toLayout s := by
        funext t f
        rw [pageBehind, pageBehind, show (s.store a value).entryOf = s.entryOf from hentry]
      rw [Lib.Tenants.update_update_apply, ← h.view t f, hplace, ← pageBytes_store]
      refine Lib.Tenants.view_write (pageBehind_sole h.placed) hp (fun j hj => ?_) t f
      exact pageBytes_congr hj fun a' _ hout => Function.update_of_ne (by omega) ..

/-- What is known once a page has been taken and mapped. -/
theorem mapped_outside {s s₁ : Memory} {page pte flags : ℕ} {mm₁ : Mm} (h : s.mm.Inv L.toLayout)
    (ha : pageAllocate L.toLayout s = .ok (page, s₁))
    (hm : Evisor.mapPage L.toLayout s₁.mm tsk ipa page flags = .ok (pte, mm₁)) {a : ℕ}
    (hout : ¬(L.kHeapStart ≤ a ∧ a < L.kHeapStart + kHeapSize)) :
    mm₁.mem a = s.mm.mem.memzero page PAGE_SIZE a := by
  obtain ⟨j, -, -, rfl, -, -, -, -, hinv₁, -⟩ := pageAllocate_ok h ha
  obtain ⟨⟨page₂, mem, user⟩, hz, ha⟩ := Lib.bind_eq_ok.mp ha
  obtain ⟨hpage, rfl⟩ := Prod.mk.inj (Except.ok.inj ha)
  obtain ⟨k, -, -, rfl, -, rfl⟩ := ummZalloc_ok hz
  rw [hinv₁.mapPage_outside hm hout, ← show L.userPage k = L.userPage j from hpage]

/-- **A fault that is answered** clears a page, and writes to the heap besides. -/
theorem fault_paged {s s' : Memory} {addr : ℕ} {ok : Bool} (h : s.mm.Inv L.toLayout)
    (haddr : addr < 2 ^ 64)
    (hp : handleMmTrapMemoryAccessFault L.toLayout s tsk addr = .ok (ok, s')) :
    ∃ i, Paged L.toLayout s tsk addr i s' ∧
      ∀ a, ¬(L.kHeapStart ≤ a ∧ a < L.kHeapStart + kHeapSize) →
        s'.mm.mem a = s.mm.mem.memzero (L.userPage i) PAGE_SIZE a := by
  obtain ⟨-, i, hpaged⟩ := handleMmTrapMemoryAccessFault_ok h haddr hp
  obtain ⟨⟨page, s₁⟩, ha, hp⟩ := Lib.bind_eq_ok.mp hp
  obtain ⟨j, hj, -, rfl, hnext, -, -, -, -, -⟩ := pageAllocate_ok h ha
  obtain ⟨-, hpos, -⟩ := (inUser_userPage L.toLayout hj).bounds
  simp only [if_neg hpos.ne'] at hp
  obtain ⟨mm, hm, hp⟩ := Lib.bind_eq_ok.mp hp
  obtain ⟨⟨pte, mm₁⟩, hmap, hmm⟩ := Lib.bind_eq_ok.mp hm
  obtain rfl := Except.ok.inj hmm
  obtain ⟨-, rfl⟩ := Prod.mk.inj (Except.ok.inj hp)
  -- the page that is mapped is the one that is out now
  obtain rfl : i = j := Nat.succ_injective (hpaged.next.symm.trans hnext)
  exact ⟨i, hpaged, fun a hout => mapped_outside h ha hmap hout⟩

/-- A cleared page holds zeros. -/
theorem pageBytes_zero {m m' : Mem}
    (h : ∀ a, ¬(L.kHeapStart ≤ a ∧ a < L.kHeapStart + kHeapSize) →
      m' a = m.memzero (L.userPage i) PAGE_SIZE a) : pageBytes L.toLayout m' i = fun _ => 0 := by
  funext o
  have hal : L.userPage i % 8 = 0 := by
    have := L.user_aligned
    simp only [Layout.userPage, PAGE_SIZE] at *
    omega
  rw [pageBytes, Mem.byte_congr (h _ (userPage_word_apart i o)), Mem.memzero_byte _ hal rfl,
    if_pos ⟨Nat.le_add_right _ _, Nat.add_lt_add_left o.isLt _⟩]

/-- **A cleared page is given** to a task. -/
theorem Held.zero {s s' : Memory} (h : Held L s.mm s.user.nextFreeSpaceIndex own)
    (hp : Paged L.toLayout s tsk ipa i s')
    (hout : ∀ a, ¬(L.kHeapStart ≤ a ∧ a < L.kHeapStart + kHeapSize) →
      s'.mm.mem a = s.mm.mem.memzero (L.userPage i) PAGE_SIZE a) :
    Held L s'.mm s'.user.nextFreeSpaceIndex
      (Function.update own tsk ((own tsk).give ipa fun _ => 0)) := by
  rw [← pageBytes_zero hout]
  refine h.give hp (fun _ _ => rfl) fun a ha hnot => ?_
  rw [hout a ha, Mem.memzero, if_neg hnot]

/-! ### The tasks are created -/

/-- A loop of `Board::Init` gives the task no page. -/
theorem Held.mapDevicePages {accessable : Bool} {frame : ℕ → ℕ} {pages : List ℕ}
    (h : Held L s next own)
    (hdev : ∀ pa ∈ pages, Isolation.DeviceEntry b (pa ||| if accessable
      then kStage2PteDeviceAccessible else kStage2PteDeviceNotAccessible))
    (hnone : own tsk = fun _ => none)
    (hs : Evisor.mapDevicePages L.toLayout s tsk accessable frame pages = .ok s') :
    Held L s' next own := by
  induction pages generalizing s with
  | nil =>
    obtain rfl := Except.ok.inj hs
    exact h
  | cons pa rest ih =>
    obtain ⟨hpa, hrest⟩ := List.forall_mem_cons.mp hdev
    obtain ⟨s₁, h₁, hs⟩ := Lib.bind_eq_ok.mp hs
    obtain ⟨⟨pte, s₂⟩, hm, h₁⟩ := Lib.bind_eq_ok.mp h₁
    obtain rfl := Except.ok.inj h₁
    obtain ⟨htree, hentry⟩ := h.tree.mapPage hm
    exact ih (h.device hpa htree hentry (fun a ha => h.tree.mapPage_outside hm ha)
      (congrFun hnone _)) hrest hs

/-- **Creating a task** gives no page to anyone. -/
theorem Held.createTask {s s' : System} (hinv : Isolation.System.Inv b L.toLayout s)
    (h : Held L s.memory.mm s.memory.user.nextFreeSpaceIndex own)
    (hs : Isolation.createTask b L.toLayout s = .ok s') :
    Held L s'.memory.mm s'.memory.user.nextFreeSpaceIndex own := by
  obtain ⟨⟨n, mm₁⟩, hz, hs⟩ := Lib.bind_eq_ok.mp hs
  obtain ⟨mm₂, hb, hs⟩ := Lib.bind_eq_ok.mp hs
  have hf := Mm.fresh_of_zalloc hz
  obtain ⟨htree₁, hsame₁⟩ := h.tree.fresh hf
  have h₁ : Held L mm₁ s.memory.user.nextFreeSpaceIndex own :=
    h.congr htree₁ (funext fun t => funext fun ipa => hsame₁ t _ _ rfl) fun a ha => hf.outside ha
  -- the new task had no table, and is given none yet
  have hroot : Mm.root (mm₁.setContext s.count ⟨0, 0⟩).ctx = Mm.root mm₁.ctx := by
    funext t
    rw [Mm.root_setContext]
    split
    case isTrue ht =>
      subst ht
      rw [hf.ctx, Mm.root_of_zero (hinv.unborn _ le_rfl), if_pos rfl]
    · rfl
  obtain ⟨htree₂, hsame₂⟩ := htree₁.frame (m := mm₁.setContext s.count ⟨0, 0⟩) hroot
    (fun ha => ha) (fun _ _ _ => rfl)
  have h₂ : Held L (mm₁.setContext s.count ⟨0, 0⟩) s.memory.user.nextFreeSpaceIndex own :=
    h₁.congr htree₂ (funext fun t => funext fun ipa => hsame₂ t _ _ rfl) fun _ _ => rfl
  -- nothing is found where there is no table
  have hnone : own s.count = fun _ => none := by
    funext f
    rw [← h.view]
    refine Lib.Tenants.view_of_none (pageBehind_of_device (.inl ?_))
    have hroot₀ : s.memory.mm.tableAt s.count [] = none := by
      rw [Mm.tableAt_nil, Mm.root_of_zero (hinv.unborn _ le_rfl)]
    rw [Mm.entryOf, Mm.entryAt]
    exact congrArg (Option.elim · 0 _) (Lib.reach_append_of_none (Mm.pathOf _) hroot₀)
  obtain ⟨heap, hh, hb⟩ := Lib.bind_eq_ok.mp hb
  obtain ⟨s₁, hd₁, hb⟩ := Lib.bind_eq_ok.mp hb
  obtain ⟨s₂, hd₂, hb⟩ := Lib.bind_eq_ok.mp hb
  obtain ⟨htree₃, hsame₃⟩ := htree₂.frame (m := { mm₁.setContext s.count ⟨0, 0⟩ with heap }) rfl
    (Isolation.consoleAlloc_mono hh) (fun _ _ _ => rfl)
  have h₃ := h₂.congr htree₃ (funext fun t => funext fun ipa => hsame₃ t _ _ rfl) fun _ _ => rfl
  have h₄ := h₃.mapDevicePages (fun pa hpa => .inl ⟨pa, List.mem_append_left _ hpa, rfl⟩) hnone hd₁
  have h₅ := h₄.mapDevicePages (fun pa hpa => .inr ⟨pa, hpa, rfl⟩) hnone hd₂
  have h₆ := h₅.mapDevicePages (fun pa hpa => .inl ⟨pa, List.mem_append_right _ hpa, rfl⟩) hnone hb
  split at hs
  · obtain rfl := Except.ok.inj hs
    exact h₆
  · cases hs

/-! ### An image is loaded -/

theorem Own.imagePages_zero (m : Own) (d : Disk) (va : ℕ) : m.imagePages d va 0 = m := by
  funext f
  exact if_neg (by omega)

/-- One more page of an image. -/
theorem Own.imagePages_succ (m : Own) (d : Disk) {va n : ℕ} (hva : va % PAGE_SIZE = 0)
    (hfit : va + (n + 1) * PAGE_SIZE ≤ 2 ^ 36) :
    (m.imagePages d va n).give (va + n * PAGE_SIZE) (fun o => d.image (n * PAGE_SIZE + o)) =
      m.imagePages d va (n + 1) := by
  simp only [PAGE_SIZE] at hva hfit
  have hframe : (frameOf (va + n * PAGE_SIZE)).val = va / PAGE_SIZE + n := by
    simp only [frameOf, PAGE_SIZE]
    omega
  funext f
  rw [Own.give, Function.update_apply, imagePages, imagePages]
  by_cases hlast : f = frameOf (va + n * PAGE_SIZE)
  · rw [if_pos hlast, hlast, hframe, if_pos (by omega), Nat.add_sub_cancel_left]
  · rw [if_neg hlast]
    rw [Fin.ext_iff, hframe] at hlast
    exact if_congr (by omega) rfl rfl

/-- **One page of an image** is given, and filled. -/
theorem Held.loadPage {s s₁ : Memory} {d : Disk} {va n cur sector_remains sector_offset buf : ℕ}
    {v' : Loading} (h : Held L s.mm s.user.nextFreeSpaceIndex
      (Function.update own tsk ((own tsk).imagePages d va n)))
    (hprog : Progress d va n cur sector_remains sector_offset) (hremains : sector_remains ≠ 0)
    (hva : va % PAGE_SIZE = 0) (hfit : va + d.pages * PAGE_SIZE ≤ 2 ^ 36)
    (hp : pageMap L.toLayout s tsk cur = .ok (buf, s₁))
    (hv : Filled d (min 8 sector_remains) ⟨s₁.mm.mem, buf, sector_remains, sector_offset⟩ v') :
    Held L { s₁.mm with mem := v'.mem } s₁.user.nextFreeSpaceIndex
        (Function.update own tsk ((own tsk).imagePages d va (n + 1))) ∧
      ∀ t, t ≠ tsk → s₁.mm.ctx t = s.mm.ctx t := by
  obtain ⟨i, rfl, hi⟩ := pageMap_ok h.tree hp
  obtain ⟨hmem, -, -⟩ := pageMap_outside h.tree hp
  obtain ⟨hal, -, -⟩ := (inUser_userPage L.toLayout hi.index).bounds
  have hle : (n + 1) * PAGE_SIZE ≤ d.pages * PAGE_SIZE :=
    Nat.mul_le_mul_right _ (hprog.lt_pages hremains)
  have hsize : min 8 sector_remains * kDiskSectorSize ≤ PAGE_SIZE := by
    simp only [kDiskSectorSize, PAGE_SIZE]
    omega
  have hkept : ∀ a, ¬(L.userPage i ≤ a ∧ a < L.userPage i + PAGE_SIZE) →
      v'.mem a = s₁.mm.mem a := fun a ha => hv.outside a fun hin =>
    ha ⟨hin.1, hin.2.trans_le (Nat.add_le_add_left hsize _)⟩
  have hzero : ∀ k < PAGE_SIZE, s₁.mm.mem.byte (L.userPage i + k) = 0 := by
    intro k hk
    rw [Mem.byte_congr (hmem _ (userPage_word_apart i k)), Mem.memzero_byte _ (by omega) rfl,
      if_pos ⟨Nat.le_add_right _ k, Nat.add_lt_add_left hk _⟩]
  have hbytes : pageBytes L.toLayout v'.mem i = fun o => d.image (n * PAGE_SIZE + o.val) :=
    funext fun o => hv.image hremains hprog (by omega) hzero o.isLt
  have hgive := h.give hi (m := v'.mem) hkept fun a ha hnot => by
    rw [hkept a hnot, hmem a ha, Mem.memzero, if_neg hnot]
  rw [Function.update_self, Function.update_idem, hbytes, hprog.cur,
    Own.imagePages_succ _ d hva (by omega)] at hgive
  exact ⟨hgive, hi.ctx⟩

/-- When no sector remains all pages are given. -/
theorem Held.lastPage {d : Disk} {va n cur sector_remains sector_offset : ℕ}
    (h : Held L s next (Function.update own tsk ((own tsk).imagePages d va n)))
    (hprog : Progress d va n cur sector_remains sector_offset) (hzero : sector_remains = 0) :
    Held L s next (Function.update own tsk ((own tsk).image d va)) := by
  rwa [Own.image, ← hprog.last hzero]

/-- **The outer loop** of the loader gives the pages that are left. -/
theorem Held.loadPages {s s' : Memory} {d : Disk} {fuel va n cur sector_remains sector_offset : ℕ}
    (h : Held L s.mm s.user.nextFreeSpaceIndex
      (Function.update own tsk ((own tsk).imagePages d va n)))
    (hprog : Progress d va n cur sector_remains sector_offset)
    (hva : va % PAGE_SIZE = 0) (hfit : va + d.pages * PAGE_SIZE ≤ 2 ^ 36)
    (hs : Evisor.loadPages L.toLayout d tsk fuel s cur sector_remains sector_offset =
      .ok (true, s')) :
    Held L s'.mm s'.user.nextFreeSpaceIndex
        (Function.update own tsk ((own tsk).image d va)) ∧
      ∀ t, t ≠ tsk → s'.mm.ctx t = s.mm.ctx t := by
  induction fuel generalizing n s cur sector_remains sector_offset with
  | zero =>
    rw [Evisor.loadPages] at hs
    split at hs
    · obtain rfl := congrArg Prod.snd (Except.ok.inj hs)
      exact ⟨h.lastPage hprog ‹_›, fun _ _ => rfl⟩
    · cases hs
  | succ fuel ih =>
    rw [Evisor.loadPages] at hs
    split at hs
    · obtain rfl := congrArg Prod.snd (Except.ok.inj hs)
      exact ⟨h.lastPage hprog ‹_›, fun _ _ => rfl⟩
    rename_i hremains
    obtain ⟨⟨buf, s₁⟩, hp, hs⟩ := Lib.bind_eq_ok.mp hs
    obtain ⟨i, hbuf, hi⟩ := pageMap_ok h.tree hp
    obtain ⟨hal, -, -⟩ := (inUser_userPage L.toLayout hi.index).bounds
    obtain ⟨hok, -⟩ := loadSectors_spec (d := d) (PAGE_SIZE / kDiskSectorSize)
      (v := ⟨s₁.mm.mem, buf, sector_remains, sector_offset⟩) (by dsimp only; omega)
      (by rw [hprog.total]; exact d.sectors_lt.trans (by decide))
    dsimp only at hs
    generalize loadSectors d (PAGE_SIZE / kDiskSectorSize)
      ⟨s₁.mm.mem, buf, sector_remains, sector_offset⟩ = r at hok hs
    obtain ⟨ok, v'⟩ := r
    cases ok with
    | false => cases Except.ok.inj hs
    | true =>
      have hv : Filled d (min 8 sector_remains)
        ⟨s₁.mm.mem, buf, sector_remains, sector_offset⟩ v' := hok rfl
      obtain ⟨hgive, hctx⟩ := h.loadPage hprog hremains hva hfit hp hv
      have hnext := hprog.step hremains hfit hv
      rw [if_pos rfl] at hs
      obtain ⟨hheld, hctx'⟩ :=
        ih (s := { s₁ with mm := { s₁.mm with mem := v'.mem } }) hgive hnext hs
      exact ⟨hheld, fun t ht => (hctx' t ht).trans (hctx t ht)⟩

/-- The pages of an image depend on the page of the address only. -/
theorem Own.image_mask (m : Own) (d : Disk) (va : ℕ) :
    m.image d (va / PAGE_SIZE * PAGE_SIZE) = m.image d va := by
  have hdiv : va / PAGE_SIZE * PAGE_SIZE / PAGE_SIZE = va / PAGE_SIZE :=
    Nat.mul_div_cancel _ (by decide)
  funext f
  rw [Own.image, Own.image, Own.imagePages, Own.imagePages, hdiv]

/-- **An image is loaded.** -/
theorem Held.load {s s' : Memory} {d : Disk} {va : ℕ}
    (h : Held L s.mm s.user.nextFreeSpaceIndex own) (hfit : va + d.capacity < 2 ^ 36)
    (hs : loaderLoadFile L.toLayout d s tsk va = .ok (true, s')) :
    Held L s'.mm s'.user.nextFreeSpaceIndex (Function.update own tsk ((own tsk).image d va)) ∧
      ∀ t, t ≠ tsk → s'.mm.ctx t = s.mm.ctx t := by
  have hcap := d.capacity_eq
  have hmask : va &&& PAGE_MASK = va / PAGE_SIZE * PAGE_SIZE := Mm.and_pageMask (by omega)
  have hva : va / PAGE_SIZE * PAGE_SIZE % PAGE_SIZE = 0 := Nat.mul_mod_left _ _
  have hroom : va / PAGE_SIZE * PAGE_SIZE + d.pages * PAGE_SIZE ≤ 2 ^ 36 := by
    simp only [Disk.pages, PAGE_SIZE, kDiskSectorSize] at hcap ⊢
    omega
  have hstart : Progress d (va / PAGE_SIZE * PAGE_SIZE) 0 (va / PAGE_SIZE * PAGE_SIZE)
      d.sectors 0 :=
    ⟨by rw [Nat.zero_mul, Nat.add_zero], Nat.zero_add _, fun _ => rfl,
      fun hzero => by rw [Disk.pages, hzero], fun k hk => absurd hk (Nat.not_lt_zero k)⟩
  have h₀ : Held L s.mm s.user.nextFreeSpaceIndex
      (Function.update own tsk ((own tsk).imagePages d (va / PAGE_SIZE * PAGE_SIZE) 0)) := by
    rwa [Own.imagePages_zero, Function.update_eq_self]
  rw [loaderLoadFile, hmask] at hs
  have hload := h₀.loadPages hstart hva hroom hs
  rwa [Own.image_mask] at hload

/-! ### Runs -/

/-- What an event does to the memories of the guests. -/
def owns (own : TaskId → Own) (e : Event) : TaskId → Own :=
  match e.task with
  | none => own
  | some tsk => Function.update own tsk ((own tsk).act e)

/-- An event of one guest is no event of another. -/
theorem owns_apply (own : TaskId → Own) (e : Event) (t : TaskId) :
    owns own e t = if e.task = some t then (own t).act e else own t := by
  rw [owns]
  cases htask : e.task with
  | none => rfl
  | some tsk =>
    dsimp only
    rw [Function.update_apply]
    by_cases ht : t = tsk
    · rw [if_pos ht, if_pos (congrArg some ht.symm), ht]
    · rw [if_neg ht, if_neg fun heq => ht (Option.some.inj heq).symm]

/-- **What every event keeps**, of memory and of the memories of the guests. -/
structure Kept (L : BoardLayout b) (s : System) (own : TaskId → Own) : Prop where
  held : Held L s.memory.mm s.memory.user.nextFreeSpaceIndex own
  /-- A task that is not registered has no table. -/
  unborn : ∀ t, s.count ≤ t → (s.memory.mm.ctx t).page_table = 0

theorem Kept.inv {s : System} (h : Kept L s own) : Isolation.System.Inv b L.toLayout s :=
  ⟨h.held.tree, h.unborn, h.held.placed⟩

/-- At boot no guest has any memory. -/
theorem kept_boot (L : BoardLayout b) : Kept L .boot fun _ _ => none := by
  obtain ⟨htree, hunborn, hplaced⟩ := Isolation.System.inv_boot (b := b) (L := L.toLayout)
  refine ⟨⟨htree, hplaced, fun t f => ?_⟩, hunborn⟩
  refine Lib.Tenants.view_of_none (pageBehind_of_device (.inl ?_))
  change Mm.entryOf Mm.boot t _ = 0
  rw [Mm.entryOf, Mm.entryAt, Mm.noTables_boot.tableAt, Option.elim_none]

/-- Giving a page to a task leaves the tasks that are not registered. -/
theorem Kept.task {s : System} (h : Kept L s own) {memory : Memory} (htsk : tsk < s.count)
    {own' : TaskId → Own} (hheld : Held L memory.mm memory.user.nextFreeSpaceIndex own')
    (hctx : ∀ t, t ≠ tsk → memory.mm.ctx t = s.memory.mm.ctx t) :
    Kept L { s with memory } own' where
  held := hheld
  unborn t ht := by
    have hne : t ≠ tsk := (htsk.trans_le ht).ne'
    exact (congrArg MmContext.page_table (hctx t hne)).trans (h.unborn t ht)

/-- **One event** does to the guests what it does to their memories. -/
theorem Kept.event {s s' : System} (h : Kept L s own) {e : Event} (he : Legal b s e)
    (hs : step b L.toLayout s e = .ok s') : Kept L s' (owns own e) := by
  cases e with
  | load d tsk va =>
    obtain ⟨⟨ok, memory⟩, hl, hs⟩ := Lib.bind_eq_ok.mp hs
    cases ok with
    | false => cases hs
    | true =>
      obtain rfl := Except.ok.inj hs
      obtain ⟨-, htsk, hfit⟩ := he
      obtain ⟨hheld, hctx⟩ := h.held.load hfit hl
      exact h.task htsk hheld hctx
  | sys e =>
    cases e with
    | createTask =>
      have hinv := h.inv.createTask hs
      exact ⟨h.held.createTask h.inv hs, hinv.unborn⟩
    | pageMap tsk ipa =>
      obtain ⟨⟨page, memory⟩, hp, hs⟩ := Lib.bind_eq_ok.mp hs
      obtain rfl := Except.ok.inj hs
      obtain ⟨i, rfl, hpaged⟩ := pageMap_ok h.held.tree hp
      obtain ⟨hmem, -, -⟩ := pageMap_outside h.held.tree hp
      exact h.task he (h.held.zero hpaged hmem) hpaged.ctx
    | fault tsk addr =>
      obtain ⟨⟨ok, memory⟩, hp, hs⟩ := Lib.bind_eq_ok.mp hs
      obtain rfl := Except.ok.inj hs
      obtain ⟨i, hpaged, hmem⟩ := fault_paged h.held.tree he.2 hp
      exact h.task he.1 (h.held.zero hpaged hmem) hpaged.ctx
    | store tsk ipa value =>
      obtain rfl := Except.ok.inj hs
      exact ⟨h.held.store tsk ipa value, (h.inv.store tsk ipa value).unborn⟩

/-- **A run** does to each guest what its own events do to its memory. -/
theorem Kept.run {events : List Event} {s s' : System} (h : Kept L s own)
    (hlegal : Lib.Each (step b L.toLayout) (Legal b) s events)
    (hs : Lib.runFrom (step b L.toLayout) s events = .ok s') :
    Kept L s' fun t => (eventsOf t events).foldl Own.act (own t) := by
  induction events generalizing s own with
  | nil =>
    obtain rfl := Except.ok.inj hs
    exact h
  | cons e events ih =>
    obtain ⟨s₁, h₁, hs⟩ := Lib.runFrom_cons_eq_ok.mp hs
    have hrest := ih (h.event hlegal.1 h₁) (hlegal.2 s₁ h₁) hs
    have hown : (fun t => (eventsOf t (e :: events)).foldl Own.act (own t)) =
        fun t => (eventsOf t events).foldl Own.act (owns own e t) := by
      funext t
      rw [eventsOf, List.filter_cons, owns_apply]
      by_cases ht : e.task = some t
      · rw [if_pos (decide_eq_true ht), if_pos ht]
        rfl
      · rw [if_neg (by simpa using ht), if_neg ht]
        rfl
    rwa [hown]

/-- **Every guest has a memory of its own.** Tasks are created, images are loaded, faults are
answered and guests store to their memory, in any order, on every board and every layout for it:
what a guest finds at an address – whether there is a page, and which byte – is what it would
find in a memory of its own to which its own events have happened, and those of no other guest. -/
theorem guest_memory_own (b : BoardKind) (L : BoardLayout b) {events : List Event}
    (hlegal : Lib.Each (step b L.toLayout) (Legal b) .boot events) {s : System}
    (hs : Lib.runFrom (step b L.toLayout) .boot events = .ok s) (tsk : TaskId) (ipa : ℕ) :
    guestByte s.memory.mm tsk ipa = (Own.after (eventsOf tsk events)).byte ipa :=
  ((kept_boot L).run hlegal hs).held.guestByte tsk ipa

instance (b : BoardKind) (s : System) : ∀ e, Decidable (Legal b s e)
  | .sys e => inferInstanceAs (Decidable (Isolation.Legal s e))
  | .load d tsk va =>
    inferInstanceAs (Decidable (b = .qemu ∧ tsk < s.count ∧ va + d.capacity < 2 ^ 36))

/-- Two guests on the QEMU board are given the same image at the same addresses, and each stores
to its own. -/
def twoGuests : List Event :=
  [.sys .createTask, .sys .createTask, .load .nine 1 0x40000000, .load .nine 2 0x40000000,
    .sys (.store 1 0x40000008 7), .sys (.fault 1 0x50000010), .sys (.store 2 0x40000010 9)]

theorem guest_memory_own_two_guests :
    ∃ s, Lib.runFrom (step .qemu BoardLayout.qemu.toLayout) .boot twoGuests = .ok s ∧
      guestByte s.memory.mm 1 0x40000008 = some 7 ∧ guestByte s.memory.mm 1 0x40000010 = some 16 ∧
      guestByte s.memory.mm 2 0x40000008 = some 8 ∧ guestByte s.memory.mm 2 0x40000010 = some 9 ∧
      guestByte s.memory.mm 2 0x50000010 = none := by
  obtain ⟨s, hs⟩ := Lib.exists_ok_of_isOk (x := Lib.runFrom
    (step .qemu BoardLayout.qemu.toLayout) .boot twoGuests) (by decide +kernel)
  have hown := guest_memory_own .qemu .qemu (by decide +kernel) hs
  refine ⟨s, hs, ?_⟩
  rw [hown, hown, hown, hown, hown]
  decide +kernel

end GuestMemory

end Evisor
