import Evisor.Mm.Stage2Run
import Evisor.Mm.UserHeap

/-!
# Giving pages to guests

The two ways a task gets a page of the user region: the loader asks for one at an
address (`mm/pgtable_stage1.cc`), and a fault on an address that is not mapped is
answered with one (`mm/kmm_trap.cc`).
-/

namespace Evisor

/-- What paging reads and writes. -/
structure Memory where
  /-- The tables, and the heap they are made from. -/
  mm : Mm
  /-- The allocator of the user region. -/
  user : UserMap
  /-- `Tcb::stat`. -/
  stat : TaskId → TaskStat

/-- Memory at boot. -/
def Memory.boot : Memory := ⟨.boot, .boot, fun _ => ⟨false, false, 0, 0, 0, 0, 0⟩⟩

/-- `PgTableStage1::PageAllocate`. -/
def pageAllocate (L : Layout) (s : Memory) : Except Fault (ℕ × Memory) := do
  let (page, mem, user) ← ummZalloc L s.mm.mem s.user PAGE_SIZE
  return (page, { s with mm := { s.mm with mem }, user })

/-- `PgTableStage1::PageMap`. -/
def pageMap (L : Layout) (s : Memory) (tsk : TaskId) (ipa : ℕ) : Except Fault (ℕ × Memory) := do
  let (page, s) ← pageAllocate L s
  let mm ← mapPageAccessible L s.mm tsk ipa page
  return (page, { s with mm })

/-- `HandleMmTrapMemoryAccessFault`, of the current task. -/
def handleMmTrapMemoryAccessFault (L : Layout) (s : Memory) (tsk : TaskId) (addr : ℕ) :
    Except Fault (Bool × Memory) := do
  let (page, s) ← pageAllocate L s
  if page = 0 then return (false, s)
  else do
    let mm ← mapNewPage L s.mm tsk addr page
    let stat := Function.update s.stat tsk
      { s.stat tsk with page_faults := (s.stat tsk).page_faults + 1 }
    return (true, { s with mm, stat })

namespace Mm

variable {L : Layout} {s : Mm}

/-- **Memory outside the heap** is not read by any walk. -/
theorem Inv.congr_mem (h : Inv L s) {m : Mem}
    (hmem : ∀ page, L.InHeap page → ∀ i : Fin PTRS_PER_TABLE,
      m (page + 8 * i) = s.mem (page + 8 * i)) :
    Inv L { s with mem := m } ∧ ∀ t ipa, entryOf { s with mem := m } t ipa = s.entryOf t ipa := by
  obtain ⟨hinv, hsame⟩ := h.frame (m := { s with mem := m }) rfl (fun ha => ha)
    fun hp ht i => hmem _ (h.allocated hp ht).inHeap i
  exact ⟨hinv, fun t ipa => hsame t _ _ rfl⟩

end Mm

/-- No word of a table is in the user region. -/
theorem Layout.InUser.apart {L : Layout} {user heap : ℕ} (hu : L.InUser user) (hh : L.InHeap heap)
    (i : Fin PTRS_PER_TABLE) : heap + 8 * i.val < user := by
  have := L.heap_end
  have := L.uncached_end
  have hi := i.isLt
  obtain ⟨-, hlo, -⟩ := hu
  obtain ⟨-, -, hhi⟩ := hh
  simp only [PTRS_PER_TABLE, kHeapSize, kUncachedSize, PAGE_SIZE] at *
  omega

variable {L : Layout} {s : Memory}

/-- **A page given to a guest** is one of the user region, above all those given
before, and the tables are as they were. -/
theorem pageAllocate_ok (h : s.mm.Inv L) {page : ℕ} {s' : Memory}
    (hp : pageAllocate L s = .ok (page, s')) :
    ∃ i < kPagingPages, s.user.nextFreeSpaceIndex ≤ i ∧ page = L.userPage i ∧
      s'.user.nextFreeSpaceIndex = i + 1 ∧ s'.stat = s.stat ∧ s'.mm.heap = s.mm.heap ∧
      s'.mm.ctx = s.mm.ctx ∧ s'.mm.Inv L ∧ ∀ t ipa, s'.mm.entryOf t ipa = s.mm.entryOf t ipa := by
  obtain ⟨⟨page₁, mem, user⟩, hz, hp⟩ := Lib.bind_eq_ok.mp hp
  obtain ⟨rfl, rfl⟩ := Prod.mk.inj (Except.ok.inj hp)
  obtain ⟨i, hi, hle, rfl, hnext, rfl⟩ := ummZalloc_ok hz
  obtain ⟨hinv, hentry⟩ := h.congr_mem (m := s.mm.mem.memzero (L.userPage i) PAGE_SIZE) (by
    intro heap hheap j
    have hlt := (inUser_userPage L hi).apart hheap j
    rw [Mem.memzero, if_neg (by omega)])
  exact ⟨i, hi, hle, rfl, hnext, rfl, rfl, rfl, hinv, hentry⟩

theorem pageAllocate_error {f : Fault} (hp : pageAllocate L s = .error f) : f.OutOfMemory := by
  rcases Lib.bind_eq_error.mp hp with h | ⟨_, -, h⟩
  · exact ummZalloc_error h
  · cases h

/-- **What a page given to a task does to the tables**: the entry of the address leads
to the page, and no other entry has changed, nor the context of another task. -/
structure Paged (L : Layout) (s : Memory) (tsk : TaskId) (ipa i : ℕ) (s' : Memory) : Prop where
  index : i < kPagingPages
  next_le : s.user.nextFreeSpaceIndex ≤ i
  next : s'.user.nextFreeSpaceIndex = i + 1
  inv : s'.mm.Inv L
  entry : ∀ t ipa', s'.mm.entryOf t ipa' =
    if t = tsk ∧ ipa' / 4096 % 2 ^ 27 = ipa / 4096 % 2 ^ 27 then L.userPage i ||| kStage2PteDram
    else s.mm.entryOf t ipa'
  ctx : ∀ t, t ≠ tsk → s'.mm.ctx t = s.mm.ctx t

theorem pageMap_ok (h : s.mm.Inv L) {tsk : TaskId} {ipa page : ℕ} {s' : Memory}
    (hp : pageMap L s tsk ipa = .ok (page, s')) :
    ∃ i, page = L.userPage i ∧ Paged L s tsk ipa i s' := by
  obtain ⟨⟨page₁, s₁⟩, ha, hp⟩ := Lib.bind_eq_ok.mp hp
  obtain ⟨i, hi, hle, rfl, hnext, -, -, hctx, hinv₁, hsame⟩ := pageAllocate_ok h ha
  obtain ⟨mm, hm, hp⟩ := Lib.bind_eq_ok.mp hp
  obtain ⟨⟨pte, mm₁⟩, hmap, hmm⟩ := Lib.bind_eq_ok.mp hm
  obtain rfl := Except.ok.inj hmm
  obtain ⟨rfl, rfl⟩ := Prod.mk.inj (Except.ok.inj hp)
  obtain ⟨hinv, hentry⟩ := hinv₁.mapPage hmap
  exact ⟨i, rfl, hi, hle, hnext, hinv, fun t ipa' => by rw [hentry, hsame],
    fun t ht => (Mm.mapPage_ctx hmap ht).trans (congrFun hctx t)⟩

theorem pageMap_error {tsk : TaskId} {ipa : ℕ} {f : Fault} (hp : pageMap L s tsk ipa = .error f) :
    f.OutOfMemory := by
  rcases Lib.bind_eq_error.mp hp with h | ⟨_, -, h⟩
  · exact pageAllocate_error h
  rcases Lib.bind_eq_error.mp h with h | ⟨_, -, h⟩
  · rcases Lib.bind_eq_error.mp h with h | ⟨_, -, h⟩
    · exact Mm.mapPage_error h
    · cases h
  · cases h

/-- **What a page given to a task does to memory** outside the heap: the page is cleared,
and it is marked as the only one that was not. -/
theorem pageMap_outside (h : s.mm.Inv L) {tsk : TaskId} {ipa i : ℕ} {s' : Memory}
    (hp : pageMap L s tsk ipa = .ok (L.userPage i, s')) :
    (∀ a, ¬(L.kHeapStart ≤ a ∧ a < L.kHeapStart + kHeapSize) →
      s'.mm.mem a = s.mm.mem.memzero (L.userPage i) PAGE_SIZE a) ∧
    ¬s.user.Out i ∧ ∀ j, s'.user.Out j ↔ s.user.Out j ∨ j = i := by
  obtain ⟨⟨page₁, s₁⟩, ha, hp⟩ := Lib.bind_eq_ok.mp hp
  obtain ⟨j, -, -, hpage, -, -, -, -, hinv₁, -⟩ := pageAllocate_ok h ha
  obtain ⟨⟨page₂, mem, user⟩, hz, ha⟩ := Lib.bind_eq_ok.mp ha
  obtain ⟨rfl, rfl⟩ := Prod.mk.inj (Except.ok.inj ha)
  obtain ⟨mm, hm, hp⟩ := Lib.bind_eq_ok.mp hp
  obtain ⟨⟨pte, mm₁⟩, hmap, hmm⟩ := Lib.bind_eq_ok.mp hm
  obtain rfl := Except.ok.inj hmm
  obtain ⟨heq, rfl⟩ := Prod.mk.inj (Except.ok.inj hp)
  obtain rfl : page₂ = L.userPage i := heq
  obtain ⟨-, -, -, -, -, rfl⟩ := ummZalloc_ok hz
  exact ⟨fun a hout => hinv₁.mapPage_outside hmap hout, ummZalloc_out hz⟩

/-- **A fault is answered** with a page at the frame of the address it is handled
with. -/
theorem handleMmTrapMemoryAccessFault_ok (h : s.mm.Inv L) {tsk : TaskId} {addr : ℕ} {ok : Bool}
    {s' : Memory} (haddr : addr < 2 ^ 64)
    (hp : handleMmTrapMemoryAccessFault L s tsk addr = .ok (ok, s')) :
    ok = true ∧ ∃ i, Paged L s tsk addr i s' := by
  obtain ⟨⟨page₁, s₁⟩, ha, hp⟩ := Lib.bind_eq_ok.mp hp
  obtain ⟨i, hi, hle, rfl, hnext, -, -, hctx, hinv₁, hsame⟩ := pageAllocate_ok h ha
  obtain ⟨-, hpos, -⟩ := (inUser_userPage L hi).bounds
  simp only [if_neg hpos.ne'] at hp
  obtain ⟨mm, hm, hp⟩ := Lib.bind_eq_ok.mp hp
  obtain ⟨⟨pte, mm₁⟩, hmap, hmm⟩ := Lib.bind_eq_ok.mp hm
  obtain rfl := Except.ok.inj hmm
  obtain ⟨rfl, rfl⟩ := Prod.mk.inj (Except.ok.inj hp)
  obtain ⟨hinv, hentry⟩ := hinv₁.mapPage hmap
  refine ⟨rfl, i, hi, hle, hnext, hinv, fun t ipa' => ?_,
    fun t ht => (Mm.mapPage_ctx hmap ht).trans (congrFun hctx t)⟩
  rw [hentry, hsame, Mm.mask_frame haddr]

theorem handleMmTrapMemoryAccessFault_error {tsk : TaskId} {addr : ℕ} {f : Fault}
    (hp : handleMmTrapMemoryAccessFault L s tsk addr = .error f) : f.OutOfMemory := by
  rcases Lib.bind_eq_error.mp hp with h | ⟨⟨page, s₁⟩, -, h⟩
  · exact pageAllocate_error h
  · dsimp only at h
    split at h
    · cases h
    · rcases Lib.bind_eq_error.mp h with h | ⟨_, -, h⟩
      · rcases Lib.bind_eq_error.mp h with h | ⟨_, -, h⟩
        · exact Mm.mapPage_error h
        · cases h
      · cases h

end Evisor
