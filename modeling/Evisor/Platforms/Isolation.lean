import Evisor.Kernel.Sched
import Evisor.Platforms.BoardMap

/-!
# What a guest can reach

Tasks are created, the loader maps their images, their faults are answered and they
store to memory, in any order. What the tables of the tasks say is then of two kinds
only (`Evisor.Isolation.Placed`): pages of devices, put there when the board was
initialised, and pages of the user region – and each of those is behind one entry of
one task. That every page given is above all pages given before is what keeps the
second apart.

A store of a guest changes the word its tables lead to. It is a step like the others
here, so that the tables which confine a guest are never assumed to be intact: that
they are is part of what is proved.
-/

namespace Evisor

namespace Isolation

/-- The tasks, and the memory they share. -/
structure System where
  /-- Memory. -/
  memory : Memory
  /-- `count_tsks_`. -/
  count : ℕ

/-- The system after `Sched::Init`, with the task `init` alone. -/
def System.boot : System := ⟨.boot, 1⟩

/-- What happens to memory. -/
inductive Event where
  /-- `Sched::CreateTask`. -/
  | createTask
  /-- `PgTableStage1::PageMap`, called by the loader for a task. -/
  | pageMap (tsk : TaskId) (ipa : ℕ)
  /-- A stage 2 translation fault of a task, at the address `FAR_EL2` gives. -/
  | fault (tsk : TaskId) (addr : ℕ)
  /-- A store of a guest. -/
  | store (tsk : TaskId) (ipa value : ℕ)

/-- What `CreateTask` does to memory: the `Tcb` is a cleared page, the board maps its
devices, and the task is registered in a table of `kNrTasks`. -/
def createTask (b : BoardKind) (L : Layout) (s : System) : Except Fault System := do
  let (_, mm) ← s.memory.mm.zalloc L
  let mm ← boardInit L b (mm.setContext s.count ⟨0, 0⟩) s.count
  if s.count < kNrTasks then return ⟨{ s.memory with mm }, s.count + 1⟩ else .error .outOfBounds

/-- `S2AP`: what a descriptor allows at EL1. -/
def s2ap (desc : ℕ) : ℕ := (desc >>> 6) &&& 3

/-- A store of a guest: where its tables allow one, the word is changed, and otherwise
it traps. -/
def guestStore (s : Mm) (tsk : TaskId) (ipa value : ℕ) : Mm :=
  match s.translate tsk ipa with
  | .page desc =>
    if s2ap desc &&& 2 ≠ 0 then s.store (descAddr desc + ipa % PAGE_SIZE / 8 * 8) value else s
  | _ => s

/-- One event. -/
def step (b : BoardKind) (L : Layout) (s : System) : Event → Except Fault System
  | .createTask => createTask b L s
  | .pageMap tsk ipa => do
    let (_, memory) ← Evisor.pageMap L s.memory tsk ipa
    return { s with memory }
  | .fault tsk addr => do
    let (_, memory) ← handleMmTrapMemoryAccessFault L s.memory tsk addr
    return { s with memory }
  | .store tsk ipa value =>
    .ok { s with memory := { s.memory with mm := guestStore s.memory.mm tsk ipa value } }

/-- Only tasks that exist are given pages. -/
def Legal (s : System) : Event → Prop
  | .createTask => True
  | .pageMap tsk _ => tsk < s.count
  | .fault tsk addr => tsk < s.count ∧ addr < 2 ^ 64
  | .store _ _ _ => True

/-- **The guests are isolated.** -/
structure Isolated (b : BoardKind) (L : Layout) (s : System) : Prop where
  /-- Only entries of the last level end a walk. -/
  no_block : ∀ t ipa desc, s.memory.mm.translate t ipa ≠ .block desc
  /-- What a guest may access is a page of the virtual interrupt interface or a page
  of the user region. -/
  reach : ∀ t ipa desc, ipa < 2 ^ 39 → s.memory.mm.translate t ipa = .page desc → s2ap desc ≠ 0 →
    descAddr desc ∈ b.virtualCpuPages ∨ L.InUser (descAddr desc)
  /-- A page of the user region is behind one entry of one task. -/
  sole : ∀ t ipa t' ipa' desc desc', ipa < 2 ^ 39 → ipa' < 2 ^ 39 →
    s.memory.mm.translate t ipa = .page desc → s.memory.mm.translate t' ipa' = .page desc' →
    descAddr desc = descAddr desc' → L.InUser (descAddr desc) →
    t = t' ∧ ipa / PAGE_SIZE = ipa' / PAGE_SIZE
  /-- What a guest may access has no byte in the heap, where the task control blocks
  and the tables are, nor in the uncached region. -/
  apart : ∀ t ipa desc, ipa < 2 ^ 39 → s.memory.mm.translate t ipa = .page desc →
    s2ap desc ≠ 0 → ∀ a, descAddr desc ≤ a → a < descAddr desc + PAGE_SIZE →
    ¬(L.kHeapStart ≤ a ∧ a < L.kHeapStart + kHeapSize) ∧
    ¬(L.kUncachedStart ≤ a ∧ a < L.kUncachedStart + kUncachedSize)

/-! ### What the entries are -/

/-- An entry made when a board was initialised. -/
def DeviceEntry (b : BoardKind) (entry : ℕ) : Prop :=
  (∃ pa ∈ b.distributorPages ++ b.uartPages, entry = pa ||| kStage2PteDeviceNotAccessible) ∨
    ∃ pa ∈ b.virtualCpuPages, entry = pa ||| kStage2PteDeviceAccessible

/-- **What the entries of all tasks are**, when the pages of the user region below
`next` are out. -/
structure Placed (b : BoardKind) (L : Layout) (next : ℕ) (E : TaskId → ℕ → ℕ) : Prop where
  /-- Nothing, a device, or a page of the user region. -/
  kind : ∀ t ipa, E t ipa = 0 ∨ DeviceEntry b (E t ipa) ∨
    ∃ i < next, i < kPagingPages ∧ E t ipa = L.userPage i ||| kStage2PteDram
  /-- A page of the user region is entered once. -/
  sole : ∀ t ipa t' ipa' i, E t ipa = L.userPage i ||| kStage2PteDram →
    E t' ipa' = L.userPage i ||| kStage2PteDram →
    t = t' ∧ ipa / 4096 % 2 ^ 27 = ipa' / 4096 % 2 ^ 27

variable {b : BoardKind} {L : Layout} {next : ℕ} {E E' : TaskId → ℕ → ℕ}

/-- Device pages are pages. -/
theorem devicePage_bounds : ∀ pa ∈ b.distributorPages ++ b.virtualCpuPages ++ b.uartPages,
    pa % 4096 = 0 ∧ 0 < pa ∧ pa < 2 ^ 36 := by
  cases b <;> decide

/-- The flags of an entry are told apart from its page. -/
theorem or_flags {page flags : ℕ} (hal : page % 4096 = 0) (hpa : page < 2 ^ 36)
    (hflags : flags < 4096) :
    (page ||| flags) % 4096 = flags ∧ descAddr (page ||| flags) = page := by
  have hmask : (0x0000fffffffff000 : ℕ) = (2 ^ 36 - 1) <<< 12 := by decide
  rw [Lib.or_eq_add (k := 12) hal hflags]
  refine ⟨Lib.add_mod_of_aligned hal hflags, ?_⟩
  rw [descAddr, hmask, Lib.and_mask_eq (by omega)]
  exact Lib.add_div_mul_of_aligned hal hflags

/-- What an entry allows is in its flags. -/
theorem s2ap_eq (desc : ℕ) : s2ap desc = desc % 4096 / 64 % 4 :=
  (Lib.shiftRight_and_mask desc 6 2).trans (by omega)

theorem userEntry {i : ℕ} (hi : i < kPagingPages) :
    (L.userPage i ||| kStage2PteDram) % 4096 = kStage2PteDram ∧
      descAddr (L.userPage i ||| kStage2PteDram) = L.userPage i := by
  obtain ⟨hal, -, hlt⟩ := (inUser_userPage L hi).bounds
  exact or_flags hal hlt (by decide)

/-- **An entry of a device** either allows nothing, or leads to the virtual interrupt
interface; and it is not marked as memory. -/
theorem DeviceEntry.spec {entry : ℕ} (h : DeviceEntry b entry) :
    entry % 4096 ≠ kStage2PteDram ∧
      descAddr entry ∈ b.distributorPages ++ b.virtualCpuPages ++ b.uartPages ∧
      (s2ap entry ≠ 0 → descAddr entry ∈ b.virtualCpuPages) := by
  rcases h with ⟨pa, hpa, rfl⟩ | ⟨pa, hpa, rfl⟩
  · have hmem : pa ∈ b.distributorPages ++ b.virtualCpuPages ++ b.uartPages := by
      simp only [List.mem_append] at hpa ⊢
      tauto
    obtain ⟨hal, -, hlt⟩ := devicePage_bounds pa hmem
    obtain ⟨hmod, haddr⟩ := or_flags hal hlt (by decide : kStage2PteDeviceNotAccessible < 4096)
    rw [haddr, s2ap_eq, hmod]
    exact ⟨by decide, hmem, fun hne => absurd rfl hne⟩
  · have hmem : pa ∈ b.distributorPages ++ b.virtualCpuPages ++ b.uartPages := by
      simp only [List.mem_append]
      tauto
    obtain ⟨hal, -, hlt⟩ := devicePage_bounds pa hmem
    obtain ⟨hmod, haddr⟩ := or_flags hal hlt (by decide : kStage2PteDeviceAccessible < 4096)
    rw [haddr, hmod]
    exact ⟨by decide, hmem, fun _ => hpa⟩

theorem userEntry_inj {i j : ℕ} (hi : i < kPagingPages) (hj : j < kPagingPages)
    (h : L.userPage i ||| kStage2PteDram = L.userPage j ||| kStage2PteDram) : i = j := by
  have haddr := congrArg descAddr h
  rw [(userEntry hi).2, (userEntry hj).2] at haddr
  exact userPage_inj haddr

/-- Mapping a device keeps what the entries are. -/
theorem Placed.device (h : Placed b L next E) {t₀ : TaskId} {frame entry : ℕ}
    (hd : DeviceEntry b entry)
    (hE : ∀ t ipa, E' t ipa =
      if t = t₀ ∧ ipa / 4096 % 2 ^ 27 = frame then entry else E t ipa) :
    Placed b L next E' where
  kind t ipa := by
    rw [hE]
    split
    · exact .inr (.inl hd)
    · exact h.kind t ipa
  sole t ipa t' ipa' i hi hi' := by
    have hne : entry ≠ L.userPage i ||| kStage2PteDram := by
      rintro rfl
      refine hd.spec.1 ?_
      have hal : L.userPage i % 4096 = 0 := by
        have := L.user_aligned
        simp only [Layout.userPage, PAGE_SIZE] at *
        omega
      rw [Lib.or_eq_add (k := 12) hal (by decide)]
      exact Lib.add_mod_of_aligned hal (by decide)
    rw [hE] at hi hi'
    split at hi
    · exact absurd hi hne
    split at hi'
    · exact absurd hi' hne
    exact h.sole t ipa t' ipa' i hi hi'

/-- Giving a page that is not out keeps what the entries are. -/
theorem Placed.user (h : Placed b L next E) {t₀ : TaskId} {frame i : ℕ} (hi : i < kPagingPages)
    (hnext : next ≤ i)
    (hE : ∀ t ipa, E' t ipa = if t = t₀ ∧ ipa / 4096 % 2 ^ 27 = frame
      then L.userPage i ||| kStage2PteDram else E t ipa) :
    Placed b L (i + 1) E' where
  kind t ipa := by
    rw [hE]
    split
    · exact .inr (.inr ⟨i, Nat.lt_succ_self i, hi, rfl⟩)
    · rcases h.kind t ipa with h0 | hd | ⟨j, hj, hjk, heq⟩
      · exact .inl h0
      · exact .inr (.inl hd)
      · exact .inr (.inr ⟨j, by omega, hjk, heq⟩)
  sole t ipa t' ipa' j hj hj' := by
    -- an entry of before is of a page that was out
    have hold : ∀ t ipa, E t ipa = L.userPage j ||| kStage2PteDram → i ≠ j := by
      rintro t ipa heq rfl
      rcases h.kind t ipa with h0 | hd | ⟨k, hk, hkk, hk'⟩
      · have hmod := (userEntry (L := L) hi).1
        rw [← heq, h0] at hmod
        exact absurd hmod (by decide)
      · exact hd.spec.1 (by rw [heq]; exact (userEntry hi).1)
      · have := userEntry_inj hi hkk (heq.symm.trans hk')
        omega
    have hnew : L.userPage i ||| kStage2PteDram = L.userPage j ||| kStage2PteDram → i = j := by
      intro heq
      have hal : ∀ k, L.userPage k % 4096 = 0 := by
        intro k
        have := L.user_aligned
        simp only [Layout.userPage, PAGE_SIZE] at *
        omega
      rw [Lib.or_eq_add (k := 12) (hal i) (by decide),
        Lib.or_eq_add (k := 12) (hal j) (by decide)] at heq
      exact userPage_inj (Nat.add_right_cancel heq)
    rw [hE] at hj hj'
    split at hj <;> split at hj'
    · rename_i hpos hpos'
      exact ⟨hpos.1.trans hpos'.1.symm, hpos.2.trans hpos'.2.symm⟩
    · exact absurd (hnew hj) (hold t' ipa' hj')
    · exact absurd (hnew hj') (hold t ipa hj)
    · exact h.sole t ipa t' ipa' j hj hj'

/-! ### The events keep what the entries are -/

/-- **What every event keeps.** -/
structure System.Inv (b : BoardKind) (L : Layout) (s : System) : Prop where
  /-- The tables are trees. -/
  tree : s.memory.mm.Inv L
  /-- A task that is not registered has no table. -/
  unborn : ∀ t, s.count ≤ t → (s.memory.mm.ctx t).page_table = 0
  /-- What the tables say. -/
  placed : Placed b L s.memory.user.nextFreeSpaceIndex s.memory.mm.entryOf

theorem System.inv_boot : System.Inv b L .boot where
  tree := Mm.noTables_boot.inv
  unborn _ _ := rfl
  placed :=
    have hzero : ∀ t ipa, Mm.boot.entryOf t ipa = 0 := fun t ipa => by
      rw [Mm.entryOf, Mm.entryAt, Mm.noTables_boot.tableAt, Option.elim_none]
    { kind := fun t ipa => .inl (hzero t ipa)
      sole := fun t ipa _ _ i hi _ => by
        have hne : L.userPage i ||| kStage2PteDram ≠ 0 := fun h =>
          absurd (Nat.or_eq_zero_iff.mp h).2 (by decide)
        exact absurd (hi.symm.trans (hzero t ipa)) hne }

/-- One of the loops of `Board::Init` keeps what the entries are. -/
theorem mapDevicePages_ok {s s' : Mm} {tsk : TaskId} {accessable : Bool} {ipa : ℕ → ℕ}
    {pages : List ℕ} (hinv : s.Inv L) (hplaced : Placed b L next s.entryOf)
    (hdev : ∀ pa ∈ pages, DeviceEntry b (pa ||| if accessable then kStage2PteDeviceAccessible
      else kStage2PteDeviceNotAccessible))
    (h : mapDevicePages L s tsk accessable ipa pages = .ok s') :
    s'.Inv L ∧ Placed b L next s'.entryOf ∧ ∀ t, t ≠ tsk → s'.ctx t = s.ctx t := by
  induction pages generalizing s with
  | nil =>
    obtain rfl := Except.ok.inj h
    exact ⟨hinv, hplaced, fun _ _ => rfl⟩
  | cons pa rest ih =>
    obtain ⟨hpa, hrest⟩ := List.forall_mem_cons.mp hdev
    obtain ⟨s₁, h₁, h⟩ := Lib.bind_eq_ok.mp h
    obtain ⟨⟨pte, s₂⟩, hm, h₁⟩ := Lib.bind_eq_ok.mp h₁
    obtain rfl := Except.ok.inj h₁
    obtain ⟨hinv₁, hentry⟩ := hinv.mapPage hm
    obtain ⟨hinv', hplaced', hctx⟩ := ih hinv₁ (hplaced.device hpa hentry) hrest h
    exact ⟨hinv', hplaced', fun t ht => (hctx t ht).trans (Mm.mapPage_ctx hm ht)⟩

theorem consoleAlloc_mono {heap heap' : HeapMap} (h : consoleAlloc L heap = .ok heap') {page : ℕ}
    (hp : Allocated L heap page) : Allocated L heap' page := by
  have hone : ∀ {size heap heap' p}, 1 ≤ size → kmmMalloc L heap size = .ok (p, heap') →
      Allocated L heap page → Allocated L heap' page := by
    intro size heap heap' p hsize hm hp
    obtain ⟨i, -, -, -, rfl⟩ := kmmMalloc_ok hsize hm
    exact hp.update i
  obtain ⟨⟨_, heap₁⟩, h₁, h⟩ := Lib.bind_eq_ok.mp h
  obtain ⟨⟨_, heap₂⟩, h₂, h⟩ := Lib.bind_eq_ok.mp h
  obtain ⟨⟨_, heap₃⟩, h₃, h⟩ := Lib.bind_eq_ok.mp h
  obtain ⟨⟨_, heap₄⟩, h₄, h⟩ := Lib.bind_eq_ok.mp h
  obtain ⟨⟨_, heap₅⟩, h₅, h⟩ := Lib.bind_eq_ok.mp h
  obtain rfl := Except.ok.inj h
  exact hone (by decide) h₅ (hone (by decide) h₄ (hone (by decide) h₃
    (hone (by decide) h₂ (hone (by decide) h₁ hp))))

/-- **Initialising a board** for a task maps devices, and nothing else. -/
theorem boardInit_ok {s s' : Mm} {tsk : TaskId} (hinv : s.Inv L)
    (hplaced : Placed b L next s.entryOf) (h : boardInit L b s tsk = .ok s') :
    s'.Inv L ∧ Placed b L next s'.entryOf ∧ ∀ t, t ≠ tsk → s'.ctx t = s.ctx t := by
  obtain ⟨heap, hh, h⟩ := Lib.bind_eq_ok.mp h
  obtain ⟨s₁, h₁, h⟩ := Lib.bind_eq_ok.mp h
  obtain ⟨s₂, h₂, h⟩ := Lib.bind_eq_ok.mp h
  obtain ⟨hinv₀, hsame⟩ := hinv.frame (m := { s with heap }) rfl (consoleAlloc_mono hh)
    (fun _ _ _ => rfl)
  have hplaced₀ : Placed b L next (Mm.entryOf { s with heap }) := by
    rwa [show Mm.entryOf { s with heap } = s.entryOf from
      funext fun t => funext fun ipa => hsame t _ _ rfl]
  obtain ⟨hinv₁, hplaced₁, hctx₁⟩ := mapDevicePages_ok hinv₀ hplaced₀
    (fun pa hpa => .inl ⟨pa, List.mem_append_left _ hpa, rfl⟩) h₁
  obtain ⟨hinv₂, hplaced₂, hctx₂⟩ := mapDevicePages_ok hinv₁ hplaced₁
    (fun pa hpa => .inr ⟨pa, hpa, rfl⟩) h₂
  obtain ⟨hinv₃, hplaced₃, hctx₃⟩ := mapDevicePages_ok hinv₂ hplaced₂
    (fun pa hpa => .inl ⟨pa, List.mem_append_right _ hpa, rfl⟩) h
  exact ⟨hinv₃, hplaced₃, fun t ht =>
    (hctx₃ t ht).trans ((hctx₂ t ht).trans (hctx₁ t ht))⟩

/-- Creating a task keeps the invariant. -/
theorem System.Inv.createTask {s s' : System} (h : System.Inv b L s)
    (hs : createTask b L s = .ok s') : System.Inv b L s' := by
  obtain ⟨⟨n, mm₁⟩, hz, hs⟩ := Lib.bind_eq_ok.mp hs
  obtain ⟨mm₂, hb, hs⟩ := Lib.bind_eq_ok.mp hs
  have hf := Mm.fresh_of_zalloc hz
  obtain ⟨hinv₁, hsame₁⟩ := h.tree.fresh hf
  -- the new task had no table, and is given none yet
  have hroot : Mm.root (mm₁.setContext s.count ⟨0, 0⟩).ctx = Mm.root mm₁.ctx := by
    funext t
    rw [Mm.root_setContext]
    split
    case isTrue ht =>
      subst ht
      rw [hf.ctx, Mm.root_of_zero (h.unborn _ le_rfl), if_pos rfl]
    · rfl
  obtain ⟨hinv₂, hsame₂⟩ := hinv₁.frame (m := mm₁.setContext s.count ⟨0, 0⟩) hroot
    (fun ha => ha) (fun _ _ _ => rfl)
  have hplaced : Placed b L s.memory.user.nextFreeSpaceIndex
      (mm₁.setContext s.count ⟨0, 0⟩).entryOf := by
    rw [show (mm₁.setContext s.count ⟨0, 0⟩).entryOf = s.memory.mm.entryOf from
      funext fun t => funext fun ipa => (hsame₂ t _ _ rfl).trans (hsame₁ t _ _ rfl)]
    exact h.placed
  obtain ⟨hinv₃, hplaced₃, hctx⟩ := boardInit_ok hinv₂ hplaced hb
  split at hs
  · obtain rfl := Except.ok.inj hs
    refine ⟨hinv₃, fun t ht => ?_, hplaced₃⟩
    have ht' : s.count < t := ht
    rw [hctx t ht'.ne', show (mm₁.setContext s.count ⟨0, 0⟩).ctx t = mm₁.ctx t from
      Function.update_of_ne ht'.ne' .., hf.ctx]
    exact h.unborn t ht'.le
  · cases hs

/-- Giving a page to a task keeps the invariant. -/
theorem System.Inv.paged {s : System} (h : System.Inv b L s) {tsk ipa i : ℕ} {memory : Memory}
    (htsk : tsk < s.count) (hp : Paged L s.memory tsk ipa i memory) :
    System.Inv b L { s with memory } where
  tree := hp.inv
  unborn t ht := by
    have hne : t ≠ tsk := (htsk.trans_le ht).ne'
    exact (congrArg MmContext.page_table (hp.ctx t hne)).trans (h.unborn t ht)
  placed := by
    rw [show ({ s with memory } : System).memory.user.nextFreeSpaceIndex = i + 1 from hp.next]
    exact h.placed.user hp.index hp.next_le hp.entry

/-- **What an entry gives access to**, once its page is known. -/
theorem Placed.target (h : Placed b L next E) (t ipa : ℕ) (hne : E t ipa % 4 = 3) :
    s2ap (E t ipa) ≠ 0 →
      descAddr (E t ipa) ∈ b.virtualCpuPages ∨ L.InUser (descAddr (E t ipa)) := by
  intro hacc
  rcases h.kind t ipa with h0 | hd | ⟨i, -, hi, heq⟩
  · rw [h0] at hne
    exact absurd hne (by decide)
  · exact .inl (hd.spec.2.2 hacc)
  · rw [heq, (userEntry hi).2]
    exact .inr (inUser_userPage L hi)

/-- An entry that ends a walk is found there. -/
theorem translationOf_eq {entry desc : ℕ} (h : Mm.translationOf entry = .page desc) :
    desc = entry ∧ entry % 4 = 3 := by
  rw [Mm.translationOf] at h
  split at h
  case isTrue h3 =>
    exact ⟨(Translation.page.inj h).symm, h3⟩
  · cases h

/-- A page a guest may access, and a byte of it, are outside the heap and the uncached
region. -/
theorem accessible_apart {L : BoardLayout b} {page a : ℕ}
    (h : page ∈ b.virtualCpuPages ∨ L.InUser page) (hlo : page ≤ a) (hhi : a < page + PAGE_SIZE) :
    ¬(L.kHeapStart ≤ a ∧ a < L.kHeapStart + kHeapSize) ∧
      ¬(L.kUncachedStart ≤ a ∧ a < L.kUncachedStart + kUncachedSize) := by
  have hheap := L.heap_end
  have hunc := L.uncached_end
  rcases h with hv | ⟨-, hu, -⟩
  · have hdev := L.devices_apart page (by simp only [List.mem_append]; tauto)
    omega
  · omega

/-- A store of a guest keeps the invariant: it is not to a table. -/
theorem System.Inv.store {L : BoardLayout b} {s : System} (h : System.Inv b L.toLayout s)
    (tsk ipa value : ℕ) : System.Inv b L.toLayout
      { s with memory := { s.memory with mm := guestStore s.memory.mm tsk ipa value } } := by
  rw [guestStore, h.tree.translate_eq]
  cases htr : Mm.translationOf (s.memory.mm.entryOf tsk ipa) with
  | invalid => exact h
  | block desc => exact h
  | page desc =>
    dsimp only
    split_ifs with hw
    · obtain ⟨rfl, h3⟩ := translationOf_eq htr
      have hacc : s2ap (s.memory.mm.entryOf tsk ipa) ≠ 0 := fun h0 => hw (by rw [h0]; rfl)
      have htarget := h.placed.target tsk ipa h3 hacc
      set a := descAddr (s.memory.mm.entryOf tsk ipa) + ipa % PAGE_SIZE / 8 * 8 with ha
      have hoff : ipa % PAGE_SIZE / 8 * 8 < PAGE_SIZE := by simp only [PAGE_SIZE]; omega
      obtain ⟨hnot, -⟩ := accessible_apart (L := L) htarget (Nat.le_add_right _ _)
        (Nat.add_lt_add_left hoff _)
      obtain ⟨hinv, hsame⟩ := h.tree.congr_mem (m := Function.update s.memory.mm.mem a value) (by
        intro page hpage i
        refine Function.update_of_ne (fun heq => hnot ?_) ..
        rw [← ha, ← heq]
        have hi := i.isLt
        obtain ⟨-, hlo, hhi⟩ := hpage
        simp only [PTRS_PER_TABLE, PAGE_SIZE] at hi hhi
        omega)
      refine ⟨hinv, h.unborn, ?_⟩
      rw [show Mm.entryOf (s.memory.mm.store a value) = s.memory.mm.entryOf from
        funext fun t => funext fun ipa => hsame t ipa]
      exact h.placed
    · exact h

/-- **One event keeps the invariant.** -/
theorem System.Inv.step {L : BoardLayout b} {s s' : System} (h : System.Inv b L.toLayout s)
    {e : Event} (he : Legal s e) (hs : step b L.toLayout s e = .ok s') :
    System.Inv b L.toLayout s' := by
  cases e with
  | createTask => exact h.createTask hs
  | pageMap tsk ipa =>
    obtain ⟨⟨page, memory⟩, hp, hs⟩ := Lib.bind_eq_ok.mp hs
    obtain rfl := Except.ok.inj hs
    obtain ⟨i, -, hpaged⟩ := pageMap_ok h.tree hp
    exact h.paged he hpaged
  | fault tsk addr =>
    obtain ⟨⟨ok, memory⟩, hp, hs⟩ := Lib.bind_eq_ok.mp hs
    obtain rfl := Except.ok.inj hs
    obtain ⟨-, i, hpaged⟩ := handleMmTrapMemoryAccessFault_ok h.tree he.2 hp
    exact h.paged he.1 hpaged
  | store tsk ipa value =>
    obtain rfl := Except.ok.inj hs
    exact h.store tsk ipa value

/-- **Along every run** the invariant holds. -/
theorem along_inv {L : BoardLayout b} {events : List Event}
    (hlegal : Lib.Each (step b L.toLayout) Legal .boot events) :
    Lib.Along (step b L.toLayout) (System.Inv b L.toLayout) (fun _ => True) .boot events :=
  Lib.along_of_each (fun _ _ _ h he hs => h.step he hs) (fun _ _ _ _ _ _ => trivial)
    System.inv_boot hlegal

/-- The invariant is more than isolation. -/
theorem System.Inv.isolated {L : BoardLayout b} {s : System} (h : System.Inv b L.toLayout s) :
    Isolated b L.toLayout s := by
  have hpage : ∀ {t ipa desc}, s.memory.mm.translate t ipa = .page desc →
      desc = s.memory.mm.entryOf t ipa ∧ s.memory.mm.entryOf t ipa % 4 = 3 := fun {t ipa _} ht =>
    translationOf_eq ((h.tree.translate_eq t ipa).symm.trans ht)
  have hreach : ∀ {t ipa desc}, s.memory.mm.translate t ipa = .page desc → s2ap desc ≠ 0 →
      descAddr desc ∈ b.virtualCpuPages ∨ L.InUser (descAddr desc) := by
    intro t ipa desc ht hacc
    obtain ⟨rfl, h3⟩ := hpage ht
    exact h.placed.target t ipa h3 hacc
  -- an entry that leads to a page of the user region was given to the guest
  have huser : ∀ {t ipa desc}, s.memory.mm.translate t ipa = .page desc →
      L.InUser (descAddr desc) → ∃ i < kPagingPages, descAddr desc = L.userPage i ∧
        s.memory.mm.entryOf t ipa = L.userPage i ||| kStage2PteDram := by
    intro t ipa desc ht hu
    obtain ⟨rfl, h3⟩ := hpage ht
    rcases h.placed.kind t ipa with h0 | hd | ⟨i, -, hi, heq⟩
    · rw [h0] at h3
      exact absurd h3 (by decide)
    · have hdev := L.devices_apart _ hd.spec.2.1
      have hheap := L.heap_end
      have hunc := L.uncached_end
      obtain ⟨-, hlo, hhi⟩ := hu
      simp only [PAGE_SIZE] at hdev hhi
      omega
    · exact ⟨i, hi, by rw [heq, (userEntry hi).2], heq⟩
  refine ⟨?_, fun t ipa desc _ => hreach, ?_, ?_⟩
  · intro t ipa desc ht
    rw [h.tree.translate_eq, Mm.translationOf] at ht
    split at ht <;> cases ht
  · intro t ipa t' ipa' desc desc' hlt hlt' ht ht' haddr hu
    obtain ⟨i, hi, hai, hei⟩ := huser ht hu
    obtain ⟨j, hj, haj, hej⟩ := huser ht' (haddr ▸ hu)
    obtain rfl : i = j := userPage_inj (hai.symm.trans (haddr.trans haj))
    obtain ⟨htt, hframe⟩ := h.placed.sole t ipa t' ipa' i hei hej
    exact ⟨htt, by simp only [PAGE_SIZE]; omega⟩
  · intro t ipa desc _ ht hacc a
    exact accessible_apart (hreach ht hacc)

/-- The invariant holds wherever a run leads. -/
theorem inv_of_run {L : BoardLayout b} {events : List Event} {s : System}
    (hlegal : Lib.Each (step b L.toLayout) Legal .boot events)
    (hs : Lib.runFrom (step b L.toLayout) .boot events = .ok s) : System.Inv b L.toLayout s :=
  (along_inv hlegal).last hs

/-- **Guests are isolated.** However tasks are created, given pages and run, on every
board and every layout for it: whatever a guest may access is a page of the virtual
interrupt interface or a page of the user region, no page of the user region is behind
two entries, of one task or of two, and so no guest reaches the heap, the uncached
region, or what another guest was given. -/
theorem guest_isolation (b : BoardKind) (L : BoardLayout b) {events : List Event}
    (hlegal : Lib.Each (step b L.toLayout) Legal .boot events) :
    Lib.Along (step b L.toLayout) (Isolated b L.toLayout) (fun _ => True) .boot events :=
  (along_inv hlegal).mono fun _ h => h.isolated

instance (s : System) : ∀ e, Decidable (Legal s e)
  | .createTask => .isTrue trivial
  | .pageMap tsk _ => inferInstanceAs (Decidable (tsk < s.count))
  | .fault tsk addr => inferInstanceAs (Decidable (tsk < s.count ∧ addr < 2 ^ 64))
  | .store _ _ _ => .isTrue trivial

/-- Two guests on the QEMU board, of which the first stores to its image. -/
theorem guest_isolation_two_guests :
    Lib.Along (step .qemu BoardLayout.qemu.toLayout) (Isolated .qemu BoardLayout.qemu.toLayout)
      (fun _ => True) .boot [.createTask, .createTask, .pageMap 1 0x40000000,
        .store 1 0x40000008 7, .fault 2 0x40000010] :=
  guest_isolation .qemu .qemu (by decide +kernel)

end Isolation

end Evisor
