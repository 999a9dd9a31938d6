import Evisor.Platforms.BoardMap

/-!
# What is handed out stays handed out

Whatever the hypervisor does to memory – making tables, mapping pages, initialising
a board – a page of the heap that is in use stays in use, and the first table of a
task stays the one it is. A task control block and the stack in it are pages of the
heap, and the first table is what `VTTBR_EL2` points to, so this is what the switching
of tasks needs to know about memory.
-/

namespace Evisor

namespace Mm

variable {L : Layout} {s s₁ s₂ s' : Mm}

/-- What is in use stays in use. -/
structure Grows (L : Layout) (s s' : Mm) : Prop where
  allocated : ∀ {page}, Allocated L s.heap page → Allocated L s'.heap page
  page_table : ∀ t, (s.ctx t).page_table ≠ 0 → (s'.ctx t).page_table = (s.ctx t).page_table

theorem Grows.refl (s : Mm) : Grows L s s := ⟨id, fun _ _ => rfl⟩

theorem Grows.trans (h₁ : Grows L s s₁) (h₂ : Grows L s₁ s₂) : Grows L s s₂ where
  allocated ha := h₂.allocated (h₁.allocated ha)
  page_table t ht := by
    have heq := h₁.page_table t ht
    rw [h₂.page_table t (heq ▸ ht), heq]

/-- The heap and the first tables are all this is about. -/
theorem Grows.of_eq (hheap : s'.heap = s.heap) (hctx : s'.ctx = s.ctx) : Grows L s s' where
  allocated ha := hheap ▸ ha
  page_table t _ := by rw [hctx]

theorem grows_of_zalloc {n : ℕ} (h : s.zalloc L = .ok (n, s')) : Grows L s s' where
  allocated := (fresh_of_zalloc h).mono
  page_table t _ := by rw [(fresh_of_zalloc h).ctx]

@[simp] theorem setContext_self (s : Mm) (t : TaskId) (c : MmContext) :
    (s.setContext t c).ctx t = c := Function.update_self ..

theorem setContext_of_ne {t t' : TaskId} (h : t' ≠ t) (s : Mm) (c : MmContext) :
    (s.setContext t c).ctx t' = s.ctx t' := Function.update_of_ne h ..

/-- Writing what a task's `MmContext` has besides the first table. -/
theorem grows_setContext {t : TaskId} {c : MmContext}
    (hc : (s.ctx t).page_table ≠ 0 → c.page_table = (s.ctx t).page_table) :
    Grows L s (s.setContext t c) where
  allocated := id
  page_table t' ht' := by
    by_cases htt : t' = t
    · subst htt
      rw [setContext_self, hc ht']
    · rw [setContext_of_ne htt]

theorem grows_of_createPageTable {table shift ipa next : ℕ}
    (h : createPageTable L s table shift ipa = .ok (next, s')) : Grows L s s' := by
  rw [createPageTable] at h
  dsimp only at h
  split at h
  · obtain ⟨⟨n, s₁⟩, hz, h⟩ := Lib.bind_eq_ok.mp h
    obtain ⟨rfl, rfl⟩ := Prod.mk.inj (Except.ok.inj h)
    exact (grows_of_zalloc hz).trans (.of_eq rfl rfl)
  · obtain ⟨rfl, rfl⟩ := Prod.mk.inj (Except.ok.inj h)
    exact .refl s

/-- A task has a first table once one has been asked for. -/
theorem grows_of_createFirstTable {t : TaskId} {table : ℕ}
    (h : createFirstTable L s t = .ok (table, s')) :
    Grows L s s' ∧ (s'.ctx t).page_table ≠ 0 := by
  rw [createFirstTable] at h
  split at h
  case isTrue hzero =>
    obtain ⟨⟨n, s₁⟩, hz, h⟩ := Lib.bind_eq_ok.mp h
    obtain ⟨rfl, rfl⟩ := Prod.mk.inj (Except.ok.inj h)
    have hf := fresh_of_zalloc hz
    refine ⟨(grows_of_zalloc hz).trans (grows_setContext fun hne => ?_), ?_⟩
    · rw [hf.ctx] at hne
      exact absurd hzero hne
    · rw [setContext_self]
      exact hf.inHeap.bounds.2.1.ne'
  case isFalse hne =>
    obtain ⟨rfl, rfl⟩ := Prod.mk.inj (Except.ok.inj h)
    exact ⟨.refl s, hne⟩

/-- **Mapping a page**: the task has a first table from then on. -/
theorem grows_of_mapPage {task : TaskId} {ipa page flags pte : ℕ}
    (h : mapPage L s task ipa page flags = .ok (pte, s')) :
    Grows L s s' ∧ (s'.ctx task).page_table ≠ 0 := by
  obtain ⟨⟨lv1_table, s₁⟩, h₁, h⟩ := Lib.bind_eq_ok.mp h
  obtain ⟨⟨lv2_table, s₂⟩, h₂, h⟩ := Lib.bind_eq_ok.mp h
  obtain ⟨⟨lv3_table, s₃⟩, h₃, h⟩ := Lib.bind_eq_ok.mp h
  obtain ⟨hg₁, hne⟩ := grows_of_createFirstTable h₁
  have hg₃ : Grows L s₁ s₃ := (grows_of_createPageTable h₂).trans (grows_of_createPageTable h₃)
  set s₄ := s₃.setContext task { s₃.ctx task with pages := (s₃.ctx task).pages + 1 } with hs₄
  have hg₄ : Grows L s₁ s₄ := hg₃.trans (grows_setContext fun _ => rfl)
  obtain rfl := congrArg Prod.snd (Except.ok.inj h)
  have hg₅ : Grows L s₁ (setPageTableEntry s₄ lv3_table ipa page flags).2 :=
    hg₄.trans (.of_eq rfl rfl)
  refine ⟨hg₁.trans hg₅, ?_⟩
  rw [hg₅.page_table task hne]
  exact hne

end Mm

open Mm

variable {L : Layout}

/-! ### Giving pages -/

theorem grows_of_pageAllocate {s s' : Memory} {page : ℕ} (h : pageAllocate L s = .ok (page, s')) :
    Grows L s.mm s'.mm := by
  obtain ⟨⟨page₁, mem, user⟩, -, h⟩ := Lib.bind_eq_ok.mp h
  obtain ⟨rfl, rfl⟩ := Prod.mk.inj (Except.ok.inj h)
  exact .of_eq rfl rfl

theorem grows_of_pageMap {s s' : Memory} {tsk : TaskId} {ipa page : ℕ}
    (h : pageMap L s tsk ipa = .ok (page, s')) : Grows L s.mm s'.mm := by
  obtain ⟨⟨page₁, s₁⟩, ha, h⟩ := Lib.bind_eq_ok.mp h
  obtain ⟨mm, hm, h⟩ := Lib.bind_eq_ok.mp h
  obtain ⟨⟨pte, mm₁⟩, hmap, hmm⟩ := Lib.bind_eq_ok.mp hm
  obtain rfl := Except.ok.inj hmm
  obtain ⟨-, rfl⟩ := Prod.mk.inj (Except.ok.inj h)
  exact (grows_of_pageAllocate ha).trans (grows_of_mapPage hmap).1

theorem grows_of_fault {s s' : Memory} {tsk : TaskId} {addr : ℕ} {ok : Bool}
    (h : handleMmTrapMemoryAccessFault L s tsk addr = .ok (ok, s')) : Grows L s.mm s'.mm := by
  obtain ⟨⟨page₁, s₁⟩, ha, h⟩ := Lib.bind_eq_ok.mp h
  dsimp only at h
  split at h
  · obtain ⟨-, rfl⟩ := Prod.mk.inj (Except.ok.inj h)
    exact grows_of_pageAllocate ha
  · obtain ⟨mm, hm, h⟩ := Lib.bind_eq_ok.mp h
    obtain ⟨⟨pte, mm₁⟩, hmap, hmm⟩ := Lib.bind_eq_ok.mp hm
    obtain rfl := Except.ok.inj hmm
    obtain ⟨-, rfl⟩ := Prod.mk.inj (Except.ok.inj h)
    exact (grows_of_pageAllocate ha).trans (grows_of_mapPage hmap).1

/-! ### Initialising a board -/

theorem grows_of_mapDevicePages {s s' : Mm} {tsk : TaskId} {accessable : Bool} {ipa : ℕ → ℕ}
    {pages : List ℕ} (h : mapDevicePages L s tsk accessable ipa pages = .ok s') :
    Grows L s s' ∧ (pages ≠ [] → (s'.ctx tsk).page_table ≠ 0) := by
  induction pages generalizing s with
  | nil =>
    obtain rfl := Except.ok.inj h
    exact ⟨.refl s, fun hne => absurd rfl hne⟩
  | cons pa rest ih =>
    obtain ⟨s₁, hm, h⟩ := Lib.bind_eq_ok.mp h
    obtain ⟨⟨pte, s₂⟩, hmap, hs₁⟩ := Lib.bind_eq_ok.mp hm
    obtain rfl := Except.ok.inj hs₁
    obtain ⟨hg, hne⟩ := grows_of_mapPage hmap
    obtain ⟨hg', -⟩ := ih h
    refine ⟨hg.trans hg', fun _ => ?_⟩
    rw [hg'.page_table tsk hne]
    exact hne

theorem allocated_of_kmmMalloc {map map' : HeapMap} {size page : ℕ} (hsize : 1 ≤ size)
    (h : kmmMalloc L map size = .ok (page, map')) {p : ℕ} (hp : Allocated L map p) :
    Allocated L map' p := by
  obtain ⟨i, -, -, -, rfl⟩ := kmmMalloc_ok hsize h
  exact hp.update i

theorem allocated_of_consoleAlloc {heap heap' : HeapMap} (h : consoleAlloc L heap = .ok heap')
    {p : ℕ} (hp : Allocated L heap p) : Allocated L heap' p := by
  obtain ⟨⟨_, h₁⟩, hm₁, h⟩ := Lib.bind_eq_ok.mp h
  obtain ⟨⟨_, h₂⟩, hm₂, h⟩ := Lib.bind_eq_ok.mp h
  obtain ⟨⟨_, h₃⟩, hm₃, h⟩ := Lib.bind_eq_ok.mp h
  obtain ⟨⟨_, h₄⟩, hm₄, h⟩ := Lib.bind_eq_ok.mp h
  obtain ⟨⟨_, h₅⟩, hm₅, h⟩ := Lib.bind_eq_ok.mp h
  obtain rfl := Except.ok.inj h
  have hp₁ := allocated_of_kmmMalloc (by decide) hm₁ hp
  have hp₂ := allocated_of_kmmMalloc (by decide) hm₂ hp₁
  have hp₃ := allocated_of_kmmMalloc (by decide) hm₃ hp₂
  have hp₄ := allocated_of_kmmMalloc (by decide) hm₄ hp₃
  exact allocated_of_kmmMalloc (by decide) hm₅ hp₄

/-- Every board has a serial line to map. -/
theorem uartPages_ne_nil (b : BoardKind) : b.uartPages ≠ [] := by
  cases b <;> decide

/-- **Initialising a board** gives the task a first table. -/
theorem grows_of_boardInit {b : BoardKind} {s s' : Mm} {tsk : TaskId}
    (h : boardInit L b s tsk = .ok s') : Grows L s s' ∧ (s'.ctx tsk).page_table ≠ 0 := by
  obtain ⟨heap, hc, h⟩ := Lib.bind_eq_ok.mp h
  obtain ⟨s₁, h₁, h⟩ := Lib.bind_eq_ok.mp h
  obtain ⟨s₂, h₂, h⟩ := Lib.bind_eq_ok.mp h
  have hg₀ : Grows L s { s with heap } := ⟨allocated_of_consoleAlloc hc, fun _ _ => rfl⟩
  obtain ⟨hg₁, -⟩ := grows_of_mapDevicePages h₁
  obtain ⟨hg₂, -⟩ := grows_of_mapDevicePages h₂
  obtain ⟨hg₃, hne⟩ := grows_of_mapDevicePages h
  exact ⟨((hg₀.trans hg₁).trans hg₂).trans hg₃, hne (uartPages_ne_nil b)⟩

/-- The only way initialising a board fails is to stop for lack of memory. -/
theorem boardInit_error {b : BoardKind} {s : Mm} {tsk : TaskId} {f : Fault}
    (h : boardInit L b s tsk = .error f) : f.IsPanic := by
  have hmap : ∀ {s : Mm} {accessable ipa} {pages : List ℕ},
      mapDevicePages L s tsk accessable ipa pages = .error f → f.IsPanic := by
    intro s accessable ipa pages h
    induction pages generalizing s with
    | nil => cases h
    | cons pa rest ih =>
      rcases Lib.bind_eq_error.mp h with h | ⟨_, -, h⟩
      · rcases Lib.bind_eq_error.mp h with h | ⟨_, -, h⟩
        · exact (mapPage_error h).isPanic
        · cases h
      · exact ih h
  have hconsole : ∀ {heap : HeapMap}, consoleAlloc L heap = .error f → f.IsPanic := by
    intro heap h
    rcases Lib.bind_eq_error.mp h with h | ⟨_, -, h⟩
    · exact (kmmMalloc_error h).isPanic
    rcases Lib.bind_eq_error.mp h with h | ⟨_, -, h⟩
    · exact (kmmMalloc_error h).isPanic
    rcases Lib.bind_eq_error.mp h with h | ⟨_, -, h⟩
    · exact (kmmMalloc_error h).isPanic
    rcases Lib.bind_eq_error.mp h with h | ⟨_, -, h⟩
    · exact (kmmMalloc_error h).isPanic
    rcases Lib.bind_eq_error.mp h with h | ⟨_, -, h⟩
    · exact (kmmMalloc_error h).isPanic
    · cases h
  rcases Lib.bind_eq_error.mp h with h | ⟨_, -, h⟩
  · exact hconsole h
  rcases Lib.bind_eq_error.mp h with h | ⟨_, -, h⟩
  · exact hmap h
  rcases Lib.bind_eq_error.mp h with h | ⟨_, -, h⟩
  · exact hmap h
  · exact hmap h

end Evisor
