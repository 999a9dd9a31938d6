import Evisor.Kernel.VcpuSwitch

/-!
# A guest finds what it left, in every run

The handlers that do not switch, the creation of a task, one event, and any run
(`Evisor.guests_preserved`).
-/

namespace Evisor

namespace Machine

variable {L : Layout} {I : Image L} {s s' : Machine} {t u : TaskId}

/-! ### Handlers that do not switch -/

variable (I) in
/-- What a handler that does not switch leaves besides what is kept for its guest. -/
structure Handled (s s' : Machine) : Prop where
  islocal : Local I s s'
  mode : s'.mode = s.mode
  active : s'.active = s.active
  sp : s'.cpu.sp = s.cpu.sp
  last : s'.last = s.last
  wfxs : s'.wfxs = s.wfxs
  wfxTraps : s'.wfxTraps s.cur = s.wfxTraps s.cur

theorem Handled.trans {s₁ : Machine} (h₁ : Handled I s s₁) (h₂ : Handled I s₁ s') :
    Handled I s s' where
  islocal := h₁.islocal.trans h₂.islocal
  mode := h₂.mode.trans h₁.mode
  active := h₂.active.trans h₁.active
  sp := h₂.sp.trans h₁.sp
  last := h₂.last.trans h₁.last
  wfxs := h₂.wfxs.trans h₁.wfxs
  wfxTraps := (h₁.islocal.cur ▸ h₂.wfxTraps).trans h₁.wfxTraps

theorem handled_storeWord (hne : s.cur ≠ 0) {n : ℕ} (hn : n < 34) (v : Word) :
    Handled I s (s.storeWord (s.getVCpuRegs s.cur + 8 * n) v) :=
  ⟨local_storeWord hne hn v, rfl, rfl, rfl, rfl, rfl, rfl⟩

theorem handled_modifyStat (s : Machine) {f : TaskStat → TaskStat}
    (hf : ∀ stat, (f stat).wfx_traps = stat.wfx_traps) :
    Handled I s (s.modifyStat s.cur f) := by
  refine ⟨local_modifyStat s f, rfl, rfl, rfl, rfl, rfl, ?_⟩
  change (Function.update s.memory.stat s.cur (f (s.memory.stat s.cur)) s.cur).wfx_traps = _
  rw [Function.update_self, hf]
  rfl

/-- A register of the guest is given a value, and its instruction is passed over. -/
theorem saved_read (hne : s.cur ≠ 0) {n : ℕ} (hn : n < 32) (v : Word) :
    saved I ((s.storeWord (s.getVCpuRegs s.cur + 8 * n) v).incrementCurrentTaskPc 4) s.cur =
      ((saved I s s.cur).setReg n v).advance := by
  have hstore := saved_storeWord (I := I) (s := s) (n := n) hne (by omega) v
  rw [if_neg (by omega), if_neg (by omega)] at hstore
  rw [← hstore]
  exact saved_increment (s := s.storeWord (s.getVCpuRegs s.cur + 8 * n) v) hne

/-- The registers a guest may write are not those that are kept. -/
theorem lookup_msrTable {opc1 crn crm opc2 : ℕ} {r : VReg}
    (h : lookup msrTable opc1 crn crm opc2 = some r) : r ∉ notTrapped ∧ ¬Ident r := by
  obtain ⟨e, he, rfl⟩ := Option.map_eq_some_iff.mp h
  have hmem := List.mem_of_find?_eq_some he
  have hall : ∀ e ∈ msrTable, e.1 ∉ notTrapped := by decide
  exact ⟨hall e hmem, fun hid => hall e hmem (ident_mem hid)⟩

theorem and_le_mask (x n : ℕ) : x &&& (2 ^ n - 1) < 2 ^ n := by
  rw [Nat.and_two_pow_sub_one_eq_mod]
  exact Nat.mod_lt _ (Nat.two_pow_pos n)

/-- **An access to a system register** is passed over, and a read gives its register a
value. -/
theorem handleTrapSystem_ok (hne : s.cur ≠ 0) {iss : ℕ}
    (hok : s.handleTrapSystem iss = .ok s') : Handled I s s' ∧
      (saved I s' s.cur = (saved I s s.cur).advance ∨
        ∃ v, saved I s' s.cur = ((saved I s s.cur).setReg (issRt iss) v).advance) := by
  -- the trap is counted first, which is nothing that is saved
  set s₁ := s.modifyStat s.cur fun stat => { stat with sysreg_traps := stat.sysreg_traps + 1 }
    with hs₁
  have h₁ : Handled I s s₁ := handled_modifyStat s fun _ => rfl
  have hsaved₁ : saved I s₁ s.cur = saved I s s.cur := saved_modifyStat s _ _ _
  rw [handleTrapSystem] at hok
  split at hok
  swap
  · cases hok
  split at hok
  swap
  · cases hok
  rename_i s₂ htrap
  obtain rfl := Except.ok.inj hok
  rw [trapMcrMrcInstructions] at htrap
  split at htrap
  · -- a write is to none of the registers that are kept, nor to one that identifies the task
    obtain ⟨name, hname, rfl⟩ := Option.map_eq_some_iff.mp htrap
    obtain ⟨hkept, hid⟩ := lookup_msrTable hname
    set s₃ : Machine := { s₁ with
      vcpu_sysregs := Function.update s₁.vcpu_sysregs s₁.cur
        (Function.update (s₁.vcpu_sysregs s₁.cur) name
          (s₁.stack (s₁.getVCpuRegs s₁.cur + 8 * issRt iss))) } with hs₃
    have hsys : ∀ r, r ≠ name → s₃.vcpu_sysregs s.cur r = s₁.vcpu_sysregs s.cur r := by
      intro r hr
      refine (congrFun (Function.update_self ..) r).trans ?_
      exact Function.update_of_ne hr ..
    have h₃ : Handled I s₁ s₃ :=
      ⟨{ (Local.refl s₁ : Local I s₁ s₁) with
          vcpu_sysregs := fun t ht => Function.update_of_ne ht ..
          own_ident := fun _ r hr h => (hsys r fun heq => hid (heq ▸ hr)).trans h },
        rfl, rfl, rfl, rfl, rfl, rfl⟩
    have hsaved₃ : saved I s₃ s.cur = saved I s₁ s.cur :=
      saved_congr (top_congr (by rfl) _) (fun _ _ => rfl) rfl
        fun r hr => hsys r fun heq => hkept (heq ▸ hr)
    refine ⟨(h₁.trans h₃).trans ⟨local_increment hne, rfl, rfl, rfl, rfl, rfl, rfl⟩, .inl ?_⟩
    rw [← hsaved₁, ← hsaved₃]
    exact saved_increment (s := s₃) hne
  · obtain ⟨name, hname, rfl⟩ := Option.map_eq_some_iff.mp htrap
    -- a read stores into the frame of the task
    have hrt : issRt iss < 32 := and_le_mask _ 5
    have h₃ := handled_storeWord (I := I) (s := s₁) (n := issRt iss) hne (by omega)
      (s₁.vcpu_sysregs s₁.cur name)
    refine ⟨(h₁.trans h₃).trans ⟨local_increment hne, rfl, rfl, rfl, rfl, rfl, rfl⟩,
      .inr ⟨s₁.vcpu_sysregs s₁.cur name, ?_⟩⟩
    rw [← hsaved₁]
    exact saved_read (s := s₁) hne hrt _

/-- **A fault answered with a page** leaves what is kept. -/
theorem memoryAccessFault_ok (h : Base I s) (hne : s.cur ≠ 0) {addr : ℕ} {handled : Bool}
    (hok : s.memoryAccessFault L addr = .ok (handled, s')) :
    Handled I s s' ∧ saved I s' s.cur = saved I s s.cur := by
  obtain ⟨⟨handled', memory⟩, hfault, hok⟩ := Lib.bind_eq_ok.mp hok
  obtain ⟨rfl, rfl⟩ := Prod.mk.inj (Except.ok.inj hok)
  have hg := grows_of_fault hfault
  have hstat : ∀ t, (memory.stat t).wfx_traps = s.wfxTraps t := by
    intro t
    obtain ⟨⟨page, m₁⟩, ha, hfault⟩ := Lib.bind_eq_ok.mp hfault
    obtain ⟨⟨page₁, mem, user⟩, -, ha⟩ := Lib.bind_eq_ok.mp ha
    obtain ⟨-, rfl⟩ := Prod.mk.inj (Except.ok.inj ha)
    dsimp only at hfault
    split at hfault
    · obtain ⟨-, rfl⟩ := Prod.mk.inj (Except.ok.inj hfault)
      rfl
    · obtain ⟨mm, -, hfault⟩ := Lib.bind_eq_ok.mp hfault
      obtain ⟨-, rfl⟩ := Prod.mk.inj (Except.ok.inj hfault)
      change TaskStat.wfx_traps (Function.update s.memory.stat s.cur
        { s.memory.stat s.cur with page_faults := (s.memory.stat s.cur).page_faults + 1 } t) = _
      by_cases ht : t = s.cur
      · rw [ht, Function.update_self]
        rfl
      · rw [Function.update_of_ne ht]
        rfl
  refine ⟨⟨?_, rfl, rfl, rfl, rfl, rfl, hstat _⟩, ?_⟩
  · exact { (local_memory hg hstat : Local I s { s with memory }) with }
  · exact saved_congr (top_congr (by rfl) _) (fun _ _ => rfl)
      (hg.page_table _ (h.table _ hne h.cur_lt)) fun _ _ => rfl

/-- **An access to a device** is passed over, and a read gives its register a value. -/
theorem registerAccess_ok (hne : s.cur ≠ 0) {data : Word} {srt : ℕ} (hsrt : srt < 32)
    {read handled : Bool} (hok : s.registerAccess data srt read = .ok (handled, s')) :
    Handled I s s' ∧ (saved I s' s.cur = (saved I s s.cur).advance ∨ read = true ∧
      ∃ v, saved I s' s.cur = ((saved I s s.cur).setReg srt v).advance) := by
  rw [registerAccess] at hok
  obtain ⟨-, rfl⟩ := Prod.mk.inj (Except.ok.inj hok)
  have hpass : ∀ s₁ : Machine, Handled I s s₁ → s₁.cur = s.cur →
      Handled I s ((s₁.incrementCurrentTaskPc 4).modifyStat s.cur fun stat =>
        { stat with mmios := stat.mmios + 1 }) := by
    intro s₁ h₁ hcur
    have hne₁ : s₁.cur ≠ 0 := hcur ▸ hne
    have h₂ : Handled I s₁ (s₁.incrementCurrentTaskPc 4) :=
      ⟨local_increment hne₁, rfl, rfl, rfl, rfl, rfl, rfl⟩
    rw [← hcur]
    exact (h₁.trans h₂).trans (handled_modifyStat (s₁.incrementCurrentTaskPc 4) fun _ => rfl)
  have hself : Handled I s s := ⟨.refl s, rfl, rfl, rfl, rfl, rfl, rfl⟩
  split
  · split
    · rename_i hread
      refine ⟨hpass _ (handled_storeWord hne (by omega) data) rfl, .inr ⟨hread, data, ?_⟩⟩
      rw [saved_modifyStat]
      exact saved_read hne hsrt data
    · refine ⟨hpass s hself rfl, .inl ?_⟩
      rw [saved_modifyStat, saved_increment hne]
  · refine ⟨hpass s hself rfl, .inl ?_⟩
    rw [saved_modifyStat, saved_increment hne]

/-! ### Creating a task -/

/-- The page of a new task is none of a task there is. -/
theorem Base.page_ne (h : Base I s) {page : ℕ} (hnew : ¬Allocated L s.memory.mm.heap page)
    (ht : t ≠ 0) (hlt : t < s.sched.tsks.length) : s.page t ≠ page :=
  fun heq => hnew (heq ▸ h.allocated t ht hlt)

/-- **A task that is created** has never run, and the others are as they were. -/
theorem createTask_base {b : BoardKind} {load : Load} (h : Base I s) (hcur : s.cur = 0)
    (hok : s.createTask I b load = .ok s') :
    Base I s' ∧ s'.mode = s.mode ∧ s'.cur = s.cur ∧ s'.cpu = s.cpu ∧
      s'.wfxTraps 0 = s.wfxTraps 0 ∧ s'.wfxs = s.wfxs := by
  obtain ⟨⟨page, mm₁⟩, hz, hok⟩ := Lib.bind_eq_ok.mp hok
  obtain ⟨mm₂, hb, hok⟩ := Lib.bind_eq_ok.mp hok
  obtain ⟨sched, ha, hok⟩ := Lib.bind_eq_ok.mp hok
  obtain rfl := Except.ok.inj hok
  dsimp only at hb ha ⊢
  have hf := Mm.fresh_of_zalloc hz
  obtain ⟨hg, htable⟩ := grows_of_boardInit hb
  set n := s.sched.tsks.length with hn
  have hn₀ : n ≠ 0 := (Nat.zero_lt_of_lt h.cur_lt).ne'
  have htcb : Scheduling.TaskOk { Tcb.zero with
      name := "New vCPU", priority := 1, counter := 1, board := getPlatformBoard } :=
    ⟨by decide, by decide, by decide, by decide, fun _ => by decide⟩
  obtain ⟨hinv, hlen, hcur'⟩ := h.sched.addTask htcb ha
  -- what the tasks there were have
  have htab : ∀ t, t ≠ n → (s.memory.mm.ctx t).page_table ≠ 0 →
      (mm₂.ctx t).page_table = (s.memory.mm.ctx t).page_table := by
    intro t htn hne
    have hset : (mm₁.setContext n ⟨0, 0⟩).ctx t = s.memory.mm.ctx t := by
      rw [Mm.setContext_of_ne htn, hf.ctx]
    rw [← hset] at hne ⊢
    exact hg.page_table t hne
  set s' : Machine := { s with
    sched
    memory := { s.memory with
      mm := mm₂, stat := Function.update s.memory.stat n ⟨false, false, 0, 0, 0, 0, 0⟩ }
    page := Function.update s.page n page
    cpu_context := Function.update s.cpu_context n
      { CpuContext.zero with
        x19 := I.LoadTaskImage, x20 := load.loader, x21 := load.arg
        sp := page + TCB_SIZE - vcpuContextSize, pc := I.KernelSwitchFromKThread }
    vcpu_sysregs := Function.update s.vcpu_sysregs n
      (s.initial_vcpu_regs.getD (initialTemplate s.cpu.sys))
    initial_vcpu_regs := some (s.initial_vcpu_regs.getD (initialTemplate s.cpu.sys))
    load := Function.update s.load n load
    stack := fun a => if page ≤ a ∧ a < page + PAGE_SIZE then 0 else s.stack a } with hs'
  have hlen' : s'.sched.tsks.length = n + 1 := hlen
  have hpage : ∀ t, t ≠ n → s'.page t = s.page t := fun t ht => Function.update_of_ne ht ..
  have hpage_n : s'.page n = page := Function.update_self ..
  have htop : ∀ t, t ≠ n → top I s' t = top I s t := by
    intro t ht
    by_cases ht₀ : t = 0
    · rw [ht₀, top_init, top_init]
    · rw [top_of_ne ht₀, top_of_ne ht₀, hpage t ht]
  have hlt : ∀ t, t ≠ n → t < n + 1 → t < s.sched.tsks.length := fun t htn ht => by omega
  have halloc : ∀ t, t ≠ 0 → t ≠ n → t < n + 1 → Allocated L mm₂.heap (s.page t) :=
    fun t ht₀ htn ht => hg.allocated (hf.mono (h.allocated t ht₀ (hlt t htn ht)))
  have hfresh : ∀ t, t ≠ 0 → t ≠ n → t < n + 1 → s.page t ≠ page := fun t ht₀ htn ht =>
    h.page_ne hf.not_allocated ht₀ (hlt t htn ht)
  have htemplate : ∀ r, Ident r →
      s.initial_vcpu_regs.getD (initialTemplate s.cpu.sys) r = s.cpu.sys (.el1 r) := by
    intro r hr
    cases hinit : s.initial_vcpu_regs with
    | none => exact if_neg (by rcases hr with rfl | rfl <;> decide)
    | some regs => exact h.template regs hinit r hr
  have htraps : ∀ t, t ≠ n → s'.wfxTraps t = s.wfxTraps t := fun t ht =>
    congrArg TaskStat.wfx_traps (Function.update_of_ne ht ..)
  refine ⟨⟨?_, ?_, ?_, ?_, ?_, ?_, ?_, ?_, h.returned⟩, rfl, hcur', rfl, htraps 0 hn₀.symm, rfl⟩
  · exact hinv
  · intro t ht₀ ht
    rw [hlen'] at ht
    by_cases htn : t = n
    · rw [htn, hpage_n]
      exact hg.allocated hf.allocated
    · rw [hpage t htn]
      exact halloc t ht₀ htn ht
  · intro t u ht₀ hu₀ ht hu heq
    rw [hlen'] at ht hu
    by_cases htn : t = n <;> by_cases hun : u = n
    · rw [htn, hun]
    · rw [htn, hpage_n, hpage u hun] at heq
      exact absurd heq.symm (hfresh u hu₀ hun hu)
    · rw [hun, hpage_n, hpage t htn] at heq
      exact absurd heq (hfresh t ht₀ htn ht)
    · rw [hpage t htn, hpage u hun] at heq
      exact h.page_inj t u ht₀ hu₀ (hlt t htn ht) (hlt u hun hu) heq
  · intro t ht₀ ht
    rw [hlen'] at ht
    by_cases htn : t = n
    · rw [htn]
      exact htable
    · have hne := h.table t ht₀ (hlt t htn ht)
      change (mm₂.ctx t).page_table ≠ 0
      rw [htab t htn hne]
      exact hne
  · intro t ht₀ ht r hr
    rw [hlen'] at ht
    by_cases htn : t = n
    · rw [htn]
      exact (congrFun (Function.update_self ..) r).trans (htemplate r hr)
    · exact (congrFun (Function.update_of_ne htn ..) r).trans (h.ident t ht₀ (hlt t htn ht) r hr)
  · rintro regs hregs r hr
    obtain rfl := Option.some.inj hregs
    exact htemplate r hr
  · intro t ht hne
    rw [hlen'] at ht
    have ht₀ : t ≠ 0 := fun h0 => hne (h0.trans (hcur'.trans hcur).symm)
    by_cases htn : t = n
    · -- the new task
      subst htn
      obtain ⟨hlast, hwfxs⟩ := h.unborn n le_rfl
      have hctx : s'.cpu_context n = { CpuContext.zero with
          x19 := I.LoadTaskImage, x20 := load.loader, x21 := load.arg
          sp := page + TCB_SIZE - vcpuContextSize, pc := I.KernelSwitchFromKThread } :=
        Function.update_self ..
      have hload : s'.load n = load := Function.update_self ..
      refine .inl ⟨ht₀, ?_, ?_, ?_, ?_, ?_, hlast, ?_⟩
      · rw [hctx]
      · rw [hctx, frame_eq, top_of_ne ht₀, hpage_n]
        rfl
      · rw [hctx]
      · rw [hctx, hload]
      · rw [hctx, hload]
      · change TaskStat.wfx_traps (Function.update s.memory.stat n _ n) = s.wfxs n
        rw [Function.update_self, hwfxs]
    · have hs := h.others t (hlt t htn ht) fun heq => hne (heq.trans hcur'.symm)
      have hframe : frame I s' t = frame I s t := by rw [frame_eq, frame_eq, htop t htn]
      -- its stack is in another page than the one cleared
      have hword : ∀ i < 34, s'.stack (frame I s t + 8 * i) = s.stack (frame I s t + 8 * i) := by
        intro i hi
        obtain ⟨hal, -, -⟩ := (h.page_inHeap ht₀ (hlt t htn ht)).bounds
        obtain ⟨hal', -, -⟩ := hf.inHeap.bounds
        have hpg := hfresh t ht₀ htn ht
        refine if_neg ?_
        rw [frame_eq, top_of_ne ht₀, PAGE_SIZE]
        omega
      have hsaved : saved I s' t = saved I s t := by
        refine saved_congr (htop t htn) (fun i hi => hword i hi)
          (htab t htn (h.table t ht₀ (hlt t htn ht))) fun r _ => ?_
        exact congrFun (Function.update_of_ne htn ..) r
      refine hs.congr (htop t htn) (Function.update_of_ne htn ..) (Function.update_of_ne htn ..)
        rfl ⟨htraps t htn, rfl⟩ (fun _ _ => rfl) fun c hw => ?_
      exact hw.congr (fun _ => hsaved) (congrArg GuestContext.spsr hsaved) rfl rfl (htraps t htn)
  · intro t ht
    rw [hlen'] at ht
    exact h.unborn t (by omega)

/-- Creating a task fails only by stopping, or when there is no place for it. -/
theorem createTask_error {b : BoardKind} {load : Load} {f : Fault}
    (h : s.createTask I b load = .error f) : f.IsPanic ∨ f = .outOfBounds := by
  rcases Lib.bind_eq_error.mp h with h | ⟨_, -, h⟩
  · exact .inl (Mm.zalloc_error h).isPanic
  rcases Lib.bind_eq_error.mp h with h | ⟨_, -, h⟩
  · exact .inl (boardInit_error h)
  rcases Lib.bind_eq_error.mp h with h | ⟨_, -, h⟩
  · rw [Sched.addTask] at h
    split at h
    · cases h
    · exact .inr (Except.error.inj h).symm
  · cases h

/-! ### An exception -/

variable (I) in
/-- **What an exception has left** when its handler starts. -/
structure Taken (s : Machine) (trap : Trap) : Prop where
  base : Base I s
  mode : s.mode = .handler
  sp : s.cpu.sp = frame I s s.cur
  last : s.cur ≠ 0 → s.last s.cur = some (trap, saved I s s.cur)
  level : exceptionLevel (saved I s s.cur).spsr = 2 ↔ s.cur = 0
  wfxs : s.wfxTraps s.cur + (if trap.isWfx then 1 else 0) = s.wfxs s.cur

/-- **Taking an exception**, from a guest or from `KernelMain`. -/
theorem taken_trapped (h : Inv I s) {g : GuestRegs}
    (hg : s.mode = .guest ∧ exceptionLevel g.pstate ≠ 2 ∨
      s.mode = .init ∧ exceptionLevel g.pstate = 2) (trap : Trap) :
    Taken I (s.trapped g trap) trap := by
  have hsp : s.cpu.sp = top I s s.cur := by
    rcases hg with ⟨hm, -⟩ | ⟨hm, -⟩
    · exact (h.guest hm).sp
    · obtain ⟨h0, hsp, -⟩ := h.init hm
      rw [hsp, h0, top_init]
  have hwfx : s.wfxTraps s.cur = s.wfxs s.cur := by
    rcases hg with ⟨hm, -⟩ | ⟨hm, -⟩
    · exact (h.guest hm).wfxs
    · obtain ⟨h0, -, hwfx⟩ := h.init hm
      rw [h0, hwfx]
  have hlevel : exceptionLevel g.pstate = 2 ↔ s.cur = 0 := by
    rcases hg with ⟨hm, hl⟩ | ⟨hm, hl⟩
    · exact iff_of_false hl (h.guest hm).cur_ne
    · exact iff_of_true hl (h.init hm).1
  -- entering a trap stores only into the frame of the task that is interrupted
  have hl := local_trapped (I := I) hsp g trap
  refine ⟨h.base.local hl, rfl, ?_, fun hne => ?_, ?_, ?_⟩
  · have hframe : frame I (s.trapped g trap) s.cur = frame I s s.cur := frame_congr (by rfl) _
    refine Eq.trans ?_ hframe.symm
    rw [frame_eq, ← hsp]
    rfl
  · have hm : s.mode = .guest := by
      rcases hg with ⟨hm, -⟩ | ⟨hm, -⟩
      · exact hm
      · exact absurd (h.init hm).1 hne
    refine (Function.update_self s.cur _ s.last).trans ?_
    exact congrArg (fun c => some (trap, c)) (saved_trapped (h.guest hm) g trap).symm
  · have hspsr := spsr_trapped (I := I) hsp g trap
    change exceptionLevel (saved I (s.trapped g trap) s.cur).spsr = 2 ↔ s.cur = 0
    rw [hspsr]
    exact hlevel
  · change s.wfxTraps s.cur + (if trap.isWfx then 1 else 0) = (if trap.isWfx then
      Function.update s.wfxs s.cur (s.wfxs s.cur + 1) else s.wfxs) s.cur
    rw [hwfx]
    split
    · rw [Function.update_self]
    · rfl

/-- A trap leaves the level its guest runs at. -/
theorem spsr_of_ownEffect {c c' : GuestContext} {trap : Trap} (h : OwnEffect c c' trap) :
    c'.spsr = c.spsr := by
  cases trap with
  | irq => exact congrArg _ h
  | sync esr =>
    rw [OwnEffect] at h
    split at h
    · rw [h]; rfl
    split at h
    · rcases h with h | ⟨v, h⟩ <;> (rw [h]; rfl)
    split at h
    · rcases h with h | ⟨-, v, h⟩ <;> (rw [h]; rfl)
    · rw [h]

/-- **A handler that does not switch** is done. -/
theorem Taken.done {trap : Trap} (h : Taken I s trap) (hne : s.cur ≠ 0)
    (hwfx : trap.isWfx = false) (hh : Handled I s s')
    (heff : OwnEffect (saved I s s.cur) (saved I s' s.cur) trap) :
    Base I s' ∧ Done I s' := by
  have hcur := hh.islocal.cur
  refine ⟨h.base.local hh.islocal, .handler (hh.mode.trans h.mode) ?_ ⟨fun _ => ?_, ?_, ?_⟩⟩
  · rw [hh.sp, h.sp, hcur]
    exact (frame_congr hh.islocal.page _).symm
  · rw [hcur]
    intro trap' c hc
    rw [hh.last, h.last hne] at hc
    obtain ⟨rfl, rfl⟩ := Prod.mk.inj (Option.some.inj hc)
    exact heff
  · rw [hcur, spsr_of_ownEffect heff]
    exact h.level
  · have hw := h.wfxs
    rw [hwfx] at hw
    rw [hcur, hh.wfxTraps, hh.wfxs]
    exact hw

/-- The pager fails only by stopping. -/
theorem memoryAccessFault_error {addr : ℕ} {f : Fault}
    (h : s.memoryAccessFault L addr = .error f) : f.IsPanic := by
  rcases Lib.bind_eq_error.mp h with h | ⟨_, -, h⟩
  · exact (handleMmTrapMemoryAccessFault_error h).isPanic
  · cases h

/-- **A data abort that is handled** has its own effect. -/
theorem handleTrapMemAbort_ok {esr far : ℕ} {data : Word} {scratch : Fin 31 → Word}
    (h : Taken I s (.sync esr)) (hne : s.cur ≠ 0)
    (hec : esrEl2Ec esr = kEsrEl2EcDataAboartFromLow)
    (hok : handleTrapMemAbort (handlers I data scratch) s far esr = .ok (true, s')) :
    Handled I s s' ∧ OwnEffect (saved I s s.cur) (saved I s' s.cur) (.sync esr) := by
  have hwfx : esrEl2Ec esr ≠ kEsrEl2EcTrapWfx := by rw [hec]; decide
  have hsys : esrEl2Ec esr ≠ kEsrEl2EcTrapSystem := by rw [hec]; decide
  rw [OwnEffect, if_neg hwfx, if_neg hsys]
  rw [handleTrapMemAbort] at hok
  split at hok
  case isTrue hdfsc =>
    rw [if_neg (by rw [hdfsc]; decide)]
    exact memoryAccessFault_ok h.base hne hok
  split_ifs at hok with hdfsc
  · rw [if_pos hdfsc]
    obtain ⟨hh, heff⟩ := registerAccess_ok hne (and_le_mask _ 5) hok
    exact ⟨hh, heff.imp_right fun hread => ⟨of_decide_eq_true hread.1, hread.2⟩⟩
  · cases hok

/-- **A guest that has executed a `WFx`** may be suspended. -/
theorem Taken.yielding {esr : ℕ} (h : Taken I s (.sync esr)) (hne : s.cur ≠ 0)
    (hec : esrEl2Ec esr = kEsrEl2EcTrapWfx) :
    Waiting I s s.cur .wfx ∧ s.cpu.sp = site I s s.cur .wfx := by
  have hisWfx : Trap.isWfx (.sync esr) = true := decide_eq_true hec
  have hwfx := h.wfxs
  rw [hisWfx] at hwfx
  exact ⟨⟨hne, ⟨esr, hec, h.last hne⟩, fun hl => hne (h.level.mp hl), hwfx⟩, h.sp⟩

/-- **A synchronous exception that is answered**: the scheduler is called for a `WFx`, and
every other handler has its own effect and does not switch. -/
theorem sync_cases {esr far : ℕ} {data : Word} {scratch : Fin 31 → Word}
    (h : Taken I s (.sync esr)) (hne : s.cur ≠ 0)
    (hok : trapHandleLowerElAarch64Sync (handlers I data scratch) s esr far = .ok s') :
    esrEl2Ec esr = kEsrEl2EcTrapWfx ∧ s.schedule I .wfx scratch = .ok s' ∨
      Trap.isWfx (.sync esr) = false ∧ Handled I s s' ∧
        OwnEffect (saved I s s.cur) (saved I s' s.cur) (.sync esr) := by
  rw [trapHandleLowerElAarch64Sync] at hok
  dsimp only at hok
  split at hok
  case isTrue hec =>
    exact .inl ⟨hec, hok⟩
  rename_i hec
  refine .inr ⟨decide_eq_false hec, ?_⟩
  split at hok
  · cases hok
  split at hok
  · cases hok
  split at hok
  case isTrue hsys =>
    rw [OwnEffect, if_neg hec, if_pos hsys]
    exact handleTrapSystem_ok hne hok
  split at hok
  · cases hok
  split at hok
  case isTrue hdata =>
    obtain ⟨⟨handled, s₁⟩, hab, hok⟩ := Lib.bind_eq_ok.mp hok
    dsimp only at hok
    split at hok
    case isTrue hhandled =>
      obtain rfl := Except.ok.inj hok
      obtain rfl : handled = true := hhandled
      exact handleTrapMemAbort_ok h hne hdata hab
    · cases hok
  · cases hok

/-- **A synchronous exception** is answered, or the hypervisor stops. -/
theorem sync_done {esr far : ℕ} {data : Word} {scratch : Fin 31 → Word}
    (h : Taken I s (.sync esr)) (hne : s.cur ≠ 0) :
    (∀ s', trapHandleLowerElAarch64Sync (handlers I data scratch) s esr far = .ok s' →
      Base I s' ∧ Done I s') ∧
    ∀ f, trapHandleLowerElAarch64Sync (handlers I data scratch) s esr far = .error f →
      f.IsPanic := by
  -- a task that waits gives way, and is left as the scheduler leaves it
  have hyield : esrEl2Ec esr = kEsrEl2EcTrapWfx →
      (∀ s', s.schedule I .wfx scratch = .ok s' → Base I s' ∧ Done I s') ∧
        ∀ f, s.schedule I .wfx scratch = .error f → f.IsPanic := fun hec => by
    obtain ⟨hw, hsp⟩ := h.yielding hne hec
    exact schedule_done h.base hw hsp scratch
  constructor
  · intro s' hok
    rcases sync_cases h hne hok with ⟨hec, hok⟩ | ⟨hwfx, hh, heff⟩
    · exact (hyield hec).1 s' hok
    · exact h.done hne hwfx hh heff
  · intro f herr
    -- what is not handled stops the hypervisor, with one message or another
    have hpanic : ∀ {m : String}, (Except.error (.panic m) : Except Fault Machine) = .error f →
        f.IsPanic := fun herr => by
      obtain rfl := Except.error.inj herr
      trivial
    rw [trapHandleLowerElAarch64Sync] at herr
    dsimp only at herr
    split at herr
    case isTrue hec =>
      exact (hyield hec).2 f herr
    split at herr
    · exact hpanic herr
    split at herr
    · exact hpanic herr
    split at herr
    · change handleTrapSystem _ s = _ at herr
      rw [handleTrapSystem] at herr
      split at herr
      · split at herr
        · cases herr
        · exact hpanic herr
      · exact hpanic herr
    split at herr
    · exact hpanic herr
    split at herr
    · rcases Lib.bind_eq_error.mp herr with herr | ⟨⟨handled, s₁⟩, -, herr⟩
      · rw [handleTrapMemAbort] at herr
        split at herr
        · exact memoryAccessFault_error herr
        · split at herr <;> cases herr
      · dsimp only at herr
        split at herr
        · cases herr
        · exact hpanic herr
    · exact hpanic herr

/-- **An interrupt is acknowledged**: its handler may call the scheduler. -/
theorem Taken.acknowledged (h : Taken I s .irq) (iar : ℕ) :
    Base I { s with active := iar :: s.active } ∧
      Waiting I { s with active := iar :: s.active } s.cur (.irq iar) ∧
      s.cpu.sp = site I { s with active := iar :: s.active } s.cur (.irq iar) := by
  set s₁ : Machine := { s with active := iar :: s.active } with hs₁
  have hsaved : saved I s₁ s.cur = saved I s s.cur := saved_mode s s.cur _ s.mode
  refine ⟨h.base.local (local_mode s (iar :: s.active) s.mode), ⟨fun hne => ?_, ?_, h.wfxs⟩,
    h.sp.trans (site_congr (c := .irq iar) (top_congr (by rfl) s.cur)).symm⟩
  · exact (h.last hne).trans (congrArg (fun c => some (Trap.irq, c)) hsaved.symm)
  · rw [hsaved]
    exact h.level

/-- **An interrupt** is answered. -/
theorem irq_done {gicc_iar : ℕ} {scratch : Fin 31 → Word} (h : Taken I s .irq) :
    (∀ s', s.handleIrq I gicc_iar scratch = .ok s' → Base I s' ∧ Done I s') ∧
      ∀ f, s.handleIrq I gicc_iar scratch = .error f → f.IsPanic := by
  obtain ⟨hb, hw, hsp⟩ := h.acknowledged (gicc_iar &&& 0x0fff)
  rw [handleIrq]
  split
  · exact schedTimerHandler_done hb hw hsp scratch
  · refine ⟨fun s' hok => ?_, fun f herr => (by cases herr)⟩
    obtain rfl := Except.ok.inj hok
    exact resume_done hb hw hsp

/-! ### Runs -/

/-- **What is promised** of a state: the guest that is about to run has what it had at its
last trap, but for what the trap did to it; its count of `WFx` is the number of those it
has executed; and the scheduler has always returned into the handler of the current
task. -/
structure Preserved (s : Machine) : Prop where
  effect : s.mode = .guest → ∀ trap c, s.last s.cur = some (trap, c) →
    OwnEffect c s.cpu.context trap
  wfx_traps : s.mode = .guest → (s.memory.stat s.cur).wfx_traps = s.wfxs s.cur
  returned : ∀ p ∈ s.returned, p.1 = p.2

theorem Inv.preserved (h : Inv I s) : Preserved s where
  effect hm := (h.guest hm).effect
  wfx_traps hm := (h.guest hm).wfxs
  returned := h.base.returned

theorem boot_inv (I : Image L) (cpu : Cpu) : Inv I (boot I cpu) := by
  have hlen : (boot I cpu).sched.tsks.length = 1 := rfl
  have hcur : (boot I cpu).cur = 0 := rfl
  refine ⟨⟨?_, ?_, ?_, ?_, ?_, nofun, ?_, fun _ _ => ⟨rfl, rfl⟩, nofun⟩, nofun,
    fun _ => ⟨rfl, rfl, rfl⟩, nofun⟩
  · exact Scheduling.inv_init
  · intro t ht₀ ht
    rw [hlen] at ht
    omega
  · intro t u ht₀ _ ht
    rw [hlen] at ht
    omega
  · intro t ht₀ ht
    rw [hlen] at ht
    omega
  · intro t ht₀ ht
    rw [hlen] at ht
    omega
  · intro t ht hne
    rw [hlen] at ht
    rw [hcur] at hne
    omega

/-- **One event** keeps the invariant, or the hypervisor stops. -/
theorem step_inv {b : BoardKind} {e : Event} (h : Inv I s) (hl : Legal s e) :
    (∀ s', s.step I b e = .ok s' → Inv I s') ∧
      ∀ f, s.step I b e = .error f → f.IsPanic ∨ f = .outOfBounds := by
  -- every step but the creation of a task ends by leaving the hypervisor
  have hfinish : ∀ {m : Except Fault Machine}, ((∀ s', m = .ok s' → Base I s' ∧ Done I s') ∧
      ∀ f, m = .error f → f.IsPanic) →
      (∀ s', (m >>= fun s => pure s.finish) = .ok s' → Inv I s') ∧
        ∀ f, (m >>= fun s => pure s.finish) = .error f → f.IsPanic ∨ f = .outOfBounds := by
    rintro m ⟨hok, herr⟩
    refine ⟨fun s' h => ?_, fun f h => ?_⟩
    · obtain ⟨s₁, hs₁, h⟩ := Lib.bind_eq_ok.mp h
      obtain rfl := Except.ok.inj h
      obtain ⟨hb, hd⟩ := hok s₁ hs₁
      exact finish_inv hb hd
    · rcases Lib.bind_eq_error.mp h with h | ⟨_, -, h⟩
      · exact .inl (herr f h)
      · cases h
  cases e with
  | createTask load =>
    have hm : s.mode = .init := hl
    obtain ⟨h0, hsp, hwfx⟩ := h.init hm
    refine ⟨fun s' hok => ?_, fun f herr => createTask_error herr⟩
    obtain ⟨hb, hmode, hcur, hcpu, hwfx', hwfxs⟩ := createTask_base h.base h0 hok
    have hm' := hmode.trans hm
    refine ⟨hb, fun hg => (by cases hm'.symm.trans hg), fun _ => ⟨hcur.trans h0, ?_, ?_⟩,
      fun hh => (by cases hm'.symm.trans hh)⟩
    · rw [hcpu]
      exact hsp
    · rw [hwfx', hwfxs]
      exact hwfx
  | loop scratch =>
    have hm : s.mode = .init := hl
    obtain ⟨h0, hsp, hwfx⟩ := h.init hm
    have hw : Waiting I s s.cur .main := by
      rw [h0]
      exact ⟨rfl, hwfx⟩
    exact hfinish (schedule_done h.base hw hsp scratch)
  | sync g esr far data scratch =>
    have htaken := taken_trapped h (.inl hl) (.sync esr)
    exact hfinish (sync_done htaken (h.guest hl.1).cur_ne)
  | irq g gicc_iar scratch => exact hfinish (irq_done (taken_trapped h hl.1 .irq))

end Machine

open Machine

/-- A processor whose registers are cleared. -/
def Cpu.zero : Cpu := ⟨fun _ => 0, 0, 0, 0, 0, fun _ => 0⟩

/-- A guest at EL1 whose registers hold their numbers. -/
def GuestRegs.numbered : GuestRegs := ⟨fun i => BitVec.ofNat 64 i, 0x40080000, 0x5, fun _ => 7⟩

/-- A loader that maps one page and starts the guest there. -/
def Load.onePage : Load := ⟨1, 2, [0x40000000], some (0x40000000, 0)⟩

/-- Two guests: the first yields to the second, the second is interrupted by the timer, and
the first goes on. -/
def twoGuests : List Event :=
  [.createTask .onePage, .createTask .onePage, .loop fun _ => 0,
    .sync .numbered (kEsrEl2EcTrapWfx <<< 26) 0 0 fun _ => 0,
    .irq .numbered kIrqIdEl2PhysicalTimer fun _ => 0, .loop fun _ => 0]

end Evisor
