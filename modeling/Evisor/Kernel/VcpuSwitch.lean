import Evisor.Kernel.VcpuInv

/-!
# Leaving a guest, switching, entering a guest

What the invariant of `Evisor.Kernel.VcpuInv` becomes when a guest traps, when a call of
the scheduler switches to another task (`Evisor.Machine.switchTaskTo_done`), and when a
handler that is done leaves the hypervisor (`Evisor.Machine.finish_inv`).
-/

namespace Evisor

namespace Machine

variable {L : Layout} {I : Image L} {s s' : Machine} {t u : TaskId}

/-! ### Leaving a guest and entering one -/

theorem seen_of_not_ident {r : VReg} (hr : ¬Ident r) : r.seen = .el1 r := by
  unfold VReg.seen
  split
  · exact absurd (.inl rfl) hr
  · exact absurd (.inr rfl) hr
  · rfl

theorem ident_mem {r : VReg} (hr : Ident r) : r ∈ notTrapped := by
  rcases hr with rfl | rfl <;> decide

/-- What identifies the processor is not written by a guest. -/
theorem run_ident (cpu : Cpu) (g : GuestRegs) {r : VReg} (hr : Ident r) :
    (cpu.run g).sys (.el1 r) = cpu.sys (.el1 r) ∧ (cpu.run g).sys r.seen = cpu.sys r.seen := by
  rcases hr with rfl | rfl <;> exact ⟨rfl, rfl⟩

theorem storeFrame_word {stack w : ℕ → Word} {sp i : ℕ} (hi : i < 34) :
    storeFrame stack sp w (sp + 8 * i) = w i := by
  rw [storeFrame, CPU_CONTEXT_GP_REGS, if_pos (by omega)]
  congr 1
  omega

theorem storeFrame_of_out {stack w : ℕ → Word} {sp a : ℕ} (ha : a < sp ∨ sp + 272 ≤ a) :
    storeFrame stack sp w a = stack a := by
  rw [storeFrame, CPU_CONTEXT_GP_REGS, if_neg (by omega)]

theorem frameWord_reg (cpu : Cpu) (i : Fin 31) : cpu.frameWord i = cpu.x i := by
  rw [Cpu.frameWord, dif_pos i.isLt]

/-- The registers at an exception are stored below the stack pointer. -/
theorem trapped_stack (g : GuestRegs) (trap : Trap) : (s.trapped g trap).stack =
    storeFrame s.stack (s.cpu.sp - 8 * CPU_CONTEXT_GP_REGS) (s.cpu.run g).frameWord := rfl

/-- **Taking an exception** is the task's own affair. -/
theorem local_trapped (hsp : s.cpu.sp = top I s s.cur) (g : GuestRegs) (trap : Trap) :
    Local I s (s.trapped g trap) where
  sched := id
  tasks := rfl
  cur := rfl
  grows := .refl _
  page := rfl
  cpu_context := rfl
  template := rfl
  load := rfl
  calls := rfl
  returned := rfl
  ident r hr := (run_ident s.cpu g hr).1
  own_ident _ r hr _ := by
    refine (congrFun (Function.update_self ..) r).trans ?_
    exact (store_field (ident_mem hr)).trans (run_ident s.cpu g hr).1
  vcpu_sysregs t ht := Function.update_of_ne ht ..
  last t ht := Function.update_of_ne ht ..
  wfxs t ht := by
    change (if trap.isWfx then Function.update s.wfxs s.cur (s.wfxs s.cur + 1) else s.wfxs) t = _
    split
    · exact Function.update_of_ne ht ..
    · rfl
  wfxTraps _ _ := rfl
  stack a ha := by
    have hge := top_ge (I := I) s s.cur
    rw [trapped_stack, CPU_CONTEXT_GP_REGS, storeFrame_of_out (by omega)]

/-- The frame of an exception. -/
theorem trapped_word (hsp : s.cpu.sp = top I s s.cur) (g : GuestRegs) (trap : Trap) {i : ℕ}
    (hi : i < 34) : (s.trapped g trap).stack (frame I s s.cur + 8 * i) =
      (s.cpu.run g).frameWord i := by
  rw [frame_eq, ← hsp, trapped_stack, CPU_CONTEXT_GP_REGS, storeFrame_word hi]

/-- **What an exception keeps** is what the guest had. -/
theorem saved_trapped (h : Running I s) (g : GuestRegs) (trap : Trap) :
    saved I (s.trapped g trap) s.cur = (s.cpu.run g).context := by
  have hframe : frame I (s.trapped g trap) s.cur = frame I s s.cur := frame_congr (by rfl) _
  have hword : ∀ i < 34, (s.trapped g trap).stack (frame I (s.trapped g trap) s.cur + 8 * i) =
      (s.cpu.run g).frameWord i := fun i hi => by
    rw [hframe, trapped_word h.sp g trap hi]
  refine GuestContext.ext (funext fun i => ?_) (hword 32 (by decide)) (hword 33 (by decide))
    h.vttbr.symm ?_
  · exact (hword i (by omega)).trans (frameWord_reg _ i)
  · change notTrapped.map ((s.trapped g trap).vcpu_sysregs s.cur) =
      notTrapped.map fun r => (s.cpu.run g).sys r.seen
    refine List.map_congr_left fun r hr => ?_
    refine (congrFun (Function.update_self ..) r).trans ((store_field hr).trans ?_)
    change (s.cpu.run g).sys (.el1 r) = (s.cpu.run g).sys r.seen
    by_cases hid : Ident r
    · rw [(run_ident s.cpu g hid).1, (run_ident s.cpu g hid).2, h.ident r hid]
    · rw [seen_of_not_ident hid]

/-- The level an exception is taken from is kept. -/
theorem spsr_trapped (hsp : s.cpu.sp = top I s s.cur) (g : GuestRegs) (trap : Trap) :
    (saved I (s.trapped g trap) s.cur).spsr = g.pstate := by
  have hframe : frame I (s.trapped g trap) s.cur = frame I s s.cur := frame_congr (by rfl) _
  change (s.trapped g trap).stack (frame I (s.trapped g trap) s.cur + 8 * 33) = _
  rw [hframe, trapped_word hsp g trap (by decide)]
  rfl

/-- **What the guest finds is what was kept.** -/
theorem context_leave (hsp : s.cpu.sp = frame I s s.cur) :
    s.leaveHypervisor.cpu.context = saved I s s.cur := by
  rw [saved, ← hsp]
  exact GuestContext.ext rfl rfl rfl rfl (List.map_congr_left fun r hr => load_seen hr)

theorem local_leave (s : Machine) : Local I s s.leaveHypervisor where
  sched := id
  tasks := rfl
  cur := rfl
  grows := .refl _
  page := rfl
  cpu_context := rfl
  template := rfl
  load := rfl
  calls := rfl
  returned := rfl
  ident _ hr := load_ident hr
  own_ident _ _ _ h := h
  vcpu_sysregs _ _ := rfl
  last _ _ := rfl
  wfxs _ _ := rfl
  wfxTraps _ _ := rfl
  stack _ _ := rfl

/-- **Leaving the hypervisor** for a guest, or for `KernelMain`. -/
theorem finish_inv (h : Base I s) (hd : Done I s) : Inv I s.finish := by
  cases hd with
  | main mode cur sp wfxs =>
    have hfinish : s.finish = s := by rw [finish, mode]
    rw [hfinish]
    exact ⟨h, fun hm => (by cases mode.symm.trans hm), fun _ => ⟨cur, sp, wfxs⟩,
      fun hm => (by cases mode.symm.trans hm)⟩
  | handler mode sp ready =>
    have hfinish : s.finish = s.leaveHypervisor := by rw [finish, mode]
    have hmode : s.leaveHypervisor.mode =
        if exceptionLevel (saved I s s.cur).spsr = 2 then .init else .guest := by
      rw [saved, ← sp]
      rfl
    have hsp : s.leaveHypervisor.cpu.sp = top I s s.cur := by
      have hge := top_ge (I := I) s s.cur
      change s.cpu.sp + 272 = _
      rw [sp, frame_eq]
      omega
    have htop : top I s.leaveHypervisor s.cur = top I s s.cur := top_congr (by rfl) _
    rw [hfinish]
    -- the level in the saved state decides whether a guest or the initial task goes on
    refine ⟨h.local (local_leave s), fun hm => ?_, fun hm => ?_, fun hm => ?_⟩
    · have hne : s.cur ≠ 0 := by
        intro h0
        rw [hmode, if_pos (ready.level.mpr h0)] at hm
        cases hm
      refine ⟨hne, hsp.trans htop.symm, rfl, fun r hr => ?_, ?_, ready.wfxs⟩
      · refine (load_seen (ident_mem hr)).trans ?_
        exact (h.ident s.cur hne h.cur_lt r hr).trans (load_ident hr).symm
      · rw [context_leave sp]
        exact ready.effect hne
    · have h0 : s.cur = 0 := by
        by_contra hne
        rw [hmode, if_neg fun hl => hne (ready.level.mp hl)] at hm
        cases hm
      refine ⟨h0, hsp.trans (by rw [h0, top_init]), ?_⟩
      have hw := ready.wfxs
      rw [h0] at hw
      exact hw
    · rw [hmode] at hm
      split at hm <;> cases hm

/-! ### What is done for the current task -/

/-- A word of the current task's frame is its own. -/
theorem local_storeWord (hne : s.cur ≠ 0) {n : ℕ} (hn : n < 34) (v : Word) :
    Local I s (s.storeWord (s.getVCpuRegs s.cur + 8 * n) v) :=
  { (Local.refl s : Local I s s) with
    stack := fun a ha => by
      have hge := top_ge (I := I) s s.cur
      rw [storeWord_stack, getVCpuRegs_eq (I := I) hne, frame_eq]
      exact Function.update_of_ne (by omega) _ _ }

/-- So are its counts. -/
theorem local_modifyStat (s : Machine) (f : TaskStat → TaskStat) :
    Local I s (s.modifyStat s.cur f) :=
  { (Local.refl s : Local I s s) with
    wfxTraps := fun t ht => by
      change (Function.update s.memory.stat s.cur _ t).wfx_traps = _
      rw [Function.update_of_ne ht, wfxTraps] }

theorem saved_modifyStat (s : Machine) (t u : TaskId) (f : TaskStat → TaskStat) :
    saved I (s.modifyStat u f) t = saved I s t :=
  saved_congr (top_congr (by rfl) t) (fun _ _ => rfl) rfl fun _ _ => rfl

/-- What is done after it has returned leaves where the task is. -/
theorem local_mode (s : Machine) (active : List ℕ) (mode : Mode) :
    Local I s { s with active, mode } :=
  { (Local.refl s : Local I s s) with }

theorem saved_mode (s : Machine) (t : TaskId) (active : List ℕ) (mode : Mode) :
    saved I { s with active, mode } t = saved I s t :=
  saved_congr (top_congr (by rfl) t) (fun _ _ => rfl) rfl fun _ _ => rfl

/-- **Passing over an instruction.** -/
theorem saved_increment (hne : s.cur ≠ 0) :
    saved I (s.incrementCurrentTaskPc 4) s.cur = (saved I s s.cur).advance := by
  rw [incrementCurrentTaskPc, saved_storeWord hne (by decide), if_pos rfl,
    getVCpuRegs_eq (I := I) hne]
  rfl

theorem local_increment (hne : s.cur ≠ 0) : Local I s (s.incrementCurrentTaskPc 4) :=
  local_storeWord hne (by decide) _

/-- **A call that waited is gone on with.** -/
theorem resume_done (h : Base I s) {c : Call} (hw : Waiting I s s.cur c)
    (hsp : s.cpu.sp = site I s s.cur c) : Base I (s.resume c) ∧ Done I (s.resume c) := by
  cases c with
  | main =>
    obtain ⟨h0, hwfx⟩ := hw
    rw [h0] at hwfx
    exact ⟨h.local (local_mode s s.active .init), .main rfl h0 hsp hwfx⟩
  | irq iar =>
    obtain ⟨hlast, hlevel, hwfx⟩ := hw
    have hl : Local I s (s.resume (.irq iar)) := local_mode s _ .handler
    refine ⟨h.local hl, .handler rfl (hsp.trans (frame_congr (by rfl) _).symm) ⟨?_, ?_, hwfx⟩⟩
    · intro hne trap c hc
      obtain ⟨rfl, rfl⟩ := Prod.mk.inj (Option.some.inj ((hlast hne).symm.trans hc))
      exact saved_mode s s.cur _ _
    · change exceptionLevel (saved I (s.resume (.irq iar)) s.cur).spsr = 2 ↔ s.cur = 0
      have hsaved : saved I (s.resume (.irq iar)) s.cur = saved I s s.cur := saved_mode s _ _ _
      rw [hsaved]
      exact hlevel
  | wfx =>
    -- behind the wait the handler steps over the instruction and counts the trap
    obtain ⟨hne, ⟨esr, hesr, hlast⟩, hlevel, hwfx⟩ := hw
    set s₁ := s.incrementCurrentTaskPc 4 with hs₁
    set s₂ := s₁.modifyStat s₁.cur fun stat => { stat with wfx_traps := stat.wfx_traps + 1 }
      with hs₂
    have hres : s.resume .wfx = { s₂ with active := s₂.active, mode := .handler } := rfl
    have hl : Local I s (s.resume .wfx) := by
      rw [hres]
      exact ((local_increment hne).trans (local_modifyStat s₁ _)).trans (local_mode s₂ _ _)
    have hsaved : saved I (s.resume .wfx) s.cur = (saved I s s.cur).advance := by
      rw [hres, saved_mode, hs₂, saved_modifyStat, saved_increment hne]
    refine ⟨h.local hl, .handler rfl (hsp.trans (frame_congr (by rfl) _).symm) ⟨?_, ?_, ?_⟩⟩
    · intro _ trap c hc
      obtain ⟨rfl, rfl⟩ := Prod.mk.inj (Option.some.inj (hlast.symm.trans hc))
      rw [OwnEffect, if_pos hesr]
      exact hsaved
    · refine iff_of_false (fun hl => hlevel ?_) hne
      change exceptionLevel (saved I (s.resume .wfx) s.cur).spsr = 2 at hl
      rwa [hsaved] at hl
    · change (Function.update s.memory.stat s.cur _ s.cur).wfx_traps = s.wfxs s.cur
      rw [Function.update_self, ← hwfx]
      rfl

/-! ### A task that has never run -/

/-- Memory that has grown is no other task's affair. -/
theorem local_memory {memory : Memory} (hg : Mm.Grows L s.memory.mm memory.mm)
    (hstat : ∀ t, (memory.stat t).wfx_traps = s.wfxTraps t) :
    Local I s { s with memory } :=
  { (Local.refl s : Local I s s) with
    grows := hg
    wfxTraps := fun t _ => hstat t }

theorem mapPages_ok {m m' : Memory} {tsk : TaskId} {ipas : List ℕ}
    (h : mapPages L m tsk ipas = .ok m') : Mm.Grows L m.mm m'.mm ∧ m'.stat = m.stat := by
  induction ipas generalizing m with
  | nil =>
    obtain rfl := Except.ok.inj h
    exact ⟨.refl _, rfl⟩
  | cons ipa rest ih =>
    obtain ⟨⟨page, m₁⟩, hmap, h⟩ := Lib.bind_eq_ok.mp h
    have hg := grows_of_pageMap hmap
    obtain ⟨⟨page₁, m₂⟩, ha, hmap⟩ := Lib.bind_eq_ok.mp hmap
    obtain ⟨mm, -, hmap⟩ := Lib.bind_eq_ok.mp hmap
    obtain ⟨-, rfl⟩ := Prod.mk.inj (Except.ok.inj hmap)
    obtain ⟨⟨page₂, mem, user⟩, -, ha⟩ := Lib.bind_eq_ok.mp ha
    obtain ⟨-, rfl⟩ := Prod.mk.inj (Except.ok.inj ha)
    obtain ⟨hg', hstat⟩ := ih h
    exact ⟨hg.trans hg', hstat⟩

theorem local_runVcpu (s : Machine) (tsk : TaskId) (mode : Mode) :
    Local I s { s.runVcpu tsk with mode } :=
  { (Local.refl s : Local I s s) with
    ident := fun _ hr => load_ident hr }

/-- **A task that has never run is loaded.** -/
theorem loadTaskImage_done (h : Base I s) (hne : s.cur ≠ 0) (hlast : s.last s.cur = none)
    (hwfx : s.wfxTraps s.cur = s.wfxs s.cur) (hsp : s.cpu.sp = frame I s s.cur)
    (hok : s.loadTaskImage L = .ok s') : Base I s' ∧ Done I s' := by
  set s₁ := s.storeWord (s.getVCpuRegs s.cur + 8 * 33) initialPstate with hs₁
  obtain ⟨memory, hmap, hok⟩ := Lib.bind_eq_ok.mp hok
  obtain ⟨hg, hstat⟩ := mapPages_ok hmap
  have hl₁ : Local I s s₁ := local_storeWord hne (by decide) _
  split at hok
  · cases hok
  rename_i pc sp _
  set s₂ : Machine := { s₁ with memory } with hs₂
  set s₃ := s₂.storeWord (s₂.getVCpuRegs s₂.cur + 8 * 32) pc with hs₃
  set s₄ := s₃.storeWord (s₃.getVCpuRegs s₃.cur + 8 * 31) sp with hs₄
  have hl₂ : Local I s₁ s₂ := local_memory hg fun t => congrArg TaskStat.wfx_traps
    (congrFun hstat t)
  have hl₃ : Local I s₂ s₃ := local_storeWord (s := s₂) (n := 32) hne (by decide) _
  have hl₄ : Local I s₃ s₄ := local_storeWord (s := s₃) (n := 31) hne (by decide) _
  have hl : Local I s s₄ := ((hl₁.trans hl₂).trans hl₃).trans hl₄
  obtain rfl : { s₄.runVcpu s.cur with mode := .handler } = s' := Except.ok.inj hok
  have hl' := hl.trans (local_runVcpu s₄ s.cur .handler)
  refine ⟨h.local hl', .handler rfl (hsp.trans (frame_congr (by rfl) _).symm) ⟨?_, ?_, ?_⟩⟩
  · intro _ trap c hc
    cases hlast.symm.trans hc
  · -- the word with the level is stored once
    refine iff_of_false (fun hlevel => ?_) hne
    have hspsr : s₄.stack (frame I s s.cur + 8 * 33) = initialPstate := by
      have hr : s.getVCpuRegs s.cur = frame I s s.cur := getVCpuRegs_eq hne
      have hr₂ : s₂.getVCpuRegs s₂.cur = s.getVCpuRegs s.cur := rfl
      have hr₃ : s₃.getVCpuRegs s₃.cur = s.getVCpuRegs s.cur := rfl
      rw [hs₄, storeWord_stack, hr₃, hr, Function.update_of_ne (by omega), hs₃, storeWord_stack,
        hr₂, hr, Function.update_of_ne (by omega)]
      have hst₂ : s₂.stack = s₁.stack := rfl
      rw [hst₂, hs₁, storeWord_stack, hr, Function.update_self]
    have hframe : frame I { s₄.runVcpu s.cur with mode := .handler } s.cur =
        frame I s s.cur := frame_congr (by rfl) _
    have hst : ({ s₄.runVcpu s.cur with mode := .handler } : Machine).stack = s₄.stack := rfl
    have hcur : ({ s₄.runVcpu s.cur with mode := .handler } : Machine).cur = s.cur := rfl
    rw [hcur, saved_spsr, hframe, hst, hspsr] at hlevel
    exact absurd hlevel (by decide)
  · change (memory.stat s.cur).wfx_traps = s.wfxs s.cur
    rw [hstat]
    exact hwfx

/-! ### Switching -/

/-- What is kept for the tasks is not touched by a switch. -/
theorem saved_switch (s : Machine) (t : TaskId) (sched : Sched) (cpu : Cpu)
    (calls : ℕ → Option Activation) (cpu_context : TaskId → CpuContext)
    (returned : List (TaskId × TaskId)) :
    saved I { s with sched, cpu, calls, cpu_context, returned } t = saved I s t :=
  saved_congr (top_congr (by rfl) t) (fun _ _ => rfl) rfl fun _ _ => rfl

theorem Waiting.switch {c : Call} (hw : Waiting I s t c) (sched : Sched) (cpu : Cpu)
    (calls : ℕ → Option Activation) (cpu_context : TaskId → CpuContext)
    (returned : List (TaskId × TaskId)) :
    Waiting I { s with sched, cpu, calls, cpu_context, returned } t c :=
  hw.congr (fun _ => saved_switch s t sched cpu calls cpu_context returned)
    (congrArg GuestContext.spsr (saved_switch s t sched cpu calls cpu_context returned))
    rfl rfl rfl

/-- The call of a task is on its stack. -/
theorem Parked.sp_bounds {c : Call} (h : Parked I s t c) :
    top I s t < (s.cpu_context t).sp + 4096 ∧ (s.cpu_context t).sp ≤ top I s t := by
  rw [h.sp]
  exact site_bounds s c h.waiting.main_eq

/-- **A task that is suspended** stays so when another is. -/
theorem Suspended.park (h : Base I s) (ht : t < s.sched.tsks.length) (hne : t ≠ s.cur)
    (hs : Suspended I s t) {key : ℕ} (hlo : top I s s.cur < key + 4096)
    (hhi : key ≤ top I s s.cur) (sched : Sched) (cpu : Cpu) (a : Activation) (c : CpuContext) :
    Suspended I { s with
      sched, cpu
      calls := Function.update s.calls key (some a)
      cpu_context := Function.update s.cpu_context s.cur c } t := by
  refine hs.congr (top_congr (by rfl) t) (Function.update_of_ne hne ..) rfl rfl ⟨rfl, rfl⟩ ?_
    fun _ hw => hw.switch _ _ _ _ s.returned
  intro call hp
  have happart := h.tops_apart ht h.cur_lt hne
  obtain ⟨hslo, hshi⟩ := hp.sp_bounds
  exact Function.update_of_ne (by omega) _ _

/-- **After a switch** the task left is suspended, and so are the others. -/
theorem base_park (h : Base I s) {c : Call} (hw : Waiting I s s.cur c)
    (hsp : s.cpu.sp = site I s s.cur c) {sched : Sched}
    (hlen : sched.tsks.length = s.sched.tsks.length) (hsched : Scheduling.Inv sched)
    {cpu : Cpu} (hident : ∀ r, Ident r → cpu.sys (.el1 r) = s.cpu.sys (.el1 r))
    {ctx : CpuContext} (hpc : ctx.pc = I.switchReturn)
    (hcsp : ctx.sp = s.cpu.sp - I.stackUse c) :
    Base I { s with
      sched, cpu
      calls := Function.update s.calls (s.cpu.sp - I.stackUse c)
        (some ⟨s.cur, c, calleeOf ctx⟩)
      cpu_context := Function.update s.cpu_context s.cur ctx } := by
  obtain ⟨hlo, hhi⟩ := site_bounds (I := I) s c hw.main_eq
  rw [← hsp] at hlo hhi
  set s₂ : Machine := { s with
    sched, cpu
    calls := Function.update s.calls (s.cpu.sp - I.stackUse c)
      (some ⟨s.cur, c, calleeOf ctx⟩)
    cpu_context := Function.update s.cpu_context s.cur ctx } with hs₂
  have htasks : s₂.sched.tsks.length = s.sched.tsks.length := hlen
  have hctx : s₂.cpu_context s.cur = ctx := Function.update_self ..
  refine ⟨?_, ?_, ?_, ?_, ?_, ?_, ?_, ?_, h.returned⟩
  · exact hsched
  · rw [htasks]
    exact h.allocated
  · rw [htasks]
    exact h.page_inj
  · rw [htasks]
    exact h.table
  · intro t ht₀ ht r hr
    rw [htasks] at ht
    exact (h.ident t ht₀ ht r hr).trans (hident r hr).symm
  · intro regs hregs r hr
    exact (h.template regs hregs r hr).trans (hident r hr).symm
  · intro t ht hne
    rw [htasks] at ht
    by_cases hcur : t = s.cur
    · -- the task left
      subst hcur
      refine .inr ⟨c, ?_, ?_, ?_, hw.switch _ _ _ _ s.returned⟩
      · rw [hctx]; exact hpc
      · have hsite : site I s₂ s.cur c = site I s s.cur c := site_congr (top_congr (by rfl) _) c
        rw [hctx, hcsp, hsite, hsp]
      · rw [hctx, hcsp]
        exact Function.update_self ..
    · exact (h.others t ht hcur).park h ht hcur hlo hhi sched cpu _ ctx
  · rw [htasks]
    exact h.unborn

/-- Loading fails only by stopping. -/
theorem loadTaskImage_error {f : Fault} (h : s.loadTaskImage L = .error f) : f.IsPanic := by
  have hpages : ∀ {m : Memory} {tsk ipas}, mapPages L m tsk ipas = .error f → f.IsPanic := by
    intro m tsk ipas hmap
    induction ipas generalizing m with
    | nil => cases hmap
    | cons ipa rest ih =>
      rcases Lib.bind_eq_error.mp hmap with hmap | ⟨_, -, hmap⟩
      · rcases Lib.bind_eq_error.mp hmap with hmap | ⟨_, -, hmap⟩
        · exact (pageAllocate_error hmap).isPanic
        · rcases Lib.bind_eq_error.mp hmap with hmap | ⟨_, -, hmap⟩
          · rcases Lib.bind_eq_error.mp hmap with hmap | ⟨_, -, hmap⟩
            · exact (Mm.mapPage_error hmap).isPanic
            · cases hmap
          · cases hmap
      · exact ih hmap
  rcases Lib.bind_eq_error.mp h with h | ⟨memory, -, h⟩
  · exact hpages h
  · split at h
    · obtain rfl := Except.error.inj h
      trivial
    · cases h

/-- What `SchedContextSwitch` has loaded when it returns: what is kept for the task that is
now the current one. -/
structure Restored (s : Machine) : Prop where
  x19 : s.cpu.x 19 = (s.cpu_context s.cur).x19
  x20 : s.cpu.x 20 = (s.cpu_context s.cur).x20
  x21 : s.cpu.x 21 = (s.cpu_context s.cur).x21
  x30 : s.cpu.x 30 = (s.cpu_context s.cur).pc
  callee : calleeSaved s.cpu.x = calleeOf (s.cpu_context s.cur)
  sp : s.cpu.sp = (s.cpu_context s.cur).sp

/-- Into a task that has never run, it returns by way of its loader. -/
theorem switchReturn_unstarted (hs : Unstarted I s s.cur) (h : Restored s) :
    s.switchReturn I = s.loadTaskImage L := by
  rw [switchReturn, if_pos (h.x30.trans hs.pc),
    if_pos ⟨h.x19.trans hs.x19, h.x20.trans hs.x20, h.x21.trans hs.x21⟩]

/-- The call that waits, with its stack given back to it. -/
def goOn (I : Image L) (s : Machine) (c : Call) : Machine :=
  { s with
    cpu := { s.cpu with sp := s.cpu.sp + I.stackUse c }
    returned := (s.cur, s.cur) :: s.returned }

/-- Into a task that waits, it returns to the call. -/
theorem switchReturn_parked {c : Call} (hs : Parked I s s.cur c) (h : Restored s) :
    s.switchReturn I = .ok ((s.goOn I c).resume c) := by
  have hne : s.cpu.x 30 ≠ I.KernelSwitchFromKThread := by
    rw [h.x30, hs.pc]
    exact I.switchReturn_ne
  rw [switchReturn, if_neg hne, if_pos (h.x30.trans hs.pc), h.sp, hs.kept]
  dsimp only
  rw [if_pos h.callee.symm, goOn, ← h.sp]

/-- A call that is gone on with has the stack pointer it was made with. -/
theorem goOn_sp {c : Call} (hs : Parked I s s.cur c) (h : Restored s) :
    (s.goOn I c).cpu.sp = site I s s.cur c := by
  obtain ⟨hlo, -⟩ := hs.sp_bounds
  have hge := top_ge (I := I) s s.cur
  have hspc := hs.sp
  have hsp := h.sp
  change s.cpu.sp + I.stackUse c = _
  omega

/-- **Returning from `SchedContextSwitch`** finds the task switched to as it was
suspended. -/
theorem switchReturn_done (h : Base I s) (hs : Suspended I s s.cur) (hl : Restored s) :
    (∀ s', s.switchReturn I = .ok s' → Base I s' ∧ Done I s') ∧
      ∀ f, s.switchReturn I = .error f → f.IsPanic := by
  rcases hs with hs | ⟨c, hs⟩
  · rw [switchReturn_unstarted hs hl]
    refine ⟨fun s' hok => ?_, fun f herr => ?_⟩
    · exact loadTaskImage_done h hs.ne_init hs.last hs.wfxs (hl.sp.trans hs.sp) hok
    · exact loadTaskImage_error herr
  · have hb : Base I (s.goOn I c) := by
      refine ⟨h.sched, h.allocated, h.page_inj, h.table, h.ident, h.template, ?_, h.unborn, ?_⟩
      · exact fun t ht hcur => (h.others t ht hcur).congr (top_congr (by rfl) t) rfl rfl rfl
          ⟨rfl, rfl⟩ (fun _ _ => rfl) fun _ hw => hw.switch _ _ _ _ _
      · intro p hp
        rcases List.mem_cons.mp hp with rfl | hp
        · rfl
        · exact h.returned p hp
    have hw : Waiting I (s.goOn I c) (s.goOn I c).cur c := hs.waiting.switch _ _ _ _ _
    have hsp : (s.goOn I c).cpu.sp = site I (s.goOn I c) (s.goOn I c).cur c :=
      (goOn_sp hs hl).trans (site_congr (top_congr (by rfl) _) c).symm
    rw [switchReturn_parked hs hl]
    refine ⟨fun s' hok => ?_, fun f herr => (by cases herr)⟩
    obtain rfl := Except.ok.inj hok
    exact resume_done hb hw hsp

/-- What the current task leaves when `SchedContextSwitch` is called on behalf of `c`, with `x`
in the registers, and what is loaded of the next one. -/
def switched (I : Image L) (s : Machine) (sched : Sched) (c : Call) (x : Fin 31 → Word) :
    Machine :=
  let cpu := { s.cpu with
    x
    sp := s.cpu.sp - I.stackUse c }
  let switched := schedContextSwitch cpu (s.cpu_context sched.cur)
  { s with
    sched
    calls := Function.update s.calls cpu.sp (some ⟨s.cur, c, calleeSaved cpu.x⟩)
    cpu_context := Function.update s.cpu_context s.cur switched.1
    cpu := switched.2 }

theorem switchTaskTo_of_ne {sched : Sched} (hne : s.cur ≠ sched.cur) (c : Call)
    (scratch : Fin 31 → Word) :
    s.switchTaskTo I sched c scratch =
      (s.switched I sched c (Function.update scratch 30 I.switchReturn)).switchReturn I :=
  if_neg hne

theorem switchTaskTo_of_eq {sched : Sched} (heq : s.cur = sched.cur) (c : Call)
    (scratch : Fin 31 → Word) :
    s.switchTaskTo I sched c scratch = .ok (({ s with sched } : Machine).resume c) :=
  if_pos heq

/-- **The task switched to** is found as it was suspended. -/
theorem switched_suspended (h : Base I s) {c : Call} (hw : Waiting I s s.cur c)
    (hsp : s.cpu.sp = site I s s.cur c) {sched : Sched}
    (hlen : sched.tsks.length = s.sched.tsks.length) (hsched : Scheduling.Inv sched)
    (hne : s.cur ≠ sched.cur) {x : Fin 31 → Word} (hx : x 30 = I.switchReturn) :
    Base I (s.switched I sched c x) ∧
      Suspended I (s.switched I sched c x) sched.cur ∧
      Restored (s.switched I sched c x) := by
  have hlt : sched.cur < s.sched.tsks.length := hlen ▸ hsched.registered
  obtain ⟨hlo, hhi⟩ := site_bounds (I := I) s c hw.main_eq
  rw [← hsp] at hlo hhi
  have hctx : (s.switched I sched c x).cpu_context sched.cur = s.cpu_context sched.cur :=
    Function.update_of_ne (Ne.symm hne) ..
  set cpu : Cpu := { s.cpu with
    x
    sp := s.cpu.sp - I.stackUse c } with hcpu
  set loaded := schedContextSwitch cpu (s.cpu_context sched.cur) with hloaded
  have hb := base_park h hw hsp hlen hsched
    (fun _ _ => rfl : ∀ r, Ident r → loaded.2.sys (.el1 r) = s.cpu.sys (.el1 r))
    (show loaded.1.pc = I.switchReturn from hx) rfl
  refine ⟨hb, ?_, ?_⟩
  · exact (h.others sched.cur hlt (Ne.symm hne)).park h hlt (Ne.symm hne) hlo hhi sched _ _ _
  · have hcur : (s.switched I sched c x).cur = sched.cur := rfl
    constructor <;> (rw [hcur, hctx]; rfl)

/-- **Switching**, on behalf of a call that waits: some task's call is gone on with, or a
task is started; the only failure is that of a loader. -/
theorem switchTaskTo_done (h : Base I s) {c : Call} (hw : Waiting I s s.cur c)
    (hsp : s.cpu.sp = site I s s.cur c) {sched : Sched}
    (hlen : sched.tsks.length = s.sched.tsks.length) (hsched : Scheduling.Inv sched)
    (scratch : Fin 31 → Word) :
    (∀ s', s.switchTaskTo I sched c scratch = .ok s' → Base I s' ∧ Done I s') ∧
      ∀ f, s.switchTaskTo I sched c scratch = .error f → f.IsPanic := by
  by_cases hcur : s.cur = sched.cur
  · rw [switchTaskTo_of_eq hcur]
    refine ⟨fun s' hok => ?_, fun f herr => (by cases herr)⟩
    obtain rfl := Except.ok.inj hok
    set s₁ : Machine := { s with sched } with hs₁
    have hl : Local I s s₁ :=
      { (Local.refl s : Local I s s) with
        sched := fun _ => hsched
        tasks := hlen
        cur := hcur.symm }
    have hcur₁ : s₁.cur = s.cur := hcur.symm
    refine resume_done (h.local hl) ?_ ?_
    · rw [hcur₁]
      exact hw.switch sched s.cpu s.calls s.cpu_context s.returned
    · rw [hcur₁]
      exact hsp.trans (site_congr (top_congr (by rfl) _) c).symm
  · rw [switchTaskTo_of_ne hcur]
    obtain ⟨hb, hnext, hl⟩ := switched_suspended h hw hsp hlen hsched hcur
      (Function.update_self 30 I.switchReturn scratch)
    exact switchReturn_done hb hnext hl

/-- **Yielding**: the selection ends, and the task it falls on is switched to. -/
theorem schedule_done (h : Base I s) {c : Call} (hw : Waiting I s s.cur c)
    (hsp : s.cpu.sp = site I s s.cur c) (scratch : Fin 31 → Word) :
    (∀ s', s.schedule I c scratch = .ok s' → Base I s' ∧ Done I s') ∧
      ∀ f, s.schedule I c scratch = .error f → f.IsPanic := by
  obtain ⟨sched, hsched, hinv⟩ :=
    Scheduling.schedule_spec le_rfl h.sched.task_ok (Nat.zero_lt_of_lt h.cur_lt)
  obtain ⟨hlen, -⟩ := Sched.schedule_length hsched h.cur_lt
  rw [schedule, schedFuel, hsched]
  exact switchTaskTo_done h hw hsp hlen hinv scratch

/-- **A tick** of the timer. -/
theorem schedTimerHandler_done (h : Base I s) {c : Call} (hw : Waiting I s s.cur c)
    (hsp : s.cpu.sp = site I s s.cur c) (scratch : Fin 31 → Word) :
    (∀ s', s.schedTimerHandler I c scratch = .ok s' → Base I s' ∧ Done I s') ∧
      ∀ f, s.schedTimerHandler I c scratch = .error f → f.IsPanic := by
  obtain ⟨sched, hsched, hinv⟩ := Scheduling.schedTimerHandler_spec le_rfl h.sched
  obtain ⟨hlen, -⟩ := Sched.schedTimerHandler_length hsched h.cur_lt
  rw [schedTimerHandler, schedFuel, hsched]
  exact switchTaskTo_done h hw hsp hlen hinv scratch

end Machine

end Evisor
