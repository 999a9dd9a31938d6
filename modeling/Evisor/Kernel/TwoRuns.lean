import Evisor.Kernel.VcpuRun

/-!
# Two runs that differ in one guest

Two runs take the same traps and the same switches, but one guest, `A`, has other values
in its registers. What the hypervisor keeps is then alike in the two
(`Evisor.Machine.Alike`): it differs in the page of `A`, in the registers kept in its
control block, and in what compiled code had in registers of its own when it was
suspended. The last may be any values at all, in either run: a handler does not change
the registers it does not use, so they may well be the guest's, and they are stored with
its `CpuContext`.

Every function of the hypervisor that the runs go through keeps them alike, and so does
every event (`Evisor.Machine.Twins.step`). A guest other than `A` that runs again is
given the same context in both (`Evisor.Machine.Twins.context`).
-/

namespace Evisor

namespace Machine

variable (A : TaskId)

/-- An address that is not in the page of `A`, once there is one. -/
def Outside (s : Machine) (a : ℕ) : Prop :=
  A < s.sched.tsks.length → a < s.page A ∨ s.page A + 4096 ≤ a

/-- **Two states that differ in what is `A`'s.** -/
structure Alike (s s' : Machine) : Prop where
  guest : A ≠ 0
  sched : s'.sched = s.sched
  memory : s'.memory = s.memory
  page : s'.page = s.page
  load : s'.load = s.load
  template : s'.initial_vcpu_regs = s.initial_vcpu_regs
  mode : s'.mode = s.mode
  sp : s'.cpu.sp = s.cpu.sp
  pc : ∀ t, (s'.cpu_context t).pc = (s.cpu_context t).pc
  context_sp : ∀ t, (s'.cpu_context t).sp = (s.cpu_context t).sp
  calls : ∀ a, (s'.calls a).map Activation.call = (s.calls a).map Activation.call
  vcpu_sysregs : ∀ t, t ≠ A → s'.vcpu_sysregs t = s.vcpu_sysregs t
  stack : ∀ a, Outside A s a → s'.stack a = s.stack a
  ident : ∀ r, Ident r → s'.cpu.sys (.el1 r) = s.cpu.sys (.el1 r)
  -- before the first task is created there is no `A`
  first : s.initial_vcpu_regs = none → s.sched.tsks.length ≤ A ∧ s'.cpu.sys = s.cpu.sys

variable {L : Layout} {I : Image L} {A} {s s' t t' : Machine} {u : TaskId}

/-! ### What is alike -/

theorem Alike.refl (hA : A ≠ 0) (h : s.initial_vcpu_regs = none → s.sched.tsks.length ≤ A) :
    Alike A s s :=
  ⟨hA, rfl, rfl, rfl, rfl, rfl, rfl, rfl, fun _ => rfl, fun _ => rfl, fun _ => rfl, fun _ _ => rfl,
    fun _ _ => rfl, fun _ _ => rfl, fun hn => ⟨h hn, rfl⟩⟩

theorem Alike.cur (h : Alike A s s') : s'.cur = s.cur := congrArg Sched.cur h.sched

theorem Alike.getVCpuRegs (h : Alike A s s') (u : TaskId) :
    s'.getVCpuRegs u = s.getVCpuRegs u := by
  rw [Machine.getVCpuRegs, Machine.getVCpuRegs, h.page]

/-- The frame of another task is not in the page of `A`. -/
theorem Base.outside (h : Base I s) (hA₀ : A ≠ 0) (hu : u < s.sched.tsks.length) (hne : u ≠ A)
    {i : ℕ}
    (hi : i < 34) : Outside A s (frame I s u + 8 * i) := by
  intro hA
  have happart := h.tops_apart hu hA hne
  have hge := top_ge (I := I) s u
  rw [top_of_ne hA₀] at happart
  rw [frame_eq]
  omega

/-- The frame of another task is the same in both. -/
theorem Alike.frameWord (h : Alike A s s') (hb : Base I s) (hu : u < s.sched.tsks.length)
    (hne : u ≠ A) {i : ℕ} (hi : i < 34) :
    s'.stack (frame I s u + 8 * i) = s.stack (frame I s u + 8 * i) :=
  h.stack _ (hb.outside h.guest hu hne hi)

/-- **What is kept for another guest** is the same in both. -/
theorem Alike.saved (h : Alike A s s') (hb : Base I s) (hu : u < s.sched.tsks.length)
    (hne : u ≠ A) : saved I s' u = saved I s u :=
  saved_congr (top_congr h.page u) (fun _ hi => h.frameWord hb hu hne hi)
    (by rw [h.memory]) fun r _ => by rw [h.vcpu_sysregs u hne]

/-! ### What is done for the current task -/

/-- The guest that is current has a frame, which is not in the page of another one. -/
structure Apart (A : TaskId) (s : Machine) : Prop where
  cur_ne : s.cur ≠ 0
  cur_lt : s.cur < s.sched.tsks.length
  outside : s.cur ≠ A → ∀ i < 34, Outside A s (s.getVCpuRegs s.cur + 8 * i)

theorem Base.apart (h : Base I s) (hA : A ≠ 0) (hcur : s.cur ≠ 0) : Apart A s := by
  refine ⟨hcur, h.cur_lt, fun hne i hi => ?_⟩
  rw [getVCpuRegs_eq (I := I) hcur]
  exact h.outside hA h.cur_lt hne hi

/-- A word of the current task's frame is stored; if the task is `A`, which word it is does
not matter. -/
theorem Alike.storeWord (h : Alike A s s') (hp : Apart A s) {n : ℕ} (hn : n < 34) {v v' : Word}
    (hv : s.cur ≠ A → v' = v) :
    Alike A (s.storeWord (s.getVCpuRegs s.cur + 8 * n) v)
      (s'.storeWord (s'.getVCpuRegs s'.cur + 8 * n) v') := by
  refine { h with stack := fun a ha => ?_ }
  replace ha : Outside A s a := ha
  rw [storeWord_stack, storeWord_stack, h.cur, h.getVCpuRegs]
  by_cases hA : s.cur = A
  · -- the frame is in the page of `A`
    have hout := ha (hA ▸ hp.cur_lt)
    have hne : a ≠ s.getVCpuRegs s.cur + 8 * n := by
      rw [Machine.getVCpuRegs, hA, TCB_SIZE, PAGE_SIZE, vcpuContextSize]
      omega
    rw [Function.update_of_ne hne, Function.update_of_ne hne, h.stack a ha]
  · rw [hv hA]
    by_cases haddr : a = s.getVCpuRegs s.cur + 8 * n
    · rw [haddr, Function.update_self, Function.update_self]
    · rw [Function.update_of_ne haddr, Function.update_of_ne haddr, h.stack a ha]

/-- A word read from the frame of the current task is the same, unless the task is `A`. -/
theorem Alike.readWord (h : Alike A s s') (hp : Apart A s) (hA : s.cur ≠ A) {n : ℕ}
    (hn : n < 34) :
    s'.stack (s'.getVCpuRegs s'.cur + 8 * n) = s.stack (s.getVCpuRegs s.cur + 8 * n) := by
  rw [h.cur, h.getVCpuRegs]
  exact h.stack _ (hp.outside hA n hn)

/-- **Passing over an instruction.** -/
theorem Alike.increment (h : Alike A s s') (hp : Apart A s) :
    Alike A (s.incrementCurrentTaskPc 4) (s'.incrementCurrentTaskPc 4) :=
  h.storeWord hp (n := 32) (by decide) fun hA => by
    rw [h.readWord hp hA (n := 32) (by decide)]

theorem Alike.modifyStat (h : Alike A s s') (f : TaskStat → TaskStat) :
    Alike A (s.modifyStat s.cur f) (s'.modifyStat s'.cur f) := by
  refine { h with memory := ?_ }
  rw [Machine.modifyStat, Machine.modifyStat, h.memory, h.cur]

theorem Alike.setMode (h : Alike A s s') (mode : Mode) :
    Alike A { s with mode } { s' with mode } := { h with mode := rfl }

/-- What a guest writes to a register that traps goes into its own control block. -/
theorem Alike.setSysreg (h : Alike A s s') (name : VReg) {v v' : Word}
    (hv : s.cur ≠ A → v' = v) :
    Alike A
      { s with
        vcpu_sysregs := Function.update s.vcpu_sysregs s.cur
          (Function.update (s.vcpu_sysregs s.cur) name v) }
      { s' with
        vcpu_sysregs := Function.update s'.vcpu_sysregs s'.cur
          (Function.update (s'.vcpu_sysregs s'.cur) name v') } := by
  refine { h with vcpu_sysregs := fun u hu => ?_ }
  dsimp only
  rw [h.cur]
  by_cases hcur : u = s.cur
  · have hA : s.cur ≠ A := hcur ▸ hu
    rw [hcur, Function.update_self, Function.update_self, hv hA, h.vcpu_sysregs _ hA]
  · rw [Function.update_of_ne hcur, Function.update_of_ne hcur, h.vcpu_sysregs u hu]

/-- **A trapped instruction** is done in both: the registers it is about are the guest's. -/
theorem Alike.handleTrapSystem (h : Alike A s s') (hp : Apart A s) {iss : ℕ}
    (hok : s.handleTrapSystem iss = .ok t) (hok' : s'.handleTrapSystem iss = .ok t') :
    Alike A t t' := by
  set f : TaskStat → TaskStat := fun stat => { stat with sysreg_traps := stat.sysreg_traps + 1 }
    with hf
  have h₁ : Alike A (s.modifyStat s.cur f) (s'.modifyStat s'.cur f) := h.modifyStat f
  have hp₁ : Apart A (s.modifyStat s.cur f) := ⟨hp.cur_ne, hp.cur_lt, hp.outside⟩
  set s₁ := s.modifyStat s.cur f
  set s₁' := s'.modifyStat s'.cur f
  rw [Machine.handleTrapSystem] at hok hok'
  split at hok
  swap
  · cases hok
  rename_i hcond
  rw [if_pos hcond] at hok'
  split at hok
  swap
  · cases hok
  rename_i s₂ htrap
  split at hok'
  swap
  · cases hok'
  rename_i s₂' htrap'
  obtain rfl := Except.ok.inj hok
  obtain rfl := Except.ok.inj hok'
  change s₁.trapMcrMrcInstructions s₁.cur _ _ _ (issRt iss) _ _ = _ at htrap
  change s₁'.trapMcrMrcInstructions s₁'.cur _ _ _ (issRt iss) _ _ = _ at htrap'
  have hrt : issRt iss < 34 := (and_le_mask _ 5).trans (by decide)
  rw [trapMcrMrcInstructions] at htrap htrap'
  split_ifs at htrap with hdir
  · -- a write: the value goes into the control block
    rw [if_pos hdir] at htrap'
    obtain ⟨name, hname, rfl⟩ := Option.map_eq_some_iff.mp htrap
    obtain ⟨name', hname', rfl⟩ := Option.map_eq_some_iff.mp htrap'
    obtain rfl := Option.some.inj (hname.symm.trans hname')
    exact (h₁.setSysreg name fun hA => h₁.readWord hp₁ hA hrt).increment
      ⟨hp.cur_ne, hp.cur_lt, hp.outside⟩
  · -- a read: the value goes into the frame
    rw [if_neg hdir] at htrap'
    obtain ⟨name, hname, rfl⟩ := Option.map_eq_some_iff.mp htrap
    obtain ⟨name', hname', rfl⟩ := Option.map_eq_some_iff.mp htrap'
    obtain rfl := Option.some.inj (hname.symm.trans hname')
    refine (h₁.storeWord hp₁ hrt fun hA => ?_).increment ⟨hp.cur_ne, hp.cur_lt, hp.outside⟩
    rw [h₁.cur, h₁.vcpu_sysregs _ hA]

/-- **A fault answered with a page** is answered with the same one. -/
theorem Alike.memoryAccessFault (h : Alike A s s') {addr : ℕ} {handled handled' : Bool}
    (hok : s.memoryAccessFault L addr = .ok (handled, t))
    (hok' : s'.memoryAccessFault L addr = .ok (handled', t')) : Alike A t t' := by
  rw [Machine.memoryAccessFault, h.memory, h.cur] at hok'
  obtain ⟨⟨handled₁, memory⟩, hfault, hok⟩ := Lib.bind_eq_ok.mp hok
  obtain ⟨⟨handled₁', memory'⟩, hfault', hok'⟩ := Lib.bind_eq_ok.mp hok'
  obtain ⟨-, rfl⟩ := Prod.mk.inj (Except.ok.inj (hfault.symm.trans hfault'))
  obtain ⟨-, rfl⟩ := Prod.mk.inj (Except.ok.inj hok)
  obtain ⟨-, rfl⟩ := Prod.mk.inj (Except.ok.inj hok')
  exact { h with memory := rfl }

/-- **An access to a device**: what the device answers goes into the frame. -/
theorem Alike.registerAccess (h : Alike A s s') (hp : Apart A s) {data data' : Word} {srt : ℕ}
    (hsrt : srt < 32) {read handled handled' : Bool} (hdata : s.cur ≠ A → data' = data)
    (hok : s.registerAccess data srt read = .ok (handled, t))
    (hok' : s'.registerAccess data' srt read = .ok (handled', t')) : Alike A t t' := by
  have hpass : ∀ s₁ s₁' : Machine, Alike A s₁ s₁' → Apart A s₁ →
      Alike A ((s₁.incrementCurrentTaskPc 4).modifyStat s₁.cur fun stat =>
          { stat with mmios := stat.mmios + 1 })
        ((s₁'.incrementCurrentTaskPc 4).modifyStat s₁'.cur fun stat =>
          { stat with mmios := stat.mmios + 1 }) :=
    fun s₁ s₁' h₁ hp₁ => (h₁.increment hp₁).modifyStat _
  rw [Machine.registerAccess] at hok hok'
  obtain ⟨-, rfl⟩ := Prod.mk.inj (Except.ok.inj hok)
  obtain ⟨-, rfl⟩ := Prod.mk.inj (Except.ok.inj hok')
  have hboard : s'.sched.tsks[s'.cur]?.bind Tcb.board = s.sched.tsks[s.cur]?.bind Tcb.board := by
    rw [h.sched, h.cur]
  rw [hboard]
  split
  · split
    · exact hpass _ _ (h.storeWord hp (by omega) hdata) ⟨hp.cur_ne, hp.cur_lt, hp.outside⟩
    · exact hpass s s' h hp
  · exact hpass s s' h hp

/-- **A call that waited** is gone on with. -/
theorem Alike.resume (h : Alike A s s') {c : Call} (hp : c = .wfx → Apart A s) :
    Alike A (s.resume c) (s'.resume c) := by
  cases c with
  | wfx =>
    exact ((h.increment (hp rfl)).modifyStat fun stat =>
      { stat with wfx_traps := stat.wfx_traps + 1 }).setMode .handler
  | irq iar => exact { h with mode := rfl }
  | main => exact h.setMode .init

/-! ### Entering and leaving a guest -/

/-- What a guest has in a register of EL1 is what it has written. -/
theorem run_el1 (cpu : Cpu) (g : GuestRegs) {r : VReg} (hr : ¬Ident r) :
    (cpu.run g).sys (.el1 r) = g.el1 r := by
  cases r <;> first | rfl | exact absurd (.inl rfl) hr | exact absurd (.inr rfl) hr

/-- **Taking an exception**: what the guest had goes into its frame and its control block. -/
theorem Alike.trapped (h : Alike A s s') (hlt : s.cur < s.sched.tsks.length)
    (hsp : s.cpu.sp = top I s s.cur) {g g' : GuestRegs} (hg : s.cur ≠ A → g' = g)
    (trap : Trap) : Alike A (s.trapped g trap) (s'.trapped g' trap) := by
  have hsys : ∀ r, (s'.cpu.run g).sys (.el1 r) = (s.cpu.run g).sys (.el1 r) := by
    intro r
    by_cases hr : Ident r
    · rw [(run_ident s'.cpu g hr).1, (run_ident s.cpu g hr).1, h.ident r hr]
    · rw [run_el1 s'.cpu g hr, run_el1 s.cpu g hr]
  refine { h with
    mode := rfl
    sp := ?_
    vcpu_sysregs := fun u hu => ?_
    stack := fun a ha => ?_
    ident := fun r hr => ?_
    first := fun hn => ?_ }
  · change s'.cpu.sp - _ = s.cpu.sp - _
    rw [h.sp]
  · change Function.update s'.vcpu_sysregs s'.cur _ u = Function.update s.vcpu_sysregs s.cur _ u
    rw [h.cur]
    by_cases hcur : u = s.cur
    · obtain rfl := hg (hcur ▸ hu)
      rw [hcur, Function.update_self, Function.update_self]
      funext r
      by_cases hr : r ∈ notTrapped
      · exact (store_field hr).trans ((hsys r).trans (store_field hr).symm)
      · refine (store_trapped hr).trans (Eq.trans ?_ (store_trapped hr).symm)
        change s'.vcpu_sysregs s'.cur r = s.vcpu_sysregs s.cur r
        rw [h.cur, h.vcpu_sysregs s.cur (hcur ▸ hu)]
    · rw [Function.update_of_ne hcur, Function.update_of_ne hcur, h.vcpu_sysregs u hu]
  · rw [trapped_stack, trapped_stack, h.sp, CPU_CONTEXT_GP_REGS]
    by_cases hA : s.cur = A
    · -- the frame is in the page of `A`
      have hout : a < s.page A ∨ s.page A + 4096 ≤ a := ha (hA ▸ hlt)
      rw [hsp, hA, top_of_ne h.guest, storeFrame_of_out (by omega), storeFrame_of_out (by omega)]
      exact h.stack a ha
    · obtain rfl := hg hA
      have hword : (s'.cpu.run g').frameWord = (s.cpu.run g').frameWord := by
        funext i
        unfold Cpu.frameWord Cpu.run
        rw [h.sp]
      rw [storeFrame, storeFrame, hword, h.stack a ha]
  · exact (run_ident s'.cpu g' hr).1.trans ((h.ident r hr).trans (run_ident s.cpu g hr).1.symm)
  · obtain ⟨hA, heq⟩ := h.first hn
    obtain rfl := hg (hlt.trans_le hA).ne
    refine ⟨hA, ?_⟩
    change (s'.cpu.run g').sys = (s.cpu.run g').sys
    unfold Cpu.run
    rw [heq]

/-- The system registers of the task that is current are loaded. -/
theorem Alike.runVcpu (h : Alike A s s') (hlt : s.cur < s.sched.tsks.length) :
    Alike A (s.runVcpu s.cur) (s'.runVcpu s'.cur) := by
  refine { h with ident := fun r hr => ?_, first := fun hn => ?_ }
  · exact (load_ident hr).trans ((h.ident r hr).trans (load_ident hr).symm)
  · obtain ⟨hA, heq⟩ := h.first hn
    refine ⟨hA, ?_⟩
    change cpuRegLoadVCpuSysregs (s'.vcpu_sysregs s'.cur) s'.cpu.sys = _
    rw [h.cur, heq, h.vcpu_sysregs _ (hlt.trans_le hA).ne]
    rfl

/-- Which of the two runs is made does not tell what the processor goes on with. -/
theorem Inv.mode_eq (h : Inv I s) (h' : Inv I s') (hcur : s'.cur = s.cur) : s'.mode = s.mode := by
  cases hm : s.mode with
  | handler => exact absurd hm h.not_handler
  | guest =>
    cases hm' : s'.mode with
    | handler => exact absurd hm' h'.not_handler
    | guest => rfl
    | init => exact absurd (hcur.symm.trans (h'.init hm').1) (h.guest hm).cur_ne
  | init =>
    cases hm' : s'.mode with
    | handler => exact absurd hm' h'.not_handler
    | guest => exact absurd (hcur.trans (h.init hm).1) (h'.guest hm').cur_ne
    | init => rfl

/-- **Leaving the hypervisor.** -/
theorem Alike.finish (h : Alike A s s') (hb : Base I s) (hd : Done I s) (hb' : Base I s')
    (hd' : Done I s') : Alike A s.finish s'.finish := by
  have hmode := (finish_inv hb hd).mode_eq (finish_inv hb' hd')
  rw [Machine.finish, Machine.finish, h.mode] at *
  split
  · have hcur : s'.leaveHypervisor.cur = s.leaveHypervisor.cur := h.cur
    rename_i heq
    rw [heq] at hmode
    exact { h.runVcpu hb.cur_lt with
      mode := hmode hcur
      sp := congrArg (· + 8 * CPU_CONTEXT_GP_REGS) h.sp }
  · exact h

/-! ### Switching -/

/-- **A task that has never run** is loaded in both. -/
theorem Alike.loadTaskImage (h : Alike A s s') (hp : Apart A s)
    (hok : s.loadTaskImage L = .ok t) (hok' : s'.loadTaskImage L = .ok t') : Alike A t t' := by
  obtain ⟨memory, hmap, hok⟩ := Lib.bind_eq_ok.mp hok
  obtain ⟨memory', hmap', hok'⟩ := Lib.bind_eq_ok.mp hok'
  -- the state, the entry and the stack pointer are stored one after another into both frames
  have h₁ := h.storeWord hp (n := 33) (by decide) (v := initialPstate) fun _ => rfl
  change mapPages L s'.memory s'.cur (s'.load s'.cur).pages = _ at hmap'
  change mapPages L s.memory s.cur (s.load s.cur).pages = _ at hmap
  -- the same image goes into the same memory, and has the same entry
  rw [h.memory, h.cur, h.load, hmap] at hmap'
  obtain rfl := Except.ok.inj hmap'
  split at hok
  · cases hok
  rename_i pc sp hentry
  split at hok'
  · cases hok'
  rename_i pc' sp' hentry'
  change (s.load s.cur).entry = some (pc, sp) at hentry
  change (s'.load s'.cur).entry = some (pc', sp') at hentry'
  rw [h.load, h.cur, hentry] at hentry'
  obtain ⟨rfl, rfl⟩ := Prod.mk.inj (Option.some.inj hentry')
  set s₁ := s.storeWord (s.getVCpuRegs s.cur + 8 * 33) initialPstate
  set s₁' := s'.storeWord (s'.getVCpuRegs s'.cur + 8 * 33) initialPstate
  set s₂ : Machine := { s₁ with memory }
  set s₂' : Machine := { s₁' with memory }
  have h₂ : Alike A s₂ s₂' := { h₁ with memory := rfl }
  have h₃ := h₂.storeWord ⟨hp.cur_ne, hp.cur_lt, hp.outside⟩ (n := 32) (by decide) (v := pc)
    fun _ => rfl
  set s₃ := s₂.storeWord (s₂.getVCpuRegs s₂.cur + 8 * 32) pc
  set s₃' := s₂'.storeWord (s₂'.getVCpuRegs s₂'.cur + 8 * 32) pc
  have h₄ := h₃.storeWord ⟨hp.cur_ne, hp.cur_lt, hp.outside⟩ (n := 31) (by decide) (v := sp)
    fun _ => rfl
  set s₄ := s₃.storeWord (s₃.getVCpuRegs s₃.cur + 8 * 31) sp
  set s₄' := s₃'.storeWord (s₃'.getVCpuRegs s₃'.cur + 8 * 31) sp
  have h₅ : Alike A (s₄.runVcpu s.cur) (s₄'.runVcpu s'.cur) := h₄.runVcpu hp.cur_lt
  obtain rfl : { s₄.runVcpu s.cur with mode := .handler } = t := Except.ok.inj hok
  obtain rfl : { s₄'.runVcpu s'.cur with mode := .handler } = t' := Except.ok.inj hok'
  exact h₅.setMode .handler

/-- What a switch leaves and loads. -/
theorem Alike.switched (h : Alike A s s') {sched : Sched}
    (hlen : sched.tsks.length = s.sched.tsks.length) (c : Call) {x x' : Fin 31 → Word}
    (hx : x' 30 = x 30) : Alike A (s.switched I sched c x) (s'.switched I sched c x') := by
  refine { h with
    sched := rfl
    sp := h.context_sp sched.cur
    pc := fun u => ?_
    context_sp := fun u => ?_
    calls := fun a => ?_
    stack := fun a ha => h.stack a fun hA => ha (hlen ▸ hA)
    first := fun hn => ⟨hlen ▸ (h.first hn).1, (h.first hn).2⟩ }
  · change (Function.update s'.cpu_context s'.cur _ u).pc =
      (Function.update s.cpu_context s.cur _ u).pc
    rw [h.cur]
    by_cases hu : u = s.cur
    · rw [hu, Function.update_self, Function.update_self]
      exact hx
    · rw [Function.update_of_ne hu, Function.update_of_ne hu, h.pc u]
  · change (Function.update s'.cpu_context s'.cur _ u).sp =
      (Function.update s.cpu_context s.cur _ u).sp
    rw [h.cur]
    by_cases hu : u = s.cur
    · rw [hu, Function.update_self, Function.update_self]
      exact congrArg (· - I.stackUse c) h.sp
    · rw [Function.update_of_ne hu, Function.update_of_ne hu, h.context_sp u]
  · change (Function.update s'.calls (s'.cpu.sp - I.stackUse c) _ a).map Activation.call =
      (Function.update s.calls (s.cpu.sp - I.stackUse c) _ a).map Activation.call
    rw [h.sp]
    by_cases ha : a = s.cpu.sp - I.stackUse c
    · rw [ha, Function.update_self, Function.update_self]
      rfl
    · rw [Function.update_of_ne ha, Function.update_of_ne ha, h.calls a]

/-- A task that waits in one waits in the other, for the same call. -/
theorem Alike.parked (h : Alike A s s') {c c' : Call} (hs : Parked I s u c)
    (hs' : Parked I s' u c') : c' = c := by
  have hcalls := h.calls (s.cpu_context u).sp
  have hkept' := hs'.kept
  rw [h.context_sp] at hkept'
  rw [hs.kept, hkept'] at hcalls
  exact Option.some.inj hcalls

/-- **Returning from `SchedContextSwitch`** goes on with the same call, or with the same
loader. -/
theorem Alike.switchReturn (h : Alike A s s') (hb : Base I s) (hs : Suspended I s s.cur)
    (hl : Restored s) (hs' : Suspended I s' s'.cur) (hl' : Restored s')
    (hok : s.switchReturn I = .ok t) (hok' : s'.switchReturn I = .ok t') : Alike A t t' := by
  have hpc := h.pc s.cur
  have hcur := h.cur
  rcases hs with hs | ⟨c, hs⟩ <;> rcases hs' with hs' | ⟨c', hs'⟩
  · rw [switchReturn_unstarted hs hl] at hok
    rw [switchReturn_unstarted hs' hl'] at hok'
    exact h.loadTaskImage (hb.apart h.guest hs.ne_init) hok hok'
  · rw [← hcur, hs'.pc, hcur, hs.pc] at hpc
    exact absurd hpc I.switchReturn_ne
  · rw [← hcur, hs'.pc, hcur, hs.pc] at hpc
    exact absurd hpc.symm I.switchReturn_ne
  · rw [switchReturn_parked hs hl] at hok
    rw [switchReturn_parked hs' hl'] at hok'
    obtain rfl := h.parked hs (hcur ▸ hs')
    obtain rfl := Except.ok.inj hok
    obtain rfl := Except.ok.inj hok'
    have hg : Alike A (s.goOn I c') (s'.goOn I c') :=
      { h with sp := congrArg (· + I.stackUse c') h.sp }
    refine hg.resume fun hc => ?_
    subst hc
    exact ⟨hs.waiting.1, hb.cur_lt, (hb.apart h.guest hs.waiting.1).outside⟩

/-- **Switching**, whatever compiled code has in its registers. -/
theorem Alike.switchTaskTo (h : Alike A s s') (hb : Base I s) (hb' : Base I s') {c : Call}
    (hw : Waiting I s s.cur c) (hw' : Waiting I s' s'.cur c) (hsp : s.cpu.sp = site I s s.cur c)
    (hsp' : s'.cpu.sp = site I s' s'.cur c) {sched : Sched}
    (hlen : sched.tsks.length = s.sched.tsks.length) (hsched : Scheduling.Inv sched)
    {scratch scratch' : Fin 31 → Word} (hok : s.switchTaskTo I sched c scratch = .ok t)
    (hok' : s'.switchTaskTo I sched c scratch' = .ok t') : Alike A t t' := by
  by_cases hcur : s.cur = sched.cur
  · rw [switchTaskTo_of_eq hcur] at hok
    rw [switchTaskTo_of_eq (h.cur.trans hcur)] at hok'
    obtain rfl := Except.ok.inj hok
    obtain rfl := Except.ok.inj hok'
    have h₁ : Alike A { s with sched } { s' with sched } :=
      { h with
        sched := rfl
        stack := fun a ha => h.stack a fun hA => ha (hlen ▸ hA)
        first := fun hn => ⟨hlen ▸ (h.first hn).1, (h.first hn).2⟩ }
    refine h₁.resume fun hc => ?_
    subst hc
    have hp := hb.apart h.guest hw.1
    refine ⟨fun h0 => hw.1 (hcur.trans h0), hsched.registered, fun hA i hi => ?_⟩
    change Outside A { s with sched } (s.getVCpuRegs sched.cur + 8 * i)
    rw [← hcur]
    exact fun hlt => hp.outside (fun heq => hA (hcur.symm.trans heq)) i hi (hlen ▸ hlt)
  · rw [switchTaskTo_of_ne hcur] at hok
    rw [switchTaskTo_of_ne fun heq => hcur (h.cur.symm.trans heq)] at hok'
    have hlen' : sched.tsks.length = s'.sched.tsks.length := by rw [h.sched, hlen]
    obtain ⟨hb₁, hs₁, hl₁⟩ := switched_suspended hb hw hsp hlen hsched hcur
      (Function.update_self 30 I.switchReturn scratch)
    obtain ⟨-, hs₁', hl₁'⟩ := switched_suspended hb' hw' hsp' hlen' hsched
      (fun heq => hcur (h.cur.symm.trans heq)) (Function.update_self 30 I.switchReturn scratch')
    have hx : Function.update scratch' 30 I.switchReturn 30 =
        Function.update scratch 30 I.switchReturn 30 := by
      rw [Function.update_self, Function.update_self]
    exact (h.switched hlen c hx).switchReturn hb₁ hs₁ hl₁ hs₁' hl₁' hok hok'

/-- **Yielding.** -/
theorem Alike.schedule (h : Alike A s s') (hb : Base I s) (hb' : Base I s') {c : Call}
    (hw : Waiting I s s.cur c) (hw' : Waiting I s' s'.cur c) (hsp : s.cpu.sp = site I s s.cur c)
    (hsp' : s'.cpu.sp = site I s' s'.cur c) {scratch scratch' : Fin 31 → Word}
    (hok : s.schedule I c scratch = .ok t) (hok' : s'.schedule I c scratch' = .ok t') :
    Alike A t t' := by
  obtain ⟨sched, hsched, hinv⟩ :=
    Scheduling.schedule_spec le_rfl hb.sched.task_ok (Nat.zero_lt_of_lt hb.cur_lt)
  obtain ⟨hlen, -⟩ := Sched.schedule_length hsched hb.cur_lt
  rw [Machine.schedule, schedFuel, hsched] at hok
  rw [Machine.schedule, schedFuel, h.sched, hsched] at hok'
  exact h.switchTaskTo hb hb' hw hw' hsp hsp' hlen hinv hok hok'

/-- **A tick** of the timer. -/
theorem Alike.schedTimerHandler (h : Alike A s s') (hb : Base I s) (hb' : Base I s') {c : Call}
    (hw : Waiting I s s.cur c) (hw' : Waiting I s' s'.cur c) (hsp : s.cpu.sp = site I s s.cur c)
    (hsp' : s'.cpu.sp = site I s' s'.cur c) {scratch scratch' : Fin 31 → Word}
    (hok : s.schedTimerHandler I c scratch = .ok t)
    (hok' : s'.schedTimerHandler I c scratch' = .ok t') : Alike A t t' := by
  obtain ⟨sched, hsched, hinv⟩ := Scheduling.schedTimerHandler_spec le_rfl hb.sched
  obtain ⟨hlen, -⟩ := Sched.schedTimerHandler_length hsched hb.cur_lt
  rw [Machine.schedTimerHandler, schedFuel, hsched] at hok
  rw [Machine.schedTimerHandler, schedFuel, h.sched, hsched] at hok'
  exact h.switchTaskTo hb hb' hw hw' hsp hsp' hlen hinv hok hok'

/-! ### Events -/

/-- **A task that is created** is created in both. -/
theorem Alike.createTask (h : Alike A s s') {b : BoardKind} {load : Load}
    (hok : s.createTask I b load = .ok t) (hok' : s'.createTask I b load = .ok t') :
    Alike A t t' := by
  -- while there is no template it is made from the registers, which are the same then
  have htemplate : s'.initial_vcpu_regs.getD (initialTemplate s'.cpu.sys) =
      s.initial_vcpu_regs.getD (initialTemplate s.cpu.sys) := by
    rw [h.template]
    cases hn : s.initial_vcpu_regs with
    | none => rw [(h.first hn).2]
    | some regs => rfl
  rw [Machine.createTask, h.memory, h.sched, htemplate] at hok'
  obtain ⟨⟨page, mm₁⟩, hz, hok⟩ := Lib.bind_eq_ok.mp hok
  obtain ⟨mm₂, hb, hok⟩ := Lib.bind_eq_ok.mp hok
  obtain ⟨sched, ha, hok⟩ := Lib.bind_eq_ok.mp hok
  obtain ⟨⟨page', mm₁'⟩, hz', hok'⟩ := Lib.bind_eq_ok.mp hok'
  obtain ⟨rfl, rfl⟩ := Prod.mk.inj (Except.ok.inj (hz.symm.trans hz'))
  obtain ⟨mm₂', hb', hok'⟩ := Lib.bind_eq_ok.mp hok'
  obtain rfl := Except.ok.inj (hb.symm.trans hb')
  obtain ⟨sched', ha', hok'⟩ := Lib.bind_eq_ok.mp hok'
  obtain rfl := Except.ok.inj (ha.symm.trans ha')
  obtain rfl := Except.ok.inj hok
  obtain rfl := Except.ok.inj hok'
  -- the new task has a number, a page and registers, which are the same in both
  set n := s.sched.tsks.length with hn
  have hlen : sched.tsks.length = n + 1 := by
    rw [Sched.addTask] at ha
    split at ha
    · obtain rfl := Except.ok.inj ha
      exact List.length_append
    · cases ha
  refine { h with
    sched := rfl
    memory := rfl
    page := congrArg (Function.update · n page) h.page
    load := congrArg (Function.update · n load) h.load
    template := rfl
    pc := fun u => ?_
    context_sp := fun u => ?_
    vcpu_sysregs := fun u hu => ?_
    stack := fun a ha => ?_
    first := fun hn => (by cases hn) }
  all_goals dsimp only
  · by_cases hu : u = n
    · rw [hu, Function.update_self, Function.update_self]
    · rw [Function.update_of_ne hu, Function.update_of_ne hu, h.pc u]
  · by_cases hu : u = n
    · rw [hu, Function.update_self, Function.update_self]
    · rw [Function.update_of_ne hu, Function.update_of_ne hu, h.context_sp u]
  · by_cases hun : u = n
    · rw [hun, Function.update_self, Function.update_self]
    · rw [Function.update_of_ne hun, Function.update_of_ne hun, h.vcpu_sysregs u hu]
  · split
    · rfl
    · refine h.stack a fun hA => ?_
      have hpage := ha (hA.trans (hlen ▸ Nat.lt_succ_self n))
      dsimp only at hpage
      rwa [Function.update_of_ne hA.ne] at hpage

/-- **A synchronous exception** is answered alike. -/
theorem Alike.sync (h : Alike A s s') {esr far : ℕ} {data data' : Word}
    {scratch scratch' : Fin 31 → Word} (ht : Taken I s (.sync esr)) (ht' : Taken I s' (.sync esr))
    (hne : s.cur ≠ 0) (hdata : s.cur ≠ A → data' = data)
    (hok : trapHandleLowerElAarch64Sync (handlers I data scratch) s esr far = .ok t)
    (hok' : trapHandleLowerElAarch64Sync (handlers I data' scratch') s' esr far = .ok t') :
    Alike A t t' := by
  have hp := ht.base.apart h.guest hne
  rw [trapHandleLowerElAarch64Sync] at hok hok'
  dsimp only at hok hok'
  -- the two runs take the same branch, since the syndrome is the same
  split at hok
  case isTrue hec =>
    rw [if_pos hec] at hok'
    obtain ⟨hw, hsp⟩ := ht.yielding hne hec
    obtain ⟨hw', hsp'⟩ := ht'.yielding (h.cur.trans_ne hne) hec
    exact h.schedule ht.base ht'.base hw hw' hsp hsp' hok hok'
  rename_i hwfx
  rw [if_neg hwfx] at hok'
  split at hok
  · cases hok
  rename_i hfp
  rw [if_neg hfp] at hok'
  split at hok
  · cases hok
  rename_i hhvc
  rw [if_neg hhvc] at hok'
  split at hok
  case isTrue hsys =>
    rw [if_pos hsys] at hok'
    exact h.handleTrapSystem hp hok hok'
  rename_i hsys
  rw [if_neg hsys] at hok'
  split at hok
  · cases hok
  rename_i hsve
  rw [if_neg hsve] at hok'
  split at hok
  swap
  · cases hok
  rename_i hdabt
  rw [if_pos hdabt] at hok'
  obtain ⟨⟨handled, s₁⟩, hab, hok⟩ := Lib.bind_eq_ok.mp hok
  obtain ⟨⟨handled', s₁'⟩, hab', hok'⟩ := Lib.bind_eq_ok.mp hok'
  -- what is left is an abort of the guest, for a page or for a register of its board
  have h₁ : Alike A s₁ s₁' := by
    rw [handleTrapMemAbort] at hab hab'
    split at hab
    case isTrue hdfsc =>
      rw [if_pos hdfsc] at hab'
      exact h.memoryAccessFault hab hab'
    rename_i htrans
    rw [if_neg htrans] at hab'
    split at hab
    case isTrue hdfsc =>
      rw [if_pos hdfsc] at hab'
      exact h.registerAccess hp (and_le_mask _ 5) hdata hab hab'
    rename_i hperm
    rw [if_neg hperm] at hab'
    obtain ⟨-, rfl⟩ := Prod.mk.inj (Except.ok.inj hab)
    obtain ⟨-, rfl⟩ := Prod.mk.inj (Except.ok.inj hab')
    exact h
  dsimp only at hok hok'
  split at hok
  swap
  · cases hok
  split at hok'
  swap
  · cases hok'
  obtain rfl := Except.ok.inj hok
  obtain rfl := Except.ok.inj hok'
  exact h₁

/-- **An interrupt** is answered alike. -/
theorem Alike.handleIrq (h : Alike A s s') {gicc_iar : ℕ} {scratch scratch' : Fin 31 → Word}
    (ht : Taken I s .irq) (ht' : Taken I s' .irq)
    (hok : s.handleIrq I gicc_iar scratch = .ok t)
    (hok' : s'.handleIrq I gicc_iar scratch' = .ok t') : Alike A t t' := by
  obtain ⟨hb, hw, hsp⟩ := ht.acknowledged (gicc_iar &&& 0x0fff)
  obtain ⟨hb', hw', hsp'⟩ := ht'.acknowledged (gicc_iar &&& 0x0fff)
  rw [Machine.handleIrq] at hok hok'
  set iar := gicc_iar &&& 0x0fff
  have h₁ : Alike A { s with active := iar :: s.active } { s' with active := iar :: s'.active } :=
    { h with }
  split_ifs at hok with htimer
  · rw [if_pos htimer] at hok'
    exact h₁.schedTimerHandler hb hb' hw hw' hsp hsp' hok hok'
  · rw [if_neg htimer] at hok'
    obtain rfl := Except.ok.inj hok
    obtain rfl := Except.ok.inj hok'
    exact h₁.resume fun hc => (by cases hc)

/-- What the second run has in place of what the first has: the registers of `A` when it
traps, what a device of `A` answers, and what compiled code has in its registers. -/
structure Instead where
  g : GuestRegs
  data : Word
  scratch : Fin 31 → Word

/-- The event of the second run. -/
def instead (A : TaskId) (s : Machine) (o : Instead) : Event → Event
  | .createTask load => .createTask load
  | .loop _ => .loop o.scratch
  | .sync g esr far data _ =>
    .sync (if s.cur = A then o.g else g) esr far (if s.cur = A then o.data else data) o.scratch
  | .irq g gicc_iar _ => .irq (if s.cur = A then o.g else g) gicc_iar o.scratch

variable (A I) in
/-- **Two runs that differ in one guest**: what is kept is alike, and another guest that
runs has the same context. -/
structure Twins (s s' : Machine) : Prop where
  alike : Alike A s s'
  inv : Inv I s
  inv' : Inv I s'
  context : s.mode = .guest → s.cur ≠ A → s'.cpu.context = s.cpu.context

/-- What a guest is given when the hypervisor is left, is what was kept for it. -/
theorem Alike.finish_twins (h : Alike A s s') (hs : Base I s ∧ Done I s)
    (hs' : Base I s' ∧ Done I s') : Twins A I s.finish s'.finish := by
  obtain ⟨hb, hd⟩ := hs
  obtain ⟨hb', hd'⟩ := hs'
  refine ⟨h.finish hb hd hb' hd', finish_inv hb hd, finish_inv hb' hd', fun hm hA => ?_⟩
  rcases hd with ⟨mode, -, -, -⟩ | ⟨mode, sp, -⟩
  · rw [Machine.finish, mode] at hm
    cases mode.symm.trans hm
  · have hfinish : s.finish = s.leaveHypervisor := by rw [Machine.finish, mode]
    have hfinish' : s'.finish = s'.leaveHypervisor := by rw [Machine.finish, h.mode, mode]
    have hsp : s'.cpu.sp = frame I s' s'.cur := by
      rw [h.sp, sp, h.cur]
      exact (frame_congr h.page _).symm
    rw [hfinish] at hA
    rw [hfinish, hfinish', context_leave sp, context_leave hsp, h.cur]
    exact h.saved hb hb.cur_lt hA

/-- **One event** that is made in both runs, but for what is `A`'s. -/
theorem Twins.step (h : Twins A I s s') {b : BoardKind} {e : Event} {o : Instead}
    (hl : Legal s e) (hl' : Legal s' (s.instead A o e)) (hok : s.step I b e = .ok t)
    (hok' : s'.step I b (s.instead A o e) = .ok t') : Twins A I t t' := by
  have hb := h.inv.base
  -- the stack is where the hypervisor left it, whichever of the two it is entered from
  have hsp : s.mode = .guest ∨ s.mode = .init → s.cpu.sp = top I s s.cur := by
    rintro (hm | hm)
    · exact (h.inv.guest hm).sp
    · obtain ⟨h0, hsp, -⟩ := h.inv.init hm
      rw [hsp, h0, top_init]
  cases e with
  | createTask load =>
    have hinv := (step_inv h.inv hl).1 t hok
    obtain ⟨-, hmode, -⟩ := createTask_base hb (h.inv.init hl).1 hok
    refine ⟨h.alike.createTask hok hok', hinv, (step_inv h.inv' hl').1 t' hok', fun hm => ?_⟩
    cases (hmode.trans hl).symm.trans hm
  | loop scratch =>
    obtain ⟨t, hsched, hok⟩ := Lib.bind_eq_ok.mp hok
    obtain ⟨t', hsched', hok'⟩ := Lib.bind_eq_ok.mp hok'
    obtain rfl := Except.ok.inj hok
    obtain rfl := Except.ok.inj hok'
    have hmain : ∀ {s : Machine}, Inv I s → s.mode = .init →
        Waiting I s s.cur .main ∧ s.cpu.sp = site I s s.cur .main := by
      intro s hI hm
      obtain ⟨h0, hsp, hwfx⟩ := hI.init hm
      exact ⟨⟨h0, h0 ▸ hwfx⟩, hsp⟩
    obtain ⟨hw, hws⟩ := hmain h.inv hl
    obtain ⟨hw', hws'⟩ := hmain h.inv' hl'
    exact (h.alike.schedule hb h.inv'.base hw hw' hws hws' hsched hsched').finish_twins
      ((schedule_done hb hw hws scratch).1 t hsched)
      ((schedule_done h.inv'.base hw' hws' o.scratch).1 t' hsched')
  | sync g esr far data scratch =>
    obtain ⟨t, hsync, hok⟩ := Lib.bind_eq_ok.mp hok
    obtain ⟨t', hsync', hok'⟩ := Lib.bind_eq_ok.mp hok'
    obtain rfl := Except.ok.inj hok
    obtain rfl := Except.ok.inj hok'
    -- the trap is taken in both runs, with the registers that the guest has in each
    have ht := taken_trapped h.inv (.inl hl) (.sync esr)
    have ht' := taken_trapped h.inv' (.inl hl') (.sync esr)
    have hne := (h.inv.guest hl.1).cur_ne
    have h₁ : Alike A (s.trapped g (.sync esr))
        (s'.trapped (if s.cur = A then o.g else g) (.sync esr)) :=
      h.alike.trapped hb.cur_lt (hsp (.inl hl.1)) (fun hA => if_neg hA) (.sync esr)
    exact (h₁.sync ht ht' hne (fun hA => if_neg hA) hsync hsync').finish_twins
      ((sync_done ht hne).1 t hsync)
      ((sync_done ht' (h.alike.cur.trans_ne hne)).1 t' hsync')
  | irq g gicc_iar scratch =>
    obtain ⟨t, hirq, hok⟩ := Lib.bind_eq_ok.mp hok
    obtain ⟨t', hirq', hok'⟩ := Lib.bind_eq_ok.mp hok'
    obtain rfl := Except.ok.inj hok
    obtain rfl := Except.ok.inj hok'
    have ht := taken_trapped h.inv hl.1 .irq
    have ht' := taken_trapped h.inv' hl'.1 .irq
    have h₁ : Alike A (s.trapped g .irq) (s'.trapped (if s.cur = A then o.g else g) .irq) :=
      h.alike.trapped hb.cur_lt (hsp (hl.1.imp And.left And.left)) (fun hA => if_neg hA) .irq
    exact (h₁.handleIrq ht ht' hirq hirq').finish_twins ((irq_done ht).1 t hirq)
      ((irq_done ht').1 t' hirq')

/-- The two runs start alike. -/
theorem boot_twins (I : Image L) (cpu : Cpu) (hA : A ≠ 0) :
    Twins A I (boot I cpu) (boot I cpu) := by
  have hlen : (boot I cpu).sched.tsks.length ≤ A := Nat.one_le_iff_ne_zero.mpr hA
  exact ⟨.refl hA fun _ => hlen, boot_inv I cpu, boot_inv I cpu, fun _ _ => rfl⟩

end Machine

end Evisor
