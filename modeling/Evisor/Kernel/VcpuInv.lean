import Evisor.Kernel.SchedRun
import Evisor.Kernel.VcpuStep
import Evisor.Platforms.MemoryGrowth

/-!
# A guest finds what it left

Between two times a guest runs, its handler may be suspended, and any number of other
guests may run, trap and be suspended. What the guest finds is then what its own last
trap left on its own stack and in its own control block, changed by its own handler
alone (`Evisor.guests_preserved`, in `Evisor.Kernel.VcpuRun`).

The invariant follows a task from the trap on. While its handler runs, or waits, the
context of the guest is in the frame and in the block (`Evisor.Machine.saved`), and
what is still to be done to it is said by the call that waits (`Evisor.Machine.Waiting`).
A task that does not run is one that waits, or has never run
(`Evisor.Machine.Suspended`); that it stays so, whatever the others do, is because
their stacks are apart (`Evisor.Machine.Base.tops_apart`).
-/

namespace Evisor

/-! ### What a trapped instruction may do -/

/-- The instruction is done. -/
def GuestContext.advance (c : GuestContext) : GuestContext := { c with elr := c.elr + 4 }

/-- Register `n` gets a value; register 31 is none. -/
def GuestContext.setReg (c : GuestContext) (n : ℕ) (v : Word) : GuestContext :=
  { c with x := fun i => if i.val = n then v else c.x i }

/-- **What a trap does to the context of the guest that takes it.** An interrupt, and a
fault that has been answered with a page, do nothing to it; a `WFx` is passed over; an
access to a system register or to a device is passed over, and gives its one
destination register a value. -/
def OwnEffect (c c' : GuestContext) : Trap → Prop
  | .irq => c' = c
  | .sync esr =>
    if esrEl2Ec esr = kEsrEl2EcTrapWfx then c' = c.advance
    else if esrEl2Ec esr = kEsrEl2EcTrapSystem then
      c' = c.advance ∨ ∃ v, c' = (c.setReg (Machine.issRt (esr &&& 0xfffffff)) v).advance
    else if esrDfsc esr >>> 2 = kEsrEl2DfscPermissionFault then
      c' = c.advance ∨ esrWnr esr = 0 ∧ ∃ v, c' = (c.setReg (esrSrt esr) v).advance
    else c' = c

namespace Machine

variable {L : Layout} (I : Image L)

/-! ### Where a context is kept -/

/-- Where the stack of a task ends. -/
def top (s : Machine) (t : TaskId) : ℕ := if t = 0 then I.initSp else s.page t + TCB_SIZE

/-- Where an exception leaves the registers of a task. -/
def frame (s : Machine) (t : TaskId) : ℕ := top I s t - 8 * CPU_CONTEXT_GP_REGS

/-- The context kept for a task. -/
def saved (s : Machine) (t : TaskId) : GuestContext where
  x := fun i => s.stack (frame I s t + 8 * i)
  elr := s.stack (frame I s t + 8 * 32)
  spsr := s.stack (frame I s t + 8 * 33)
  vttbr := stage2PageTable (s.memory.mm.ctx t).page_table t
  sys := notTrapped.map (s.vcpu_sysregs t)

/-- The number of `WFx` a task is on record for. -/
def wfxTraps (s : Machine) (t : TaskId) : ℕ := (s.memory.stat t).wfx_traps

/-- **A call that waits**, and what there is for it to go on with. -/
def Waiting (s : Machine) (t : TaskId) : Call → Prop
  | .main => t = 0 ∧ s.wfxTraps t = s.wfxs t
  | .wfx => t ≠ 0 ∧ (∃ esr, esrEl2Ec esr = kEsrEl2EcTrapWfx ∧
      s.last t = some (.sync esr, saved I s t)) ∧
      exceptionLevel (saved I s t).spsr ≠ 2 ∧ s.wfxTraps t + 1 = s.wfxs t
  | .irq _ => (t ≠ 0 → s.last t = some (.irq, saved I s t)) ∧
      (exceptionLevel (saved I s t).spsr = 2 ↔ t = 0) ∧ s.wfxTraps t = s.wfxs t

/-- The stack pointer a call of the scheduler starts from. -/
def site (s : Machine) (t : TaskId) : Call → ℕ
  | .main => I.initSp
  | _ => frame I s t

/-- The registers `SchedContextSwitch` loads for a call. -/
def calleeOf (c : CpuContext) : List Word :=
  [c.x19, c.x20, c.x21, c.x22, c.x23, c.x24, c.x25, c.x26, c.x27, c.x28, c.fp]

/-- A task that has never run. -/
structure Unstarted (s : Machine) (t : TaskId) : Prop where
  ne_init : t ≠ 0
  pc : (s.cpu_context t).pc = I.KernelSwitchFromKThread
  sp : (s.cpu_context t).sp = frame I s t
  x19 : (s.cpu_context t).x19 = I.LoadTaskImage
  x20 : (s.cpu_context t).x20 = (s.load t).loader
  x21 : (s.cpu_context t).x21 = (s.load t).arg
  last : s.last t = none
  wfxs : s.wfxTraps t = s.wfxs t

/-- A task that waits for the scheduler to return to it. -/
structure Parked (s : Machine) (t : TaskId) (call : Call) : Prop where
  pc : (s.cpu_context t).pc = I.switchReturn
  sp : (s.cpu_context t).sp = site I s t call - I.stackUse call
  kept : s.calls (s.cpu_context t).sp = some ⟨t, call, calleeOf (s.cpu_context t)⟩
  waiting : Waiting I s t call

/-- **A task that does not run.** -/
def Suspended (s : Machine) (t : TaskId) : Prop :=
  Unstarted I s t ∨ ∃ call, Parked I s t call

/-- The registers that identify the processor. -/
def Ident (r : VReg) : Prop := r = .midr_el1 ∨ r = .mpidr_el1

/-- **What holds of the tasks**, whatever the current one is doing. -/
structure Base (s : Machine) : Prop where
  sched : Scheduling.Inv s.sched
  allocated : ∀ t, t ≠ 0 → t < s.sched.tsks.length → Allocated L s.memory.mm.heap (s.page t)
  page_inj : ∀ t u, t ≠ 0 → u ≠ 0 → t < s.sched.tsks.length → u < s.sched.tsks.length →
    s.page t = s.page u → t = u
  table : ∀ t, t ≠ 0 → t < s.sched.tsks.length → (s.memory.mm.ctx t).page_table ≠ 0
  ident : ∀ t, t ≠ 0 → t < s.sched.tsks.length → ∀ r, Ident r →
    s.vcpu_sysregs t r = s.cpu.sys (.el1 r)
  template : ∀ regs, s.initial_vcpu_regs = some regs → ∀ r, Ident r →
    regs r = s.cpu.sys (.el1 r)
  others : ∀ t, t < s.sched.tsks.length → t ≠ s.cur → Suspended I s t
  unborn : ∀ t, s.sched.tsks.length ≤ t → s.last t = none ∧ s.wfxs t = 0
  returned : ∀ p ∈ s.returned, p.1 = p.2

/-- **The context kept for a task is ready** for its guest to run. -/
structure Ready (s : Machine) (t : TaskId) : Prop where
  effect : t ≠ 0 → ∀ trap c, s.last t = some (trap, c) → OwnEffect c (saved I s t) trap
  level : exceptionLevel (saved I s t).spsr = 2 ↔ t = 0
  wfxs : s.wfxTraps t = s.wfxs t

/-- A handler is about to leave the hypervisor, or `KernelMain` goes on. -/
inductive Done (s : Machine) : Prop where
  | main (mode : s.mode = .init) (cur : s.cur = 0) (sp : s.cpu.sp = I.initSp)
    (wfxs : s.wfxTraps 0 = s.wfxs 0)
  | handler (mode : s.mode = .handler) (sp : s.cpu.sp = frame I s s.cur)
    (ready : Ready I s s.cur)

/-- **The guest that runs** has what it should have. -/
structure Running (s : Machine) : Prop where
  cur_ne : s.cur ≠ 0
  sp : s.cpu.sp = top I s s.cur
  vttbr : s.cpu.vttbr_el2 = stage2PageTable (s.memory.mm.ctx s.cur).page_table s.cur
  ident : ∀ r, Ident r → s.cpu.sys r.seen = s.cpu.sys (.el1 r)
  effect : ∀ trap c, s.last s.cur = some (trap, c) → OwnEffect c s.cpu.context trap
  wfxs : s.wfxTraps s.cur = s.wfxs s.cur

/-- **The invariant.** -/
structure Inv (s : Machine) : Prop where
  base : Base I s
  guest : s.mode = .guest → Running I s
  init : s.mode = .init → s.cur = 0 ∧ s.cpu.sp = I.initSp ∧ s.wfxTraps 0 = s.wfxs 0
  not_handler : s.mode ≠ .handler

variable {I} {s s' : Machine} {t u : TaskId}

/-! ### The stacks are apart -/

theorem frame_eq (s : Machine) (t : TaskId) : frame I s t = top I s t - 272 := rfl

theorem top_init (s : Machine) : top I s 0 = I.initSp := if_pos rfl

theorem top_of_ne (ht : t ≠ 0) : top I s t = s.page t + 4096 := if_neg ht

/-- Where a stack ends is settled by where its task is. -/
theorem top_congr (hpage : s'.page = s.page) (t : TaskId) : top I s' t = top I s t := by
  rw [top, top, hpage]

theorem frame_congr (hpage : s'.page = s.page) (t : TaskId) : frame I s' t = frame I s t := by
  rw [frame, frame, top_congr hpage]

/-- The frame of a guest is its `VCpuContext`. -/
theorem getVCpuRegs_eq (ht : t ≠ 0) : s.getVCpuRegs t = frame I s t := by
  rw [frame_eq, top_of_ne ht]
  rfl

attribute [irreducible] frame top

theorem stackUse_lt (c : Call) : I.stackUse c < 4096 - 272 := by
  have := I.stackUse_le c
  simp only [vcpuContextSize, tcbSize, TCB_SIZE, PAGE_SIZE] at this
  omega

/-- The current task is a registered one. -/
theorem Base.cur_lt (h : Base I s) : s.cur < s.sched.tsks.length := h.sched.registered

theorem Base.page_inHeap (h : Base I s) (ht : t ≠ 0) (hlt : t < s.sched.tsks.length) :
    L.InHeap (s.page t) := (h.allocated t ht hlt).inHeap

/-- A stack has a page. -/
theorem top_ge (s : Machine) (t : TaskId) : 4096 ≤ top I s t := by
  by_cases ht : t = 0
  · rw [ht, top_init]
    exact I.initSp_ge
  · rw [top_of_ne ht]
    exact Nat.le_add_left _ _

/-- **The stacks of two tasks** have no byte in common. -/
theorem Base.tops_apart (h : Base I s) (ht : t < s.sched.tsks.length)
    (hu : u < s.sched.tsks.length) (hne : t ≠ u) :
    top I s t + 4096 ≤ top I s u ∨ top I s u + 4096 ≤ top I s t := by
  have hinit : ∀ {t}, t ≠ 0 → t < s.sched.tsks.length →
      top I s 0 + 4096 ≤ top I s t := by
    intro t ht₀ ht
    obtain ⟨-, hlo, -⟩ := h.page_inHeap ht₀ ht
    have := I.initSp_le
    rw [top_init, top_of_ne ht₀]
    omega
  by_cases ht₀ : t = 0
  · subst ht₀
    exact .inl (hinit (Ne.symm hne) hu)
  by_cases hu₀ : u = 0
  · subst hu₀
    exact .inr (hinit ht₀ ht)
  obtain ⟨htal, -, -⟩ := (h.page_inHeap ht₀ ht).bounds
  obtain ⟨hual, -, -⟩ := (h.page_inHeap hu₀ hu).bounds
  have hpage : s.page t ≠ s.page u := fun heq => hne (h.page_inj t u ht₀ hu₀ ht hu heq)
  rw [top_of_ne ht₀, top_of_ne hu₀]
  omega

/-- The calls of a task are on its stack. -/
theorem site_bounds (s : Machine) (c : Call) (ht : c = .main → t = 0) :
    top I s t < site I s t c - I.stackUse c + 4096 ∧
      site I s t c - I.stackUse c ≤ top I s t := by
  have := stackUse_lt (I := I) c
  have := top_ge (I := I) s t
  cases c with
  | main =>
    have h0 := ht rfl
    subst h0
    have hsite : site I s 0 .main = top I s 0 := (top_init s).symm
    omega
  | wfx =>
    have hsite : site I s t .wfx = top I s t - 272 := frame_eq s t
    omega
  | irq iar =>
    have hsite : site I s t (.irq iar) = top I s t - 272 := frame_eq s t
    omega

theorem Waiting.main_eq {c : Call} (h : Waiting I s t c) : c = .main → t = 0 := by
  rintro rfl
  exact h.1

/-! ### What is kept -/

/-- What is kept for a task is in its frame and its control block. -/
theorem saved_congr (hpage : top I s' t = top I s t)
    (hstack : ∀ i < 34, s'.stack (frame I s t + 8 * i) = s.stack (frame I s t + 8 * i))
    (htable : (s'.memory.mm.ctx t).page_table = (s.memory.mm.ctx t).page_table)
    (hsys : ∀ r ∈ notTrapped, s'.vcpu_sysregs t r = s.vcpu_sysregs t r) :
    saved I s' t = saved I s t := by
  have hframe : frame I s' t = frame I s t := by rw [frame_eq, frame_eq, hpage]
  rw [saved, saved, hframe, htable, hstack 32 (by decide), hstack 33 (by decide),
    List.map_congr_left hsys]
  exact GuestContext.ext (funext fun i => hstack i (by omega)) rfl rfl rfl rfl

theorem storeWord_stack (a : ℕ) (v : Word) :
    (s.storeWord a v).stack = Function.update s.stack a v := rfl

/-- The word with the level. -/
theorem saved_spsr (s : Machine) (t : TaskId) :
    (saved I s t).spsr = s.stack (frame I s t + 8 * 33) := rfl

/-- A word of a frame is stored. -/
theorem saved_storeWord (ht : t ≠ 0) {n : ℕ} (hn : n < 34) (v : Word) :
    saved I (s.storeWord (s.getVCpuRegs t + 8 * n) v) t =
      if n = 32 then { saved I s t with elr := v }
      else if n = 33 then { saved I s t with spsr := v } else (saved I s t).setReg n v := by
  have hframe : frame I (s.storeWord (s.getVCpuRegs t + 8 * n) v) t = frame I s t :=
    frame_congr (by rfl) t
  have hword : ∀ i < 34, (s.storeWord (s.getVCpuRegs t + 8 * n) v).stack (frame I s t + 8 * i) =
      if i = n then v else s.stack (frame I s t + 8 * i) := by
    intro i hi
    rw [storeWord_stack, getVCpuRegs_eq (I := I) ht]
    by_cases hin : i = n
    · rw [if_pos hin, hin, Function.update_self]
    · rw [if_neg hin, Function.update_of_ne (by omega)]
  have hsaved : saved I (s.storeWord (s.getVCpuRegs t + 8 * n) v) t =
      { x := fun i : Fin 31 => if i.val = n then v else s.stack (frame I s t + 8 * i)
        elr := if 32 = n then v else s.stack (frame I s t + 8 * 32)
        spsr := if 33 = n then v else s.stack (frame I s t + 8 * 33)
        vttbr := (saved I s t).vttbr
        sys := (saved I s t).sys } := by
    rw [saved, hframe, hword 32 (by decide), hword 33 (by decide)]
    exact GuestContext.ext (funext fun i => hword i (by omega)) rfl rfl rfl rfl
  have hx : n = 32 ∨ n = 33 → (fun i : Fin 31 => if i.val = n then v
      else s.stack (frame I s t + 8 * i)) = (saved I s t).x := by
    intro hor
    funext i
    exact if_neg (by omega)
  rw [hsaved]
  split
  case isTrue h32 =>
    subst h32
    rw [hx (.inl rfl)]
    rfl
  · split
    · rename_i h33
      subst h33
      rw [hx (.inr rfl)]
      rfl
    · rename_i h32 h33
      rw [if_neg (Ne.symm h32), if_neg (Ne.symm h33)]
      rfl

/-! ### What the current task does is its own -/

variable (I) in
/-- **Only what is the current task's has changed**, and of that not where it is, nor
what identifies the processor to it. -/
structure Local (s s' : Machine) : Prop where
  sched : Scheduling.Inv s.sched → Scheduling.Inv s'.sched
  tasks : s'.sched.tsks.length = s.sched.tsks.length
  cur : s'.cur = s.cur
  grows : Mm.Grows L s.memory.mm s'.memory.mm
  page : s'.page = s.page
  cpu_context : s'.cpu_context = s.cpu_context
  template : s'.initial_vcpu_regs = s.initial_vcpu_regs
  load : s'.load = s.load
  calls : s'.calls = s.calls
  returned : s'.returned = s.returned
  ident : ∀ r, Ident r → s'.cpu.sys (.el1 r) = s.cpu.sys (.el1 r)
  own_ident : s.cur ≠ 0 → ∀ r, Ident r → s.vcpu_sysregs s.cur r = s.cpu.sys (.el1 r) →
    s'.vcpu_sysregs s.cur r = s.cpu.sys (.el1 r)
  vcpu_sysregs : ∀ t, t ≠ s.cur → s'.vcpu_sysregs t = s.vcpu_sysregs t
  last : ∀ t, t ≠ s.cur → s'.last t = s.last t
  wfxs : ∀ t, t ≠ s.cur → s'.wfxs t = s.wfxs t
  wfxTraps : ∀ t, t ≠ s.cur → s'.wfxTraps t = s.wfxTraps t
  stack : ∀ a, a + 4096 < top I s s.cur ∨ top I s s.cur ≤ a → s'.stack a = s.stack a

theorem Local.refl (s : Machine) : Local I s s :=
  ⟨id, rfl, rfl, .refl _, rfl, rfl, rfl, rfl, rfl, rfl, fun _ _ => rfl, fun _ _ _ h => h,
    fun _ _ => rfl, fun _ _ => rfl, fun _ _ => rfl, fun _ _ => rfl, fun _ _ => rfl⟩

theorem Local.top (h : Local I s s') (t : TaskId) : top I s' t = top I s t :=
  top_congr h.page t

theorem Local.trans {s₁ : Machine} (h₁ : Local I s s₁) (h₂ : Local I s₁ s') :
    Local I s s' where
  sched h := h₂.sched (h₁.sched h)
  tasks := h₂.tasks.trans h₁.tasks
  cur := h₂.cur.trans h₁.cur
  grows := h₁.grows.trans h₂.grows
  page := h₂.page.trans h₁.page
  cpu_context := h₂.cpu_context.trans h₁.cpu_context
  template := h₂.template.trans h₁.template
  load := h₂.load.trans h₁.load
  calls := h₂.calls.trans h₁.calls
  returned := h₂.returned.trans h₁.returned
  ident r hr := (h₂.ident r hr).trans (h₁.ident r hr)
  own_ident hne r hr h := by
    have hmid := h₁.own_ident hne r hr h
    rw [← h₁.cur, ← h₁.ident r hr] at hmid
    rw [← h₁.cur, ← h₁.ident r hr]
    exact h₂.own_ident (h₁.cur ▸ hne) r hr hmid
  vcpu_sysregs t ht := (h₂.vcpu_sysregs t (h₁.cur ▸ ht)).trans (h₁.vcpu_sysregs t ht)
  last t ht := (h₂.last t (h₁.cur ▸ ht)).trans (h₁.last t ht)
  wfxs t ht := (h₂.wfxs t (h₁.cur ▸ ht)).trans (h₁.wfxs t ht)
  wfxTraps t ht := (h₂.wfxTraps t (h₁.cur ▸ ht)).trans (h₁.wfxTraps t ht)
  stack a ha := (h₂.stack a (by rw [h₁.cur, h₁.top]; exact ha)).trans (h₁.stack a ha)

/-- The frame of another task stays. -/
theorem Local.frameWord (h : Local I s s') (hb : Base I s) (ht : t < s.sched.tsks.length)
    (hne : t ≠ s.cur) {i : ℕ} (hi : i < 34) :
    s'.stack (frame I s t + 8 * i) = s.stack (frame I s t + 8 * i) := by
  refine h.stack _ ?_
  have hge := top_ge (I := I) s t
  have happart := hb.tops_apart ht hb.cur_lt hne
  rw [frame_eq]
  omega

/-- **What is kept for another guest** stays. -/
theorem Local.saved (h : Local I s s') (hb : Base I s) (ht : t < s.sched.tsks.length)
    (hne : t ≠ s.cur) (ht₀ : t ≠ 0) : saved I s' t = saved I s t :=
  saved_congr (h.top t) (fun _ hi => h.frameWord hb ht hne hi)
    (h.grows.page_table t (hb.table t ht₀ ht)) fun r _ => by rw [h.vcpu_sysregs t hne]

/-- The level another task was interrupted at stays. -/
theorem Local.spsr (h : Local I s s') (hb : Base I s) (ht : t < s.sched.tsks.length)
    (hne : t ≠ s.cur) : (Machine.saved I s' t).spsr = (Machine.saved I s t).spsr := by
  have hframe : frame I s' t = frame I s t := frame_congr h.page t
  change s'.stack (frame I s' t + 8 * 33) = s.stack (frame I s t + 8 * 33)
  rw [hframe]
  exact h.frameWord hb ht hne (by decide)

/-- What a call waits with is in what is kept, and in the records. -/
theorem Waiting.congr {c : Call} (hw : Waiting I s t c)
    (hsaved : t ≠ 0 → Machine.saved I s' t = Machine.saved I s t)
    (hspsr : (Machine.saved I s' t).spsr = (Machine.saved I s t).spsr)
    (hlast : s'.last t = s.last t) (hwfxs : s'.wfxs t = s.wfxs t)
    (hwfxTraps : s'.wfxTraps t = s.wfxTraps t) : Waiting I s' t c := by
  cases c with
  | main =>
    refine ⟨hw.1, ?_⟩
    rw [hwfxTraps, hwfxs]
    exact hw.2
  | wfx =>
    obtain ⟨ht₀, hesr, hlevel, hwfx⟩ := hw
    refine ⟨ht₀, ?_, ?_, ?_⟩
    · rw [hsaved ht₀, hlast]
      exact hesr
    · rw [hspsr]
      exact hlevel
    · rw [hwfxTraps, hwfxs]
      exact hwfx
  | irq iar =>
    obtain ⟨hirq, hlevel, hwfx⟩ := hw
    refine ⟨fun ht₀ => ?_, ?_, ?_⟩
    · rw [hsaved ht₀, hlast]
      exact hirq ht₀
    · rw [hspsr]
      exact hlevel
    · rw [hwfxTraps, hwfxs]
      exact hwfx

/-- A call that waits goes on waiting. -/
theorem Local.waiting (h : Local I s s') (hb : Base I s) (ht : t < s.sched.tsks.length)
    (hne : t ≠ s.cur) {c : Call} (hw : Waiting I s t c) : Waiting I s' t c :=
  hw.congr (h.saved hb ht hne) (h.spsr hb ht hne) (h.last t hne) (h.wfxs t hne)
    (h.wfxTraps t hne)

/-- Where a call of the scheduler starts from is settled by where the stack ends. -/
theorem site_congr (htop : top I s' t = top I s t) (c : Call) :
    site I s' t c = site I s t c := by
  have hframe : frame I s' t = frame I s t := by rw [frame_eq, frame_eq, htop]
  cases c with
  | main => rfl
  | wfx | irq iar => exact hframe

/-- What makes a task one that does not run is its own. -/
theorem Suspended.congr (hs : Suspended I s t) (htop : top I s' t = top I s t)
    (hctx : s'.cpu_context t = s.cpu_context t) (hload : s'.load t = s.load t)
    (hlast : s'.last t = s.last t) (hwfx : s'.wfxTraps t = s.wfxTraps t ∧ s'.wfxs t = s.wfxs t)
    (hcalls : ∀ c, Parked I s t c →
      s'.calls (s.cpu_context t).sp = s.calls (s.cpu_context t).sp)
    (hwait : ∀ c, Waiting I s t c → Waiting I s' t c) : Suspended I s' t := by
  rcases hs with hs | ⟨c, hs⟩
  · have hframe : frame I s' t = frame I s t := by rw [frame_eq, frame_eq, htop]
    left
    constructor
    · exact hs.ne_init
    · rw [hctx]; exact hs.pc
    · rw [hctx, hframe]; exact hs.sp
    · rw [hctx]; exact hs.x19
    · rw [hctx, hload]; exact hs.x20
    · rw [hctx, hload]; exact hs.x21
    · rw [hlast]; exact hs.last
    · rw [hwfx.1, hwfx.2]; exact hs.wfxs
  · refine .inr ⟨c, ?_, ?_, ?_, hwait c hs.waiting⟩
    · rw [hctx]; exact hs.pc
    · rw [hctx, site_congr htop]; exact hs.sp
    · rw [hctx, hcalls c hs]; exact hs.kept

/-- **A task that does not run** is as it was. -/
theorem Local.suspended (h : Local I s s') (hb : Base I s) (ht : t < s.sched.tsks.length)
    (hne : t ≠ s.cur) (hs : Suspended I s t) : Suspended I s' t :=
  hs.congr (h.top t) (congrFun h.cpu_context t) (congrFun h.load t) (h.last t hne)
    ⟨h.wfxTraps t hne, h.wfxs t hne⟩ (fun _ _ => congrFun h.calls _)
    fun _ hw => h.waiting hb ht hne hw

/-- **What the current task does leaves the others.** -/
theorem Base.local (h : Base I s) (hl : Local I s s') : Base I s' where
  sched := hl.sched h.sched
  allocated t ht₀ ht := by
    rw [hl.tasks] at ht
    rw [hl.page]
    exact hl.grows.allocated (h.allocated t ht₀ ht)
  page_inj t u ht₀ hu₀ ht hu heq := by
    rw [hl.tasks] at ht hu
    rw [hl.page] at heq
    exact h.page_inj t u ht₀ hu₀ ht hu heq
  table t ht₀ ht := by
    rw [hl.tasks] at ht
    have hne := h.table t ht₀ ht
    rw [hl.grows.page_table t hne]
    exact hne
  ident t ht₀ ht r hr := by
    rw [hl.tasks] at ht
    rw [hl.ident r hr]
    by_cases hcur : t = s.cur
    · subst hcur
      exact hl.own_ident ht₀ r hr (h.ident _ ht₀ ht r hr)
    · rw [hl.vcpu_sysregs t hcur]
      exact h.ident t ht₀ ht r hr
  template regs hregs r hr := by
    rw [hl.template] at hregs
    rw [hl.ident r hr]
    exact h.template regs hregs r hr
  others t ht hne := by
    rw [hl.tasks] at ht
    rw [hl.cur] at hne
    exact hl.suspended h ht hne (h.others t ht hne)
  unborn t ht := by
    rw [hl.tasks] at ht
    have hne : t ≠ s.cur := (h.cur_lt.trans_le ht).ne'
    rw [hl.last t hne, hl.wfxs t hne]
    exact h.unborn t ht
  returned p hp := h.returned p (by rwa [hl.returned] at hp)

end Machine

end Evisor
