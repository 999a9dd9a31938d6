import Evisor.Kernel.VcpuRun

/-!
# Interrupts that are not finished

`GicV2::HandleIrq` reads `GICC_IAR`, calls the handler, and writes `GICC_EOIR` when the
handler returns. The handler of the timer may switch tasks, and then the interrupt is
finished when the task that was interrupted runs again – while another guest may have run
meanwhile, with the interrupt active and the timer silent.

An interrupt that has been acknowledged is one that a suspended handler has still to
finish (`Evisor.Machine.Outstanding`). From a state with none of them, or with one while
`KernelMain` runs, it is known exactly which steps lead to a guest that runs with an
unfinished interrupt (`Evisor.Machine.Finishes`): those by which the timer gives the
processor to another guest, or by which `KernelMain` gives it to another than the one with
the interrupt.
-/

namespace Evisor

/-- What is active once a call has been gone on with. -/
def Call.ended : Call → List ℕ → List ℕ
  | .irq iar, active => active.erase iar
  | _, active => active

namespace Machine

variable {L : Layout} (I : Image L)

/-- The call that `SchedContextSwitch` returns to with a context, if it is one. -/
def callAt (calls : ℕ → Option Activation) (ctx : CpuContext) : Option Call :=
  if ctx.pc = I.switchReturn then (calls ctx.sp).map Activation.call else none

/-- The call that a suspended task waits in, if it has run. -/
def waitingCall (s : Machine) (t : TaskId) : Option Call := callAt I s.calls (s.cpu_context t)

/-- **No guest runs with an unfinished interrupt.** -/
def Finished (s : Machine) : Prop := s.mode = .guest → s.active = []

instance : DecidablePred Finished := fun s =>
  inferInstanceAs (Decidable (s.mode = .guest → s.active = []))

/-- **The steps after which no guest runs with an unfinished interrupt.** The timer leaves
the processor to the task it has interrupted, or gives it to `init`; and `KernelMain`,
while an interrupt is active, gives it to no task but one suspended in `HandleIrq`. -/
def Finishes (s : Machine) : Event → Prop
  | .createTask _ => True
  | .loop _ => s.active ≠ [] → ∀ sched, s.sched.schedule schedFuel = .ok sched →
      sched.cur = 0 ∨ ∃ iar, waitingCall I s sched.cur = some (.irq iar)
  | .sync _ _ _ _ _ => True
  | .irq _ gicc_iar _ => gicc_iar &&& 0x0fff &&& 0x3ff = kIrqIdEl2PhysicalTimer →
      ∀ sched, s.sched.schedTimerHandler schedFuel = .ok sched →
        sched.cur = s.cur ∨ sched.cur = 0

/-- Whether a selection falls on a task with some property can be found out by making it. -/
instance (r : Except Fault Sched) (p : Sched → Prop) [DecidablePred p] :
    Decidable (∀ sched, r = .ok sched → p sched) :=
  match r with
  | .ok sched => decidable_of_iff (p sched) ⟨fun h _ heq => Except.ok.inj heq ▸ h, fun h => h _ rfl⟩
  | .error _ => .isTrue nofun

/-- A call is one of `HandleIrq`. -/
instance (c : Option Call) : Decidable (∃ iar, c = some (.irq iar)) :=
  match c with
  | some (.irq iar) => .isTrue ⟨iar, rfl⟩
  | some .wfx | some .main | none => .isFalse nofun

instance (s : Machine) : ∀ e, Decidable (Finishes I s e)
  | .createTask _ => .isTrue trivial
  | .loop _ => inferInstanceAs (Decidable (s.active ≠ [] → ∀ sched,
      s.sched.schedule schedFuel = .ok sched → (sched.cur = 0 ∨
        ∃ iar, waitingCall I s sched.cur = some (.irq iar))))
  | .sync _ _ _ _ _ => .isTrue trivial
  | .irq _ gicc_iar _ => inferInstanceAs (Decidable (
      gicc_iar &&& 0x0fff &&& 0x3ff = kIrqIdEl2PhysicalTimer → ∀ sched,
        s.sched.schedTimerHandler schedFuel = .ok sched → (sched.cur = s.cur ∨ sched.cur = 0)))

/-- An interrupt that a suspended handler has still to finish. -/
def Outstanding (s : Machine) (t : TaskId) (iar : ℕ) : Prop :=
  t < s.sched.tsks.length ∧ t ≠ s.cur ∧ waitingCall I s t = some (.irq iar)

/-- Every interrupt is finished. -/
structure Quiet (s : Machine) : Prop where
  active : s.active = []
  none_left : ∀ t iar, ¬Outstanding I s t iar

/-- One interrupt is not finished, and `KernelMain` runs. -/
structure OneLeft (s : Machine) (t : TaskId) (iar : ℕ) : Prop where
  cur : s.cur = 0
  active : s.active = [iar]
  left : Outstanding I s t iar
  only : ∀ u iar', Outstanding I s u iar' → u = t

/-- What switching does to the interrupts. -/
structure Switched (s : Machine) (c : Call) (next : TaskId) (s' : Machine) : Prop where
  cur : s'.cur = next
  tasks : s'.sched.tsks.length = s.sched.tsks.length
  active : s'.active = if s.cur = next then c.ended s.active
    else (waitingCall I s next).elim s.active fun c => c.ended s.active
  waiting : ∀ t, t < s.sched.tsks.length → t ≠ next →
    waitingCall I s' t = if t = s.cur then some c else waitingCall I s t

/-- Whether interrupts are finished is a matter of these fields. -/
structure SameCalls (s s' : Machine) : Prop where
  cur : s'.cur = s.cur
  tasks : s'.sched.tsks.length = s.sched.tsks.length
  active : s'.active = s.active
  waiting : ∀ t, t < s.sched.tsks.length → t ≠ s.cur → waitingCall I s' t = waitingCall I s t

variable {I} {s s₁ s' : Machine} {t u next : TaskId} {c : Call} {iar : ℕ}

/-! ### What a step does to the interrupts -/

theorem waitingCall_congr (hctx : s'.cpu_context = s.cpu_context) (hcalls : s'.calls = s.calls)
    (t : TaskId) : waitingCall I s' t = waitingCall I s t := by
  rw [waitingCall, waitingCall, hctx, hcalls]

theorem SameCalls.of_eq (hcur : s'.cur = s.cur)
    (htasks : s'.sched.tsks.length = s.sched.tsks.length) (hactive : s'.active = s.active)
    (hctx : s'.cpu_context = s.cpu_context) (hcalls : s'.calls = s.calls) :
    SameCalls I s s' :=
  ⟨hcur, htasks, hactive, fun t _ _ => waitingCall_congr hctx hcalls t⟩

theorem SameCalls.trans (h₁ : SameCalls I s s₁) (h₂ : SameCalls I s₁ s') :
    SameCalls I s s' where
  cur := h₂.cur.trans h₁.cur
  tasks := h₂.tasks.trans h₁.tasks
  active := h₂.active.trans h₁.active
  waiting t ht hne := by
    rw [h₂.waiting t (h₁.tasks ▸ ht) (h₁.cur ▸ hne), h₁.waiting t ht hne]

/-- Leaving the hypervisor. -/
theorem sameCalls_finish (s : Machine) : SameCalls I s s.finish := by
  rw [finish]
  split <;> exact .of_eq rfl rfl rfl rfl rfl

/-- A handler that does not switch. -/
theorem Handled.sameCalls (h : Handled I s s') : SameCalls I s s' :=
  .of_eq h.islocal.cur h.islocal.tasks h.active h.islocal.cpu_context h.islocal.calls

theorem resume_active (c : Call) : (s.resume c).active = c.ended s.active := by
  cases c <;> rfl

theorem sameWaiting_resume (c : Call) (t : TaskId) :
    waitingCall I (s.resume c) t = waitingCall I s t := by
  cases c <;> exact waitingCall_congr rfl rfl t

theorem Switched.sameCalls (h : Switched I s c next s₁) (hs : SameCalls I s₁ s') :
    Switched I s c next s' where
  cur := hs.cur.trans h.cur
  tasks := hs.tasks.trans h.tasks
  active := hs.active.trans h.active
  waiting t ht hne := by
    rw [hs.waiting t (h.tasks ▸ ht) (h.cur ▸ hne), h.waiting t ht hne]

/-! ### Switching -/

/-- **Returning from `SchedContextSwitch`**: what is done about interrupts is settled by
the call that is returned to. -/
theorem switchReturn_calls (hok : s.switchReturn I = .ok s') :
    s'.cur = s.cur ∧ s'.sched.tsks.length = s.sched.tsks.length ∧
      (s'.active = if s.cpu.x 30 = I.switchReturn then
        ((s.calls s.cpu.sp).map Activation.call).elim s.active fun c => c.ended s.active
        else s.active) ∧ ∀ t, waitingCall I s' t = waitingCall I s t := by
  rw [switchReturn] at hok
  split at hok
  case isTrue hkthread =>
    rw [if_neg (fun h => I.switchReturn_ne (h.symm.trans hkthread))]
    split at hok
    · obtain ⟨memory, -, hok⟩ := Lib.bind_eq_ok.mp hok
      split at hok
      · cases hok
      · obtain rfl := Except.ok.inj hok
        exact ⟨rfl, rfl, rfl, fun t => waitingCall_congr rfl rfl t⟩
    · cases hok
  split at hok
  case isTrue hret =>
    rw [if_pos hret]
    split at hok
    · cases hok
    · rename_i a ha
      rw [ha]
      split at hok
      · obtain rfl := Except.ok.inj hok
        refine ⟨?_, ?_, ?_, fun t => (sameWaiting_resume _ t).trans (waitingCall_congr rfl rfl t)⟩
        · cases a.call <;> rfl
        · cases a.call <;> rfl
        · exact resume_active _
      · cases hok
  · cases hok

/-- A task that waits does so apart from the stack of the current one. -/
theorem callAt_park (h : Base I s) (ht : t < s.sched.tsks.length) (hne : t ≠ s.cur)
    {key : ℕ} (hlo : top I s s.cur < key + 4096) (hhi : key ≤ top I s s.cur) (a : Activation) :
    callAt I (Function.update s.calls key (some a)) (s.cpu_context t) = waitingCall I s t := by
  rw [waitingCall, callAt, callAt]
  rcases h.others t ht hne with hs | ⟨c, hs⟩
  · have hpc : (s.cpu_context t).pc ≠ I.switchReturn := fun heq =>
      I.switchReturn_ne (heq.symm.trans hs.pc)
    rw [if_neg hpc, if_neg hpc]
  · have happart := h.tops_apart ht h.cur_lt hne
    obtain ⟨hslo, hshi⟩ := hs.sp_bounds
    rw [Function.update_of_ne (by omega)]

/-- **Switching**: the call that waits for the next task is ended, and that of the task
left waits. -/
theorem switchTaskTo_switched (h : Base I s) (hw : Waiting I s s.cur c)
    (hsp : s.cpu.sp = site I s s.cur c) {sched : Sched}
    (hlen : sched.tsks.length = s.sched.tsks.length) (hlt : sched.cur < s.sched.tsks.length)
    {scratch : Fin 31 → Word} (hok : s.switchTaskTo I sched c scratch = .ok s') :
    Switched I s c sched.cur s' := by
  rw [switchTaskTo] at hok
  dsimp only at hok
  by_cases hcur : s.cur = sched.cur
  · rw [if_pos hcur] at hok
    obtain rfl := Except.ok.inj hok
    refine ⟨?_, ?_, ?_, fun t ht hne => ?_⟩
    · cases c <;> rfl
    · cases c <;> exact hlen
    · rw [if_pos hcur]
      exact resume_active c
    · rw [if_neg fun heq => hne (heq.trans hcur)]
      exact (sameWaiting_resume c t).trans (waitingCall_congr rfl rfl t)
  · rw [if_neg hcur] at hok
    obtain ⟨hlo, hhi⟩ := site_bounds (I := I) s c hw.main_eq
    rw [← hsp] at hlo hhi
    obtain ⟨hcur', htasks, hactive, hwait⟩ := switchReturn_calls hok
    have hctx : ∀ ctx, Function.update s.cpu_context s.cur ctx sched.cur =
        s.cpu_context sched.cur := fun _ => Function.update_of_ne (Ne.symm hcur) ..
    refine ⟨hcur', htasks.trans hlen, ?_, fun t ht hne => ?_⟩
    · have hnext := callAt_park h hlt (Ne.symm hcur) hlo hhi
        ⟨s.cur, c, calleeSaved (Function.update scratch 30 I.switchReturn)⟩
      rw [if_neg hcur, ← hnext, callAt]
      refine hactive.trans ?_
      by_cases hpc : (s.cpu_context sched.cur).pc = I.switchReturn
      · rw [if_pos hpc]
        exact if_pos hpc
      · rw [if_neg hpc]
        exact if_neg hpc
    · refine (hwait t).trans ?_
      by_cases htc : t = s.cur
      · rw [if_pos htc, htc]
        refine (congrArg (callAt I _) (Function.update_self s.cur _ s.cpu_context)).trans ?_
        refine (if_pos (Function.update_self (30 : Fin 31) _ scratch)).trans ?_
        exact congrArg (Option.map Activation.call) (Function.update_self (s.cpu.sp - I.stackUse c)
          _ s.calls)
      · rw [if_neg htc, ← callAt_park h ht htc hlo hhi]
        exact congrArg (callAt I _) (Function.update_of_ne htc _ s.cpu_context)

/-- Yielding. -/
theorem schedule_switched (h : Base I s) (hw : Waiting I s s.cur c)
    (hsp : s.cpu.sp = site I s s.cur c) {scratch : Fin 31 → Word}
    (hok : s.schedule I c scratch = .ok s') :
    ∃ sched, s.sched.schedule schedFuel = .ok sched ∧ sched.cur < s.sched.tsks.length ∧
      Switched I s c sched.cur s' := by
  obtain ⟨sched, hsched, hok⟩ := Lib.bind_eq_ok.mp hok
  obtain ⟨hlen, hlt⟩ := Sched.schedule_length hsched h.cur_lt
  exact ⟨sched, hsched, hlt, switchTaskTo_switched h hw hsp hlen hlt hok⟩

/-- A tick of the timer. -/
theorem schedTimerHandler_switched (h : Base I s) (hw : Waiting I s s.cur c)
    (hsp : s.cpu.sp = site I s s.cur c) {scratch : Fin 31 → Word}
    (hok : s.schedTimerHandler I c scratch = .ok s') :
    ∃ sched, s.sched.schedTimerHandler schedFuel = .ok sched ∧
      sched.cur < s.sched.tsks.length ∧ Switched I s c sched.cur s' := by
  obtain ⟨sched, hsched, hok⟩ := Lib.bind_eq_ok.mp hok
  obtain ⟨hlen, hlt⟩ := Sched.schedTimerHandler_length hsched h.cur_lt
  exact ⟨sched, hsched, hlt, switchTaskTo_switched h hw hsp hlen hlt hok⟩

/-! ### What is left unfinished -/

theorem Quiet.same (h : Quiet I s) (hs : SameCalls I s s') : Quiet I s' where
  active := hs.active.trans h.active
  none_left := by
    rintro t iar ⟨ht, hne, hw⟩
    rw [hs.tasks] at ht
    rw [hs.cur] at hne
    rw [hs.waiting t ht hne] at hw
    exact h.none_left t iar ⟨ht, hne, hw⟩

theorem OneLeft.same (h : OneLeft I s t iar) (hs : SameCalls I s s') :
    OneLeft I s' t iar := by
  have houtstanding : ∀ u iar', Outstanding I s' u iar' ↔ Outstanding I s u iar' := by
    intro u iar'
    rw [Outstanding, Outstanding, hs.tasks, hs.cur]
    refine and_congr_right fun hu => and_congr_right fun hne => ?_
    rw [hs.waiting u hu hne]
  exact ⟨hs.cur.trans h.cur, hs.active.trans h.active, (houtstanding t iar).mpr h.left,
    fun u iar' hu => h.only u iar' ((houtstanding u iar').mp hu)⟩

theorem ended_nil (c : Call) : c.ended [] = [] := by
  cases c <;> rfl

/-- After a switch, an interrupt is left where it was, or to the task left. -/
theorem Switched.outstanding (h : Switched I s c next s') :
    Outstanding I s' t iar ↔
      t < s.sched.tsks.length ∧ t ≠ next ∧
        (if t = s.cur then c = .irq iar else waitingCall I s t = some (.irq iar)) := by
  rw [Outstanding, h.tasks, h.cur]
  refine and_congr_right fun ht => and_congr_right fun hne => ?_
  rw [h.waiting t ht hne]
  split
  · rw [Option.some.injEq]
  · rfl

/-- **When every interrupt is finished**, giving up the processor keeps it so. -/
theorem Quiet.switched (h : Quiet I s) (hsw : Switched I s c next s')
    (hc : ∀ iar, c ≠ .irq iar) : Quiet I s' where
  active := by
    rw [hsw.active, h.active]
    split
    · exact ended_nil c
    · cases waitingCall I s next with
      | none => rfl
      | some c' => exact ended_nil c'
  none_left t iar hleft := by
    obtain ⟨ht, -, hw⟩ := hsw.outstanding.mp hleft
    split at hw
    · exact hc iar hw
    case isFalse hne =>
      exact h.none_left t iar ⟨ht, hne, hw⟩

/-- **A tick that leaves the processor** where it is finishes its interrupt. -/
theorem sameCalls_tick {active : List ℕ} (hactive : s.active = iar :: active)
    (hsw : Switched I s (.irq iar) s.cur s') (hs₁ : SameCalls I s₁ { s with active }) :
    SameCalls I s₁ s' where
  cur := hsw.cur.trans hs₁.cur
  tasks := hsw.tasks.trans hs₁.tasks
  active := by
    rw [hsw.active, if_pos rfl, hactive]
    refine Eq.trans ?_ hs₁.active
    exact List.erase_cons_head ..
  waiting t ht hne := by
    have hne' : t ≠ s.cur := fun heq => hne (heq.trans hs₁.cur)
    have ht' : t < s.sched.tsks.length := lt_of_lt_of_eq ht hs₁.tasks.symm
    rw [hsw.waiting t ht' hne', if_neg hne', ← hs₁.waiting t ht hne]
    exact (waitingCall_congr rfl rfl t).symm

/-- **A tick that gives the processor to `init`** leaves its interrupt to the guest it has
interrupted. -/
theorem Quiet.tick (h : Quiet I { s with active := [] }) (hactive : s.active = [iar])
    (hcur : s.cur ≠ 0) (hlt : s.cur < s.sched.tsks.length)
    (hsw : Switched I s (.irq iar) 0 s') : OneLeft I s' s.cur iar := by
  have hnone : ∀ t iar', t < s.sched.tsks.length → t ≠ s.cur →
      waitingCall I s t ≠ some (.irq iar') := fun t iar' ht hne hw =>
    h.none_left t iar' ⟨ht, hne, hw⟩
  refine ⟨hsw.cur, ?_, hsw.outstanding.mpr ⟨hlt, hcur, ?_⟩, fun u iar' hu => ?_⟩
  · rw [hsw.active, if_neg hcur, hactive]
    cases hw : waitingCall I s 0 with
    | none => rfl
    | some c =>
      cases c with
      | main | wfx => rfl
      | irq iar' => exact absurd hw (hnone 0 iar' (Nat.zero_lt_of_lt hlt) (Ne.symm hcur))
  · rw [if_pos rfl]
  · obtain ⟨hu, -, hw⟩ := hsw.outstanding.mp hu
    split at hw
    · assumption
    case isFalse hne =>
      exact absurd hw (hnone u iar' hu hne)

/-- **`KernelMain` gives the processor up** while an interrupt is active: to `init` itself, or
to the task that has it to finish. -/
theorem OneLeft.main (h : OneLeft I s t iar) (hsw : Switched I s .main next s')
    (hlt : next < s.sched.tsks.length)
    (hnext : next = 0 ∨ ∃ iar, waitingCall I s next = some (.irq iar)) :
    Quiet I s' ∨ OneLeft I s' t iar := by
  by_cases h0 : next = 0
  · right
    have hcur : s.cur = next := h.cur.trans h0.symm
    obtain ⟨ht, hne, hw⟩ := h.left
    refine ⟨hsw.cur.trans h0, ?_, hsw.outstanding.mpr ⟨ht, hcur ▸ hne, ?_⟩, fun u iar' hu => ?_⟩
    · rw [hsw.active, if_pos hcur]
      exact h.active
    · rw [if_neg hne]
      exact hw
    · obtain ⟨hu, hune, hw⟩ := hsw.outstanding.mp hu
      rw [if_neg fun heq => hune (heq.trans hcur)] at hw
      exact h.only u iar' ⟨hu, hcur ▸ hune, hw⟩
  · left
    have hcur : s.cur ≠ next := fun heq => h0 (heq.symm.trans h.cur)
    obtain ⟨iar', hw⟩ := hnext.resolve_left h0
    have ht : next = t := h.only next iar' ⟨hlt, Ne.symm hcur, hw⟩
    have hiar : iar' = iar := by
      have := (ht ▸ hw).symm.trans h.left.2.2
      exact Call.irq.inj (Option.some.inj this)
    refine ⟨?_, fun u iar'' hu => ?_⟩
    · rw [hsw.active, if_neg hcur, hw, h.active, hiar]
      exact List.erase_cons_head ..
    · obtain ⟨hu, hune, hw'⟩ := hsw.outstanding.mp hu
      split at hw'
      · cases hw'
      case isFalse hucur =>
        exact hune ((h.only u iar'' ⟨hu, hucur, hw'⟩).trans ht.symm)

/-- **A tick that gives the processor to another guest** leaves an interrupt active. -/
theorem active_of_tick (h : Quiet I s ∨ ∃ t iar₀, OneLeft I s t iar₀)
    (hiar : iar ∉ s.active) {active : List ℕ} (hactive : active = iar :: s.active)
    (hsw : Switched I { s with active } (.irq iar) next s') (hlt : next < s.sched.tsks.length)
    (hne : next ≠ s.cur) : s'.active ≠ [] := by
  have hswitch : s'.active = (waitingCall I s next).elim active fun c => c.ended active :=
    hsw.active.trans (if_neg (Ne.symm hne))
  rw [hswitch, hactive]
  cases hw : waitingCall I s next with
  | none => exact List.cons_ne_nil _ _
  | some c =>
    cases c with
    | main | wfx => exact List.cons_ne_nil _ _
    | irq iar' =>
      rcases h with h | ⟨t, iar₀, h⟩
      · exact absurd ⟨hlt, hne, hw⟩ (h.none_left next iar')
      · have hne' : iar ≠ iar₀ := by
          rintro rfl
          exact hiar (h.active ▸ List.mem_singleton.mpr rfl)
        have ht : next = t := h.only next iar' ⟨hlt, hne, hw⟩
        have hiar' : iar' = iar₀ :=
          Call.irq.inj (Option.some.inj ((ht ▸ hw).symm.trans h.left.2.2))
        change (iar :: s.active).erase iar' ≠ []
        rw [hiar', h.active, List.erase_cons_tail (by simpa using hne')]
        exact List.cons_ne_nil _ _

/-! ### One event -/

/-- What is left unfinished is settled before a switch. -/
theorem SameCalls.switched (hs : SameCalls I s s₁) (h : Switched I s₁ c next s')
    (hlt : next < s.sched.tsks.length) : Switched I s c next s' where
  cur := h.cur
  tasks := h.tasks.trans hs.tasks
  active := by
    rw [h.active, hs.active, hs.cur]
    split
    · rfl
    case isFalse hne =>
      rw [hs.waiting next hlt (Ne.symm hne)]
  waiting t ht hne := by
    rw [h.waiting t (hs.tasks ▸ ht) hne, hs.cur]
    split
    · rfl
    case isFalse hcur =>
      exact hs.waiting t ht hcur

theorem sameCalls_trapped (s : Machine) (g : GuestRegs) (trap : Trap) :
    SameCalls I s (s.trapped g trap) := .of_eq rfl rfl rfl rfl rfl

/-- One pass of the loop. -/
theorem loop_switched {b : BoardKind} (h : Inv I s) (hm : s.mode = .init)
    {scratch : Fin 31 → Word} (hok : s.step I b (.loop scratch) = .ok s') :
    ∃ sched, s.sched.schedule schedFuel = .ok sched ∧ sched.cur < s.sched.tsks.length ∧
      Switched I s .main sched.cur s' := by
  obtain ⟨s₁, hsched, hok⟩ := Lib.bind_eq_ok.mp hok
  obtain rfl := Except.ok.inj hok
  obtain ⟨h0, hsp, hwfx⟩ := h.init hm
  have hw : Waiting I s s.cur .main := by
    rw [h0]
    exact ⟨rfl, hwfx⟩
  obtain ⟨sched, hsel, hlt, hsw⟩ := schedule_switched h.base hw hsp hsched
  exact ⟨sched, hsel, hlt, hsw.sameCalls (sameCalls_finish s₁)⟩

/-- An interrupt. -/
theorem irq_switched {b : BoardKind} (h : Inv I s) {g : GuestRegs} {gicc_iar : ℕ}
    {scratch : Fin 31 → Word} (hl : Legal s (.irq g gicc_iar scratch))
    (hok : s.step I b (.irq g gicc_iar scratch) = .ok s') :
    if gicc_iar &&& 0x0fff &&& 0x3ff = kIrqIdEl2PhysicalTimer then
      ∃ sched, s.sched.schedTimerHandler schedFuel = .ok sched ∧
        sched.cur < s.sched.tsks.length ∧
        Switched I { s with active := (gicc_iar &&& 0x0fff) :: s.active }
          (.irq (gicc_iar &&& 0x0fff)) sched.cur s'
    else SameCalls I s s' := by
  obtain ⟨s₁, hirq, hok⟩ := Lib.bind_eq_ok.mp hok
  obtain rfl := Except.ok.inj hok
  have htaken := taken_trapped h hl.1 .irq
  rw [handleIrq] at hirq
  split_ifs with hid
  · rw [if_pos hid] at hirq
    obtain ⟨hb, hw, hsp⟩ := htaken.acknowledged (gicc_iar &&& 0x0fff)
    obtain ⟨sched, hsel, hlt, hsw⟩ := schedTimerHandler_switched hb hw hsp hirq
    refine ⟨sched, hsel, hlt, ?_⟩
    have hs : SameCalls I { s with active := (gicc_iar &&& 0x0fff) :: s.active }
        { s.trapped g .irq with active := (gicc_iar &&& 0x0fff) :: s.active } :=
      .of_eq rfl rfl rfl rfl rfl
    exact (hs.switched hsw hlt).sameCalls (sameCalls_finish s₁)
  · rw [if_neg hid] at hirq
    obtain rfl := Except.ok.inj hirq
    refine SameCalls.trans ?_ (sameCalls_finish _)
    exact .of_eq rfl rfl (List.erase_cons_head ..) rfl rfl

/-- A synchronous exception. -/
theorem sync_switched {b : BoardKind} (h : Inv I s) {g : GuestRegs} {esr far : ℕ} {data : Word}
    {scratch : Fin 31 → Word} (hl : Legal s (.sync g esr far data scratch))
    (hok : s.step I b (.sync g esr far data scratch) = .ok s') :
    SameCalls I s s' ∨ ∃ next, Switched I s .wfx next s' := by
  obtain ⟨s₁, hsync, hok⟩ := Lib.bind_eq_ok.mp hok
  obtain rfl := Except.ok.inj hok
  have htaken := taken_trapped h (.inl hl) (.sync esr)
  have hne : s.cur ≠ 0 := (h.guest hl.1).cur_ne
  rcases sync_cases htaken hne hsync with ⟨hec, hsync⟩ | ⟨-, hh, -⟩
  · obtain ⟨hw, hsp⟩ := htaken.yielding hne hec
    obtain ⟨sched, -, hlt, hsw⟩ := schedule_switched htaken.base hw hsp hsync
    exact .inr ⟨sched.cur, (((sameCalls_trapped s g (.sync esr)).switched hsw hlt).sameCalls
      (sameCalls_finish s₁))⟩
  · exact .inl (((sameCalls_trapped s g (.sync esr)).trans hh.sameCalls).trans
      (sameCalls_finish s₁))

/-- A new task has no interrupt to finish. -/
theorem createTask_outstanding {b : BoardKind} {load : Load} (h : Base I s)
    (hok : s.createTask I b load = .ok s') :
    s'.cur = s.cur ∧ s'.active = s.active ∧
      ∀ t iar, Outstanding I s' t iar ↔ Outstanding I s t iar := by
  obtain ⟨⟨page, mm₁⟩, -, hok⟩ := Lib.bind_eq_ok.mp hok
  obtain ⟨mm₂, -, hok⟩ := Lib.bind_eq_ok.mp hok
  obtain ⟨sched, ha, hok⟩ := Lib.bind_eq_ok.mp hok
  obtain rfl := Except.ok.inj hok
  rw [Sched.addTask] at ha
  split at ha
  swap
  · cases ha
  obtain rfl := Except.ok.inj ha
  have hlt := h.cur_lt
  refine ⟨rfl, rfl, fun t iar => ?_⟩
  set n := s.sched.tsks.length with hn
  have hwait : ∀ ctx, t ≠ n → callAt I s.calls (Function.update s.cpu_context n ctx t) =
      waitingCall I s t := fun ctx hne => by rw [Function.update_of_ne hne, waitingCall]
  have hnone : ∀ ctx : CpuContext, ctx.pc = I.KernelSwitchFromKThread →
      callAt I s.calls ctx = none := fun ctx hpc => by
    rw [callAt, if_neg fun heq => I.switchReturn_ne (heq.symm.trans hpc)]
  rw [Outstanding, Outstanding, waitingCall]
  dsimp only
  rw [List.length_append, List.length_singleton]
  constructor
  · rintro ⟨ht, hne, hw⟩
    by_cases htn : t = n
    · subst htn
      rw [Function.update_self, hnone _ rfl] at hw
      cases hw
    · rw [hwait _ htn] at hw
      exact ⟨lt_of_le_of_ne (Nat.le_of_lt_succ ht) htn, hne, hw⟩
  · rintro ⟨ht, hne, hw⟩
    rw [hwait _ ht.ne]
    exact ⟨Nat.lt_succ_of_lt ht, hne, hw⟩

variable (I) in
/-- **The invariant**: between two events no interrupt is unfinished, or one is while
`KernelMain` runs. -/
structure IrqInv (s : Machine) : Prop where
  inv : Inv I s
  left : Quiet I s ∨ ∃ t iar, OneLeft I s t iar

theorem IrqInv.finished (h : IrqInv I s) : Finished s := by
  intro hm
  rcases h.left with hq | ⟨t, iar, ho⟩
  · exact hq.active
  · exact absurd ho.cur (h.inv.guest hm).cur_ne

theorem IrqInv.same (h : IrqInv I s) (hinv : Inv I s') (hs : SameCalls I s s') :
    IrqInv I s' := by
  refine ⟨hinv, ?_⟩
  rcases h.left with hq | ⟨t, iar, ho⟩
  · exact .inl (hq.same hs)
  · exact .inr ⟨t, iar, ho.same hs⟩

/-- **A step that finishes its interrupts** keeps the invariant. -/
theorem IrqInv.step {b : BoardKind} {e : Event} (h : IrqInv I s) (hl : Legal s e)
    (hf : Finishes I s e) (hok : s.step I b e = .ok s') : IrqInv I s' := by
  have hinv : Inv I s' := (step_inv h.inv hl).1 s' hok
  cases e with
  | createTask load =>
    obtain ⟨hcur, hactive, hleft⟩ := createTask_outstanding h.inv.base hok
    refine ⟨hinv, ?_⟩
    rcases h.left with hq | ⟨t, iar, ho⟩
    · exact .inl ⟨hactive.trans hq.active, fun t iar ht => hq.none_left t iar ((hleft t iar).mp ht)⟩
    · exact .inr ⟨t, iar, hcur.trans ho.cur, hactive.trans ho.active, (hleft t iar).mpr ho.left,
        fun u iar' hu => ho.only u iar' ((hleft u iar').mp hu)⟩
  | loop scratch =>
    obtain ⟨sched, hsel, hlt, hsw⟩ := loop_switched h.inv hl hok
    refine ⟨hinv, ?_⟩
    rcases h.left with hq | ⟨t, iar, ho⟩
    · exact .inl (hq.switched hsw fun _ => nofun)
    · -- the main loop stays, or goes on with a task suspended in the handler
      have hnext := hf (by rw [ho.active]; exact List.cons_ne_nil _ _) sched hsel
      exact (ho.main hsw hlt hnext).imp id fun ho => ⟨t, iar, ho⟩
  | sync g esr far data scratch =>
    rcases sync_switched h.inv hl hok with hs | ⟨next, hsw⟩
    · exact h.same hinv hs
    · refine ⟨hinv, .inl ?_⟩
      rcases h.left with hq | ⟨t, iar, ho⟩
      · exact hq.switched hsw fun _ => nofun
      · -- while a call is outstanding the initial task runs, and no guest can trap
        exact absurd ho.cur (h.inv.guest hl.1).cur_ne
  | irq g gicc_iar scratch =>
    have hirq := irq_switched h.inv hl hok
    split at hirq
    swap
    · exact h.same hinv hirq
    rename_i hid
    obtain ⟨sched, hsel, hlt, hsw⟩ := hirq
    -- a tick keeps the task that runs, or goes to the initial one
    by_cases hcur : sched.cur = s.cur
    · rw [hcur] at hsw
      exact h.same hinv (sameCalls_tick rfl hsw (.of_eq rfl rfl rfl rfl rfl))
    · have h0 : sched.cur = 0 := (hf hid sched hsel).resolve_left hcur
      have hne : s.cur ≠ 0 := fun heq => hcur (h0.trans heq.symm)
      rw [h0] at hsw
      refine ⟨hinv, .inr ?_⟩
      rcases h.left with hq | ⟨t, iar, ho⟩
      · have hq' : Quiet I { s with active := [] } :=
          hq.same (.of_eq rfl rfl hq.active.symm rfl rfl)
        exact ⟨s.cur, _,
          Quiet.tick (s := { s with active := (gicc_iar &&& 0x0fff) :: s.active }) hq'
          (congrArg (List.cons _) hq.active) hne h.inv.base.cur_lt hsw⟩
      · exact absurd ho.cur hne

/-- **A step that does not** leads to a guest that runs with an unfinished interrupt. -/
theorem IrqInv.not_finished {b : BoardKind} {e : Event} (h : IrqInv I s) (hl : Legal s e)
    (hf : ¬Finishes I s e) (hok : s.step I b e = .ok s') : ¬Finished s' := by
  have hinv : Inv I s' := (step_inv h.inv hl).1 s' hok
  have hguest : s'.cur ≠ 0 → s'.mode = .guest := by
    intro hne
    cases hm : s'.mode with
    | guest => rfl
    | init => exact absurd (hinv.init hm).1 hne
    | handler => exact absurd hm hinv.not_handler
  cases e with
  | createTask load => exact absurd trivial hf
  | sync g esr far data scratch => exact absurd trivial hf
  | loop scratch =>
    obtain ⟨sched, hsel, hlt, hsw⟩ := loop_switched h.inv hl hok
    rw [Finishes] at hf
    push Not at hf
    obtain ⟨hactive, sched', hsel', h0, hirq⟩ := hf
    obtain rfl := Except.ok.inj (hsel.symm.trans hsel')
    have hcur : s.cur ≠ sched.cur := fun heq => h0 (heq.symm.trans (h.inv.init hl).1)
    have hkeep : s'.active = s.active := by
      rw [hsw.active, if_neg hcur]
      cases hw : waitingCall I s sched.cur with
      | none => rfl
      | some c =>
        cases c with
        | main | wfx => rfl
        | irq iar => exact absurd hw (hirq iar)
    exact fun hfin => hactive (hkeep.symm.trans (hfin (hguest (hsw.cur ▸ h0))))
  | irq g gicc_iar scratch =>
    have hirq := irq_switched h.inv hl hok
    rw [Finishes] at hf
    push Not at hf
    obtain ⟨hid, sched', hsel', hcur, h0⟩ := hf
    rw [if_pos hid] at hirq
    obtain ⟨sched, hsel, hlt, hsw⟩ := hirq
    obtain rfl := Except.ok.inj (hsel.symm.trans hsel')
    intro hfin
    exact active_of_tick h.left hl.2 rfl hsw hlt hcur (hfin (hguest (hsw.cur ▸ h0)))

end Machine

open Machine

theorem boot_irqInv {L : Layout} (I : Image L) (cpu : Cpu) : IrqInv I (boot I cpu) where
  inv := boot_inv I cpu
  left := .inl ⟨rfl, fun _ _ ⟨ht, hne, _⟩ => hne (Nat.lt_one_iff.mp ht)⟩

/-- Two guests are created, and the first is interrupted by the timer. -/
def tickOfTwo : List Event :=
  [.createTask .onePage, .createTask .onePage, .loop fun _ => 0,
    .irq .numbered kIrqIdEl2PhysicalTimer fun _ => 0]

/-- One guest is created, and interrupted by the timer. -/
def tickOfOne : List Event :=
  [.createTask .onePage, .loop fun _ => 0, .irq .numbered kIrqIdEl2PhysicalTimer fun _ => 0,
    .loop fun _ => 0, .irq .numbered kIrqIdEl2PhysicalTimer fun _ => 0]

end Evisor
