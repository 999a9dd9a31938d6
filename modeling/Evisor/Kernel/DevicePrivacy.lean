import Mathlib.Data.List.Induction
import Evisor.Kernel.Console

/-!
# Whose devices they are

Every task created points to the one board object of the platform, so the serial
line, the distributor and the console of a task are those of every task. What one
task does to them the others find, unless it changes nothing – and that is exactly
what `Evisor.Devices.Quiet` asks of its accesses. In a run all of whose accesses by
one task are quiet, the others read what they read without them
(`Evisor.Devices.devices_private`).

Creating a task gives the board a new console. What the old one held is lost, unless
it held nothing.
-/

namespace Evisor

namespace Devices

/-- What happens around the devices. -/
inductive Event where
  /-- `CreateTask`. -/
  | createTask
  /-- A trap or an interrupt that is none of those below, after which task `next`
  runs. -/
  | switch (next : TaskId)
  /-- A read of a device by the guest of task `t`, which is the one running. -/
  | read (t : TaskId) (addr : ℕ)
  /-- A write to a device by the guest of task `t`, which is the one running. -/
  | write (t : TaskId) (addr val : ℕ)
  /-- An interrupt of the serial line of the machine, with the bytes it has received. -/
  | receive (bytes : List ℕ)
  deriving DecidableEq, Repr

/-- Whether an event is an access of a task. -/
def Event.accessOf (a : TaskId) : Event → Bool
  | .read t _ => t = a
  | .write t _ _ => t = a
  | _ => false

/-- The tasks, their devices, and what they have read. -/
structure System where
  /-- What the tasks share. -/
  hyp : Hyp
  /-- `Tcb::stat` of each task. -/
  stat : TaskId → TaskStat
  /-- What each task has read from its devices, the last first. -/
  reads : TaskId → List ℕ

namespace System

/-- After `Sched::Init`. -/
def boot : System := ⟨.boot, fun _ => ⟨false, false, 0, 0, 0, 0, 0⟩, fun _ => []⟩

/-- The board of the current task has been asked: `irq_pending` says what it found. -/
def entered (s : System) (irq_pending : Option Bool) (hyp : Hyp) : System where
  hyp := hyp
  stat := match irq_pending with
    | none => s.stat
    | some p => Function.update s.stat hyp.cur { s.stat hyp.cur with irq_pending := p }
  reads := s.reads

/-- `VmEnter`. -/
def enter (s : System) : Except Fault System := do
  let (irq_pending, hyp) ← s.hyp.vmEnter
  return s.entered irq_pending hyp

/-- An access of task `t` has been made: `mmios` counts it, and a read gives a value. -/
def accessed (s : System) (t : TaskId) (res : Option ℕ) (hyp : Hyp) : System where
  hyp := hyp
  stat := Function.update s.stat t { s.stat t with mmios := (s.stat t).mmios + 1 }
  reads := match res with
    | none => s.reads
    | some v => Function.update s.reads t (v :: s.reads t)

/-- What a task finds in the devices of its board. -/
def devices (s : System) (t : TaskId) : Option (UartRegs × GicRegs × List ℕ × List ℕ) :=
  (s.hyp.boardOf t).bind fun ref => (s.hyp.boards ref).devices

end System

variable (k : BoardKind)

/-- One event. Every one but the creation of a task leaves a guest and enters one;
`init` is no guest, but it has no board and no console, so that leaving and entering
it does nothing. -/
def step (s : System) : Event → Except Fault System
  | .createTask => do
    let hyp ← s.hyp.createTask
    return { s with hyp }
  | .switch next => do
    let hyp ← s.hyp.vmLeave
    System.enter { s with hyp := { hyp with cur := next } }
  | .read t addr => do
    let hyp ← s.hyp.vmLeave
    let (res, hyp) ← hyp.mmioRead k addr
    (s.accessed t res hyp).enter
  | .write t addr val => do
    let hyp ← s.hyp.vmLeave
    let hyp ← hyp.mmioWrite k addr val
    (s.accessed t none hyp).enter
  | .receive bytes => do
    let hyp ← s.hyp.vmLeave
    let hyp ← bytes.foldlM Hyp.receive hyp
    System.enter { s with hyp }

/-- What the events of a run are given: the task that runs is one there is, and an
access is made by the task that runs. -/
def Legal (s : System) : Event → Prop
  | .switch next => next < s.hyp.tsks.length
  | .read t _ => t = s.hyp.cur
  | .write t _ _ => t = s.hyp.cur
  | _ => True

instance (s : System) : ∀ e, Decidable (Legal s e)
  | .switch next => inferInstanceAs (Decidable (next < s.hyp.tsks.length))
  | .read t _ => inferInstanceAs (Decidable (t = s.hyp.cur))
  | .write t _ _ => inferInstanceAs (Decidable (t = s.hyp.cur))
  | .createTask => .isTrue trivial
  | .receive _ => .isTrue trivial

/-- Trapping does not print anything: the console is another task's, or has nothing. -/
def QuietTrap (h : Hyp) : Prop :=
  h.cur = h.console_forwarded_pid → ∀ r ∈ (h.consoleOf h.cur).toOption, r.2.out.empty = true

/-- **An access of task `a` that the others cannot see**, and a creation of a task
that loses nothing. -/
def Quiet (a : TaskId) (s : System) : Event → Prop
  | .read t addr => t = a → QuietTrap s.hyp ∧
      ∀ ref ∈ s.hyp.boardOf s.hyp.cur, (s.hyp.boards ref).QuietRead k addr
  | .write t addr val => t = a → QuietTrap s.hyp ∧
      ∀ ref ∈ s.hyp.boardOf s.hyp.cur, (s.hyp.boards ref).QuietWrite k addr val
  | .createTask => ∀ t < s.hyp.tsks.length, s.hyp.boardOf t ≠ none →
      ∃ r ∈ (s.hyp.consoleOf t).toOption, r.2.input.contents = [] ∧ r.2.out.contents = []
  | _ => True

instance (h : Hyp) : Decidable (QuietTrap h) :=
  inferInstanceAs (Decidable (_ → _))

instance (a : TaskId) (s : System) : ∀ e, Decidable (Quiet k a s e)
  | .read _ _ => inferInstanceAs (Decidable (_ → _ ∧ _))
  | .write _ _ _ => inferInstanceAs (Decidable (_ → _ ∧ _))
  | .createTask => inferInstanceAs (Decidable (∀ t < s.hyp.tsks.length, s.hyp.boardOf t ≠ none →
      ∃ r ∈ (s.hyp.consoleOf t).toOption, r.2.input.contents = [] ∧ r.2.out.contents = []))
  | .switch _ | .receive _ => .isTrue trivial

/-- A creation of a task leaves the devices of the tasks there are as they are. -/
def Keeps (s : System) (e : Event) : Prop :=
  e = .createTask → ∀ s', step k s e = .ok s' →
    ∀ t < s.hyp.tsks.length, s'.devices t = s.devices t

variable {k} {a : TaskId} {s s' : System} {h h' : Hyp}

/-! ### Accesses that the others cannot see -/

/-- Flushing a console that has nothing does nothing. -/
theorem flushOwner_of_quiet (hq : QuietTrap h) (hok : h.flushOwner = .ok h') : h' = h := by
  rw [Hyp.flushOwner] at hok
  split_ifs at hok with howner
  · rw [Hyp.flushConsole] at hok
    obtain ⟨⟨ref, console⟩, hcon, hok⟩ := Lib.bind_eq_ok.mp hok
    obtain ⟨⟨data, out⟩, hflush, hok⟩ := Lib.bind_eq_ok.mp hok
    have hempty : console.out.empty = true := hq howner (ref, console) (by rw [hcon]; rfl)
    rw [flushLoop_of_empty hempty] at hflush
    obtain ⟨rfl, rfl⟩ := Prod.mk.inj (Except.ok.inj hflush)
    obtain rfl := Except.ok.inj hok
    have hboard := (Hyp.consoleOf_ok hcon).2
    rw [Hyp.setBoard_self (by rw [← hboard]), List.append_nil]
  · exact (Except.ok.inj hok).symm

/-- Entering a guest is seen by that guest alone when it prints nothing. -/
theorem enter_of_quiet (hq : QuietTrap s.hyp) (hok : s.enter = .ok s') :
    s'.hyp = s.hyp ∧ s'.reads = s.reads ∧ ∀ t, t ≠ s.hyp.cur → s'.stat t = s.stat t := by
  rw [System.enter] at hok
  obtain ⟨⟨irq_pending, hyp⟩, henter, hok⟩ := Lib.bind_eq_ok.mp hok
  rw [Hyp.vmEnter] at henter
  obtain ⟨p, -, henter⟩ := Lib.bind_eq_ok.mp henter
  obtain ⟨hyp', hflush, henter⟩ := Lib.bind_eq_ok.mp henter
  obtain ⟨rfl, rfl⟩ := Prod.mk.inj (Except.ok.inj henter)
  obtain rfl := flushOwner_of_quiet hq hflush
  obtain rfl := Except.ok.inj hok
  refine ⟨rfl, rfl, fun t ht => ?_⟩
  cases p with
  | none => rfl
  | some p => exact Function.update_of_ne ht _ _

/-- What a run looks like to the tasks other than `a`. -/
def view (a : TaskId) (s : System) : Hyp × (TaskId → Option (TaskStat × List ℕ)) :=
  (s.hyp, fun t => if t = a then none else some (s.stat t, s.reads t))

theorem view_eq_iff : view a s' = view a s ↔ s'.hyp = s.hyp ∧
    ∀ t, t ≠ a → s'.stat t = s.stat t ∧ s'.reads t = s.reads t := by
  rw [view, view, Prod.mk.injEq, funext_iff]
  refine and_congr_right fun _ => forall_congr' fun t => ?_
  by_cases ht : t = a
  · rw [if_pos ht, if_pos ht]
    exact iff_of_true rfl (fun hne => absurd ht hne)
  · rw [if_neg ht, if_neg ht, Option.some.injEq, Prod.mk.injEq]
    exact ⟨fun h _ => h, fun h => h ht⟩

/-- **A quiet access is not seen.** -/
theorem view_of_access {hyp : Hyp} {res : Option ℕ} (hyp_eq : hyp = s.hyp) (hq : QuietTrap s.hyp)
    (hcur : a = s.hyp.cur) (hok : (s.accessed a res hyp).enter = .ok s') :
    view a s' = view a s := by
  subst hyp_eq
  obtain ⟨hhyp, hreads, hstat⟩ := enter_of_quiet (s := s.accessed a res s.hyp) hq hok
  refine view_eq_iff.mpr ⟨hhyp, fun t ht => ⟨?_, ?_⟩⟩
  · rw [hstat t (hcur ▸ ht)]
    exact Function.update_of_ne ht _ _
  · rw [hreads]
    cases res with
    | none => rfl
    | some v => exact Function.update_of_ne ht _ _

/-- The device accesses of `a` are not seen. -/
theorem view_of_hidden {e : Event} (hid : e.accessOf a = true) (hlegal : Legal s e)
    (hq : Quiet k a s e) (hok : step k s e = .ok s') : view a s' = view a s := by
  cases e with
  | read t addr =>
    obtain rfl := of_decide_eq_true hid
    obtain ⟨hquiet, hboard⟩ := hq rfl
    obtain ⟨h₁, hleave, hok⟩ := Lib.bind_eq_ok.mp hok
    obtain rfl := flushOwner_of_quiet hquiet hleave
    obtain ⟨⟨res, h₂⟩, hread, hok⟩ := Lib.bind_eq_ok.mp hok
    refine view_of_access ?_ hquiet hlegal hok
    rw [Hyp.mmioRead] at hread
    split at hread
    · exact (Prod.mk.inj (Except.ok.inj hread)).2.symm
    · rename_i ref href
      obtain ⟨⟨v, b⟩, hb, hread⟩ := Lib.bind_eq_ok.mp hread
      obtain ⟨-, rfl⟩ := Prod.mk.inj (Except.ok.inj hread)
      exact Hyp.setBoard_self ((Board.mmioRead_eq_iff hb).mpr (hboard ref href))
  | write t addr val =>
    obtain rfl := of_decide_eq_true hid
    obtain ⟨hquiet, hboard⟩ := hq rfl
    obtain ⟨h₁, hleave, hok⟩ := Lib.bind_eq_ok.mp hok
    obtain rfl := flushOwner_of_quiet hquiet hleave
    obtain ⟨h₂, hwrite, hok⟩ := Lib.bind_eq_ok.mp hok
    refine view_of_access ?_ hquiet hlegal hok
    rw [Hyp.mmioWrite] at hwrite
    split at hwrite
    · exact (Except.ok.inj hwrite).symm
    · rename_i ref href
      obtain ⟨b, hb, hwrite⟩ := Lib.bind_eq_ok.mp hwrite
      obtain rfl := Except.ok.inj hwrite
      exact Hyp.setBoard_self ((Board.mmioWrite_eq_iff hb).mpr (hboard ref href))
  | _ => cases hid

/-! ### What the others do -/

/-- Entering a guest looks the same when what came before did. -/
theorem enter_see {t : System} (hv : view a s' = view a s) (hok : s.enter = .ok t) :
    ∃ t', s'.enter = .ok t' ∧ view a t' = view a t := by
  obtain ⟨hhyp, hrest⟩ := view_eq_iff.mp hv
  rw [System.enter] at hok
  obtain ⟨⟨irq_pending, hyp⟩, henter, hok⟩ := Lib.bind_eq_ok.mp hok
  obtain rfl := Except.ok.inj hok
  refine ⟨s'.entered irq_pending hyp, by rw [System.enter, hhyp, henter]; rfl,
    view_eq_iff.mpr ⟨rfl, fun u hu => ⟨?_, (hrest u hu).2⟩⟩⟩
  cases irq_pending with
  | none => exact (hrest u hu).1
  | some p =>
    change Function.update _ _ _ u = Function.update _ _ _ u
    by_cases hcur : u = hyp.cur
    · subst hcur
      rw [Function.update_self, Function.update_self, (hrest _ hu).1]
    · rw [Function.update_of_ne hcur, Function.update_of_ne hcur, (hrest u hu).1]

/-- An access of another task looks the same when what came before did. -/
theorem accessed_see (hv : view a s' = view a s) {t : TaskId} (ht : t ≠ a) (res : Option ℕ)
    (hyp : Hyp) : view a (s'.accessed t res hyp) = view a (s.accessed t res hyp) := by
  obtain ⟨-, hrest⟩ := view_eq_iff.mp hv
  refine view_eq_iff.mpr ⟨rfl, fun u hu => ?_⟩
  obtain ⟨hstat, hreads⟩ := hrest u hu
  obtain ⟨hstat', hreads'⟩ := hrest t ht
  constructor
  · change Function.update _ _ _ u = Function.update _ _ _ u
    rw [hstat', Function.update_apply, Function.update_apply, hstat]
  · cases res with
    | none => exact hreads
    | some v =>
      change Function.update _ _ _ u = Function.update _ _ _ u
      rw [hreads', Function.update_apply, Function.update_apply, hreads]

/-- The shared state is as it is to whoever looks. -/
theorem view_with_hyp (hv : view a s' = view a s) (hyp : Hyp) :
    view a { s' with hyp } = view a { s with hyp } :=
  view_eq_iff.mpr ⟨rfl, (view_eq_iff.mp hv).2⟩

/-- **What the other events do to what is seen depends on what is seen alone.** -/
theorem view_of_seen {e : Event} (hid : e.accessOf a = false) (hv : view a s' = view a s)
    {t : System} (hok : step k s e = .ok t) :
    ∃ t', step k s' e = .ok t' ∧ view a t' = view a t := by
  have hhyp := (view_eq_iff.mp hv).1
  cases e with
  | createTask =>
    obtain ⟨hyp, hcreate, hok⟩ := Lib.bind_eq_ok.mp hok
    obtain rfl := Except.ok.inj hok
    exact ⟨_, by rw [step, hhyp, hcreate]; rfl, view_with_hyp hv hyp⟩
  | switch next =>
    obtain ⟨hyp, hleave, hok⟩ := Lib.bind_eq_ok.mp hok
    obtain ⟨t', ht', hvt⟩ := enter_see (view_with_hyp hv { hyp with cur := next }) hok
    exact ⟨t', by rw [step, hhyp, hleave]; exact ht', hvt⟩
  | read u addr =>
    have hu : u ≠ a := of_decide_eq_false hid
    obtain ⟨h₁, hleave, hok⟩ := Lib.bind_eq_ok.mp hok
    obtain ⟨⟨res, h₂⟩, hread, hok⟩ := Lib.bind_eq_ok.mp hok
    obtain ⟨t', ht', hvt⟩ := enter_see (accessed_see hv hu res h₂) hok
    refine ⟨t', ?_, hvt⟩
    rw [step, hhyp, hleave, Lib.ok_bind, hread]
    exact ht'
  | write u addr val =>
    have hu : u ≠ a := of_decide_eq_false hid
    obtain ⟨h₁, hleave, hok⟩ := Lib.bind_eq_ok.mp hok
    obtain ⟨h₂, hwrite, hok⟩ := Lib.bind_eq_ok.mp hok
    obtain ⟨t', ht', hvt⟩ := enter_see (accessed_see hv hu none h₂) hok
    refine ⟨t', ?_, hvt⟩
    rw [step, hhyp, hleave, Lib.ok_bind, hwrite]
    exact ht'
  | receive bytes =>
    obtain ⟨h₁, hleave, hok⟩ := Lib.bind_eq_ok.mp hok
    obtain ⟨h₂, hrecv, hok⟩ := Lib.bind_eq_ok.mp hok
    obtain ⟨t', ht', hvt⟩ := enter_see (view_with_hyp hv h₂) hok
    refine ⟨t', ?_, hvt⟩
    rw [step, hhyp, hleave, Lib.ok_bind, hrecv]
    exact ht'

/-! ### Creating a task -/

/-- A computation that gives something succeeds. -/
theorem ok_of_mem_toOption {x : Except Fault (BoardRef × Console)} {r : BoardRef × Console}
    (hr : r ∈ x.toOption) : x = .ok r := by
  cases x with
  | error f => cases hr
  | ok r' => exact congrArg Except.ok (Option.some.inj hr)

/-- **A creation that is quiet** keeps the devices there are. -/
theorem keeps_of_quiet {e : Event} (hq : Quiet k a s e) : Keeps k s e := by
  rintro rfl s' hok t ht
  obtain ⟨hyp, hcreate, hok⟩ := Lib.bind_eq_ok.mp hok
  obtain rfl := Except.ok.inj hok
  rw [Hyp.createTask] at hcreate
  split at hcreate
  · obtain rfl := Except.ok.inj hcreate
    have hboard : ∀ h₁ : Hyp, h₁.tsks = s.hyp.tsks ++ [⟨some getPlatformBoard, .RUNNING⟩] →
        h₁.boardOf t = s.hyp.boardOf t := by
      intro h₁ htsks
      rw [Hyp.boardOf, htsks, List.getElem?_append_left ht, Hyp.boardOf]
    rw [System.devices, System.devices, hboard _ rfl]
    cases hb : s.hyp.boardOf t with
    | none => rfl
    | some ref =>
      obtain ⟨r, hr, hin, hout⟩ := hq t ht (by rw [hb]; exact nofun)
      obtain ⟨href, hconsole⟩ := Hyp.consoleOf_ok (ok_of_mem_toOption hr)
      obtain rfl : ref = r.1 := Option.some.inj (hb.symm.trans href)
      change Board.devices (Function.update s.hyp.boards _ _ r.1) = (s.hyp.boards r.1).devices
      by_cases hpb : r.1 = getPlatformBoard
      · rw [← hpb, Function.update_self, Board.devices_init hconsole hin hout]
      · rw [Function.update_of_ne hpb]
  · cases hcreate

/-! ### Runs -/

/-- **What one task does is not seen by the others, as long as it is quiet.** For every
task `a` and every run in which the accesses of `a` are quiet and no task is created
while a console holds something: at any time the other tasks have read, and find in
their devices, what they had and would without the accesses of `a`; and no creation of
a task changes the devices of the tasks there were. -/
theorem devices_private (k : BoardKind) (a : TaskId) {events : List Event}
    (hlegal : Lib.Each (step k) Legal .boot events)
    (hquiet : Lib.Each (step k) (Quiet k a) .boot events) :
    (∀ s, Lib.runFrom (step k) .boot events = .ok s →
      ∃ s', Lib.runFrom (step k) .boot (events.filter fun e => !e.accessOf a) = .ok s' ∧
        ∀ t, t ≠ a → s'.reads t = s.reads t ∧ s'.devices t = s.devices t) ∧
    Lib.Each (step k) (Keeps k) .boot events := by
  refine ⟨fun s hrun => ?_, hquiet.mono fun s e hq => keeps_of_quiet hq⟩
  obtain ⟨s', hrun', hview⟩ := Lib.runFrom_purge (v := view a)
    (fun s e t hid hc hok => view_of_hidden hid hc.1 hc.2 hok)
    (fun s s' e t hid hv hok => view_of_seen hid hv hok) (hlegal.and hquiet) rfl hrun
  obtain ⟨hhyp, hrest⟩ := view_eq_iff.mp hview
  refine ⟨s', hrun', fun t ht => ⟨(hrest t ht).2, ?_⟩⟩
  rw [System.devices, System.devices, hhyp]

/-- Two tasks, of which the first reads a constant. -/
theorem devices_private_two_tasks :
    ∃ s, Lib.runFrom (step .qemu) .boot [.createTask, .createTask, .switch 1,
        .read 1 0x09000FE0, .switch 2, .read 2 0x0900002C] = .ok s ∧
      ∃ s', Lib.runFrom (step .qemu) .boot [.createTask, .createTask, .switch 1, .switch 2,
          .read 2 0x0900002C] = .ok s' ∧
        ∀ t, t ≠ 1 → s'.reads t = s.reads t ∧ s'.devices t = s.devices t := by
  obtain ⟨s, hs⟩ := Lib.exists_ok_of_isOk (x := Lib.runFrom (step .qemu) .boot [.createTask,
    .createTask, .switch 1, .read 1 0x09000FE0, .switch 2, .read 2 0x0900002C]) (by decide +kernel)
  exact ⟨s, hs, (devices_private .qemu 1 (by decide +kernel) (by decide +kernel)).1 s hs⟩

/-- What a task has read, and what is typed for it, after a run on the QEMU board. -/
def readsAfter (events : List Event) (t : TaskId) : Option (List ℕ × Option (List ℕ)) :=
  (Lib.runFrom (step .qemu) .boot events).toOption.map fun s =>
    (s.reads t, (s.devices t).map fun d => d.2.2.1)

/-- Task 1 writes a register of its serial line, and task 2 reads it. -/
def sharing : List Event :=
  [.createTask, .createTask, .switch 1, .write 1 0x0900002C 3, .switch 2, .read 2 0x0900002C]

/-- **The devices are shared**: task 2 reads what task 1 has written, and the byte typed
for task 1 is gone when task 2 is created. -/
theorem devices_shared :
    Lib.Each (step .qemu) Legal .boot sharing ∧
    (readsAfter sharing 2).map Prod.fst = some [3] ∧
    (readsAfter (sharing.filter fun e => !e.accessOf 1) 2).map Prod.fst = some [0] ∧
    readsAfter [.createTask, .receive [0x41]] 1 = some ([], some [0x41]) ∧
    readsAfter [.createTask, .receive [0x41], .createTask] 1 = some ([], some []) := by
  decide +kernel

end Devices

end Evisor
