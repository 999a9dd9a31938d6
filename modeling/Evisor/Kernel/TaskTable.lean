import Evisor.Kernel.Console
import Evisor.Kernel.VcpuRun

/-!
# The table of tasks

`Sched::CreateTask` and `Sched::AddTask`, in any number and in any order. The table has
`kNrTasks` places, of which `Sched::Init` takes the first, and `AddTask` does not look whether
there is one left: it stores at the count, and counts on. So the table is right, and each task
is found at its `pid`, as long as every call is made while a place is free
(`Evisor.TaskTable.task_table_iff`), which in a run from `Sched::Init` means seven calls
(`Evisor.TaskTable.room_iff_length`). `KernelMain` looks for a negative `pid`, which no call
returns.
-/

namespace Evisor

namespace TaskTable

/-- What the calls work on: the processor with the scheduler, and what the tasks share of the
console and the boards. -/
structure Kernel where
  machine : Machine
  hyp : Hyp

/-- A call that registers a task. -/
inductive Op where
  /-- `Sched::CreateTask`. -/
  | createTask (load : Load)
  /-- `Sched::AddTask`. -/
  | addTask (tsk : Tcb)

variable {L : Layout} (I : Image L) (b : BoardKind)

/-- `count_tsks_`. -/
def Kernel.count_tsks_ (s : Kernel) : ℕ := s.machine.sched.tsks.length

/-- **One call**, with the `pid` it returns. -/
def call (s : Kernel) : Op → Except Fault (ℤ × Kernel)
  | .createTask load => do
    let machine ← s.machine.createTask I b load
    let hyp ← s.hyp.createTask
    return (s.count_tsks_, ⟨machine, hyp⟩)
  | .addTask tsk => do
    let sched ← s.machine.sched.addTask tsk
    return (s.count_tsks_, ⟨{ s.machine with sched },
      { s.hyp with tsks := s.hyp.tsks ++ [⟨tsk.board, tsk.state⟩] }⟩)

/-- What a call leaves. -/
def step (s : Kernel) (op : Op) : Except Fault Kernel := do
  let r ← call I b s op
  return r.2

/-- The hypervisor after `Sched::Init`. -/
def boot (cpu : Cpu) : Kernel := ⟨.boot I cpu, .boot⟩

/-! ### What is asked of the table -/

/-- **The table is right**: it has not overflowed, and each task is at its `pid`. -/
structure TableOk (s : Kernel) : Prop where
  count_le : s.count_tsks_ ≤ kNrTasks
  pid : ∀ (i : ℕ) (tsk : Tcb), s.machine.sched.tsks[i]? = some tsk → tsk.pid = i

/-- **A call is rejected**: it returns a negative `pid`, and the table, the counter and the
owner of the console are as they were. -/
def Rejected (s : Kernel) (op : Op) : Prop :=
  ∃ pid t, call I b s op = .ok (pid, t) ∧ pid < 0 ∧
    t.machine.sched.tsks = s.machine.sched.tsks ∧ t.hyp.tsks = s.hyp.tsks ∧
    t.hyp.console_forwarded_pid = s.hyp.console_forwarded_pid

/-- **The table is safe** along a run of calls: it is always right, a call that does not come
back has stopped in `PANIC`, and a call on a full table is rejected. -/
structure Safe (s : Kernel) (ops : List Op) : Prop where
  along : Lib.Along (step I b) TableOk Fault.IsPanic s ops
  full : Lib.Each (step I b) (fun s op => s.count_tsks_ = kNrTasks → Rejected I b s op) s ops

/-- There is a place for one more task. -/
def Room (s : Kernel) (_ : Op) : Prop := s.count_tsks_ < kNrTasks

instance (s : Kernel) (op : Op) : Decidable (Room s op) :=
  inferInstanceAs (Decidable (_ < _))

/-! ### One call -/

variable {I b} {s t : Kernel} {op : Op} {f : Fault}

/-- What `AddTask` does. -/
theorem addTask_ok {sched sched' : Sched} {tsk : Tcb} (h : sched.addTask tsk = .ok sched') :
    sched.tsks.length < kNrTasks ∧
      sched'.tsks = sched.tsks ++ [{ tsk with pid := sched.tsks.length }] := by
  rw [Sched.addTask] at h
  split at h
  case isTrue hroom =>
    obtain rfl := Except.ok.inj h
    exact ⟨hroom, rfl⟩
  · cases h

/-- **What a call does**: a place was free, and the task is put there. -/
theorem step_ok (h : step I b s op = .ok t) : s.count_tsks_ < kNrTasks ∧
    ∃ tsk : Tcb, t.machine.sched.tsks =
      s.machine.sched.tsks ++ [{ tsk with pid := s.machine.sched.tsks.length }] := by
  obtain ⟨r, hr, h⟩ := Lib.bind_eq_ok.mp h
  obtain rfl := Except.ok.inj h
  cases op with
  | createTask load =>
    obtain ⟨machine, hm, hr⟩ := Lib.bind_eq_ok.mp hr
    obtain ⟨hyp, -, hr⟩ := Lib.bind_eq_ok.mp hr
    obtain rfl := Except.ok.inj hr
    obtain ⟨_, -, hm⟩ := Lib.bind_eq_ok.mp hm
    obtain ⟨_, -, hm⟩ := Lib.bind_eq_ok.mp hm
    obtain ⟨sched, hsched, hm⟩ := Lib.bind_eq_ok.mp hm
    obtain rfl := Except.ok.inj hm
    obtain ⟨hroom, htsks⟩ := addTask_ok hsched
    exact ⟨hroom, _, htsks⟩
  | addTask tsk =>
    obtain ⟨sched, hsched, hr⟩ := Lib.bind_eq_ok.mp hr
    obtain rfl := Except.ok.inj hr
    obtain ⟨hroom, htsks⟩ := addTask_ok hsched
    exact ⟨hroom, tsk, htsks⟩

/-- **A call on a full table** does not come back. -/
theorem not_rejected (h : ¬Room s op) : ¬Rejected I b s op := by
  rintro ⟨pid, t, hcall, -⟩
  have hstep : step I b s op = .ok t := by
    rw [step, hcall]
    rfl
  exact h (step_ok hstep).1

/-- Registering a task where a place is free. -/
theorem addTask_of_room {sched : Sched} (hroom : sched.tsks.length < kNrTasks) (tsk : Tcb) :
    ∃ sched', sched.addTask tsk = .ok sched' :=
  ⟨_, if_pos hroom⟩

/-- **A call fails only by stopping**, where a place is free. -/
theorem step_error (hlen : s.hyp.tsks.length = s.count_tsks_) (hroom : Room s op)
    (h : step I b s op = .error f) : f.IsPanic := by
  rcases Lib.bind_eq_error.mp h with h | ⟨_, -, h⟩
  · cases op with
    | createTask load =>
      rcases Lib.bind_eq_error.mp h with h | ⟨machine, hm, h⟩
      · -- neither the pages nor the board run out of bounds, and there is a place
        rcases Lib.bind_eq_error.mp h with h | ⟨_, -, h⟩
        · exact (Mm.zalloc_error h).isPanic
        rcases Lib.bind_eq_error.mp h with h | ⟨_, -, h⟩
        · exact boardInit_error h
        rcases Lib.bind_eq_error.mp h with h | ⟨_, -, h⟩
        · obtain ⟨sched', hsched⟩ := addTask_of_room hroom _
          cases hsched.symm.trans h
        · cases h
      · rcases Lib.bind_eq_error.mp h with h | ⟨_, -, h⟩
        · have hroom' : s.hyp.tsks.length < kNrTasks := hlen ▸ hroom
          rw [Hyp.createTask] at h
          cases (if_pos hroom').symm.trans h
        · cases h
    | addTask tsk =>
      rcases Lib.bind_eq_error.mp h with h | ⟨_, -, h⟩
      · obtain ⟨sched', hsched⟩ := addTask_of_room hroom tsk
        cases hsched.symm.trans h
      · cases h
  · cases h

/-! ### Runs of calls -/

/-- What every call keeps. -/
structure Inv (s : Kernel) : Prop where
  table : TableOk s
  /-- The two tables go together. -/
  length : s.hyp.tsks.length = s.count_tsks_

theorem inv_boot (cpu : Cpu) : Inv (boot I cpu) := by
  have hone : 1 ≤ kNrTasks := by decide
  refine ⟨⟨hone, fun i tsk h => ?_⟩, rfl⟩
  obtain ⟨hi, rfl⟩ := List.getElem?_eq_some_iff.mp h
  obtain rfl : i = 0 := Nat.lt_one_iff.mp hi
  rfl

/-- The table that a call leaves is as long for the boards as for the scheduler. -/
theorem step_length (hlen : s.hyp.tsks.length = s.count_tsks_) (h : step I b s op = .ok t) :
    t.hyp.tsks.length = t.count_tsks_ := by
  obtain ⟨-, tsk, htsks⟩ := step_ok h
  rw [Kernel.count_tsks_, htsks, List.length_append, List.length_singleton]
  rw [Kernel.count_tsks_] at hlen
  obtain ⟨r, hr, h⟩ := Lib.bind_eq_ok.mp h
  obtain rfl := Except.ok.inj h
  cases op with
  | createTask load =>
    obtain ⟨machine, -, hr⟩ := Lib.bind_eq_ok.mp hr
    obtain ⟨hyp, hh, hr⟩ := Lib.bind_eq_ok.mp hr
    obtain rfl := Except.ok.inj hr
    rw [Hyp.createTask] at hh
    split at hh
    · obtain rfl := Except.ok.inj hh
      rw [List.length_append, List.length_singleton]
      exact congrArg (· + 1) hlen
    · cases hh
  | addTask tsk' =>
    obtain ⟨sched, -, hr⟩ := Lib.bind_eq_ok.mp hr
    obtain rfl := Except.ok.inj hr
    rw [List.length_append, List.length_singleton, hlen]

/-- **A call keeps the table right.** -/
theorem Inv.step (h : Inv s) (hs : step I b s op = .ok t) : Inv t := by
  obtain ⟨hroom, tsk, htsks⟩ := step_ok hs
  refine ⟨⟨?_, fun i tsk' hi => ?_⟩, step_length h.length hs⟩
  · rw [Kernel.count_tsks_, htsks, List.length_append, List.length_singleton]
    exact hroom
  · rw [htsks, List.getElem?_append] at hi
    split at hi
    · exact h.table.pid i tsk' hi
    · -- the task that has been added
      obtain ⟨hlt, rfl⟩ := List.getElem?_eq_some_iff.mp hi
      rw [List.length_singleton] at hlt
      rw [List.getElem_singleton]
      exact congrArg Nat.cast (by omega)

/-- **The table never overflows exactly when every call is made while a place is free.** For
every image and board, in every run of calls from `Sched::Init`. -/
theorem task_table_iff (I : Image L) (b : BoardKind) (cpu : Cpu) (ops : List Op) :
    Safe I b (boot I cpu) ops ↔ Lib.Each (step I b) Room (boot I cpu) ops := by
  constructor
  · intro h
    refine (Lib.each_congr (I := Inv) (L := fun _ _ => True)
      (fun s op t hs _ _ ht => hs.step ht) (fun s op hs _ => ⟨fun hfull => ?_, fun hroom hfull =>
        absurd hfull (Nat.ne_of_lt hroom)⟩) (inv_boot cpu) (h.full.mono fun _ _ _ => trivial)).mp
      h.full
    by_contra hroom
    exact not_rejected hroom (hfull (le_antisymm hs.table.count_le (not_lt.mp hroom)))
  · intro h
    refine ⟨(Lib.along_of_each (I := Inv) (C := Room) (fun s op t hs _ ht => Inv.step hs ht)
      (fun s op f hs hroom hf => step_error hs.length hroom hf) (inv_boot cpu) h).mono
      fun _ hs => hs.table, h.mono fun s op hroom hfull => absurd hfull (Nat.ne_of_lt hroom)⟩

/-- The calls of a run are counted. -/
theorem count_run {ops : List Op} (h : Lib.runFrom (step I b) s ops = .ok t) :
    t.count_tsks_ = s.count_tsks_ + ops.length := by
  induction ops generalizing s with
  | nil =>
    obtain rfl := Except.ok.inj h
    rfl
  | cons op ops ih =>
    rw [Lib.runFrom] at h
    cases hst : step I b s op with
    | error f =>
      rw [hst] at h
      cases h
    | ok u =>
      rw [hst] at h
      obtain ⟨-, tsk, htsks⟩ := step_ok hst
      have hcount : u.count_tsks_ = s.count_tsks_ + 1 := by
        rw [Kernel.count_tsks_, htsks, List.length_append]
        rfl
      rw [ih h, hcount, List.length_cons]
      omega

/-- **Seven calls** find a place, and a run that gets so far has none for the eighth. -/
theorem room_iff_length {cpu : Cpu} {ops : List Op} {op : Op}
    (h : Lib.runFrom (step I b) (boot I cpu) ops = .ok t) :
    Room t op ↔ ops.length < 7 := by
  have hboot : (boot I cpu).count_tsks_ = 1 := rfl
  rw [Room, count_run h, hboot, kNrTasks]
  omega

/-- The fault a call stops with. -/
def faultOf (I : Image L) (b : BoardKind) (s : Kernel) (op : Op) : Option Fault :=
  match call I b s op with
  | .ok _ => none
  | .error f => some f

/-- **The eighth task**: `AddTask` stores it behind the table. -/
theorem eighth_task : ∃ s, Lib.runFrom (step .qemu .qemu) (boot .qemu .zero)
      (List.replicate 7 (.createTask .onePage)) = .ok s ∧
    (s.count_tsks_ = kNrTasks ∧ faultOf .qemu .qemu s (.createTask .onePage) = some .outOfBounds) ∧
    ¬Safe .qemu .qemu (boot .qemu .zero) (List.replicate 8 (.createTask .onePage)) := by
  obtain ⟨s, hs, hcount, hfault⟩ := Lib.exists_ok_of_any
    (P := fun s : Kernel => s.count_tsks_ = kNrTasks ∧
      faultOf .qemu .qemu s (.createTask .onePage) = some .outOfBounds)
    (x := Lib.runFrom (step .qemu .qemu) (boot .qemu .zero)
      (List.replicate 7 (.createTask .onePage))) (by decide +kernel)
  refine ⟨s, hs, ⟨hcount, hfault⟩, fun h => ?_⟩
  have hfull := h.full
  rw [List.replicate_succ'] at hfull
  exact not_rejected (fun hroom => Nat.ne_of_lt hroom hcount) (hfull.last hs hcount)

end TaskTable

end Evisor
