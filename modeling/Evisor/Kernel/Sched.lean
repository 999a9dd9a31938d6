import Evisor.Kernel.Task

/-!
# The scheduler

`kernel/sched/sched_core.cc`. Every task has a counter; the timer takes one off the
counter of the running task, and when it reaches zero – or when the task gives up
the processor, which clears it – the task with the largest counter runs next. When
the largest counter is zero, all counters are refilled from the priorities and the
selection is made again.

`Evisor.scheduleLoop` is that `while (true)`, with the passes it may still make. It
keeps the tables at which it refilled, so that what a refill was made on can be
spoken of afterwards. The running maximum is an `int` while the counters are
`long`: `Evisor.toInt` is that conversion, and the one thing in the way of a
scheduler that works for all priorities.

A task is suspended inside the call that switched away from it, but nothing of the
scheduler's state is touched after the switch, so that each call is one step here.
-/

namespace Evisor

/-- The conversion of a `long` to an `int`. -/
def toInt (x : ℤ) : ℤ := Int.bmod x (2 ^ 32)

/-- `kNrTasks`. -/
def kNrTasks : ℕ := 8

/-- What `ScheduleInternal` settles. -/
structure Selection where
  /-- The index of the task to switch to. -/
  next : ℕ
  /-- The table it was chosen from. -/
  tsks : List Tcb
  /-- The tables at which the counters were refilled. -/
  refilled : List (List Tcb)

/-- The part of `Sched` the scheduling is about: `tsks_` and `count_tsks_` are a
list, `cur_tsk_` an index into it. -/
structure Sched where
  /-- The registered tasks. -/
  tsks : List Tcb
  /-- The running one. -/
  cur : ℕ
  /-- The selection the last call made, if it made one. -/
  last : Option Selection

/-- `Sched::Init`. -/
def Sched.init : Sched := ⟨[kInitTask], 0, none⟩

/-- The selection loop of `ScheduleInternal`, from task `i` on, with the largest
counter `c` seen so far and the task `next` that has it. -/
def selectNext : List Tcb → ℕ → ℤ → ℕ → ℤ × ℕ
  | [], _, c, next => (c, next)
  | task :: rest, i, c, next =>
    if task.state = .RUNNING ∧ task.counter > c then
      selectNext rest (i + 1) (toInt task.counter) i
    else selectNext rest (i + 1) c next

/-- The refill of one task. -/
def Tcb.refill (task : Tcb) : Tcb :=
  { task with counter := (task.counter >>> (1 : ℕ)) + task.priority }

/-- The `while (true)` of `ScheduleInternal`, with the passes left. -/
def scheduleLoop : ℕ → List Tcb → Except Fault Selection
  | 0, _ => .error .outOfFuel
  | fuel + 1, tsks =>
    let (c, next) := selectNext tsks 0 (-1) 0
    if c ≠ 0 then .ok ⟨next, tsks, []⟩
    else do
      let sel ← scheduleLoop fuel (tsks.map Tcb.refill)
      return { sel with refilled := tsks :: sel.refilled }

/-- `Sched::ScheduleInternal`, and the switch at its end. -/
def Sched.scheduleInternal (fuel : ℕ) (s : Sched) : Except Fault Sched := do
  let sel ← scheduleLoop fuel s.tsks
  return ⟨sel.tsks, sel.next, some sel⟩

/-- Writing a field of the running task. -/
def Sched.modifyCurrent (s : Sched) (f : Tcb → Tcb) : Sched :=
  { s with tsks := s.tsks.modify s.cur f }

/-- `Sched::Schedule`. -/
def Sched.schedule (fuel : ℕ) (s : Sched) : Except Fault Sched :=
  (s.modifyCurrent fun t => { t with counter := 0 }).scheduleInternal fuel

/-- `Sched::AddTask`. The table is an array of `kNrTasks` pointers. -/
def Sched.addTask (s : Sched) (tsk : Tcb) : Except Fault Sched :=
  if s.tsks.length < kNrTasks then
    .ok { s with tsks := s.tsks ++ [{ tsk with pid := s.tsks.length }], last := none }
  else .error .outOfBounds

/-- `Sched::ExitTask`, of the task registered at `i` if there is one there. -/
def Sched.exitTask (fuel : ℕ) (s : Sched) (i : ℕ) : Except Fault Sched :=
  { s with tsks := s.tsks.modify i fun t => { t with state := .ZOMBIE } }.schedule fuel

/-- `Sched::SchedTimerHandler`. -/
def Sched.schedTimerHandler (fuel : ℕ) (s : Sched) : Except Fault Sched :=
  match s.tsks[s.cur]? with
  | none => .error .nullDeref
  | some cur =>
    if cur.counter - 1 > 0 then
      .ok { s.modifyCurrent fun t => { t with counter := t.counter - 1 } with last := none }
    else (s.modifyCurrent fun t => { t with counter := 0 }).scheduleInternal fuel

/-! ### The table of tasks -/

/-- The selection is a task of the table. -/
theorem selectNext_lt {tsks : List Tcb} (i next : ℕ) (c : ℤ) (hnext : next < i + tsks.length) :
    (selectNext tsks i c next).2 < i + tsks.length := by
  induction tsks generalizing i next c with
  | nil => exact hnext
  | cons task rest ih =>
    rw [List.length_cons] at hnext ⊢
    rw [selectNext]
    split
    · have := ih (i + 1) i (toInt task.counter) (by omega)
      omega
    · have := ih (i + 1) next c (by omega)
      omega

/-- The selection keeps the tasks there are. -/
theorem scheduleLoop_length {fuel : ℕ} {tsks : List Tcb} {sel : Selection}
    (h : scheduleLoop fuel tsks = .ok sel) (hne : tsks ≠ []) :
    sel.tsks.length = tsks.length ∧ sel.next < tsks.length := by
  induction fuel generalizing tsks sel with
  | zero => cases h
  | succ fuel ih =>
    rw [scheduleLoop] at h
    dsimp only at h
    split at h
    · obtain rfl := Except.ok.inj h
      have := @selectNext_lt tsks 0 0 (-1) (by
        rw [Nat.zero_add]
        exact List.length_pos_iff.mpr hne)
      exact ⟨rfl, by rwa [Nat.zero_add] at this⟩
    · obtain ⟨sel', hsel, h⟩ := Lib.bind_eq_ok.mp h
      obtain rfl := Except.ok.inj h
      have := ih hsel (by simpa using hne)
      rwa [List.length_map] at this

/-- **The scheduler keeps the tasks there are**, and switches to one of them. -/
theorem Sched.schedule_length {fuel : ℕ} {s s' : Sched} (h : s.schedule fuel = .ok s')
    (hcur : s.cur < s.tsks.length) :
    s'.tsks.length = s.tsks.length ∧ s'.cur < s.tsks.length := by
  obtain ⟨sel, hsel, h⟩ := Lib.bind_eq_ok.mp h
  obtain rfl := Except.ok.inj h
  have := scheduleLoop_length hsel (List.length_pos_iff.mp (by
    rw [Sched.modifyCurrent, List.length_modify]
    omega))
  rwa [Sched.modifyCurrent, List.length_modify] at this

theorem Sched.schedTimerHandler_length {fuel : ℕ} {s s' : Sched}
    (h : s.schedTimerHandler fuel = .ok s') (hcur : s.cur < s.tsks.length) :
    s'.tsks.length = s.tsks.length ∧ s'.cur < s.tsks.length := by
  rw [Sched.schedTimerHandler] at h
  split at h
  · cases h
  · split at h
    · obtain rfl := Except.ok.inj h
      exact ⟨List.length_modify .., hcur⟩
    · exact @Sched.schedule_length fuel s s' h hcur

end Evisor
