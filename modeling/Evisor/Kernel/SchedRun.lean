import Mathlib.Data.List.Basic
import Evisor.Kernel.Sched
import Evisor.Lib.Run

/-!
# Which task runs next

The scheduler over whole runs: it is initialised, tasks are created, the running
task yields or is ticked, tasks exit, in any order. What is kept is that counters
are never negative and never more than twice the priority
(`Evisor.Scheduling.TaskOk`), and both things asked of a selection rest on it: that
it is made after at most one refill, and that it falls on a task that is `RUNNING`
with the largest counter there is (`Evisor.Scheduling.Fair`).

The running maximum of the selection loop is an `int`, so that the counters
compared have to be below `2 ^ 31`. For a `RUNNING` task that is a bound on its
priority, since a refill only ever finds the counter of such a task at zero
(`Evisor.Scheduling.TaskOk.running_le`).
-/

namespace Evisor

namespace Scheduling

/-- The largest `int`. -/
def INT_MAX : ℤ := 2 ^ 31 - 1

/-- The task `Sched::CreateTask` registers, with the given priority. -/
def newTask (priority : ℤ) : Tcb :=
  { Tcb.zero with name := "New vCPU", state := .RUNNING, priority, counter := priority }

/-- A call of the scheduler. -/
inductive Op where
  /-- `Sched::CreateTask`. -/
  | create (priority : ℤ)
  /-- `Sched::Schedule`. -/
  | schedule
  /-- `Sched::SchedTimerHandler`. -/
  | timer
  /-- `Sched::ExitTask`, of the task with this index. -/
  | exit (i : ℕ)

/-- One call, with the passes the selection loop may make. -/
def step (fuel : ℕ) (s : Sched) : Op → Except Fault Sched
  | .create priority => s.addTask (newTask priority)
  | .schedule => s.schedule fuel
  | .timer => s.schedTimerHandler fuel
  | .exit i => s.exitTask fuel i

/-- The calls that may be made: at most seven tasks are created, with a priority
that is positive and at most `bound`, and a task that exits has been registered. -/
def Legal (bound : ℤ) (s : Sched) : Op → Prop
  | .create priority => s.tsks.length < kNrTasks ∧ 0 < priority ∧ priority ≤ bound
  | .schedule => True
  | .timer => True
  | .exit i => i < s.tsks.length

instance (bound : ℤ) (s : Sched) : ∀ op, Decidable (Legal bound s op)
  | .create priority =>
    inferInstanceAs (Decidable (s.tsks.length < kNrTasks ∧ 0 < priority ∧ priority ≤ bound))
  | .schedule => .isTrue trivial
  | .timer => .isTrue trivial
  | .exit i => inferInstanceAs (Decidable (i < s.tsks.length))

/-- **What is asked of a selection**: there was at most one refill before it, made
when every `RUNNING` task had counter `0`; and if some task is `RUNNING`, then the
one selected is, and has the largest counter among them. -/
structure Fair (sel : Selection) : Prop where
  /-- The loop ends after at most two passes. -/
  passes : sel.refilled.length ≤ 1
  /-- Counters are refilled when they are used up. -/
  refill : ∀ tsks ∈ sel.refilled, ∀ t ∈ tsks, t.state = .RUNNING → t.counter = 0
  /-- A `RUNNING` task with the largest counter is selected. -/
  largest : (∃ t ∈ sel.tsks, t.state = .RUNNING) → ∃ n, sel.tsks[sel.next]? = some n ∧
    n.state = .RUNNING ∧ ∀ t ∈ sel.tsks, t.state = .RUNNING → t.counter ≤ n.counter

/-- **The scheduler is right**: a registered task runs, counters stay between `0`
and twice the priority, and the task running after a selection is the one a fair
selection chose. -/
structure Good (s : Sched) : Prop where
  /-- `cur_tsk_` is one of the registered tasks. -/
  registered : s.cur < s.tsks.length
  /-- The counters are bounded. -/
  counter : ∀ t ∈ s.tsks, 0 ≤ t.counter ∧ t.counter ≤ 2 * t.priority
  /-- The last selection made. -/
  selection : ∀ sel, s.last = some sel → Fair sel ∧ s.tsks = sel.tsks ∧ s.cur = sel.next

/-! ### The selection loop -/

/-- What a task keeps through every call. -/
structure TaskOk (t : Tcb) : Prop where
  priority_pos : 0 < t.priority
  priority_le : t.priority ≤ INT_MAX
  nonneg : 0 ≤ t.counter
  le_two : t.counter ≤ 2 * t.priority
  /-- A task that is `RUNNING` has not been refilled on top of a counter. -/
  running_le : t.state = .RUNNING → t.counter ≤ t.priority

/-- An `int` holds what is between `0` and its largest value. -/
theorem toInt_of_le {x : ℤ} (h0 : 0 ≤ x) (h : x ≤ INT_MAX) : toInt x = x := by
  refine Int.bmod_eq_of_le ?_ ?_
  · omega
  · have : x < 2 ^ 31 := Int.lt_of_le_sub_one h
    omega

theorem TaskOk.toInt_counter {t : Tcb} (h : TaskOk t) (hr : t.state = .RUNNING) :
    toInt t.counter = t.counter :=
  toInt_of_le h.nonneg ((h.running_le hr).trans h.priority_le)

/-- **The selection loop** either meets no `RUNNING` task with a counter above the
largest one seen, or ends at one none of them exceeds. -/
theorem selectNext_spec {tsks : List Tcb} (hok : ∀ t ∈ tsks, TaskOk t) (i next : ℕ) (c : ℤ) :
    (selectNext tsks i c next = (c, next) ∧ ∀ t ∈ tsks, t.state = .RUNNING → t.counter ≤ c) ∨
    ∃ j n, tsks[j]? = some n ∧ n.state = .RUNNING ∧ c < n.counter ∧
      selectNext tsks i c next = (n.counter, i + j) ∧
      ∀ t ∈ tsks, t.state = .RUNNING → t.counter ≤ n.counter := by
  induction tsks generalizing i next c with
  | nil => exact .inl ⟨rfl, by simp⟩
  | cons t rest ih =>
    obtain ⟨ht, hrest⟩ := List.forall_mem_cons.mp hok
    rw [selectNext]
    split_ifs with hbest
    · -- the task at hand is the largest so far
      rw [ht.toInt_counter hbest.1]
      rcases ih hrest (i + 1) i t.counter with
        ⟨heq, hle⟩ | ⟨j, n, hj, hn, hlt, heq, hle⟩
      · exact .inr ⟨0, t, rfl, hbest.1, hbest.2, heq,
          List.forall_mem_cons.mpr ⟨fun _ => le_rfl, hle⟩⟩
      · refine .inr ⟨j + 1, n, hj, hn, hbest.2.trans hlt, ?_,
          List.forall_mem_cons.mpr ⟨fun _ => hlt.le, hle⟩⟩
        rw [heq, show i + 1 + j = i + (j + 1) by omega]
    · have hle_t : t.state = .RUNNING → t.counter ≤ c := fun hr =>
        not_lt.mp fun hlt => hbest ⟨hr, hlt⟩
      rcases ih hrest (i + 1) next c with
        ⟨heq, hle⟩ | ⟨j, n, hj, hn, hlt, heq, hle⟩
      · exact .inl ⟨heq, List.forall_mem_cons.mpr ⟨hle_t, hle⟩⟩
      · refine .inr ⟨j + 1, n, hj, hn, hlt, ?_,
          List.forall_mem_cons.mpr ⟨fun hr => (hle_t hr).trans hlt.le, hle⟩⟩
        rw [heq, show i + 1 + j = i + (j + 1) by omega]

/-- A refill keeps a task's bounds, when a `RUNNING` one is refilled at zero. -/
theorem TaskOk.refill {t : Tcb} (h : TaskOk t) (h0 : t.state = .RUNNING → t.counter = 0) :
    TaskOk t.refill where
  priority_pos := h.priority_pos
  priority_le := h.priority_le
  nonneg := by
    have := h.nonneg
    have := h.priority_pos
    simp only [Tcb.refill, Int.shiftRight_eq_div_pow]
    omega
  le_two := by
    have := h.le_two
    simp only [Tcb.refill, Int.shiftRight_eq_div_pow]
    omega
  running_le hr := by
    simp only [Tcb.refill, Int.shiftRight_eq_div_pow, h0 hr]
    omega

/-- A task refilled at zero starts from its priority. -/
theorem refill_counter {t : Tcb} (h0 : t.counter = 0) : t.refill.counter = t.priority := by
  simp only [Tcb.refill, Int.shiftRight_eq_div_pow, h0]
  omega

/-- One pass. -/
theorem scheduleLoop_succ (fuel : ℕ) (tsks : List Tcb) :
    scheduleLoop (fuel + 1) tsks =
      if (selectNext tsks 0 (-1) 0).1 ≠ 0 then .ok ⟨(selectNext tsks 0 (-1) 0).2, tsks, []⟩
      else scheduleLoop fuel (tsks.map Tcb.refill) >>= fun sel =>
        pure { sel with refilled := tsks :: sel.refilled } :=
  rfl

/-- A pass that finds a counter that is not zero, or no `RUNNING` task at all, is
the last. -/
theorem scheduleLoop_of_ne (fuel : ℕ) {tsks : List Tcb} (hok : ∀ t ∈ tsks, TaskOk t)
    (hne : (selectNext tsks 0 (-1) 0).1 ≠ 0) :
    ∃ next, scheduleLoop (fuel + 1) tsks = .ok ⟨next, tsks, []⟩ ∧ Fair ⟨next, tsks, []⟩ ∧
      (0 < tsks.length → next < tsks.length) := by
  refine ⟨(selectNext tsks 0 (-1) 0).2, by rw [scheduleLoop_succ, if_pos hne], ?_, ?_⟩
  · refine ⟨Nat.zero_le _, by simp, ?_⟩
    rintro ⟨t, htm, ht⟩
    rcases selectNext_spec hok 0 0 (-1) with
      ⟨-, hle⟩ | ⟨j, n, hj, hn, -, heq, hle⟩
    · have := (hok t htm).nonneg
      have := hle t htm ht
      omega
    · exact ⟨n, by rw [heq, Nat.zero_add]; exact hj, hn, hle⟩
  · intro hlen
    rcases selectNext_spec hok 0 0 (-1) with
      ⟨heq, -⟩ | ⟨j, n, hj, -, -, heq, -⟩
    · rw [heq]; exact hlen
    · rw [heq, Nat.zero_add]
      exact (List.getElem?_eq_some_iff.mp hj).1

/-- **The loop ends after at most two passes**, at a fair selection, and leaves the
tasks within their bounds. -/
theorem scheduleLoop_spec {fuel : ℕ} (hfuel : 2 ≤ fuel) {tsks : List Tcb}
    (hok : ∀ t ∈ tsks, TaskOk t) (hlen : 0 < tsks.length) :
    ∃ sel, scheduleLoop fuel tsks = .ok sel ∧ Fair sel ∧ (∀ t ∈ sel.tsks, TaskOk t) ∧
      sel.next < sel.tsks.length ∧ sel.tsks.length = tsks.length := by
  obtain ⟨fuel, rfl⟩ := Nat.exists_eq_add_of_le' hfuel
  by_cases hne : (selectNext tsks 0 (-1) 0).1 ≠ 0
  · obtain ⟨next, heq, hfair, hnext⟩ := scheduleLoop_of_ne (fuel + 1) hok hne
    exact ⟨_, heq, hfair, hok, hnext hlen, rfl⟩
  -- the largest counter is zero, and some `RUNNING` task has it
  rcases selectNext_spec hok 0 0 (-1) with
    ⟨heq, -⟩ | ⟨j, n, hj, hn, -, heq, hle⟩
  · rw [heq] at hne; omega
  have hn0 : n.counter = 0 := by rw [heq] at hne; exact not_not.mp hne
  have hzero : ∀ t ∈ tsks, t.state = .RUNNING → t.counter = 0 := fun t htm ht =>
    le_antisymm (hn0 ▸ hle t htm ht) (hok t htm).nonneg
  have hok' : ∀ t ∈ tsks.map Tcb.refill, TaskOk t := by
    rw [List.forall_mem_map]
    exact fun t htm => (hok t htm).refill (hzero t htm)
  have hne' : (selectNext (tsks.map Tcb.refill) 0 (-1) 0).1 ≠ 0 := by
    rcases selectNext_spec hok' 0 0 (-1) with
      ⟨heq', -⟩ | ⟨j', n', hj', hn', -, heq', hle'⟩
    · rw [heq']; decide
    · have hnm : n ∈ tsks := List.mem_of_getElem? hj
      have hle_n : n.refill.counter ≤ n'.counter :=
        hle' n.refill (List.mem_map_of_mem hnm) hn
      have hpos : 0 < n.refill.counter := by
        rw [refill_counter hn0]; exact (hok n hnm).priority_pos
      rw [heq']
      exact (hpos.trans_le hle_n).ne'
  obtain ⟨next, hloop, hfair, hnext⟩ := scheduleLoop_of_ne fuel hok' hne'
  refine ⟨⟨next, tsks.map Tcb.refill, [tsks]⟩, ?_, ⟨le_rfl, ?_, hfair.largest⟩, hok', ?_, by simp⟩
  · rw [scheduleLoop_succ, if_neg hne, hloop]
    rfl
  · simpa using hzero
  · exact hnext (by simpa using hlen)

/-! ### The calls -/

/-- What every call keeps. -/
structure Inv (s : Sched) : Prop where
  registered : s.cur < s.tsks.length
  task_ok : ∀ t ∈ s.tsks, TaskOk t
  selection : ∀ sel, s.last = some sel → Fair sel ∧ s.tsks = sel.tsks ∧ s.cur = sel.next

theorem Inv.good {s : Sched} (h : Inv s) : Good s where
  registered := h.registered
  counter t ht := ⟨(h.task_ok t ht).nonneg, (h.task_ok t ht).le_two⟩
  selection := h.selection

theorem inv_init : Inv Sched.init where
  registered := by decide
  task_ok := by
    rintro t ht
    obtain rfl := List.mem_singleton.mp ht
    exact ⟨by decide, by decide, by decide, by decide, fun _ => by decide⟩
  selection := by rintro sel ⟨⟩

/-- A selection brings about the invariant, whatever ran before. -/
theorem scheduleInternal_spec {fuel : ℕ} (hfuel : 2 ≤ fuel) {s : Sched}
    (hok : ∀ t ∈ s.tsks, TaskOk t) (hlen : 0 < s.tsks.length) :
    ∃ t, s.scheduleInternal fuel = .ok t ∧ Inv t := by
  obtain ⟨sel, heq, hfair, hok', hnext, -⟩ := scheduleLoop_spec hfuel hok hlen
  refine ⟨⟨sel.tsks, sel.next, some sel⟩, ?_, hnext, hok', ?_⟩
  · rw [Sched.scheduleInternal, heq]
    rfl
  · rintro _ ⟨⟩
    exact ⟨hfair, rfl, rfl⟩

/-- A change to one entry of a table keeps what every entry has, if the change does. -/
theorem forall_mem_modify {α : Type*} {p : α → Prop} {f : α → α} {l : List α} {i : ℕ}
    (h : ∀ a ∈ l, p a) (hf : ∀ a, l[i]? = some a → p a → p (f a)) : ∀ a ∈ l.modify i f, p a := by
  intro a ha
  obtain ⟨j, hj⟩ := List.mem_iff_getElem?.mp ha
  rw [List.getElem?_modify] at hj
  obtain ⟨b, hb, rfl⟩ := Option.map_eq_some_iff.mp hj
  have hpb : p b := h b (List.mem_of_getElem? hb)
  split_ifs with hij
  · exact hf b (hij ▸ hb) hpb
  · exact hpb

theorem TaskOk.clear {t : Tcb} (h : TaskOk t) : TaskOk { t with counter := 0 } :=
  ⟨h.priority_pos, h.priority_le, le_rfl, by have := h.priority_pos; dsimp only; omega,
    fun _ => h.priority_pos.le⟩

theorem TaskOk.tick {t : Tcb} (h : TaskOk t) (hpos : 0 < t.counter - 1) :
    TaskOk { t with counter := t.counter - 1 } :=
  ⟨h.priority_pos, h.priority_le, hpos.le, by have := h.le_two; dsimp only; omega,
    fun hr => by have := h.running_le hr; dsimp only; omega⟩

theorem TaskOk.zombie {t : Tcb} (h : TaskOk t) : TaskOk { t with state := .ZOMBIE } :=
  ⟨h.priority_pos, h.priority_le, h.nonneg, h.le_two, fun hs => by cases hs⟩

theorem newTask_ok {priority : ℤ} (hpos : 0 < priority) (hle : priority ≤ INT_MAX) :
    TaskOk (newTask priority) :=
  ⟨hpos, hle, hpos.le, by dsimp only [newTask]; omega, fun _ => le_rfl⟩

/-- Yielding selects. -/
theorem schedule_spec {fuel : ℕ} (hfuel : 2 ≤ fuel) {s : Sched}
    (hok : ∀ t ∈ s.tsks, TaskOk t) (hlen : 0 < s.tsks.length) :
    ∃ t, s.schedule fuel = .ok t ∧ Inv t :=
  scheduleInternal_spec hfuel (forall_mem_modify hok fun _ _ h => h.clear)
    (by simpa [Sched.modifyCurrent] using hlen)

/-- A tick takes one off the counter of the running task, or selects. -/
theorem schedTimerHandler_spec {fuel : ℕ} (hfuel : 2 ≤ fuel) {s : Sched} (h : Inv s) :
    ∃ t, s.schedTimerHandler fuel = .ok t ∧ Inv t := by
  have hlen : 0 < s.tsks.length := Nat.zero_lt_of_lt h.registered
  obtain ⟨cur, hcur⟩ : ∃ cur, s.tsks[s.cur]? = some cur :=
    ⟨_, List.getElem?_eq_getElem h.registered⟩
  rw [Sched.schedTimerHandler, hcur]
  dsimp only
  split_ifs with hpos
  · refine ⟨_, rfl, by simpa [Sched.modifyCurrent] using h.registered, ?_, by rintro _ ⟨⟩⟩
    refine forall_mem_modify h.task_ok fun t ht hok => hok.tick ?_
    obtain rfl : cur = t := Option.some.inj (hcur.symm.trans ht)
    exact hpos
  · exact scheduleInternal_spec hfuel (forall_mem_modify h.task_ok fun _ _ h => h.clear)
      (by simpa [Sched.modifyCurrent] using hlen)

/-- Registering a task. -/
theorem Inv.addTask {s t : Sched} (h : Inv s) {tsk : Tcb} (hok : TaskOk tsk)
    (hadd : s.addTask tsk = .ok t) :
    Inv t ∧ t.tsks.length = s.tsks.length + 1 ∧ t.cur = s.cur := by
  rw [Sched.addTask] at hadd
  split at hadd
  · obtain rfl := Except.ok.inj hadd
    have hlen : (s.tsks ++ [{ tsk with pid := s.tsks.length }]).length = s.tsks.length + 1 :=
      List.length_append
    refine ⟨⟨?_, ?_, nofun⟩, hlen, rfl⟩
    · exact hlen ▸ Nat.lt_succ_of_lt h.registered
    · rw [List.forall_mem_append]
      refine ⟨h.task_ok, fun t ht => ?_⟩
      obtain rfl := List.mem_singleton.mp ht
      exact ⟨hok.priority_pos, hok.priority_le, hok.nonneg, hok.le_two, hok.running_le⟩
  · cases hadd

/-- **One call keeps the invariant**, and none of them faults or fails to end. -/
theorem Inv.step {fuel : ℕ} (hfuel : 2 ≤ fuel) {s : Sched} (h : Inv s) {op : Op}
    (hop : Legal INT_MAX s op) : ∃ t, step fuel s op = .ok t ∧ Inv t := by
  have hlen : 0 < s.tsks.length := Nat.zero_lt_of_lt h.registered
  cases op with
  | create priority =>
    obtain ⟨hroom, hpos, hle⟩ := hop
    obtain ⟨t, ht⟩ : ∃ t, s.addTask (newTask priority) = .ok t :=
      ⟨_, by rw [Sched.addTask, if_pos hroom]⟩
    exact ⟨t, ht, (h.addTask (newTask_ok hpos hle) ht).1⟩
  | schedule => exact schedule_spec hfuel h.task_ok hlen
  | timer => exact schedTimerHandler_spec hfuel h
  | exit i =>
    exact schedule_spec hfuel (forall_mem_modify h.task_ok fun _ _ h => h.zombie)
      (by simpa using hlen)

/-- **The scheduler invariant**, for priorities an `int` can hold: along every run
of the scheduler from its initialisation, a registered task runs, counters stay
between `0` and twice the priority, every selection is made after at most one
refill – which finds all `RUNNING` tasks at zero – and falls on a `RUNNING` task
with the largest counter as long as there is one. -/
theorem scheduler_good {fuel : ℕ} (hfuel : 2 ≤ fuel) {ops : List Op}
    (hlegal : Lib.Each (step fuel) (Legal INT_MAX) Sched.init ops) :
    Lib.Along (step fuel) Good (fun _ => False) Sched.init ops := by
  refine Lib.Along.mono (fun _ h => h.good) (Lib.along_of_each (I := Inv) ?_ ?_ inv_init hlegal)
  · intro s op t h hop ht
    obtain ⟨u, hu, hinv⟩ := h.step hfuel hop
    rwa [Except.ok.inj (ht.symm.trans hu)]
  · intro s op f h hop hf
    obtain ⟨u, hu, -⟩ := h.step hfuel hop
    cases hf.symm.trans hu

/-- A run in which a task of each of two priorities is created, ticked and exits. -/
theorem scheduler_good_two_tasks :
    Lib.Each (step 2) (Legal INT_MAX) Sched.init
      [.create 1, .create 2, .schedule, .timer, .timer, .exit 2, .timer] ∧
    Lib.Along (step 2) Good (fun _ => False) Sched.init
      [.create 1, .create 2, .schedule, .timer, .timer, .exit 2, .timer] := by
  have hlegal : Lib.Each (step 2) (Legal INT_MAX) Sched.init
      [.create 1, .create 2, .schedule, .timer, .timer, .exit 2, .timer] := by decide
  exact ⟨hlegal, scheduler_good le_rfl hlegal⟩

/-- **A priority no `int` holds**: of two tasks with priorities `2 ^ 31` and `1`, the
second is selected, although the counter of the first is larger. -/
theorem scheduler_wide_priority :
    Lib.Each (step 2) (Legal (2 ^ 63 - 1)) Sched.init [.create (2 ^ 31), .create 1, .schedule] ∧
    ¬Lib.Along (step 2) Good (fun _ => False) Sched.init
      [.create (2 ^ 31), .create 1, .schedule] := by
  refine ⟨by decide, fun hgood => ?_⟩
  obtain ⟨hfair, -, -⟩ := (hgood.last rfl).selection _ rfl
  obtain ⟨n, hn, -, hle⟩ := hfair.largest ⟨{ kInitTask with counter := 0 }, .head _, rfl⟩
  obtain rfl := Option.some.inj hn
  exact absurd (hle _ (.tail _ (.head _)) rfl) (by decide)

end Scheduling

end Evisor
