import Mathlib.Algebra.BigOperators.Group.Finset.Piecewise
import Mathlib.Algebra.BigOperators.Ring.Finset
import Mathlib.Algebra.Order.BigOperators.Group.Finset
import Evisor.Kernel.SchedRun
import Evisor.Lib.Potential

/-!
# What each task gets

Over whole runs of the scheduler, with tasks created, yielding and exiting at any time: no task
waits for longer than twice the priorities of the others together
(`Evisor.Scheduling.no_starvation`), and between two refills no task gets more than its priority,
nor less if it does not yield (`Evisor.Scheduling.proportional_share`).

Both come from an account of the counters (`Evisor.Scheduling.accounted`): what a call takes
from the counter of the running task is all that it takes, and what a refill adds is the priority,
since a refill finds the counter of every `RUNNING` task at zero.
-/

namespace Evisor

namespace Scheduling

/-! ### What is counted -/

/-- A call that creates no task: it is made by the running one, or by the timer. -/
def Op.isCall : Op → Bool
  | .create _ => false
  | _ => true

/-- The refills made by one call. -/
def refillsOf (fuel : ℕ) (s : Sched) (op : Op) : ℤ :=
  match step fuel s op with
  | .ok t => t.last.elim 0 fun sel => sel.refilled.length
  | .error _ => 0

/-- The refills of a run. -/
def refills (fuel : ℕ) (s : Sched) (ops : List Op) : ℤ :=
  Lib.total (step fuel) (refillsOf fuel) s ops

/-- Whether a call is a tick that finds the task running. -/
def tickOf (i : ℕ) (s : Sched) : Op → ℤ
  | .timer => if s.cur = i then 1 else 0
  | _ => 0

/-- The ticks that find a task running. -/
def ticks (fuel i : ℕ) (s : Sched) (ops : List Op) : ℤ :=
  Lib.total (step fuel) (tickOf i) s ops

/-- There is a task, and it is `RUNNING`. -/
def RunningAt (i : ℕ) (s : Sched) : Prop := ∃ a, s.tsks[i]? = some a ∧ a.state = .RUNNING

/-- A task does not give up the processor: as long as it runs, it is the timer that calls. -/
def Stays (i : ℕ) (s : Sched) (op : Op) : Prop := s.cur = i → op.isCall = true → op = .timer

/-- A task has none of what `f` asks for where there is no task. -/
def Sched.at (s : Sched) (f : Tcb → ℤ) (j : ℕ) : ℤ := s.tsks[j]?.elim 0 f

/-- The priorities of all tasks but one, together. -/
def others (s : Sched) (i : ℕ) : ℤ :=
  ∑ j ∈ Finset.range s.tsks.length, if j = i then 0 else Sched.at s Tcb.priority j

/-! ### The account of a call -/

/-- **What a call leaves of a counter**, before the next task is selected. -/
def left (s : Sched) (op : Op) (j : ℕ) (a : Tcb) : ℤ :=
  if j = s.cur then
    match op with
    | .create _ => a.counter
    | .timer => max (a.counter - 1) 0
    | .schedule | .exit _ => 0
  else a.counter

/-- The loop makes of the tasks what its refills make of them. -/
theorem scheduleLoop_tsks {fuel : ℕ} {tsks : List Tcb} {sel : Selection}
    (h : scheduleLoop fuel tsks = .ok sel) :
    (sel.refilled = [] ∧ sel.tsks = tsks ∨
      (∃ rest, sel.refilled = tsks :: rest) ∧
        (sel.refilled.length = 1 → sel.tsks = tsks.map Tcb.refill)) ∧
    selectNext sel.tsks 0 (-1) 0 = ((selectNext sel.tsks 0 (-1) 0).1, sel.next) ∧
    (selectNext sel.tsks 0 (-1) 0).1 ≠ 0 := by
  induction fuel generalizing tsks sel with
  | zero => cases h
  | succ fuel ih =>
    rw [scheduleLoop_succ] at h
    split at h
    case isTrue hne =>
      obtain rfl := Except.ok.inj h
      exact ⟨.inl ⟨rfl, rfl⟩, rfl, hne⟩
    · obtain ⟨sel', hsel, h⟩ := Lib.bind_eq_ok.mp h
      obtain rfl := Except.ok.inj h
      obtain ⟨hrefill, hlast⟩ := ih hsel
      refine ⟨.inr ⟨⟨_, rfl⟩, fun hlen => ?_⟩, hlast⟩
      rcases hrefill with ⟨-, htsks⟩ | ⟨⟨rest, hrest⟩, -⟩
      · exact htsks
      · rw [hrest] at hlen
        cases hlen

/-- **What a selection does**: there is no refill, or there is one, of tasks that are at zero
when they are `RUNNING`; and the task it falls on has something left, if any task is `RUNNING`. -/
structure Selected (tsks : List Tcb) (sel : Selection) (r : ℤ) : Prop where
  refilled : r = sel.refilled.length
  tsks_eq : r = 0 ∧ sel.tsks = tsks ∨
    r = 1 ∧ sel.tsks = tsks.map Tcb.refill ∧ ∀ t ∈ tsks, t.state = .RUNNING → t.counter = 0
  next_pos : (∃ t ∈ sel.tsks, t.state = .RUNNING) →
    ∃ n, sel.tsks[sel.next]? = some n ∧ n.state = .RUNNING ∧ 0 < n.counter

theorem selected_of_ok {fuel : ℕ} (hfuel : 2 ≤ fuel) {tsks : List Tcb} {sel : Selection}
    (hok : ∀ t ∈ tsks, TaskOk t) (hlen : 0 < tsks.length) (h : scheduleLoop fuel tsks = .ok sel) :
    Selected tsks sel sel.refilled.length := by
  obtain ⟨sel', hsel, hfair, hok', -, -⟩ := scheduleLoop_spec hfuel hok hlen
  obtain rfl := Except.ok.inj (h.symm.trans hsel)
  obtain ⟨hrefill, hnext, hne⟩ := scheduleLoop_tsks h
  refine ⟨rfl, ?_, fun hrun => ?_⟩
  · rcases hrefill with ⟨hnil, htsks⟩ | ⟨⟨rest, hrest⟩, hone⟩
    · exact .inl ⟨by rw [hnil]; rfl, htsks⟩
    · have hlen1 : sel.refilled.length = 1 := by
        have := hfair.passes
        rw [hrest, List.length_cons] at this ⊢
        omega
      refine .inr ⟨by rw [hlen1]; rfl, hone hlen1, hfair.refill tsks ?_⟩
      rw [hrest]
      exact .head _
  · rcases selectNext_spec hok' 0 0 (-1) with ⟨-, hle⟩ | ⟨j, n, hj, hn, hlt, heq, -⟩
    · obtain ⟨t, htm, ht⟩ := hrun
      have := hle t htm ht
      have := (hok' t htm).nonneg
      omega
    · rw [heq] at hnext hne
      have hj' : 0 + j = sel.next := congrArg Prod.snd hnext
      rw [← hj', Nat.zero_add]
      exact ⟨n, hj, hn, lt_of_le_of_ne (by omega) (Ne.symm hne)⟩

/-- What a selection makes of each task, and of the running one. -/
theorem scheduleInternal_task {fuel : ℕ} (hfuel : 2 ≤ fuel) {s t : Sched}
    (hok : ∀ a ∈ s.tsks, TaskOk a) (hlen : 0 < s.tsks.length)
    (h : s.scheduleInternal fuel = .ok t) {r : ℤ}
    (hr : r = t.last.elim 0 fun sel => (sel.refilled.length : ℤ)) :
    (∀ (j : ℕ) (a : Tcb), s.tsks[j]? = some a → ∃ a', t.tsks[j]? = some a' ∧
      a'.priority = a.priority ∧ a'.state = a.state ∧ (a.state = .RUNNING →
        a'.counter = a.counter + r * a.priority ∧ (r = 0 ∨ r = 1 ∧ a.counter = 0))) ∧
    t.tsks.length = s.tsks.length ∧
    ((∃ a ∈ t.tsks, a.state = .RUNNING) →
      ∃ n, t.tsks[t.cur]? = some n ∧ n.state = .RUNNING ∧ 0 < n.counter) := by
  obtain ⟨sel, hsel, h⟩ := Lib.bind_eq_ok.mp h
  obtain rfl := Except.ok.inj h
  obtain rfl : r = sel.refilled.length := hr
  have hs := selected_of_ok hfuel hok hlen hsel
  refine ⟨fun j a ha => ?_, ?_, hs.next_pos⟩
  · dsimp only
    rcases hs.tsks_eq with ⟨hr, htsks⟩ | ⟨hr, htsks, hzero⟩
    · rw [htsks, hr]
      exact ⟨a, ha, rfl, rfl, fun _ => ⟨by omega, .inl rfl⟩⟩
    · rw [htsks, hr, List.getElem?_map, ha]
      refine ⟨a.refill, rfl, rfl, rfl, fun hrun => ?_⟩
      have h0 := hzero a (List.mem_of_getElem? ha) hrun
      rw [refill_counter h0, h0]
      exact ⟨by omega, .inr ⟨rfl, rfl⟩⟩
  · dsimp only
    rcases hs.tsks_eq with ⟨-, htsks⟩ | ⟨-, htsks, -⟩
    · rw [htsks]
    · rw [htsks, List.length_map]

/-- **The tasks when a call has taken what it takes**, before the next one is selected. -/
def charged (s : Sched) : Op → Sched
  | .create _ => s
  | .schedule => s.modifyCurrent fun t => { t with counter := 0 }
  | .timer => s.modifyCurrent fun t => { t with counter := max (t.counter - 1) 0 }
  | .exit i => Sched.modifyCurrent
      { s with tsks := s.tsks.modify i fun t => { t with state := .ZOMBIE } }
      fun t => { t with counter := 0 }

theorem modifyCurrent_task (s : Sched) (f : Tcb → Tcb) {j : ℕ} {a : Tcb}
    (ha : s.tsks[j]? = some a) :
    (s.modifyCurrent f).tsks[j]? = some (if j = s.cur then f a else a) := by
  rw [Sched.modifyCurrent, List.getElem?_modify, ha]
  exact congrArg some (if_congr eq_comm rfl rfl)

/-- What has been taken of each task. -/
theorem charged_task (op : Op) {s : Sched} {j : ℕ} {a : Tcb} (ha : s.tsks[j]? = some a) :
    ∃ c, (charged s op).tsks[j]? = some c ∧ c.priority = a.priority ∧
      c.counter = left s op j a ∧ (c.state = .RUNNING → a.state = .RUNNING) ∧
      (a.state = .RUNNING → op ≠ .exit j → c.state = .RUNNING) := by
  cases op with
  | create priority => exact ⟨a, ha, rfl, (ite_self _).symm, id, fun h _ => h⟩
  | schedule =>
    refine ⟨_, modifyCurrent_task s _ ha, ?_⟩
    rw [left]
    split_ifs <;> exact ⟨rfl, rfl, id, fun h _ => h⟩
  | timer =>
    refine ⟨_, modifyCurrent_task s _ ha, ?_⟩
    rw [left]
    split_ifs <;> exact ⟨rfl, rfl, id, fun h _ => h⟩
  | exit i =>
    have hz : (s.tsks.modify i fun t => { t with state := .ZOMBIE })[j]? =
        some (if i = j then { a with state := .ZOMBIE } else a) := by
      rw [List.getElem?_modify, ha]
      rfl
    refine ⟨_, modifyCurrent_task { s with tsks := s.tsks.modify i _ } _ hz, ?_⟩
    rw [left]
    by_cases hij : i = j
    · subst hij
      rw [if_pos rfl]
      split_ifs <;> exact ⟨rfl, rfl, fun h => (by cases h), fun _ h => absurd rfl h⟩
    · rw [if_neg hij]
      split_ifs <;> exact ⟨rfl, rfl, id, fun h _ => h⟩

theorem charged_ok {s : Sched} (h : Inv s) {op : Op} (hop : op.isCall = true) :
    (∀ a ∈ (charged s op).tsks, TaskOk a) ∧ (charged s op).tsks.length = s.tsks.length ∧
      (charged s op).cur = s.cur := by
  cases op with
  | create priority => cases hop
  | schedule =>
    exact ⟨forall_mem_modify h.task_ok fun _ _ h => h.clear, List.length_modify .., rfl⟩
  | timer =>
    refine ⟨forall_mem_modify h.task_ok fun a _ h => ?_, List.length_modify .., rfl⟩
    rcases le_or_gt (a.counter - 1) 0 with hle | hlt
    · rw [max_eq_right hle]
      exact h.clear
    · rw [max_eq_left hlt.le]
      exact h.tick hlt
  | exit i =>
    refine ⟨forall_mem_modify (forall_mem_modify h.task_ok fun _ _ h => h.zombie)
      fun _ _ h => h.clear, ?_, rfl⟩
    exact (List.length_modify ..).trans (List.length_modify ..)

/-- Changes of the running task that agree on it are the same. -/
theorem modifyCurrent_congr {s : Sched} {f g : Tcb → Tcb}
    (h : ∀ a, s.tsks[s.cur]? = some a → f a = g a) : s.modifyCurrent f = s.modifyCurrent g := by
  rw [Sched.modifyCurrent, Sched.modifyCurrent]
  congr 1
  ext1 j
  rw [List.getElem?_modify, List.getElem?_modify]
  cases ha : s.tsks[j]? with
  | none => rfl
  | some a =>
    by_cases hj : s.cur = j
    · subst hj
      simp [h a ha]
    · simp [hj]

/-- **A call takes what it takes**, and then selects, unless it is a tick that leaves something. -/
theorem step_charged {fuel : ℕ} {s t : Sched} (h : Inv s) {op : Op} (hop : op.isCall = true)
    (hs : step fuel s op = .ok t) :
    (charged s op).scheduleInternal fuel = .ok t ∨
      op = .timer ∧ t = { charged s op with last := none } ∧
        ∀ a, t.tsks[t.cur]? = some a → 0 < a.counter := by
  cases op with
  | create priority => cases hop
  | schedule => exact .inl hs
  | exit i => exact .inl hs
  | timer =>
    obtain ⟨cur, hcur⟩ : ∃ cur, s.tsks[s.cur]? = some cur :=
      ⟨_, List.getElem?_eq_getElem h.registered⟩
    rw [step, Sched.schedTimerHandler, hcur] at hs
    dsimp only at hs
    split_ifs at hs with hpos
    · have hsame : (s.modifyCurrent fun t => { t with counter := t.counter - 1 }) =
          charged s .timer := modifyCurrent_congr fun a ha => by
        obtain rfl := Option.some.inj (hcur.symm.trans ha)
        rw [max_eq_left hpos.le]
      obtain rfl := Except.ok.inj hs
      rw [hsame]
      refine .inr ⟨rfl, rfl, fun a ha => ?_⟩
      obtain ⟨c, hc, -, hleft, -⟩ := charged_task .timer hcur
      obtain rfl := Option.some.inj (hc.symm.trans ha)
      rw [hleft, left, if_pos rfl]
      exact lt_max_of_lt_left hpos
    · have hsame : (s.modifyCurrent fun t => { t with counter := 0 }) = charged s .timer :=
        modifyCurrent_congr fun a ha => by
          obtain rfl := Option.some.inj (hcur.symm.trans ha)
          rw [max_eq_right (not_lt.mp hpos)]
      exact .inl (hsame ▸ hs)

/-- A task that is `RUNNING` stays so until it exits. -/
theorem RunningAt.step {fuel : ℕ} (hfuel : 2 ≤ fuel) {s t : Sched} (h : Inv s) {op : Op} {i : ℕ}
    (hi : RunningAt i s) (hexit : op ≠ .exit i) (hs : step fuel s op = .ok t) : RunningAt i t := by
  obtain ⟨a, ha, hrun⟩ := hi
  cases hop : op.isCall with
  | false =>
    cases op with
    | create priority =>
      rw [Scheduling.step, Sched.addTask] at hs
      split at hs
      · obtain rfl := Except.ok.inj hs
        exact ⟨a, by rw [List.getElem?_append_left (List.getElem?_eq_some_iff.mp ha).1, ha], hrun⟩
      · cases hs
    | schedule | timer | exit => cases hop
  | true =>
    obtain ⟨hok, hlen, -⟩ := charged_ok h hop
    obtain ⟨c, hc, -, -, -, hstays⟩ := charged_task op ha
    rcases step_charged h hop hs with hsel | ⟨-, rfl, -⟩
    · obtain ⟨htask, -, -⟩ := scheduleInternal_task hfuel hok
        (hlen ▸ Nat.zero_lt_of_lt h.registered) hsel rfl
      obtain ⟨a', ha', -, hstate, -⟩ := htask i c hc
      exact ⟨a', ha', hstate.trans (hstays hrun hexit)⟩
    · exact ⟨c, hc, hstays hrun hexit⟩

/-- **The account of a call** that creates no task and leaves one `RUNNING`. -/
structure Accounted (s : Sched) (op : Op) (r : ℤ) (t : Sched) : Prop where
  length : t.tsks.length = s.tsks.length
  /-- A counter is what the call has left of it, and the priority for a refill, which only comes
  when nothing is left. -/
  task : ∀ (j : ℕ) (a : Tcb), s.tsks[j]? = some a → ∃ a', t.tsks[j]? = some a' ∧
    a'.priority = a.priority ∧ (a'.state = .RUNNING → a.state = .RUNNING) ∧
    (a'.state = .RUNNING ∨ j = t.cur → a'.counter = left s op j a + r * a.priority ∧
      (r = 0 ∨ r = 1 ∧ left s op j a = 0 ∧ a'.state = .RUNNING))
  /-- The task that runs has something left. -/
  next_pos : ∀ n, t.tsks[t.cur]? = some n → 0 < n.counter
  /-- It is one that is `RUNNING`, or the one that was running. -/
  next : t.cur = s.cur ∨ RunningAt t.cur t

theorem accounted {fuel : ℕ} (hfuel : 2 ≤ fuel) {s t : Sched} (h : Inv s) {op : Op}
    (hop : op.isCall = true) (hs : step fuel s op = .ok t) {i : ℕ} (hi : RunningAt i t) :
    Accounted s op (refillsOf fuel s op) t := by
  obtain ⟨hok, hlen, hcur⟩ := charged_ok h hop
  obtain ⟨b, hb, hbrun⟩ := hi
  have hr : refillsOf fuel s op = t.last.elim 0 fun sel => (sel.refilled.length : ℤ) := by
    rw [refillsOf, hs]
  rcases step_charged h hop hs with hsel | ⟨rfl, rfl, hpos⟩
  · obtain ⟨htask, hlen', hnext⟩ := scheduleInternal_task hfuel hok
      (hlen ▸ Nat.zero_lt_of_lt h.registered) hsel hr
    obtain ⟨n, hn, hnrun, hnpos⟩ := hnext ⟨b, List.mem_of_getElem? hb, hbrun⟩
    refine ⟨hlen'.trans hlen, fun j a ha => ?_, fun m hm => ?_, .inr ⟨n, hn, hnrun⟩⟩
    · obtain ⟨c, hc, hprio, hleft, hwas, -⟩ := charged_task op ha
      obtain ⟨a', ha', hprio', hstate, hcount⟩ := htask j c hc
      refine ⟨a', ha', hprio'.trans hprio, fun hrun => hwas (hstate ▸ hrun), fun hrun => ?_⟩
      have hrun' : a'.state = .RUNNING := by
        rcases hrun with hrun | rfl
        · exact hrun
        · obtain rfl := Option.some.inj (hn.symm.trans ha')
          exact hnrun
      obtain ⟨hc', hz⟩ := hcount (hstate ▸ hrun')
      rw [← hleft, ← hprio]
      exact ⟨hc', hz.imp_right fun hz => ⟨hz.1, hz.2, hrun'⟩⟩
    · obtain rfl := Option.some.inj (hn.symm.trans hm)
      exact hnpos
  · have hr0 : refillsOf fuel s .timer = 0 := hr
    refine ⟨hlen, fun j a ha => ?_, hpos, .inl hcur⟩
    obtain ⟨c, hc, hprio, hleft, hwas, -⟩ := charged_task .timer ha
    refine ⟨c, hc, hprio, hwas, fun _ => ?_⟩
    rw [hr0, hleft]
    exact ⟨by omega, .inl rfl⟩

/-! ### What a task has left -/

/-- **What a task may still use**: its counter, and one call if it is the one that runs. -/
def budget (s : Sched) (j : ℕ) : ℤ :=
  Sched.at s (fun a => if j = s.cur then max a.counter 1 else a.counter) j

theorem at_of_some {s : Sched} {f : Tcb → ℤ} {j : ℕ} {a : Tcb} (ha : s.tsks[j]? = some a) :
    Sched.at s f j = f a := by
  rw [Sched.at, ha, Option.elim_some]

/-- After a call, it is the counter. -/
theorem Accounted.budget_eq {s t : Sched} {op : Op} {r : ℤ} (h : Accounted s op r t) {j : ℕ}
    {a' : Tcb} (ha' : t.tsks[j]? = some a') : budget t j = a'.counter := by
  rw [budget, at_of_some ha']
  split_ifs with hj
  · subst hj
    exact max_eq_left (h.next_pos a' ha')
  · rfl

/-- What a call leaves, when it has used one of what there was. -/
theorem left_add_le {s : Sched} {op : Op} (hop : op.isCall = true) {j : ℕ} {a : Tcb}
    (ha : s.tsks[j]? = some a) : left s op j a + (if j = s.cur then 1 else 0) ≤ budget s j := by
  rw [budget, at_of_some ha]
  cases op with
  | create priority => cases hop
  | timer => rw [left]; split_ifs <;> omega
  | schedule | exit => rw [left]; split_ifs <;> omega

/-- **A call uses one** of what the running task had. -/
theorem Accounted.budget_le {s t : Sched} {op : Op} {r : ℤ} (h : Accounted s op r t)
    (hop : op.isCall = true) {j : ℕ} {a a' : Tcb} (ha : s.tsks[j]? = some a)
    (ha' : t.tsks[j]? = some a') (hrun : a'.state = .RUNNING ∨ j = t.cur) :
    budget t j + (if j = s.cur then 1 else 0) ≤ budget s j + r * a.priority := by
  obtain ⟨b, hb, -, -, hcount⟩ := h.task j a ha
  obtain rfl := Option.some.inj (hb.symm.trans ha')
  have hleft := left_add_le hop ha
  rw [h.budget_eq ha', (hcount hrun).1]
  omega

/-- A counter that is kept is used up by ticks alone. -/
theorem counter_le_left {s : Sched} {op : Op} {i : ℕ} {a : Tcb} (hstay : Stays i s op)
    (hop : op.isCall = true) : a.counter ≤ left s op i a + tickOf i s op := by
  by_cases hi : i = s.cur
  · obtain rfl := hstay hi.symm hop
    rw [left, if_pos hi, tickOf, if_pos hi.symm]
    omega
  · have htick : 0 ≤ tickOf i s op := by
      cases op with
      | timer => rw [tickOf]; split_ifs <;> decide
      | create | schedule | exit => exact le_rfl
    rw [left.eq_def, if_neg hi]
    omega

theorem tickOf_le (s : Sched) (op : Op) (i : ℕ) : tickOf i s op ≤ if i = s.cur then 1 else 0 := by
  cases op with
  | timer => rw [tickOf]; split_ifs <;> omega
  | create | schedule | exit => dsimp only [tickOf]; split_ifs <;> omega

/-! ### Shares -/

/-- **What is kept of a task** that does not exit, with its priority. -/
structure Alive (i : ℕ) (p : ℤ) (s : Sched) : Prop where
  inv : Inv s
  task : ∃ a, s.tsks[i]? = some a ∧ a.state = .RUNNING ∧ a.priority = p

/-- Creating a task leaves those there are. -/
theorem step_create {fuel : ℕ} {s t : Sched} {priority : ℤ}
    (hs : step fuel s (.create priority) = .ok t) :
    t.cur = s.cur ∧ t.tsks = s.tsks ++ [{ newTask priority with pid := s.tsks.length }] ∧
      refillsOf fuel s (.create priority) = 0 := by
  have hs' := hs
  rw [step, Sched.addTask] at hs'
  split at hs'
  · obtain rfl := Except.ok.inj hs'
    refine ⟨rfl, rfl, ?_⟩
    rw [refillsOf, hs]
    rfl
  · cases hs'

theorem Alive.call {fuel : ℕ} (hfuel : 2 ≤ fuel) {s t : Sched} {i : ℕ} {p : ℤ} (h : Alive i p s)
    {op : Op} (hop : Legal INT_MAX s op) (hexit : op ≠ .exit i) (hs : step fuel s op = .ok t) :
    Alive i p t := by
  obtain ⟨u, hu, hinv⟩ := h.inv.step hfuel hop
  obtain rfl := Except.ok.inj (hs.symm.trans hu)
  obtain ⟨a, ha, hrun, hprio⟩ := h.task
  have hi := RunningAt.step hfuel h.inv ⟨a, ha, hrun⟩ hexit hs
  obtain ⟨a', ha', hrun'⟩ := hi
  refine ⟨hinv, a', ha', hrun', ?_⟩
  cases hcall : op.isCall with
  | true =>
    obtain ⟨b, hb, hprio', -⟩ := (accounted hfuel h.inv hcall hs ⟨a', ha', hrun'⟩).task i a ha
    obtain rfl := Option.some.inj (hb.symm.trans ha')
    exact hprio'.trans hprio
  | false =>
    cases op with
    | create priority =>
      obtain ⟨-, htsks, -⟩ := step_create hs
      rw [htsks, List.getElem?_append_left (List.getElem?_eq_some_iff.mp ha).1, ha] at ha'
      obtain rfl := Option.some.inj ha'
      exact hprio
    | schedule | timer | exit => cases hcall

/-- **One call**: a task has no more ticks than its budget and its refills allow, and no fewer if
it stays. -/
theorem Alive.share {fuel : ℕ} (hfuel : 2 ≤ fuel) {s t : Sched} {i : ℕ} {p : ℤ} (h : Alive i p s)
    {op : Op} (hop : Legal INT_MAX s op) (hexit : op ≠ .exit i) (hs : step fuel s op = .ok t) :
    budget t i + tickOf i s op ≤ budget s i + refillsOf fuel s op * p ∧
      (Stays i s op → -Sched.at t Tcb.counter i + refillsOf fuel s op * p ≤
        -Sched.at s Tcb.counter i + tickOf i s op) := by
  obtain ⟨-, a', ha', hrun', -⟩ := h.call hfuel hop hexit hs
  obtain ⟨a, ha, hrun, rfl⟩ := h.task
  cases hcall : op.isCall with
  | true =>
    have hacc := accounted hfuel h.inv hcall hs ⟨a', ha', hrun'⟩
    obtain ⟨b, hb, -, -, hcount⟩ := hacc.task i a ha
    obtain rfl := Option.some.inj (hb.symm.trans ha')
    refine ⟨?_, fun hstay => ?_⟩
    · have htick := tickOf_le s op i
      have hbudget := hacc.budget_le hcall ha ha' (.inl hrun')
      omega
    · have hleft := counter_le_left (a := a) hstay hcall
      rw [at_of_some ha', at_of_some ha, (hcount (.inl hrun')).1]
      omega
  | false =>
    cases op with
    | create priority =>
      obtain ⟨hcur, htsks, hr⟩ := step_create hs
      have hat : ∀ f, Sched.at t f i = Sched.at s f i := by
        intro f
        rw [at_of_some ha, Sched.at, htsks,
          List.getElem?_append_left (List.getElem?_eq_some_iff.mp ha).1, ha, Option.elim_some]
      have htick : tickOf i s (.create priority) = 0 := rfl
      rw [budget, budget, hat, hat, hcur, hr, htick]
      exact ⟨by omega, fun _ => by omega⟩
    | schedule | timer | exit => cases hcall

/-- What a task has left is between nothing and its priority. -/
theorem Alive.bounds {s : Sched} {i : ℕ} {p : ℤ} (h : Alive i p s) :
    0 ≤ Sched.at s Tcb.counter i ∧ Sched.at s Tcb.counter i ≤ budget s i ∧ budget s i ≤ p := by
  obtain ⟨a, ha, hrun, rfl⟩ := h.task
  have hok := h.inv.task_ok a (List.mem_of_getElem? ha)
  have hle := hok.running_le hrun
  have hpos := hok.priority_pos
  have hnonneg := hok.nonneg
  rw [budget, at_of_some ha, at_of_some ha]
  split_ifs <;> omega

/-- The invariant holds wherever a run leads. -/
theorem inv_of_run {fuel : ℕ} (hfuel : 2 ≤ fuel) {ops : List Op} {s : Sched}
    (hlegal : Lib.Each (step fuel) (Legal INT_MAX) Sched.init ops)
    (hs : Lib.runFrom (step fuel) Sched.init ops = .ok s) : Inv s := by
  refine Lib.Each.inv (I := Inv) (fun s op t h hop ht => ?_) inv_init hlegal hs
  obtain ⟨u, hu, hinv⟩ := h.step hfuel hop
  rwa [Except.ok.inj (ht.symm.trans hu)]

/-- **Every task gets its share.** However tasks are created, yield and exit: a task that does not
exit has no more ticks than its priority for each refill, and once more; and one that does not
yield either has no fewer than its priority for each refill but one. -/
theorem proportional_share {fuel : ℕ} (hfuel : 2 ≤ fuel) {before ops : List Op} {s t : Sched}
    (hbefore : Lib.Each (step fuel) (Legal INT_MAX) Sched.init before)
    (hs : Lib.runFrom (step fuel) Sched.init before = .ok s)
    (hlegal : Lib.Each (step fuel) (Legal INT_MAX) s ops)
    (ht : Lib.runFrom (step fuel) s ops = .ok t) {i : ℕ} {a : Tcb} (ha : s.tsks[i]? = some a)
    (hrun : a.state = .RUNNING) (hexit : .exit i ∉ ops) :
    ticks fuel i s ops ≤ (refills fuel s ops + 1) * a.priority ∧
      (Lib.Each (step fuel) (Stays i) s ops →
        (refills fuel s ops - 1) * a.priority ≤ ticks fuel i s ops) := by
  have halive : Alive i a.priority s := ⟨inv_of_run hfuel hbefore hs, a, ha, hrun, rfl⟩
  have hexits : Lib.Each (step fuel) (fun _ op => op ≠ .exit i) s ops :=
    Lib.Each.of_mem s fun op hop heq => hexit (heq ▸ hop)
  have hrefills : Lib.total (step fuel) (fun s op => refillsOf fuel s op * a.priority) s ops =
      refills fuel s ops * a.priority :=
    Lib.total_map (AddMonoidHom.mulRight a.priority) s ops
  obtain ⟨-, hstart⟩ := halive.bounds
  constructor
  · obtain ⟨hend, hle⟩ : Alive i a.priority t ∧
        budget t i + ticks fuel i s ops ≤ budget s i + refills fuel s ops * a.priority :=
      hrefills ▸ Lib.total_le (q := fun s => budget s i)
        (fun s op t h hop ht => ⟨h.call hfuel hop.1 hop.2 ht, (h.share hfuel hop.1 hop.2 ht).1⟩)
        halive (hlegal.and hexits) ht
    obtain ⟨hzero, hbudget, -⟩ := hend.bounds
    rw [add_mul]
    omega
  · intro hstays
    obtain ⟨hend, hle⟩ : Alive i a.priority t ∧
        -Sched.at t Tcb.counter i + refills fuel s ops * a.priority ≤
          -Sched.at s Tcb.counter i + ticks fuel i s ops :=
      hrefills ▸ Lib.total_le (q := fun s => -Sched.at s Tcb.counter i)
        (fun s op t h hop ht => ⟨h.call hfuel hop.1.1 hop.1.2 ht,
          (h.share hfuel hop.1.1 hop.1.2 ht).2 hop.2⟩)
        halive ((hlegal.and hexits).and hstays) ht
    obtain ⟨-, hbudget, hprio⟩ := hend.bounds
    obtain ⟨hzero, -⟩ := halive.bounds
    rw [sub_mul]
    omega

instance (i : ℕ) (s : Sched) : ∀ op, Decidable (Stays i s op)
  | .timer => .isTrue fun _ _ => rfl
  | .create _ => .isTrue fun _ h => by cases h
  | .schedule | .exit _ => decidable_of_iff (s.cur ≠ i)
      ⟨fun h hc => absurd hc h, fun h hc => by cases h hc rfl⟩

/-- Of fifteen ticks, in which the counters are refilled three times, the task of priority `3` has
ten. -/
theorem proportional_share_fifteen_ticks : ∃ s,
    Lib.runFrom (step 2) Sched.init [.create 1, .create 3, .timer] = .ok s ∧
      refills 2 s (List.replicate 15 .timer) = 3 ∧ ticks 2 2 s (List.replicate 15 .timer) = 10 ∧
      (3 - 1 : ℤ) * 3 ≤ 10 ∧ 10 ≤ (3 + 1 : ℤ) * 3 := by
  have hbefore : Lib.Each (step 2) (Legal INT_MAX) Sched.init [.create 1, .create 3, .timer] := by
    decide
  refine ⟨_, rfl, rfl, rfl, ?_⟩
  obtain ⟨hle, hge⟩ := proportional_share le_rfl hbefore rfl (i := 2)
    (by decide : Lib.Each (step 2) (Legal INT_MAX) _ (List.replicate 15 .timer)) rfl rfl rfl
    (by simp)
  exact ⟨hge (by decide), hle⟩

/-! ### Waiting -/

/-- **What is ahead of a task**: what another one has left, and what it will be given when the
counters are refilled before the task has run. -/
def ahead (s : Sched) (i j : ℕ) : ℤ :=
  Sched.at s (fun a => (if a.state = .RUNNING ∨ j = s.cur then budget s j else 0) +
    if a.state = .RUNNING ∧ Sched.at s Tcb.counter i = 0 then a.priority else 0) j

theorem ahead_of_running {s : Sched} {i j : ℕ} {a w : Tcb} (ha : s.tsks[j]? = some a)
    (hrun : a.state = .RUNNING) (hw : s.tsks[i]? = some w) :
    ahead s i j = budget s j + if w.counter = 0 then a.priority else 0 := by
  simp only [ahead, at_of_some ha, at_of_some hw, hrun, true_or, true_and, if_true]

theorem ahead_of_exited {s : Sched} {i j : ℕ} {a : Tcb} (ha : s.tsks[j]? = some a)
    (hrun : a.state ≠ .RUNNING) : ahead s i j = if j = s.cur then budget s j else 0 := by
  simp only [ahead, at_of_some ha, hrun, false_or, false_and, if_false, add_zero]

/-- What is ahead is at most twice the priority. -/
theorem ahead_bounds {s : Sched} (h : Inv s) {i j : ℕ} {a w : Tcb} (ha : s.tsks[j]? = some a)
    (hw : s.tsks[i]? = some w) :
    0 ≤ ahead s i j ∧ ahead s i j ≤ 2 * a.priority ∧ (j = s.cur → 0 < ahead s i j) := by
  have hok := h.task_ok a (List.mem_of_getElem? ha)
  have hpos := hok.priority_pos
  have hnonneg := hok.nonneg
  have htwo := hok.le_two
  by_cases hrun : a.state = .RUNNING
  · have hle := hok.running_le hrun
    rw [ahead_of_running ha hrun hw, budget, at_of_some ha]
    split_ifs <;> omega
  · rw [ahead_of_exited ha hrun, budget, at_of_some ha]
    split_ifs <;> omega

/-- **A call takes from what is ahead** of a task that is not running, by one for the task that
was. -/
theorem Accounted.ahead_le {s t : Sched} {op : Op} {r : ℤ} (h : Accounted s op r t) (hs : Inv s)
    (hop : op.isCall = true) {i : ℕ} (hi : RunningAt i t) (hne : s.cur ≠ i) {j : ℕ} {a w : Tcb}
    (ha : s.tsks[j]? = some a) (hw : s.tsks[i]? = some w) :
    ahead t i j + (if j = s.cur then 1 else 0) ≤ ahead s i j := by
  obtain ⟨b, hb, hbrun⟩ := hi
  obtain ⟨b', hb', -, -, hcount⟩ := h.task i w hw
  obtain rfl := Option.some.inj (hb'.symm.trans hb)
  obtain ⟨hw', hzero⟩ := hcount (.inl hbrun)
  have hwait : left s op i w = w.counter := by
    rw [left.eq_def, if_neg (Ne.symm hne)]
  rw [hwait] at hw' hzero
  obtain ⟨a', ha', hprio', hwas, hcount'⟩ := h.task j a ha
  by_cases hrun : a'.state = .RUNNING
  · -- it may run as well: what a refill gives it was ahead already
    have hbudget := h.budget_le hop ha ha' (.inl hrun)
    have hwprio := (hs.task_ok w (List.mem_of_getElem? hw)).priority_pos
    rw [ahead_of_running ha (hwas hrun) hw, ahead_of_running ha' hrun hb, hprio', hw']
    rcases hzero with rfl | ⟨rfl, h0, -⟩
    · rw [zero_mul, add_zero]
      omega
    · rw [if_neg (by omega : ¬w.counter + 1 * w.priority = 0), if_pos h0]
      omega
  obtain ⟨hahead, -, hcur⟩ := ahead_bounds hs ha hw
  rw [ahead_of_exited ha' hrun]
  by_cases hnext : j = t.cur
  · -- it is still the one that runs, and has exited before
    have hstill : j = s.cur := by
      rcases h.next with hcur | ⟨n, hn, hnrun⟩
      · exact hnext.trans hcur
      · rw [← hnext] at hn
        obtain rfl := Option.some.inj (hn.symm.trans ha')
        exact absurd hnrun hrun
    obtain ⟨-, hr⟩ := hcount' (.inr hnext)
    obtain rfl : r = 0 := by
      rcases hr with hr | ⟨-, -, hr⟩
      · exact hr
      · exact absurd hr hrun
    have hbudget := h.budget_le hop ha ha' (.inr hnext)
    have hle : budget s j ≤ ahead s i j := by
      by_cases hrun' : a.state = .RUNNING
      · have hprio := (hs.task_ok a (List.mem_of_getElem? ha)).priority_pos
        rw [ahead_of_running ha hrun' hw]
        split_ifs <;> omega
      · rw [ahead_of_exited ha hrun', if_pos hstill]
    rw [if_pos hnext]
    omega
  · -- it will not run any more
    rw [if_neg hnext]
    split_ifs with hc
    · have := hcur hc
      omega
    · omega

/-- **How long a task has waited**: what is ahead of it, against the most that ever can be. -/
def slack (i : ℕ) (s : Sched) : ℤ :=
  ∑ j ∈ Finset.range s.tsks.length,
    if j = i then 0 else ahead s i j - 2 * Sched.at s Tcb.priority j

/-- The slack is between that of a task that has waited for everything and none. -/
theorem slack_bounds {s : Sched} (h : Inv s) {i : ℕ} (hi : RunningAt i s) :
    -(2 * others s i) ≤ slack i s ∧ slack i s ≤ 0 := by
  obtain ⟨w, hw, -⟩ := hi
  have hat : ∀ j ∈ Finset.range s.tsks.length,
      0 ≤ ahead s i j ∧ ahead s i j ≤ 2 * Sched.at s Tcb.priority j := by
    intro j hj
    have ha := List.getElem?_eq_getElem (Finset.mem_range.mp hj)
    obtain ⟨hzero, htwo, -⟩ := ahead_bounds h ha hw
    rw [at_of_some ha]
    exact ⟨hzero, htwo⟩
  constructor
  · rw [others, Finset.mul_sum, ← Finset.sum_neg_distrib, slack]
    refine Finset.sum_le_sum fun j hj => ?_
    have := hat j hj
    split_ifs <;> omega
  · refine Finset.sum_nonpos fun j hj => ?_
    have := hat j hj
    split_ifs <;> omega

/-- **A call that does not come to a task makes it wait for one less.** -/
theorem Accounted.slack_le {s t : Sched} {op : Op} {r : ℤ} (h : Accounted s op r t) (hs : Inv s)
    (hop : op.isCall = true) {i : ℕ} {w : Tcb} (hw : s.tsks[i]? = some w) (hi : RunningAt i t)
    (hne : s.cur ≠ i) : slack i t + 1 ≤ slack i s := by
  have hone : (∑ j ∈ Finset.range s.tsks.length, if j = s.cur then 1 else 0 : ℤ) = 1 := by
    rw [Finset.sum_ite_eq', if_pos (Finset.mem_range.mpr hs.registered)]
  rw [slack, slack, h.length, ← hone, ← Finset.sum_add_distrib]
  refine Finset.sum_le_sum fun j hj => ?_
  by_cases hji : j = i
  · subst hji
    rw [if_pos rfl, if_pos rfl, if_neg (Ne.symm hne)]
    exact le_rfl
  have ha := List.getElem?_eq_getElem (Finset.mem_range.mp hj)
  obtain ⟨a', ha', hprio, -⟩ := h.task j _ ha
  have hahead := h.ahead_le hs hop hi hne ha hw
  rw [if_neg hji, if_neg hji, at_of_some ha, at_of_some ha', hprio]
  omega

/-- A new task makes no one wait for longer than its priority allows. -/
theorem create_slack_le {fuel : ℕ} {s t : Sched} {priority : ℤ} (hpos : 0 < priority)
    (hs : step fuel s (.create priority) = .ok t) (hinv : Inv s) {i : ℕ} {w : Tcb}
    (hw : s.tsks[i]? = some w) : slack i t ≤ slack i s := by
  obtain ⟨hcur, htsks, -⟩ := step_create hs
  have hlen : t.tsks.length = s.tsks.length + 1 := by rw [htsks, List.length_append]; rfl
  have hold : ∀ j < s.tsks.length, t.tsks[j]? = s.tsks[j]? := fun j hj => by
    rw [htsks, List.getElem?_append_left hj]
  obtain ⟨hi, -⟩ := List.getElem?_eq_some_iff.mp hw
  have hat : ∀ j < s.tsks.length, ∀ f, Sched.at t f j = Sched.at s f j := fun j hj f => by
    rw [Sched.at, Sched.at, hold j hj]
  have hnew : t.tsks[s.tsks.length]? = some { newTask priority with pid := s.tsks.length } := by
    rw [htsks, List.getElem?_append_right le_rfl, Nat.sub_self]
    rfl
  have hahead : ahead t i s.tsks.length ≤ 2 * priority := by
    rw [ahead_of_running hnew rfl ((hold i hi).trans hw), budget, at_of_some hnew, hcur,
      if_neg hinv.registered.ne']
    dsimp only [newTask]
    split_ifs <;> omega
  rw [slack, hlen, Finset.sum_range_succ, at_of_some hnew, if_neg hi.ne']
  have hsum : (∑ j ∈ Finset.range s.tsks.length,
      if j = i then 0 else ahead t i j - 2 * Sched.at t Tcb.priority j) = slack i s := by
    refine Finset.sum_congr rfl fun j hj => ?_
    have hj' := Finset.mem_range.mp hj
    rw [ahead, ahead, budget, budget, hcur, hat i hi, hat j hj', hat j hj', hat j hj']
  rw [hsum]
  dsimp only [newTask]
  omega

/-- **One call** comes to the task, or makes it wait for one less. -/
theorem Alive.wait {fuel : ℕ} (hfuel : 2 ≤ fuel) {s t : Sched} {i : ℕ} {p : ℤ} (h : Alive i p s)
    (hne : s.cur ≠ i) {op : Op} (hop : Legal INT_MAX s op) (hexit : op ≠ .exit i)
    (hs : step fuel s op = .ok t) : slack i t + (if op.isCall then 1 else 0) ≤ slack i s := by
  obtain ⟨-, a', ha', hrun', -⟩ := h.call hfuel hop hexit hs
  obtain ⟨w, hw, -, -⟩ := h.task
  cases hcall : op.isCall with
  | true =>
    have hi : RunningAt i t := ⟨a', ha', hrun'⟩
    exact (accounted hfuel h.inv hcall hs hi).slack_le h.inv hcall hw hi hne
  | false =>
    cases op with
    | create priority =>
      have := create_slack_le hop.2.1 hs h.inv hw
      simpa using this
    | schedule | timer | exit => cases hcall

/-- **No task starves.** However tasks are created, yield and exit: a task that does not exit runs
after no more ticks and yields than twice the priorities of the other tasks together. -/
theorem no_starvation {fuel : ℕ} (hfuel : 2 ≤ fuel) {before ops : List Op} {s t : Sched}
    (hbefore : Lib.Each (step fuel) (Legal INT_MAX) Sched.init before)
    (hs : Lib.runFrom (step fuel) Sched.init before = .ok s)
    (hlegal : Lib.Each (step fuel) (Legal INT_MAX) s ops)
    (ht : Lib.runFrom (step fuel) s ops = .ok t) {i : ℕ} (hi : RunningAt i s)
    (hexit : .exit i ∉ ops) (hlong : 2 * others t i < ops.countP Op.isCall) :
    ∃ pre u, pre <+: ops ∧ Lib.runFrom (step fuel) s pre = .ok u ∧ u.cur = i := by
  obtain ⟨a, ha, hrun⟩ := hi
  have halive : Alive i a.priority s := ⟨inv_of_run hfuel hbefore hs, a, ha, hrun, rfl⟩
  by_cases hcur : s.cur = i
  · exact ⟨[], s, List.nil_prefix, rfl, hcur⟩
  have hexits : Lib.Each (step fuel) (fun _ op => op ≠ .exit i) s ops :=
    Lib.Each.of_mem s fun op hop heq => hexit (heq ▸ hop)
  rcases Lib.reached_or_total_le (I := fun s => Alive i a.priority s ∧ s.cur ≠ i)
      (G := fun s => s.cur = i) (q := slack i) (f := fun _ op => if op.isCall then 1 else 0)
      (g := fun _ _ => 0) (fun s op t ⟨h, hne⟩ hop ht => by
        by_cases hgoal : t.cur = i
        · exact .inl hgoal
        · rw [add_zero]
          exact .inr ⟨⟨h.call hfuel hop.1 hop.2 ht, hgoal⟩, h.wait hfuel hne hop.1 hop.2 ht⟩)
      ⟨halive, hcur⟩ (hlegal.and hexits) ht with hreach | ⟨⟨hend, -⟩, hle⟩
  · exact hreach
  · obtain ⟨b, hb, hbrun, -⟩ := hend.task
    obtain ⟨hlow, -⟩ := slack_bounds hend.inv ⟨b, hb, hbrun⟩
    obtain ⟨-, hhigh⟩ := slack_bounds halive.inv ⟨a, ha, hrun⟩
    rw [Lib.total_eq_countP ht, Lib.total_zero] at hle
    omega

/-- The task of priority `1` runs within nine ticks, next to tasks of priorities `1` and `3`. -/
theorem no_starvation_nine_ticks : ∃ s,
    Lib.runFrom (step 2) Sched.init [.create 1, .create 3, .timer] = .ok s ∧
      ∃ pre u, pre <+: List.replicate 9 Op.timer ∧ Lib.runFrom (step 2) s pre = .ok u ∧
        u.cur = 1 := by
  have hbefore : Lib.Each (step 2) (Legal INT_MAX) Sched.init [.create 1, .create 3, .timer] := by
    decide
  exact ⟨_, rfl, no_starvation le_rfl hbefore rfl (by decide) rfl ⟨_, rfl, rfl⟩ (by simp)
    (by decide)⟩

end Scheduling

end Evisor
