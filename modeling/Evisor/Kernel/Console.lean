import Evisor.Kernel.Sched
import Evisor.Mm.PgTableStage2
import Evisor.Platforms.Board

/-!
# Devices and consoles of the tasks

What happens between a guest and its devices: `VmLeave` and `VmEnter`
(`kernel/vm/vm.cc`) around everything the hypervisor does for a guest, the accesses
that trap (`mm/kmm_trap.cc`), the bytes that arrive on the serial line of the machine
(`platforms/serial.cc`), and the creation of tasks, as far as it is about boards
(`kernel/sched/sched_create_task.cc`).

`Evisor.Hyp` is what all tasks share; the counters a `Tcb` keeps and the values a task
has read are its own, and are kept apart.
-/

namespace Evisor

/-- The part of a `Tcb` that says what devices a task has. -/
structure TaskDesc where
  /-- `Tcb::board`. -/
  board : Option BoardRef
  /-- `Tcb::state`. -/
  state : TaskState

/-- What the tasks share. -/
structure Hyp where
  /-- `tsks_` and `count_tsks_`. -/
  tsks : List TaskDesc
  /-- `cur_tsk_`. -/
  cur : TaskId
  /-- The board objects. -/
  boards : BoardRef → Board
  /-- `console_forwarded_pid_`. -/
  console_forwarded_pid : ℕ
  /-- A `?` has been received. -/
  hypervisor_command_comming : Bool
  /-- A `?s` has been received. -/
  hypervisor_command_switch_req : Bool
  /-- What has been printed of the consoles. -/
  printed : List ℕ

namespace Hyp

/-- After `Sched::Init`. -/
def boot : Hyp := ⟨[⟨none, .RUNNING⟩], 0, fun _ => .new, 1, false, false, []⟩

/-- `Tcb::board` of a task. -/
def boardOf (h : Hyp) (t : TaskId) : Option BoardRef := h.tsks[t]?.bind TaskDesc.board

/-- `Board::GetConsole` of a task, followed. -/
def consoleOf (h : Hyp) (t : TaskId) : Except Fault (BoardRef × Console) :=
  match h.boardOf t with
  | none => .error .nullDeref
  | some ref =>
    match (h.boards ref).console with
    | none => .error .nullDeref
    | some console => .ok (ref, console)

/-- Writing a board object. -/
def setBoard (h : Hyp) (ref : BoardRef) (b : Board) : Hyp :=
  { h with boards := Function.update h.boards ref b }

end Hyp

/-- The loop of `FlushConsole`, with the passes it may make. -/
def flushLoop : ℕ → Queue → Except Fault (List ℕ × Queue)
  | fuel, q =>
    if q.empty then .ok ([], q)
    else match fuel with
      | 0 => .error .outOfFuel
      | fuel + 1 => do
        let (data, q) := q.pop
        let (rest, q) ← flushLoop fuel q
        return ((data &&& 0xff) :: rest, q)

/-- Nothing is flushed of a queue that holds nothing. -/
theorem flushLoop_of_empty {q : Queue} (h : q.empty = true) (fuel : ℕ) :
    flushLoop fuel q = .ok ([], q) := by
  rw [flushLoop.eq_def]
  exact if_pos h

/-- **Flushing** gives what the queue holds, in order, and leaves nothing. -/
theorem flushLoop_of_ok {fuel : ℕ} {q : Queue} (h : q.Ok) (hfuel : q.contents.length ≤ fuel) :
    ∃ q', flushLoop fuel q = .ok (q.contents.map (· &&& 0xff), q') ∧ q'.Ok ∧ q'.contents = [] := by
  induction fuel generalizing q with
  | zero =>
    have hnil := List.length_eq_zero_iff.mp (Nat.le_zero.mp hfuel)
    exact ⟨q, by rw [flushLoop_of_empty (h.contents_eq_nil.mp hnil), hnil]; rfl, h, hnil⟩
  | succ fuel ih =>
    by_cases hempty : q.empty = true
    · have hnil := h.contents_eq_nil.mpr hempty
      exact ⟨q, by rw [flushLoop_of_empty hempty, hnil]; rfl, h, hnil⟩
    · have hpop := h.contents_pop hempty
      rw [hpop, List.length_cons] at hfuel
      obtain ⟨q', hrest, hok, hnil⟩ := ih h.pop (Nat.le_of_succ_le_succ hfuel)
      refine ⟨q', ?_, hok, hnil⟩
      rw [flushLoop, if_neg hempty, hpop]
      simp only [hrest, Lib.ok_bind, List.map_cons]
      rfl

namespace Hyp

/-- `Sched::FlushConsole`. -/
def flushConsole (h : Hyp) (t : TaskId) : Except Fault Hyp := do
  let (ref, console) ← h.consoleOf t
  let (data, out) ← flushLoop kMaxSize console.out
  return { h.setBoard ref { h.boards ref with console := some { console with out } } with
    printed := h.printed ++ data }

/-- Flushing the console of the current task, when the console is its own. -/
def flushOwner (h : Hyp) : Except Fault Hyp :=
  if h.cur = h.console_forwarded_pid then h.flushConsole h.cur else .ok h

/-- `VmLeave`, but for the registers. `Board::VmLeave` does nothing. -/
def vmLeave (h : Hyp) : Except Fault Hyp := h.flushOwner

/-- `Board::VmEnter` of the current task's board: what it finds `irq_pending` to be. -/
def irqPending (h : Hyp) : Except Fault (Option Bool) :=
  match h.boardOf h.cur with
  | none => .ok none
  | some _ => do
    let (_, console) ← h.consoleOf h.cur
    return some !console.input.empty

/-- `VmEnter`, but for the registers. -/
def vmEnter (h : Hyp) : Except Fault (Option Bool × Hyp) := do
  let irq_pending ← h.irqPending
  let h ← h.flushOwner
  return (irq_pending, h)

/-- The read of `HandleMmTrapRegisterAccess`, of the current task. -/
def mmioRead (k : BoardKind) (h : Hyp) (addr : ℕ) : Except Fault (Option ℕ × Hyp) :=
  match h.boardOf h.cur with
  | none => .ok (none, h)
  | some ref => do
    let (res, b) ← (h.boards ref).mmioRead k addr
    return (some res, h.setBoard ref b)

/-- The write of `HandleMmTrapRegisterAccess`, of the current task. -/
def mmioWrite (k : BoardKind) (h : Hyp) (addr val : ℕ) : Except Fault Hyp :=
  match h.boardOf h.cur with
  | none => .ok h
  | some ref => do
    let b ← (h.boards ref).mmioWrite k addr val
    return h.setBoard ref b

/-- `isdigit`. -/
def isdigit (c : ℕ) : Bool := 0x30 ≤ c && c ≤ 0x39

/-- Assigning the console: the digit after `?s`. -/
def switchConsole (h : Hyp) (c : ℕ) : Except Fault Hyp :=
  let done := { h with hypervisor_command_comming := false, hypervisor_command_switch_req := false }
  if isdigit c then
    let pid := c - 0x30
    match h.tsks[pid]? with
    | none => .ok done
    | some tsk =>
      let done := { done with console_forwarded_pid := pid }
      if tsk.state = .RUNNING then done.flushConsole pid else .ok done
  else .ok done

/-- The handler `Serial::Init` registers for a received byte. The list of tasks that
`?l` prints, and the virtual interrupt, are not of the state modelled. -/
def receive (h : Hyp) (c : ℕ) : Except Fault Hyp :=
  if h.hypervisor_command_comming then
    if h.hypervisor_command_switch_req then h.switchConsole c
    else if c = 0x73 then .ok { h with hypervisor_command_switch_req := true }
    else if c = 0x6c then .ok { h with hypervisor_command_comming := false }
    else .ok h
  else if c = 0x3f then .ok { h with hypervisor_command_comming := true }
  else
    match h.tsks[h.console_forwarded_pid]? with
    | none => .error .nullDeref
    | some tsk =>
      if tsk.state = .RUNNING then do
        let (ref, console) ← h.consoleOf h.console_forwarded_pid
        let input := (console.input.push c).2
        return h.setBoard ref { h.boards ref with console := some { console with input } }
      else .ok h

/-- A console is that of a board. -/
theorem consoleOf_ok {h : Hyp} {t : TaskId} {r : BoardRef × Console}
    (hcon : h.consoleOf t = .ok r) :
    h.boardOf t = some r.1 ∧ (h.boards r.1).console = some r.2 := by
  rw [consoleOf] at hcon
  split at hcon
  · cases hcon
  · rename_i hboard
    split at hcon
    · cases hcon
    · rename_i hconsole
      obtain rfl := Except.ok.inj hcon
      exact ⟨hboard, hconsole⟩

/-- Writing back a board object changes nothing. -/
theorem setBoard_self {h : Hyp} {ref : BoardRef} {b : Board} (hb : b = h.boards ref) :
    h.setBoard ref b = h := by
  rw [setBoard, hb, Function.update_eq_self]

/-- What is left of a console that has been flushed. -/
def flushed (h : Hyp) (ref : BoardRef) (console : Console) (out : Queue) : Hyp :=
  { h.setBoard ref { h.boards ref with console := some { console with out } } with
    printed := h.printed ++ console.out.contents.map (· &&& 0xff) }

/-- **Flushing a console** prints what it holds. -/
theorem flushConsole_of_ok {h : Hyp} {t : TaskId} {ref : BoardRef} {console : Console}
    (hcon : h.consoleOf t = .ok (ref, console)) (hq : console.out.Ok) :
    ∃ out : Queue, h.flushConsole t = .ok (h.flushed ref console out) ∧ out.Ok ∧
      out.contents = [] := by
  obtain ⟨out, hflush, hok, hnil⟩ := flushLoop_of_ok hq console.out.length_contents_lt.le
  refine ⟨out, ?_, hok, hnil⟩
  rw [flushConsole, hcon, Lib.ok_bind]
  simp only [hflush, Lib.ok_bind]
  rfl

/-- `Sched::CreateTask`: the new task gets the board of the platform, which is
initialised for it. -/
def createTask (h : Hyp) : Except Fault Hyp :=
  let h := h.setBoard getPlatformBoard (h.boards getPlatformBoard).init
  if h.tsks.length < kNrTasks then
    .ok { h with tsks := h.tsks ++ [⟨some getPlatformBoard, .RUNNING⟩] }
  else .error .outOfBounds

end Hyp

end Evisor
