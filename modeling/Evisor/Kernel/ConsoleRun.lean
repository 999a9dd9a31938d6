import Evisor.Kernel.Console

/-!
# Who gets what is typed

The bytes that arrive on the serial line of the machine go to the task that owns the console,
except for the commands that begin with `?`. Two flags remember how much of a command has
been received, and one number who the owner is; entering and leaving a guest, and receiving
the next byte, follow the `Tcb` of that owner to its board.

So everything hangs on the owner being a task that has a board. The owner is task `1` before
there is one, and `?s0` makes it the init task, whose board is null. These are the only two
ways to go wrong (`Evisor.Consoles.console_safe_iff`).
-/

namespace Evisor

namespace Consoles

/-- What happens around the consoles. -/
inductive Event where
  /-- `CreateTask`. -/
  | createTask
  /-- `ExitTask`. -/
  | exit (t : TaskId)
  /-- The scheduler makes `next` the current task. -/
  | switch (next : TaskId)
  | vmLeave
  | vmEnter
  /-- The guest of the current task reads from a device. -/
  | read (addr : ℕ)
  /-- The guest of the current task writes to a device. -/
  | write (addr val : ℕ)
  /-- A byte arrives on the serial line of the machine. -/
  | receive (c : ℕ)

/-- `ExitTask`, up to the call of the scheduler. -/
def exitTask (h : Hyp) (t : TaskId) : Hyp :=
  { h with tsks := h.tsks.modify t fun tsk => { tsk with state := .ZOMBIE } }

/-- One event. -/
def step (k : BoardKind) (h : Hyp) : Event → Except Fault Hyp
  | .createTask => h.createTask
  | .exit t => .ok (exitTask h t)
  | .switch next => .ok { h with cur := next }
  | .vmLeave => h.vmLeave
  | .vmEnter => do
    let r ← h.vmEnter
    return r.2
  | .read addr => do
    let r ← h.mmioRead k addr
    return r.2
  | .write addr val => h.mmioWrite k addr val
  | .receive c => h.receive c

/-- **The owner of the console** is a registered task that has a board. -/
def OwnerOk (h : Hyp) : Prop :=
  ∃ tsk, h.tsks[h.console_forwarded_pid]? = some tsk ∧ tsk.board ≠ none

/-- A byte that is not part of a command. -/
def Plain (h : Hyp) (c : ℕ) : Prop := h.hypervisor_command_comming = false ∧ c ≠ 0x3f

/-- **A byte is delivered** that is not part of a command: it is put behind what has been
typed for the owner of the console, if the owner is running and the queue has room, and
nothing else changes. A byte of a command is put nowhere. -/
structure Delivered (h h' : Hyp) (c : ℕ) : Prop where
  plain : Plain h c → ∃ tsk ref console, h.tsks[h.console_forwarded_pid]? = some tsk ∧
    h.consoleOf h.console_forwarded_pid = .ok (ref, console) ∧
    (tsk.state = .RUNNING → ¬console.input.full = true → ∃ input : Queue,
      input.contents = console.input.contents ++ [c] ∧
      h' = h.setBoard ref { h.boards ref with console := some { console with input } }) ∧
    (tsk.state ≠ .RUNNING ∨ console.input.full = true → h' = h)
  command : ¬Plain h c → ∀ ref, (h'.boards ref).console.map Console.input =
    (h.boards ref).console.map Console.input

/-- No null pointer has been followed, and no console is flushed without end. -/
def Harmless (f : Fault) : Prop := f ≠ .nullDeref ∧ f ≠ .outOfFuel

/-- **The steps that may stop**: one that creates a task the table has no entry for, and an
access of a guest that its board does not take. -/
def Stops (k : BoardKind) (h : Hyp) : Event → Fault → Prop
  | .createTask, f => kNrTasks ≤ h.tsks.length ∧ f = .outOfBounds
  | .read addr, f => k.Outside addr ∧ f = .outOfBounds
  | .write addr _, f => k.WriteStops addr f
  | _, _ => False

/-- **Handling the console is safe** along a run. -/
structure Safe (k : BoardKind) (h : Hyp) (es : List Event) : Prop where
  /-- In every state the owner has a board, and no null pointer is followed. -/
  owner : Lib.Along (step k) OwnerOk Harmless h es
  /-- What has to do with the console stops nowhere. -/
  stops : Lib.Each (step k) (fun s e => ∀ f, step k s e = .error f → Stops k s e f) h es
  /-- Every byte received goes where it should. -/
  delivered : Lib.Each (step k)
    (fun s e => ∀ c, e = .receive c → ∀ s', step k s e = .ok s' → Delivered s s' c) h es

/-- The digit after `?s` is not that of the init task. -/
def Named (h : Hyp) (e : Event) : Prop :=
  h.hypervisor_command_comming = true → h.hypervisor_command_switch_req = true → e ≠ .receive 0x30

instance (h : Hyp) : ∀ e, Decidable (Named h e)
  | .receive c => decidable_of_iff (h.hypervisor_command_comming = true →
      h.hypervisor_command_switch_req = true → c ≠ 0x30) (by simp [Named])
  | .createTask | .exit _ | .switch _ | .vmLeave | .vmEnter | .read _ | .write _ _ =>
    .isTrue fun _ _ => nofun

variable {k : BoardKind} {h h' : Hyp} {t : TaskId} {c : ℕ}

/-! ### Guests have boards -/

/-- **The init task has no board**, and the guests have the board of the platform. -/
structure Guests (h : Hyp) : Prop where
  pos : 0 < h.tsks.length
  init : h.boardOf 0 = none
  board : ∀ t, 0 < t → t < h.tsks.length → h.boardOf t = some getPlatformBoard
  ready : 1 < h.tsks.length → (h.boards getPlatformBoard).Ready

/-- What is kept: the owner of the console is a guest. -/
structure Inv (h : Hyp) : Prop extends Guests h where
  owner_pos : 0 < h.console_forwarded_pid
  owner_lt : h.console_forwarded_pid < h.tsks.length

theorem guests_boot : Guests .boot where
  pos := Nat.one_pos
  init := rfl
  board t ht₀ ht := by
    have hlen : Hyp.boot.tsks.length = 1 := rfl
    omega
  ready hlen := absurd hlen (Nat.lt_irrefl 1)

/-- What `CreateTask` does. -/
theorem createTask_ok (hok : h.createTask = .ok h') :
    h' = { h.setBoard getPlatformBoard (h.boards getPlatformBoard).init with
      tsks := h.tsks ++ [⟨some getPlatformBoard, .RUNNING⟩] } := by
  rw [Hyp.createTask] at hok
  split at hok
  · exact (Except.ok.inj hok).symm
  · cases hok

theorem Guests.createTask (h₀ : Guests h) (hok : h.createTask = .ok h') : Guests h' := by
  obtain rfl := createTask_ok hok
  have hpos := h₀.pos
  refine ⟨?_, ?_, fun t ht₀ ht => ?_, fun _ => ?_⟩
  · rw [List.length_append]
    omega
  · have hinit := h₀.init
    rw [Hyp.boardOf] at hinit ⊢
    rwa [List.getElem?_append_left hpos]
  · rw [List.length_append, List.length_singleton] at ht
    rw [Hyp.boardOf]
    dsimp only
    rcases Nat.lt_succ_iff_lt_or_eq.mp ht with hlt | rfl
    · rw [List.getElem?_append_left hlt]
      exact h₀.board t ht₀ hlt
    · rw [List.getElem?_concat_length]
      rfl
  · change (Function.update h.boards getPlatformBoard _ getPlatformBoard).Ready
    rw [Function.update_self]
    exact Board.init_ready _

/-- The console of a guest. -/
theorem Guests.consoleOf (h₀ : Guests h) (ht₀ : 0 < t) (ht : t < h.tsks.length) :
    ∃ console, h.consoleOf t = .ok (getPlatformBoard, console) ∧ console.Ok := by
  obtain ⟨console, hcon, hok⟩ := h₀.ready (Nat.lt_of_le_of_lt ht₀ ht)
  refine ⟨console, ?_, hok⟩
  simp only [Hyp.consoleOf, h₀.board t ht₀ ht, hcon]

/-- A task that has a board is a guest. -/
theorem Guests.guest (h₀ : Guests h) {ref : BoardRef} (hb : h.boardOf t = some ref) :
    0 < t ∧ t < h.tsks.length := by
  refine ⟨Nat.pos_of_ne_zero ?_, not_le.mp fun hle => ?_⟩
  · rintro rfl
    cases h₀.init.symm.trans hb
  · rw [Hyp.boardOf, List.getElem?_eq_none_iff.mpr hle] at hb
    cases hb

/-- Asking the board of the current task for interrupts follows no null pointer. -/
theorem Guests.irqPending (h₀ : Guests h) : ∃ p, h.irqPending = .ok p := by
  rw [Hyp.irqPending]
  split
  · exact ⟨_, rfl⟩
  · rename_i hb
    obtain ⟨ht₀, ht⟩ := h₀.guest hb
    obtain ⟨console, hcon, -⟩ := h₀.consoleOf ht₀ ht
    exact ⟨_, by rw [hcon]; rfl⟩

/-- The owner of the console is one that has a board. -/
theorem Inv.ownerOk (h₀ : Inv h) : OwnerOk h := by
  have hb := h₀.board _ h₀.owner_pos h₀.owner_lt
  obtain ⟨tsk, htsk, hboard⟩ := Option.bind_eq_some_iff.mp hb
  exact ⟨tsk, htsk, fun hnone => by cases hnone.symm.trans hboard⟩

/-- What the guests have is a matter of the tasks and of the board of the platform. -/
theorem Guests.of_tsks (h₀ : Guests h) (htsks : h'.tsks = h.tsks)
    (hready : (h.boards getPlatformBoard).Ready → (h'.boards getPlatformBoard).Ready) :
    Guests h' := by
  have hboard : ∀ t, h'.boardOf t = h.boardOf t := fun t => by
    rw [Hyp.boardOf, htsks, Hyp.boardOf]
  exact ⟨htsks ▸ h₀.pos, (hboard 0).trans h₀.init,
    fun t ht₀ ht => (hboard t).trans (h₀.board t ht₀ (htsks ▸ ht)),
    fun hlen => hready (h₀.ready (htsks ▸ hlen))⟩

/-- **What the devices and the consoles have to do with**: the tasks stay, and which of them
runs, and the board of the platform remains initialised. -/
structure Same (h h' : Hyp) : Prop where
  tsks : h'.tsks = h.tsks
  cur : h'.cur = h.cur
  owner : h'.console_forwarded_pid = h.console_forwarded_pid
  ready : (h.boards getPlatformBoard).Ready → (h'.boards getPlatformBoard).Ready

theorem Inv.of_same (h₀ : Inv h) (hs : Same h h') : Inv h' where
  toGuests := h₀.toGuests.of_tsks hs.tsks hs.ready
  owner_pos := hs.owner ▸ h₀.owner_pos
  owner_lt := hs.owner ▸ hs.tsks ▸ h₀.owner_lt

/-- The task that runs has the board it had. -/
theorem Same.boardOf (hs : Same h h') : h'.boardOf h'.cur = h.boardOf h.cur := by
  rw [Hyp.boardOf, hs.tsks, hs.cur, Hyp.boardOf]

theorem same_setBoard (h : Hyp) {b : Board} (hb : b.Ready) :
    Same h (h.setBoard getPlatformBoard b) := by
  refine ⟨rfl, rfl, rfl, fun _ => ?_⟩
  change (Function.update h.boards getPlatformBoard b getPlatformBoard).Ready
  rwa [Function.update_self]

/-! ### Flushing, entering and leaving -/

/-- Flushing the console of a guest. -/
theorem Guests.flushConsole (h₀ : Guests h) (ht₀ : 0 < t) (ht : t < h.tsks.length) :
    ∃ h', h.flushConsole t = .ok h' ∧ Same h h' ∧
      ∀ ref, (h'.boards ref).console.map Console.input =
        (h.boards ref).console.map Console.input := by
  obtain ⟨console, hcon, hok⟩ := h₀.consoleOf ht₀ ht
  obtain ⟨out, hflush, hout, -⟩ := Hyp.flushConsole_of_ok hcon hok.out
  have hs := same_setBoard h (b := { h.boards getPlatformBoard with
    console := some { console with out } }) ⟨_, rfl, hok.input, hout⟩
  refine ⟨_, hflush, ⟨hs.tsks, hs.cur, hs.owner, hs.ready⟩, fun ref => ?_⟩
  change Option.map Console.input (Function.update h.boards getPlatformBoard _ ref).console = _
  by_cases hr : ref = getPlatformBoard
  · rw [hr, Function.update_self, (Hyp.consoleOf_ok hcon).2]
    rfl
  · rw [Function.update_of_ne hr]

theorem Inv.flushOwner (h₀ : Inv h) : ∃ h', h.flushOwner = .ok h' ∧ Same h h' := by
  rw [Hyp.flushOwner]
  split_ifs with howner
  · obtain ⟨h', hflush, hs, -⟩ := h₀.flushConsole (howner ▸ h₀.owner_pos) (howner ▸ h₀.owner_lt)
    exact ⟨h', hflush, hs⟩
  · exact ⟨h, rfl, rfl, rfl, rfl, id⟩

theorem Inv.vmEnter (h₀ : Inv h) : ∃ r, h.vmEnter = .ok r ∧ Same h r.2 := by
  obtain ⟨h', hflush, hs⟩ := h₀.flushOwner
  obtain ⟨p, hp⟩ := h₀.irqPending
  refine ⟨(p, h'), ?_, hs⟩
  rw [Hyp.vmEnter, hp, Lib.ok_bind, hflush]
  rfl

/-! ### Accesses -/

theorem Guests.mmioRead (h₀ : Guests h) (k : BoardKind) (addr : ℕ) :
    Lib.Gives (h.mmioRead k addr) (fun r => Same h r.2)
      (fun f => k.Outside addr ∧ f = .outOfBounds) := by
  rw [Hyp.mmioRead]
  split
  · exact .of_ok ⟨rfl, rfl, rfl, id⟩
  · rename_i ref hb
    obtain ⟨ht₀, ht⟩ := h₀.guest hb
    obtain rfl : getPlatformBoard = ref := Option.some.inj ((h₀.board _ ht₀ ht).symm.trans hb)
    have hread := (h₀.ready (Nat.lt_of_le_of_lt ht₀ ht)).mmioRead k addr
    exact hread.bind fun r hr => .of_ok (same_setBoard h hr)

theorem Guests.mmioWrite (h₀ : Guests h) (k : BoardKind) (addr val : ℕ) :
    Lib.Gives (h.mmioWrite k addr val) (Same h) (k.WriteStops addr) := by
  rw [Hyp.mmioWrite]
  split
  · exact .of_ok ⟨rfl, rfl, rfl, id⟩
  · rename_i ref hb
    obtain ⟨ht₀, ht⟩ := h₀.guest hb
    obtain rfl : getPlatformBoard = ref := Option.some.inj ((h₀.board _ ht₀ ht).symm.trans hb)
    have hwrite := (h₀.ready (Nat.lt_of_le_of_lt ht₀ ht)).mmioWrite k addr val
    exact hwrite.bind fun b hb => .of_ok (same_setBoard h hb)

/-! ### Receiving a byte -/

/-- **A byte that is not part of a command.** -/
theorem Inv.receive_plain (h₀ : Inv h) (hp : Plain h c) :
    ∃ h', h.receive c = .ok h' ∧ Same h h' ∧ Delivered h h' c := by
  obtain ⟨tsk, htsk, -⟩ := h₀.ownerOk
  obtain ⟨console, hcon, hok⟩ := h₀.consoleOf h₀.owner_pos h₀.owner_lt
  have hreceive : h.receive c = if tsk.state = .RUNNING then
      .ok (h.setBoard getPlatformBoard { h.boards getPlatformBoard with
        console := some { console with input := (console.input.push c).2 } }) else .ok h := by
    rw [Hyp.receive, hp.1, if_neg Bool.false_ne_true, if_neg hp.2]
    simp only [htsk, hcon, Lib.ok_bind, Lib.pure_eq_ok]
  have hself : console.input.full = true → h.setBoard getPlatformBoard
      { h.boards getPlatformBoard with
        console := some { console with input := (console.input.push c).2 } } = h := by
    intro hfull
    refine Hyp.setBoard_self ?_
    rw [Queue.push, if_pos hfull, ← (Hyp.consoleOf_ok hcon).2]
  by_cases hrun : tsk.state = .RUNNING
  · rw [hreceive, if_pos hrun]
    refine ⟨_, rfl, same_setBoard h ⟨_, rfl, hok.input.push c, hok.out⟩, fun _ => ?_,
      fun hc => absurd hp hc⟩
    exact ⟨tsk, _, console, htsk, hcon,
      fun _ hroom => ⟨_, hok.input.contents_push hroom c, rfl⟩,
      fun hnot => hself (hnot.resolve_left (not_not.mpr hrun))⟩
  · rw [hreceive, if_neg hrun]
    refine ⟨h, rfl, ⟨rfl, rfl, rfl, id⟩, fun _ => ?_, fun hc => absurd hp hc⟩
    exact ⟨tsk, _, console, htsk, hcon, fun h => absurd h hrun, fun _ => rfl⟩

/-- Changing the flags, and the owner to another guest. -/
theorem Inv.flags (h₀ : Inv h) (comming switch_req : Bool) {pid : ℕ} (hpid₀ : 0 < pid)
    (hpid : pid < h.tsks.length) :
    Inv { h with
      console_forwarded_pid := pid
      hypervisor_command_comming := comming
      hypervisor_command_switch_req := switch_req } :=
  ⟨⟨h₀.pos, h₀.init, h₀.board, h₀.ready⟩, hpid₀, hpid⟩

/-- **A digit after `?s`**, other than that of the init task. -/
theorem Inv.switchConsole (h₀ : Inv h) (hc : c ≠ 0x30) : ∃ h', h.switchConsole c = .ok h' ∧
    Inv h' ∧ ∀ ref, (h'.boards ref).console.map Console.input =
      (h.boards ref).console.map Console.input := by
  have hdone := h₀.flags false false h₀.owner_pos h₀.owner_lt
  rw [Hyp.switchConsole]
  split_ifs with hdigit
  · dsimp only
    split
    · exact ⟨_, rfl, hdone, fun _ => rfl⟩
    · rename_i tsk htsk
      have hdigit' : 0x30 ≤ c := of_decide_eq_true (Bool.and_eq_true_iff.mp hdigit).1
      have hpid : c - 0x30 < h.tsks.length := (List.getElem?_eq_some_iff.mp htsk).1
      have howner := h₀.flags false false (by omega : 0 < c - 0x30) hpid
      split
      · obtain ⟨h', hflush, hs, hinput⟩ := howner.flushConsole howner.owner_pos howner.owner_lt
        exact ⟨h', hflush, howner.of_same hs, hinput⟩
      · exact ⟨_, rfl, howner, fun _ => rfl⟩
  · exact ⟨_, rfl, hdone, fun _ => rfl⟩

/-- **A byte of a command.** -/
theorem Inv.receive_command (h₀ : Inv h) (hp : ¬Plain h c) (hn : Named h (.receive c)) :
    ∃ h', h.receive c = .ok h' ∧ Inv h' ∧ Delivered h h' c := by
  suffices hok : ∃ h', h.receive c = .ok h' ∧ Inv h' ∧ ∀ ref,
      (h'.boards ref).console.map Console.input = (h.boards ref).console.map Console.input by
    obtain ⟨h', hreceive, hinv, hinput⟩ := hok
    exact ⟨h', hreceive, hinv, fun hc => absurd hc hp, fun _ => hinput⟩
  have hflags := fun comming switch_req => h₀.flags comming switch_req h₀.owner_pos h₀.owner_lt
  rw [Hyp.receive]
  by_cases hcomming : h.hypervisor_command_comming = true
  · rw [if_pos hcomming]
    split
    case isTrue hreq =>
      exact h₀.switchConsole fun hc => hn hcomming hreq (congrArg Event.receive hc)
    split
    · exact ⟨_, rfl, hflags _ _, fun _ => rfl⟩
    split
    · exact ⟨_, rfl, hflags _ _, fun _ => rfl⟩
    · exact ⟨h, rfl, h₀, fun _ => rfl⟩
  · have hstart : c = 0x3f := by
      by_contra hne
      exact hp ⟨Bool.not_eq_true _ ▸ hcomming, hne⟩
    rw [if_neg hcomming, if_pos hstart]
    exact ⟨_, rfl, hflags _ _, fun _ => rfl⟩

theorem Inv.receive (h₀ : Inv h) (hn : Named h (.receive c)) :
    ∃ h', h.receive c = .ok h' ∧ Inv h' ∧ Delivered h h' c := by
  by_cases hp : Plain h c
  · obtain ⟨h', hreceive, hs, hdelivered⟩ := h₀.receive_plain hp
    exact ⟨h', hreceive, h₀.of_same hs, hdelivered⟩
  · exact h₀.receive_command hp hn

/-- **`?s0`** follows the null board of the init task, or leaves it with the console. -/
theorem receive_init (h₀ : Inv h) {e : Event} (hn : ¬Named h e) :
    (∃ h', step k h e = .ok h' ∧ ¬OwnerOk h') ∨ step k h e = .error .nullDeref := by
  rw [Named, Classical.not_imp, Classical.not_imp, not_not] at hn
  obtain ⟨hcomming, hreq, rfl⟩ := hn
  obtain ⟨tsk, htsk⟩ : ∃ tsk, h.tsks[0]? = some tsk := ⟨_, List.getElem?_eq_getElem h₀.pos⟩
  have hboard : tsk.board = none := by
    have hinit := h₀.init
    rwa [Hyp.boardOf, htsk] at hinit
  have hstep : step k h (.receive 0x30) = h.switchConsole 0x30 := by
    rw [step, Hyp.receive, if_pos hcomming, if_pos hreq]
  have hdigit : Hyp.isdigit 0x30 = true := rfl
  have hpid : h.tsks[0x30 - 0x30]? = some tsk := htsk
  rw [hstep, Hyp.switchConsole, if_pos hdigit]
  simp only [hpid]
  by_cases hrun : tsk.state = .RUNNING
  · -- its console is flushed, through the null board
    right
    rw [if_pos hrun]
    simp only [Hyp.flushConsole, Hyp.consoleOf, Hyp.boardOf, hpid, Option.bind_some, hboard]
    rfl
  · left
    rw [if_neg hrun]
    refine ⟨_, rfl, ?_⟩
    rintro ⟨tsk', htsk', hne⟩
    obtain rfl := Option.some.inj (htsk.symm.trans htsk')
    exact hne hboard

/-! ### Steps and runs -/

/-- A task that exits keeps its board. -/
theorem boardOf_exitTask (h : Hyp) (t u : TaskId) : (exitTask h t).boardOf u = h.boardOf u := by
  rw [Hyp.boardOf, exitTask, List.getElem?_modify, Hyp.boardOf]
  split
  · cases h.tsks[u]? <;> rfl
  · cases h.tsks[u]? <;> rfl

theorem length_exitTask (h : Hyp) (t : TaskId) : (exitTask h t).tsks.length = h.tsks.length :=
  List.length_modify ..

theorem Inv.exitTask (h₀ : Inv h) (t : TaskId) : Inv (exitTask h t) where
  pos := length_exitTask h t ▸ h₀.pos
  init := (boardOf_exitTask h t 0).trans h₀.init
  board u hu₀ hu := (boardOf_exitTask h t u).trans (h₀.board u hu₀ (length_exitTask h t ▸ hu))
  ready hlen := h₀.ready (length_exitTask h t ▸ hlen)
  owner_pos := h₀.owner_pos
  owner_lt := length_exitTask h t ▸ h₀.owner_lt

/-- No step stops because of the console. -/
theorem Stops.harmless {e : Event} {f : Fault} (hf : Stops k h e f) : Harmless f := by
  cases e with
  | createTask => exact hf.2 ▸ ⟨nofun, nofun⟩
  | read addr => exact hf.2 ▸ ⟨nofun, nofun⟩
  | write addr val =>
    rcases hf with ⟨-, rfl⟩ | ⟨-, -, hpanic⟩
    · exact ⟨nofun, nofun⟩
    · exact ⟨fun hc => (by subst hc; exact hpanic), fun hc => (by subst hc; exact hpanic)⟩
  | exit t | switch next | vmLeave | vmEnter | receive c => exact hf.elim

/-- **Every event keeps the owner a guest**, unless the init task is named. -/
theorem Inv.step (h₀ : Inv h) {e : Event} (hn : Named h e) :
    Lib.Gives (step k h e) Inv (Stops k h e) := by
  cases e with
  | createTask =>
    refine ⟨fun h' hok => ⟨h₀.toGuests.createTask hok, ?_, ?_⟩, fun f hf => ?_⟩
    · obtain rfl := createTask_ok hok
      exact h₀.owner_pos
    · obtain rfl := createTask_ok hok
      exact h₀.owner_lt.trans_le (by rw [List.length_append]; exact Nat.le_add_right ..)
    · rw [Consoles.step, Hyp.createTask] at hf
      split at hf
      · cases hf
      · rename_i hfull
        exact ⟨not_lt.mp hfull, (Except.error.inj hf).symm⟩
  | exit t => exact .of_ok (h₀.exitTask t)
  | switch next => exact .of_ok ⟨⟨h₀.pos, h₀.init, h₀.board, h₀.ready⟩, h₀.owner_pos, h₀.owner_lt⟩
  | vmLeave =>
    obtain ⟨h', hok, hs⟩ := h₀.flushOwner
    rw [Consoles.step, Hyp.vmLeave, hok]
    exact .of_ok (h₀.of_same hs)
  | vmEnter =>
    obtain ⟨r, hok, hs⟩ := h₀.vmEnter
    rw [Consoles.step, hok]
    exact .of_ok (h₀.of_same hs)
  | read addr => exact (h₀.toGuests.mmioRead k addr).bind fun r hs => .of_ok (h₀.of_same hs)
  | write addr val => exact (h₀.toGuests.mmioWrite k addr val).mono fun h' hs => h₀.of_same hs
  | receive c =>
    obtain ⟨h', hok, hinv, -⟩ := h₀.receive hn
    rw [Consoles.step, hok]
    exact .of_ok hinv

/-- **Creating `n` tasks** leaves the console to task `1`. -/
theorem created_spec {n : ℕ} (h₀ : Guests h)
    (hcreated : Lib.runFrom (Consoles.step k) h (List.replicate n .createTask) = .ok h') :
    Guests h' ∧ h'.tsks.length = h.tsks.length + n ∧
      h'.console_forwarded_pid = h.console_forwarded_pid := by
  induction n generalizing h with
  | zero =>
    obtain rfl := Except.ok.inj hcreated
    exact ⟨h₀, rfl, rfl⟩
  | succ n ih =>
    rw [List.replicate_succ, Lib.runFrom] at hcreated
    cases hst : Consoles.step k h .createTask with
    | error f =>
      rw [hst] at hcreated
      cases hcreated
    | ok u =>
      rw [hst] at hcreated
      obtain ⟨hg, hlen, howner⟩ := ih (h₀.createTask hst) hcreated
      obtain rfl := createTask_ok hst
      rw [List.length_append, List.length_singleton] at hlen
      exact ⟨hg, by omega, howner⟩

/-- **Handling the console is safe exactly when there is a guest and `?s0` is never
received.** For every number of guests and every run. -/
theorem console_safe_iff (k : BoardKind) (n : ℕ) {h : Hyp}
    (hcreated : Lib.runFrom (Consoles.step k) .boot (List.replicate n .createTask) = .ok h)
    (es : List Event) : Safe k h es ↔ 0 < n ∧ Lib.Each (Consoles.step k) Named h es := by
  obtain ⟨hg, hlen, howner⟩ := created_spec guests_boot hcreated
  have hboot : Hyp.boot.tsks.length = 1 := rfl
  have hone : h.console_forwarded_pid = 1 := howner
  constructor
  · intro hsafe
    have hpos : 0 < n := by
      -- with no guest the owner is nobody
      obtain ⟨tsk, htsk, -⟩ := hsafe.owner.head
      have := (List.getElem?_eq_some_iff.mp htsk).1
      omega
    have hinv : Inv h := ⟨hg, by omega, by omega⟩
    refine ⟨hpos, (Lib.along_iff_each (I := Inv) (L := fun _ _ => True)
      (fun s hs => hs.ownerOk) (fun s e t hs _ hn ht => (hs.step hn).ok t ht)
      (fun s e f hs _ hn hf => ((hs.step hn).error f hf).harmless) (fun s e hs _ hn => ?_) hinv
      (hsafe.delivered.mono fun _ _ _ => trivial)).mp hsafe.owner⟩
    exact (receive_init hs hn).imp_right fun hf => ⟨_, hf, fun h => h.1 rfl⟩
  · rintro ⟨hpos, hnamed⟩
    have hinv : Inv h := ⟨hg, by omega, by omega⟩
    have halong := Lib.along_of_each (fun s e t hs hn ht => (Inv.step hs hn).ok t ht)
      (fun s e f hs hn hf => ((hs.step hn).error f hf).harmless) hinv hnamed
    refine ⟨halong.mono fun s hs => hs.ownerOk,
      .of_inv (I := Inv) (fun s e t hs hn ht => (hs.step hn).ok t ht)
        (fun s e hs hn => (hs.step hn).error) hinv hnamed,
      .of_inv (I := Inv) (fun s e t hs hn ht => (hs.step hn).ok t ht)
        (fun s e hs hn => ?_) hinv hnamed⟩
    rintro c rfl s' hs'
    obtain ⟨t, ht, -, hdelivered⟩ := hs.receive hn
    obtain rfl := Except.ok.inj (ht.symm.trans hs')
    exact hdelivered

/-- Two guests, of which the second is given the console and a byte. -/
theorem console_safe_two_guests : ∃ h,
    Lib.runFrom (Consoles.step .qemu) .boot (List.replicate 2 .createTask) = .ok h ∧
      Safe .qemu h [.receive 0x3f, .receive 0x73, .receive 0x32, .receive 0x61, .vmEnter] := by
  obtain ⟨h, hcreated, hnamed⟩ := Lib.exists_ok_of_any
    (P := fun h : Hyp => Lib.Each (Consoles.step .qemu) Named h
      [.receive 0x3f, .receive 0x73, .receive 0x32, .receive 0x61, .vmEnter])
    (x := Lib.runFrom (Consoles.step .qemu) .boot (List.replicate 2 .createTask))
    (by decide +kernel)
  exact ⟨h, hcreated, (console_safe_iff .qemu 2 hcreated _).mpr ⟨Nat.two_pos, hnamed⟩⟩

/-- The fault that bytes lead to. -/
def faultOf (h : Hyp) (bytes : List ℕ) : Option Fault :=
  match Lib.runFrom (Consoles.step .qemu) h (bytes.map .receive) with
  | .ok _ => none
  | .error f => some f

/-- **A null pointer is followed**: with no guest at the first byte, and with one guest when
`?s0` is received. -/
theorem console_follows_null : faultOf .boot [0x61] = some .nullDeref ∧
    ∃ h, Lib.runFrom (Consoles.step .qemu) .boot (List.replicate 1 .createTask) = .ok h ∧
      faultOf h [0x3f, 0x73, 0x30] = some .nullDeref ∧
      ¬Safe .qemu h ([0x3f, 0x73, 0x30].map .receive) := by
  obtain ⟨h, hcreated, hfault⟩ := Lib.exists_ok_of_any
    (P := fun h : Hyp => faultOf h [0x3f, 0x73, 0x30] = some .nullDeref)
    (x := Lib.runFrom (Consoles.step .qemu) .boot (List.replicate 1 .createTask))
    (by decide +kernel)
  refine ⟨by decide +kernel, h, hcreated, hfault, fun hsafe => ?_⟩
  rw [faultOf] at hfault
  split at hfault
  · cases hfault
  · rename_i f hf
    exact (hsafe.owner.fault hf).1 (Option.some.inj hfault)

end Consoles

end Evisor
