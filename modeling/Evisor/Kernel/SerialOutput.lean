import Evisor.Kernel.ConsoleRun
import Evisor.Kernel.DevicePrivacy
import Evisor.Platforms.SerialInput

/-!
# What is sent on the virtual serial line

A byte that is sent waits in the output queue of the console, until the task that owns the
console enters or leaves its guest. A guest that does not own it fills the queue; the driver
of a PL011 would find `TXFF` set in the flags then and wait. But nothing sets `TXFF`, and a
byte sent to a full queue is dropped.

`Evisor.Output.Line` is the system with what the guests have sent. A byte is lost, or a guest
told of room there is not, exactly when a task that does not own the console meets a full
queue, or a task is created while a byte waits (`Evisor.Output.no_output_lost_iff`).
-/

namespace Evisor

namespace Output

open Devices (Event System)

open Consoles (Guests)

/-- The system, and what has been sent. -/
structure Line where
  sys : System
  /-- A guest's last look at the flags showed `TXFF` clear, and it has not sent since. -/
  room : TaskId → Bool
  /-- The bytes that have been written to the data register. -/
  sent : List ℕ

/-- After `Sched::Init`. -/
def Line.boot : Line := ⟨.boot, fun _ => false, []⟩

/-- The bit of the flags that says that no more can be sent. -/
def txff (flags : ℕ) : Bool := flags.testBit 5

/-- The register of the serial line that is at an address. -/
def uartAt (k : BoardKind) (addr : ℕ) : Option UartReg :=
  match k.window addr with
  | .uart offset => uartReg offset
  | _ => none

/-- The last value a task has read from its devices shows `TXFF` clear. -/
def showsRoom (sys : System) (t : TaskId) : Bool := (sys.reads t).head?.any fun v => !txff v

variable (k : BoardKind)

/-- The bytes an event sends. -/
def sentBy : Event → List ℕ
  | .write _ addr val => if uartAt k addr = some .UARTDR then [val &&& 0xff] else []
  | _ => []

/-- One event. -/
def step (s : Line) (e : Event) : Except Fault Line := do
  let sys ← Devices.step k s.sys e
  return {
    sys
    room := match e with
      | .read t addr =>
        if uartAt k addr = some .UARTFR then Function.update s.room t (showsRoom sys t) else s.room
      | .write t addr _ =>
        if uartAt k addr = some .UARTDR then Function.update s.room t false else s.room
      | _ => s.room
    sent := s.sent ++ sentBy k e }

/-- What is given: an access is made by the guest that runs, and it writes the data register
only after the flags have shown `TXFF` clear. -/
def Legal (s : Line) (e : Event) : Prop :=
  Devices.Legal s.sys e ∧ match e with
    | .read t _ => s.sys.hyp.boardOf t ≠ none
    | .write t addr _ => s.sys.hyp.boardOf t ≠ none ∧
        (uartAt k addr = some .UARTDR → s.room t = true)
    | _ => True

/-- The bytes that wait to be printed. -/
def waiting (h : Hyp) : List ℕ :=
  match (h.boards getPlatformBoard).console with
  | none => []
  | some console => console.out.contents

/-- The queue they wait in takes no more. -/
def full (h : Hyp) : Bool :=
  match (h.boards getPlatformBoard).console with
  | none => false
  | some console => console.out.full

/-- What has been printed, and what will be. -/
def output (h : Hyp) : List ℕ := h.printed ++ (waiting h).map (· &&& 0xff)

/-- **Nothing is lost**: every byte sent has been printed or waits, in that order, and when the
task that runs owns the console none waits. -/
structure NoneLost (s : Line) : Prop where
  output : output s.sys.hyp = s.sent
  drained : s.sys.hyp.cur = s.sys.hyp.console_forwarded_pid → s.sys.hyp.printed = s.sent

/-- **The flags are honest**: a guest that reads them, after `VmLeave`, finds `TXFF` clear
only if there is room. -/
def Honest (s : Line) (e : Event) : Prop :=
  ∀ t addr, e = .read t addr → uartAt k addr = some .UARTFR →
    ∀ h₁ res h₂, s.sys.hyp.vmLeave = .ok h₁ → h₁.mmioRead k addr = .ok (some res, h₂) →
    txff res = false → full h₁ = false

/-- The task that owns the console is the init task, or none. -/
def Boardless (h : Hyp) : Prop := h.boardOf h.console_forwarded_pid = none

/-- **The steps that may stop**: one that creates a task the table has no entry for, one that
follows the board of a task that has none and owns the console, or is given it by `?s0`, and
an access of a guest that its board does not take. -/
def Stops (s : Line) : Event → Fault → Prop
  | .createTask, f => kNrTasks ≤ s.sys.hyp.tsks.length ∧ f = .outOfBounds
  | .switch _, f => Boardless s.sys.hyp ∧ f = .nullDeref
  | .read _ addr, f => k.Outside addr ∧ f = .outOfBounds
  | .write _ addr _, f => k.WriteStops addr f
  | .receive bytes, f => (Boardless s.sys.hyp ∨ 0x30 ∈ bytes) ∧ f = .nullDeref

/-- **No output is lost** along a run. -/
structure Kept (s : Line) (es : List Event) : Prop where
  none_lost : Lib.Along (step k) NoneLost (fun _ => True) s es
  /-- A step stops only where it may. -/
  stops : Lib.Each (step k) (fun s e => ∀ f, step k s e = .error f → Stops k s e f) s es
  honest : Lib.Each (step k) (Honest k) s es

/-- **A step that meets no full queue**: a guest that does not own the console looks at the
flags while there is room, or while `TXFF` is set, and sends while there is room; and a task
is created while no byte waits. -/
def Roomy (s : Line) : Event → Prop
  | .read t addr => uartAt k addr = some .UARTFR → t ≠ s.sys.hyp.console_forwarded_pid →
      full s.sys.hyp = true → txff ((s.sys.hyp.boards getPlatformBoard).uart .UARTFR) = true
  | .write t addr _ => uartAt k addr = some .UARTDR → t ≠ s.sys.hyp.console_forwarded_pid →
      full s.sys.hyp = false
  | .createTask => s.sys.hyp.tsks.length < kNrTasks → waiting s.sys.hyp = []
  | _ => True

instance (s : Line) : ∀ e, Decidable (Legal k s e)
  | .read _ _ | .write _ _ _ => inferInstanceAs (Decidable (_ ∧ _))
  | .createTask | .switch _ | .receive _ => inferInstanceAs (Decidable (_ ∧ True))

instance (s : Line) : ∀ e, Decidable (Roomy k s e)
  | .read _ _ | .write _ _ _ | .createTask => inferInstanceAs (Decidable (_ → _))
  | .switch _ | .receive _ => .isTrue trivial

variable {k} {h h' : Hyp} {s t : Line} {u : TaskId} {addr val : ℕ}

/-! ### What keeps the output -/

/-- **What sends some bytes**, and loses none. -/
structure Sends (bytes : List ℕ) (h h' : Hyp) : Prop where
  tsks : h'.tsks = h.tsks
  cur : h'.cur = h.cur
  ready : (h.boards getPlatformBoard).Ready → (h'.boards getPlatformBoard).Ready
  output : output h' = output h ++ bytes

theorem Sends.of_eq (htsks : h'.tsks = h.tsks) (hcur : h'.cur = h.cur)
    (hboards : h'.boards = h.boards) (hprinted : h'.printed = h.printed) : Sends [] h h' := by
  refine ⟨htsks, hcur, hboards ▸ id, ?_⟩
  rw [List.append_nil, Output.output, Output.output, waiting, waiting, hboards, hprinted]

theorem Sends.trans {bytes bytes' : List ℕ} {h₁ : Hyp} (hs : Sends bytes h h₁)
    (hs' : Sends bytes' h₁ h') : Sends (bytes ++ bytes') h h' :=
  ⟨hs'.tsks.trans hs.tsks, hs'.cur.trans hs.cur, fun hr => hs'.ready (hs.ready hr), by
    rw [hs'.output, hs.output, List.append_assoc]⟩

theorem Sends.guests {bytes : List ℕ} (hs : Sends bytes h h') (h₀ : Guests h) : Guests h' :=
  h₀.of_tsks hs.tsks hs.ready

theorem waiting_of_console {console : Console}
    (hcon : (h.boards getPlatformBoard).console = some console) :
    waiting h = console.out.contents := by
  rw [waiting, hcon]

theorem full_of_console {console : Console}
    (hcon : (h.boards getPlatformBoard).console = some console) : full h = console.out.full := by
  rw [full, hcon]

theorem waiting_setBoard (h : Hyp) {b : Board} {console : Console}
    (hcon : b.console = some console) :
    waiting (h.setBoard getPlatformBoard b) = console.out.contents := by
  refine waiting_of_console ?_
  change (Function.update h.boards getPlatformBoard b getPlatformBoard).console = _
  rwa [Function.update_self]

theorem ready_setBoard (h : Hyp) {b : Board} (hb : b.Ready) :
    ((h.setBoard getPlatformBoard b).boards getPlatformBoard).Ready := by
  change (Function.update h.boards getPlatformBoard b getPlatformBoard).Ready
  rwa [Function.update_self]

/-- Writing a board with which some bytes wait behind the others. -/
theorem sends_setBoard {b : Board} {console console' : Console} (bytes : List ℕ)
    (hcon : (h.boards getPlatformBoard).console = some console) (hcon' : b.console = some console')
    (hok : console'.Ok) (hout : console'.out.contents = console.out.contents ++ bytes) :
    Sends (bytes.map (· &&& 0xff)) h (h.setBoard getPlatformBoard b) := by
  refine ⟨rfl, rfl, fun _ => ready_setBoard h ⟨_, hcon', hok⟩, ?_⟩
  rw [output, output, waiting_setBoard h hcon', waiting_of_console hcon, hout, List.map_append,
    List.append_assoc]
  rfl

/-- Writing a board with which the same bytes wait. -/
theorem sends_setBoard_nil {b : Board} {console console' : Console}
    (hcon : (h.boards getPlatformBoard).console = some console) (hcon' : b.console = some console')
    (hok : console'.Ok) (hout : console'.out = console.out) :
    Sends [] h (h.setBoard getPlatformBoard b) :=
  sends_setBoard [] hcon hcon' hok (by rw [hout, List.append_nil])

/-- The console that is followed. -/
theorem console_of_ok (h₀ : Guests h) {r : BoardRef × Console} (hcon : h.consoleOf u = .ok r) :
    r.1 = getPlatformBoard ∧ (h.boards getPlatformBoard).console = some r.2 ∧ r.2.Ok := by
  obtain ⟨hboard, hconsole⟩ := Hyp.consoleOf_ok hcon
  obtain ⟨hu₀, hu⟩ := h₀.guest hboard
  obtain ⟨console, hcon', hok⟩ := h₀.consoleOf hu₀ hu
  obtain rfl := Except.ok.inj (hcon.symm.trans hcon')
  exact ⟨rfl, hconsole, hok⟩

/-! ### Flushing -/

/-- **Flushing a console** loses nothing, and nothing waits then. -/
theorem flushConsole_sends (h₀ : Guests h) (hok : h.flushConsole u = .ok h') :
    Sends [] h h' ∧ waiting h' = [] ∧ h'.console_forwarded_pid = h.console_forwarded_pid := by
  obtain ⟨⟨ref, console⟩, hcon, -⟩ := Lib.bind_eq_ok.mp hok
  obtain ⟨rfl, hconsole, hq⟩ := console_of_ok h₀ hcon
  obtain ⟨out, hflush, hout, hnil⟩ := Hyp.flushConsole_of_ok hcon hq.out
  obtain rfl := Except.ok.inj (hflush.symm.trans hok)
  set b : Board := { h.boards getPlatformBoard with console := some { console with out } }
  have hwait : waiting (h.flushed getPlatformBoard console out) = [] :=
    (waiting_setBoard h (b := b) rfl).trans hnil
  refine ⟨⟨rfl, rfl, fun _ => ready_setBoard h (b := b) ⟨_, rfl, hq.input, hout⟩, ?_⟩, hwait, rfl⟩
  rw [List.append_nil, output, hwait, output, waiting_of_console hconsole]
  exact List.append_nil _

/-- **Leaving a guest**, or entering it. -/
theorem flushOwner_sends (h₀ : Guests h) (hok : h.flushOwner = .ok h') :
    Sends [] h h' ∧ h'.console_forwarded_pid = h.console_forwarded_pid ∧
      (h.cur = h.console_forwarded_pid → waiting h' = []) ∧
      (h.cur ≠ h.console_forwarded_pid → h' = h) := by
  rw [Hyp.flushOwner] at hok
  split at hok
  case isTrue howner =>
    obtain ⟨hk, hwait, hpid⟩ := flushConsole_sends h₀ hok
    exact ⟨hk, hpid, fun _ => hwait, fun hne => absurd howner hne⟩
  case isFalse hne =>
    obtain rfl := Except.ok.inj hok
    exact ⟨.of_eq rfl rfl rfl rfl, rfl, fun howner => absurd howner hne, fun _ => rfl⟩

/-- **Entering a guest.** -/
theorem enter_sends {sys sys' : System} (h₀ : Guests sys.hyp) (hok : sys.enter = .ok sys') :
    Sends [] sys.hyp sys'.hyp ∧ sys'.reads = sys.reads ∧
      (sys'.hyp.cur = sys'.hyp.console_forwarded_pid → waiting sys'.hyp = []) := by
  obtain ⟨⟨p, hyp⟩, henter, hok⟩ := Lib.bind_eq_ok.mp hok
  obtain ⟨p', -, henter⟩ := Lib.bind_eq_ok.mp henter
  obtain ⟨hyp', hflush, henter⟩ := Lib.bind_eq_ok.mp henter
  obtain ⟨rfl, rfl⟩ := Prod.mk.inj (Except.ok.inj henter)
  obtain rfl := Except.ok.inj hok
  obtain ⟨hk, hpid, hwait, -⟩ := flushOwner_sends h₀ hflush
  exact ⟨hk, rfl, fun howner => hwait (hk.cur.symm.trans (howner.trans hpid))⟩

/-- **Entering a guest that does not own the console** touches no device. -/
theorem enter_of_ne {sys : System} (h₀ : Guests sys.hyp)
    (hne : sys.hyp.cur ≠ sys.hyp.console_forwarded_pid) :
    ∃ sys', sys.enter = .ok sys' ∧ sys'.hyp = sys.hyp ∧ sys'.reads = sys.reads := by
  obtain ⟨p, hp⟩ := h₀.irqPending
  refine ⟨sys.entered p sys.hyp, ?_, rfl, rfl⟩
  rw [System.enter, Hyp.vmEnter, hp, Lib.ok_bind, Hyp.flushOwner, if_neg hne]
  rfl

/-! ### Receiving -/

/-- **Receiving a byte** sends none. -/
theorem receive_sends (h₀ : Guests h) {c : ℕ} (hok : h.receive c = .ok h') : Sends [] h h' := by
  rw [Hyp.receive] at hok
  split at hok
  · split at hok
    · rw [Hyp.switchConsole] at hok
      split at hok
      · dsimp only at hok
        split at hok
        · obtain rfl := Except.ok.inj hok
          exact .of_eq rfl rfl rfl rfl
        split at hok
        · -- the console is given to another task, and flushed
          set h₁ : Hyp := { h with
            console_forwarded_pid := c - 0x30
            hypervisor_command_comming := false
            hypervisor_command_switch_req := false }
          have hs : Sends [] h h₁ := .of_eq rfl rfl rfl rfl
          exact hs.trans (flushConsole_sends (hs.guests h₀) hok).1
        · obtain rfl := Except.ok.inj hok
          exact .of_eq rfl rfl rfl rfl
      · obtain rfl := Except.ok.inj hok
        exact .of_eq rfl rfl rfl rfl
    split at hok
    · obtain rfl := Except.ok.inj hok
      exact .of_eq rfl rfl rfl rfl
    split at hok
    · obtain rfl := Except.ok.inj hok
      exact .of_eq rfl rfl rfl rfl
    · obtain rfl := Except.ok.inj hok
      exact .of_eq rfl rfl rfl rfl
  split at hok
  · obtain rfl := Except.ok.inj hok
    exact .of_eq rfl rfl rfl rfl
  split at hok
  · cases hok
  split at hok
  · -- the byte is put into the other queue
    obtain ⟨⟨ref, console⟩, hcon, hok⟩ := Lib.bind_eq_ok.mp hok
    obtain ⟨rfl, hconsole, hq⟩ := console_of_ok h₀ hcon
    obtain rfl := Except.ok.inj hok
    exact sends_setBoard_nil hconsole rfl ⟨hq.input.push c, hq.out⟩ rfl
  · obtain rfl := Except.ok.inj hok
    exact .of_eq rfl rfl rfl rfl

theorem foldlM_receive_sends {bytes : List ℕ} (h₀ : Guests h)
    (hok : bytes.foldlM Hyp.receive h = .ok h') : Sends [] h h' := by
  induction bytes generalizing h with
  | nil =>
    obtain rfl := Except.ok.inj hok
    exact .of_eq rfl rfl rfl rfl
  | cons c bytes ih =>
    rw [List.foldlM_cons] at hok
    obtain ⟨h₁, hc, hok⟩ := Lib.bind_eq_ok.mp hok
    have hs := receive_sends h₀ hc
    exact hs.trans (ih (hs.guests h₀) hok)

/-! ### Accesses -/

/-- The board that a guest accesses. -/
theorem board_of_guest (h₀ : Guests h) {ref : BoardRef} (hb : h.boardOf h.cur = some ref) :
    ref = getPlatformBoard ∧ ∃ console, (h.boards getPlatformBoard).console = some console ∧
      console.Ok := by
  obtain ⟨ht₀, ht⟩ := h₀.guest hb
  exact ⟨Option.some.inj (hb.symm.trans (h₀.board _ ht₀ ht)),
    h₀.ready (Nat.lt_of_le_of_lt ht₀ ht)⟩

/-- **A read** sends nothing. -/
theorem mmioRead_sends (h₀ : Guests h) {r : Option ℕ × Hyp} (hok : h.mmioRead k addr = .ok r) :
    Sends [] h r.2 := by
  rw [Hyp.mmioRead] at hok
  split at hok
  · obtain rfl := Except.ok.inj hok
    exact .of_eq rfl rfl rfl rfl
  · rename_i ref hb
    obtain ⟨rfl, console, hcon, hq⟩ := board_of_guest h₀ hb
    obtain ⟨⟨v, b⟩, hread, hok⟩ := Lib.bind_eq_ok.mp hok
    obtain rfl := Except.ok.inj hok
    rw [Board.mmioRead] at hread
    split at hread
    · rw [hcon] at hread
      obtain ⟨-, rfl⟩ := Prod.mk.inj (Except.ok.inj hread)
      exact sends_setBoard_nil hcon rfl (uartRead_ok hq _ _) (uartRead_out _ _ _)
    · obtain ⟨res, -, hread⟩ := Lib.bind_eq_ok.mp hread
      obtain ⟨-, rfl⟩ := Prod.mk.inj (Except.ok.inj hread)
      exact sends_setBoard_nil hcon hcon hq rfl
    · obtain ⟨-, rfl⟩ := Prod.mk.inj (Except.ok.inj hread)
      exact sends_setBoard_nil hcon hcon hq rfl

/-- The address is that of a register of the serial line. -/
theorem uartAt_eq_some {r : UartReg} : uartAt k addr = some r ↔
    ∃ offset, k.window addr = .uart offset ∧ uartReg offset = some r := by
  rw [uartAt]
  constructor
  · intro hr
    split at hr
    · rename_i offset hwin
      exact ⟨offset, hwin, hr⟩
    · cases hr
  · rintro ⟨offset, hwin, hr⟩
    rw [hwin]
    exact hr

/-- The byte that is put into the queue, when it is printed. -/
theorem sent_byte (val : ℕ) : (val % 2 ^ 32 &&& 0xFF) &&& 0xff = val &&& 0xff := by
  rw [Nat.and_assoc, Nat.and_self, Nat.and_two_pow_sub_one_eq_mod _ 8,
    Nat.and_two_pow_sub_one_eq_mod _ 8]
  exact Nat.mod_mod_of_dvd val (by decide)

/-- A write to a register of the serial line. -/
theorem mmioWrite_uart (val : ℕ) {offset : ℕ} {console : Console} {ref : BoardRef}
    (hb : h.boardOf h.cur = some ref) (hcon : (h.boards ref).console = some console)
    (hwin : k.window addr = .uart offset) : h.mmioWrite k addr val = .ok (h.setBoard ref
      { h.boards ref with
        uart := (uartWrite (h.boards ref).uart console offset (val % 2 ^ 32)).1
        console := some (uartWrite (h.boards ref).uart console offset (val % 2 ^ 32)).2 }) := by
  simp only [Hyp.mmioWrite, hb, Board.mmioWrite.eq_def, hwin, hcon, Lib.ok_bind, Lib.pure_eq_ok]

/-- A write to another device leaves the console as it is. -/
theorem mmioWrite_console {b b' : Board} (hwin : ∀ offset, k.window addr ≠ .uart offset)
    (hok : b.mmioWrite k addr val = .ok b') : b'.console = b.console := by
  simp only [Board.mmioWrite.eq_def] at hok
  split at hok
  · rename_i offset hoffset
    exact absurd hoffset (hwin offset)
  · obtain ⟨gic, -, hok⟩ := Lib.bind_eq_ok.mp hok
    obtain rfl := Except.ok.inj hok
    rfl
  · cases k with
    | qemu =>
      obtain rfl := Except.ok.inj hok
      rfl
    | bcm2711 => cases hok
    | bcm2711Nuttx => cases hok

/-- **A write to the serial line** sends what it should while there is room, and nothing when
there is none. -/
theorem mmioWrite_uart_sends (val : ℕ) (h₀ : Guests h) {offset : ℕ}
    (hb : h.boardOf h.cur = some getPlatformBoard) (hwin : k.window addr = .uart offset) :
    ∃ h', h.mmioWrite k addr val = .ok h' ∧
      h'.console_forwarded_pid = h.console_forwarded_pid ∧
      Sends (if full h = true then [] else sentBy k (.write u addr val)) h h' := by
  obtain ⟨-, console, hcon, hq⟩ := board_of_guest h₀ hb
  refine ⟨_, mmioWrite_uart val hb hcon hwin, rfl, ?_⟩
  rw [full_of_console hcon, sentBy]
  set w := uartWrite (h.boards getPlatformBoard).uart console offset (val % 2 ^ 32) with hw
  set b : Board := { h.boards getPlatformBoard with uart := w.1, console := some w.2 }
  have hwok : w.2.Ok := uartWrite_ok hq _ _ _
  have hout : w.2.out = if uartReg offset = some .UARTDR ∧ ¬console.out.full = true then
      (console.out.push (val % 2 ^ 32 &&& 0xFF)).2 else console.out := uartWrite_out ..
  by_cases hfull : console.out.full = true
  · rw [if_neg fun hc => hc.2 hfull] at hout
    rw [if_pos hfull]
    exact sends_setBoard_nil (b := b) hcon rfl hwok hout
  rw [if_neg hfull]
  by_cases hdr : uartAt k addr = some .UARTDR
  · obtain ⟨offset', hwin', hreg⟩ := uartAt_eq_some.mp hdr
    obtain rfl := Window.uart.inj (hwin.symm.trans hwin')
    rw [if_pos ⟨hreg, hfull⟩] at hout
    have hcontents := (congrArg Queue.contents hout).trans (hq.out.contents_push hfull _)
    have hs := sends_setBoard (b := b) _ hcon rfl hwok hcontents
    rwa [if_pos hdr, ← sent_byte, ← List.map_singleton]
  · rw [if_neg fun hc => hdr (uartAt_eq_some.mpr ⟨offset, hwin, hc.1⟩)] at hout
    rw [if_neg hdr]
    exact sends_setBoard_nil (b := b) hcon rfl hwok hout

/-- **A write** sends what it should, while there is room. -/
theorem mmioWrite_sends (h₀ : Guests h) (hguest : h.boardOf h.cur ≠ none)
    (hroom : uartAt k addr = some .UARTDR → full h = false)
    (hok : h.mmioWrite k addr val = .ok h') : Sends (sentBy k (.write u addr val)) h h' := by
  obtain ⟨ref, hb⟩ := Option.ne_none_iff_exists'.mp hguest
  obtain ⟨rfl, console, hcon, hq⟩ := board_of_guest h₀ hb
  by_cases hwin : ∃ offset, k.window addr = .uart offset
  · obtain ⟨offset, hwin⟩ := hwin
    obtain ⟨h'', hok', -, hs⟩ := mmioWrite_uart_sends (u := u) _ h₀ hb hwin
    obtain rfl := Except.ok.inj (hok'.symm.trans hok)
    by_cases hfull : full h = true
    · have hdr : uartAt k addr ≠ some .UARTDR := fun hdr =>
        Bool.false_ne_true ((hroom hdr).symm.trans hfull)
      rw [if_pos hfull] at hs
      rwa [sentBy, if_neg hdr]
    · rwa [if_neg hfull] at hs
  · have hdr : uartAt k addr ≠ some .UARTDR := fun hdr => by
      obtain ⟨offset, hoffset, -⟩ := uartAt_eq_some.mp hdr
      exact hwin ⟨offset, hoffset⟩
    simp only [Hyp.mmioWrite, hb] at hok
    obtain ⟨b, hwrite, hok⟩ := Lib.bind_eq_ok.mp hok
    obtain rfl := Except.ok.inj hok
    have hconsole := mmioWrite_console (fun offset hoffset => hwin ⟨offset, hoffset⟩) hwrite
    rw [sentBy, if_neg hdr]
    exact sends_setBoard_nil hcon (hconsole.trans hcon) hq rfl

/-- A read of a register of the serial line. -/
theorem mmioRead_uart {offset : ℕ} {console : Console} {ref : BoardRef}
    (hb : h.boardOf h.cur = some ref) (hcon : (h.boards ref).console = some console)
    (hwin : k.window addr = .uart offset) : h.mmioRead k addr = .ok
      (some (uartRead (h.boards ref).uart console offset).1, h.setBoard ref
        { h.boards ref with
          uart := (uartRead (h.boards ref).uart console offset).2.1
          console := some (uartRead (h.boards ref).uart console offset).2.2 }) := by
  simp only [Hyp.mmioRead, hb, Board.mmioRead, hwin, hcon, Lib.ok_bind, Lib.pure_eq_ok]

/-- A look at the flags gives them as they are then, and leaves `TXFF` as it was. -/
theorem uartRead_flags {offset : ℕ} (hreg : uartReg offset = some .UARTFR) (regs : UartRegs)
    (console : Console) :
    (uartRead regs console offset).1 = (uartRead regs console offset).2.1 .UARTFR ∧
      txff (uartRead regs console offset).1 = txff (regs .UARTFR) := by
  rw [uartRead]
  simp only [hreg]
  split
  · exact ⟨rfl, rfl⟩
  · refine ⟨rfl, ?_⟩
    rw [Function.update_self, Function.update_of_ne (by decide), txff, Nat.testBit_and]
    exact Bool.and_true _

/-- **A look at the flags** shows `TXFF` as it is in the register. -/
theorem mmioRead_flags (h₀ : Guests h) (hguest : h.boardOf h.cur ≠ none)
    (hfr : uartAt k addr = some .UARTFR) : ∃ res h', h.mmioRead k addr = .ok (some res, h') ∧
      txff res = txff ((h.boards getPlatformBoard).uart .UARTFR) := by
  obtain ⟨ref, hb⟩ := Option.ne_none_iff_exists'.mp hguest
  obtain ⟨rfl, console, hcon, hq⟩ := board_of_guest h₀ hb
  obtain ⟨offset, hwin, hreg⟩ := uartAt_eq_some.mp hfr
  exact ⟨_, _, mmioRead_uart hb hcon hwin, (uartRead_flags hreg _ console).2⟩

/-! ### Steps -/

/-- Where nothing waits there is room. -/
theorem full_of_waiting_nil (h₀ : Guests h) (hguest : h.boardOf h.cur ≠ none)
    (hnil : waiting h = []) : full h = false := by
  obtain ⟨ref, hb⟩ := Option.ne_none_iff_exists'.mp hguest
  obtain ⟨-, console, hcon, hq⟩ := board_of_guest h₀ hb
  rw [waiting_of_console hcon] at hnil
  rw [full_of_console hcon]
  exact hq.out.not_full hnil

/-- The room a guest has when it accesses the line. -/
theorem full_of_vmLeave (h₀ : Guests h) (hguest : h.boardOf h.cur ≠ none)
    (hroom : h.cur ≠ h.console_forwarded_pid → full h = false) (hok : h.vmLeave = .ok h') :
    full h' = false := by
  obtain ⟨hs, -, hwait, hsame⟩ := flushOwner_sends h₀ hok
  by_cases howner : h.cur = h.console_forwarded_pid
  · refine full_of_waiting_nil (hs.guests h₀) ?_ (hwait howner)
    rwa [Hyp.boardOf, hs.tsks, hs.cur]
  · obtain rfl := hsame howner
    exact hroom howner

/-- Entering the guest of the next task. -/
theorem enter_spec {sys sys' : System} {bytes : List ℕ} (h₀ : Guests h)
    (hok : sys.enter = .ok sys') (hs : Sends bytes h sys.hyp) :
    Guests sys'.hyp ∧ output sys'.hyp = output h ++ bytes ∧
      (sys'.hyp.cur = sys'.hyp.console_forwarded_pid → waiting sys'.hyp = []) := by
  obtain ⟨hs', -, hwait⟩ := enter_sends (hs.guests h₀) hok
  refine ⟨hs'.guests (hs.guests h₀), ?_, hwait⟩
  rw [hs'.output, List.append_nil, hs.output]

/-- **Every event sends what it should** and loses nothing, if it meets no full queue. -/
theorem step_sends {e : Event} {sys : System} (h₀ : Guests s.sys.hyp) (hl : Legal k s e)
    (hroomy : Roomy k s e) (hok : Devices.step k s.sys e = .ok sys) :
    Guests sys.hyp ∧ output sys.hyp = output s.sys.hyp ++ sentBy k e ∧
      (sys.hyp.cur = sys.hyp.console_forwarded_pid → waiting sys.hyp = []) := by
  cases e with
  | createTask =>
    obtain ⟨h', hcreate, hok⟩ := Lib.bind_eq_ok.mp hok
    obtain rfl := Except.ok.inj hok
    have hlen : s.sys.hyp.tsks.length < kNrTasks := by
      rw [Hyp.createTask] at hcreate
      split at hcreate
      · assumption
      · cases hcreate
    -- the new task owns the console, and its queue is new
    have hnil : waiting h' = [] := by
      obtain rfl := Consoles.createTask_ok hcreate
      have hnew : (s.sys.hyp.boards getPlatformBoard).init.console = some ⟨.new, .new⟩ := rfl
      exact (waiting_setBoard s.sys.hyp hnew).trans Queue.contents_new
    refine ⟨h₀.createTask hcreate, ?_, fun _ => hnil⟩
    have hsent : sentBy k .createTask = [] := rfl
    rw [output, hnil, output, hroomy hlen, hsent]
    obtain rfl := Consoles.createTask_ok hcreate
    exact (List.append_nil _).symm
  | switch next =>
    obtain ⟨h₁, hleave, hok⟩ := Lib.bind_eq_ok.mp hok
    -- leaving a task moves what its queue holds to the wire, which is already counted as output
    have hs := (flushOwner_sends h₀ hleave).1
    have h₁' : Guests { h₁ with cur := next } := (hs.guests h₀).of_tsks rfl id
    obtain ⟨hg, hout, hwait⟩ := enter_spec h₁' hok (.of_eq rfl rfl rfl rfl)
    refine ⟨hg, hout.trans ?_, hwait⟩
    exact congrArg (· ++ []) (hs.output.trans (List.append_nil _))
  | read t addr =>
    obtain ⟨h₁, hleave, hok⟩ := Lib.bind_eq_ok.mp hok
    obtain ⟨r, hread, hok⟩ := Lib.bind_eq_ok.mp hok
    have hs := (flushOwner_sends h₀ hleave).1
    exact enter_spec h₀ hok (hs.trans (mmioRead_sends (hs.guests h₀) hread))
  | write t addr val =>
    obtain ⟨h₁, hleave, hok⟩ := Lib.bind_eq_ok.mp hok
    obtain ⟨h₂, hwrite, hok⟩ := Lib.bind_eq_ok.mp hok
    obtain ⟨hcur, hguest, -⟩ := hl
    obtain rfl : t = s.sys.hyp.cur := hcur
    have hs := (flushOwner_sends h₀ hleave).1
    have hguest₁ : h₁.boardOf h₁.cur ≠ none := by
      rwa [Hyp.boardOf, hs.tsks, hs.cur]
    have hs' := mmioWrite_sends (u := s.sys.hyp.cur) (hs.guests h₀) hguest₁
      (fun hdr => full_of_vmLeave h₀ hguest (hroomy hdr) hleave) hwrite
    exact enter_spec h₀ hok (hs.trans hs')
  | receive bytes =>
    obtain ⟨h₁, hleave, hok⟩ := Lib.bind_eq_ok.mp hok
    obtain ⟨h₂, hreceive, hok⟩ := Lib.bind_eq_ok.mp hok
    have hs := (flushOwner_sends h₀ hleave).1
    exact enter_spec h₀ hok (hs.trans (foldlM_receive_sends (hs.guests h₀) hreceive))

/-- What is kept. -/
structure Inv (s : Line) : Prop where
  guests : Guests s.sys.hyp
  none_lost : NoneLost s

theorem inv_boot : Inv .boot := ⟨Consoles.guests_boot, rfl, fun _ => rfl⟩

theorem Inv.step {e : Event} (h : Inv s) (hl : Legal k s e) (hroomy : Roomy k s e)
    (hok : step k s e = .ok t) : Inv t := by
  obtain ⟨sys, hsys, hok⟩ := Lib.bind_eq_ok.mp hok
  obtain rfl := Except.ok.inj hok
  obtain ⟨hg, hout, hwait⟩ := step_sends h.guests hl hroomy hsys
  rw [h.none_lost.output] at hout
  refine ⟨hg, hout, fun howner => ?_⟩
  rw [← hout, output, hwait howner]
  exact (List.append_nil _).symm

/-- **The flags are honest** while there is room. -/
theorem honest_iff {e : Event} (h₀ : Guests s.sys.hyp) (hl : Legal k s e) :
    Honest k s e ↔ ∀ t addr, e = .read t addr → Roomy k s (.read t addr) := by
  constructor
  · rintro h t addr rfl hfr hne hfull
    obtain ⟨hcur, hguest⟩ := hl
    obtain rfl : t = s.sys.hyp.cur := hcur
    have hleave : s.sys.hyp.vmLeave = .ok s.sys.hyp := if_neg hne
    obtain ⟨res, h₂, hread, hres⟩ := mmioRead_flags h₀ hguest hfr
    rw [← hres, ← Bool.not_eq_false]
    intro hclear
    exact Bool.false_ne_true ((h _ _ rfl hfr _ _ _ hleave hread hclear).symm.trans hfull)
  · rintro h t addr rfl hfr h₁ res h₂ hleave hread hclear
    obtain ⟨hcur, hguest⟩ := hl
    obtain rfl : t = s.sys.hyp.cur := hcur
    refine full_of_vmLeave h₀ hguest (fun hne => ?_) hleave
    by_contra hfull
    have hset := h _ _ rfl hfr hne (Bool.not_eq_false _ ▸ hfull)
    obtain rfl := (flushOwner_sends h₀ hleave).2.2.2 hne
    obtain ⟨res', h₂', hread', hres⟩ := mmioRead_flags h₀ hguest hfr
    obtain ⟨hr, -⟩ := Prod.mk.inj (Except.ok.inj (hread.symm.trans hread'))
    obtain rfl := Option.some.inj hr
    exact Bool.false_ne_true (hclear.symm.trans (hres.trans hset))

/-! ### Where a step stops -/

/-- A task that has a board is a guest, so that the console may be its own. -/
theorem inv_of_guest (h₀ : Guests h) (hb : ¬Boardless h) : Consoles.Inv h := by
  obtain ⟨ref, hb⟩ := Option.ne_none_iff_exists'.mp hb
  exact ⟨h₀, (h₀.guest hb).1, (h₀.guest hb).2⟩

/-- **Flushing a console** stops only at a task that has no board. -/
theorem flushConsole_error (h₀ : Guests h) {f : Fault} (hf : h.flushConsole u = .error f) :
    h.boardOf u = none ∧ f = .nullDeref := by
  cases hb : h.boardOf u with
  | none =>
    simp only [Hyp.flushConsole, Hyp.consoleOf, hb, Lib.error_bind] at hf
    exact ⟨rfl, (Except.error.inj hf).symm⟩
  | some ref =>
    obtain ⟨hu₀, hu⟩ := h₀.guest hb
    obtain ⟨h', hflush, -⟩ := h₀.flushConsole hu₀ hu
    cases hflush.symm.trans hf

/-- **Leaving a guest** stops only if it has no board, and owns the console. -/
theorem flushOwner_error (h₀ : Guests h) {f : Fault} (hf : h.flushOwner = .error f) :
    (h.boardOf h.cur = none ∧ Boardless h) ∧ f = .nullDeref := by
  rw [Hyp.flushOwner] at hf
  split at hf
  case isTrue howner =>
    obtain ⟨hb, hnull⟩ := flushConsole_error h₀ hf
    exact ⟨⟨hb, by rwa [Boardless, ← howner]⟩, hnull⟩
  case isFalse => cases hf

/-- So does entering it. -/
theorem enter_error {sys : System} (h₀ : Guests sys.hyp) {f : Fault}
    (hf : sys.enter = .error f) :
    (sys.hyp.boardOf sys.hyp.cur = none ∧ Boardless sys.hyp) ∧ f = .nullDeref := by
  obtain ⟨p, hp⟩ := h₀.irqPending
  rw [System.enter, Hyp.vmEnter, hp, Lib.ok_bind] at hf
  cases hflush : sys.hyp.flushOwner with
  | ok h' =>
    rw [hflush] at hf
    cases hf
  | error g =>
    rw [hflush] at hf
    obtain rfl : g = f := Except.error.inj hf
    exact flushOwner_error h₀ hflush

/-- **A byte** stops only at a null board. -/
theorem receive_error (h₀ : Guests h) {c : ℕ} {f : Fault} (hf : h.receive c = .error f) :
    f = .nullDeref := by
  rw [Hyp.receive] at hf
  split at hf
  · split at hf
    · rw [Hyp.switchConsole] at hf
      split at hf
      · dsimp only at hf
        split at hf
        · cases hf
        split at hf
        · have h₁ : Guests { h with
              console_forwarded_pid := c - 0x30
              hypervisor_command_comming := false
              hypervisor_command_switch_req := false } := h₀.of_tsks rfl id
          exact (flushConsole_error h₁ hf).2
        · cases hf
      · cases hf
    split at hf
    · cases hf
    split at hf
    · cases hf
    · cases hf
  split at hf
  · cases hf
  split at hf
  · exact (Except.error.inj hf).symm
  split at hf
  · cases hcon : h.consoleOf h.console_forwarded_pid with
    | ok r =>
      rw [hcon] at hf
      cases hf
    | error g =>
      rw [hcon] at hf
      obtain rfl : g = f := Except.error.inj hf
      rw [Hyp.consoleOf] at hcon
      split at hcon
      · exact (Except.error.inj hcon).symm
      split at hcon
      · exact (Except.error.inj hcon).symm
      · cases hcon
  · cases hf

/-- **The bytes of one interrupt** stop at a task that has no board and owns the console, or
at a digit that may give it to the init task. -/
theorem foldlM_receive_gives (bytes : List ℕ) (h₀ : Guests h) :
    Lib.Gives (bytes.foldlM Hyp.receive h)
      (fun h' => Guests h' ∧ (Boardless h' → Boardless h ∨ 0x30 ∈ bytes))
      (fun f => (Boardless h ∨ 0x30 ∈ bytes) ∧ f = .nullDeref) := by
  induction bytes generalizing h with
  | nil => exact .of_ok ⟨h₀, .inl⟩
  | cons c bytes ih =>
    have hbyte : Lib.Gives (h.receive c)
        (fun h₁ => Guests h₁ ∧ (Boardless h₁ → Boardless h ∨ 0x30 = c))
        (fun f => (Boardless h ∨ 0x30 ∈ c :: bytes) ∧ f = .nullDeref) := by
      by_cases hb : Boardless h ∨ 0x30 = c
      · refine ⟨fun h₁ hok => ⟨(receive_sends h₀ hok).guests h₀, fun _ => hb⟩, fun f hf => ?_⟩
        exact ⟨hb.imp_right fun hc => List.mem_cons.mpr (.inl hc), receive_error h₀ hf⟩
      · -- another byte leaves the console to a guest
        obtain ⟨hb, hc⟩ := not_or.mp hb
        have hn : Consoles.Named h (.receive c) := fun _ _ heq =>
          hc (Consoles.Event.receive.inj heq).symm
        obtain ⟨h₁, hok, hinv, -⟩ := (inv_of_guest h₀ hb).receive hn
        rw [hok]
        exact .of_ok ⟨hinv.toGuests, fun hnone => absurd hnone (Option.ne_none_iff_exists'.mpr
          ⟨_, hinv.board _ hinv.owner_pos hinv.owner_lt⟩)⟩
    have hmem : ∀ {h₁ : Hyp}, (Boardless h₁ → Boardless h ∨ 0x30 = c) →
        Boardless h₁ ∨ 0x30 ∈ bytes → Boardless h ∨ 0x30 ∈ c :: bytes := by
      rintro h₁ hnone (hb | hb)
      · exact (hnone hb).imp_right fun hc => List.mem_cons.mpr (.inl hc)
      · exact .inr (List.mem_cons_of_mem c hb)
    rw [List.foldlM_cons]
    refine hbyte.bind fun h₁ ⟨hg, hnone⟩ => ⟨fun h' hok => ?_, fun f hf => ?_⟩
    · exact ⟨((ih hg).ok h' hok).1, fun hb => hmem hnone (((ih hg).ok h' hok).2 hb)⟩
    · exact ((ih hg).error f hf).imp_left (hmem hnone)

/-- Leaving a guest, or entering it, does not give the console to another. -/
theorem boardless_of_leave (h₀ : Guests h) (hleave : h.vmLeave = .ok h') (hb : Boardless h') :
    Boardless h := by
  obtain ⟨hs, hpid, -⟩ := flushOwner_sends h₀ hleave
  rwa [Boardless, Hyp.boardOf, hs.tsks, hpid] at hb

/-- An access of a guest that stops, stops at the device. -/
theorem stops_of_access {f : Fault} {Q : Fault → Prop} {α : Type} {x : Hyp → Except Fault α}
    {g : α → System} (h₀ : Guests s.sys.hyp) (hguest : s.sys.hyp.boardOf s.sys.hyp.cur ≠ none)
    (hx : ∀ h₁, Guests h₁ → Lib.Gives (x h₁) (fun a => Consoles.Same h₁ (g a).hyp) Q)
    (hf : (do let h₁ ← s.sys.hyp.vmLeave; let a ← x h₁; (g a).enter) = .error f) : Q f := by
  rcases Lib.bind_eq_error.mp hf with hf | ⟨h₁, hleave, hf⟩
  · exact absurd (flushOwner_error h₀ hf).1.1 hguest
  have hs := (flushOwner_sends h₀ hleave).1
  have hguest₁ : h₁.boardOf h₁.cur ≠ none := by rwa [Hyp.boardOf, hs.tsks, hs.cur]
  have hg := hs.guests h₀
  rcases Lib.bind_eq_error.mp hf with hf | ⟨a, ha, hf⟩
  · exact (hx h₁ hg).error f hf
  have hsame := (hx h₁ hg).ok a ha
  have hnone := (enter_error (hg.of_tsks hsame.tsks hsame.ready) hf).1.1
  exact absurd (hsame.boardOf.symm.trans hnone) hguest₁

/-- **Where a step stops.** -/
theorem step_stops {e : Event} {f : Fault} (h₀ : Guests s.sys.hyp) (hl : Legal k s e)
    (hf : step k s e = .error f) : Stops k s e f := by
  replace hf : Devices.step k s.sys e = .error f := by
    rcases Lib.bind_eq_error.mp hf with hf | ⟨sys, -, hf⟩
    · exact hf
    · cases hf
  cases e with
  | createTask =>
    rcases Lib.bind_eq_error.mp hf with hf | ⟨h', -, hf⟩
    · rw [Hyp.createTask] at hf
      split at hf
      · cases hf
      · exact ⟨not_lt.mp ‹_›, (Except.error.inj hf).symm⟩
    · cases hf
  | switch next =>
    rcases Lib.bind_eq_error.mp hf with hf | ⟨h₁, hleave, hf⟩
    · exact ⟨(flushOwner_error h₀ hf).1.2, (flushOwner_error h₀ hf).2⟩
    have hg := (flushOwner_sends h₀ hleave).1.guests h₀
    obtain ⟨⟨-, hb⟩, hnull⟩ := enter_error (hg.of_tsks rfl id) hf
    exact ⟨boardless_of_leave h₀ hleave hb, hnull⟩
  | read t addr =>
    obtain ⟨hcur, hguest⟩ := hl
    obtain rfl : t = s.sys.hyp.cur := hcur
    exact stops_of_access (x := fun h => h.mmioRead k addr)
      (g := fun r => s.sys.accessed s.sys.hyp.cur r.1 r.2) h₀ hguest
      (fun h₁ hg => hg.mmioRead k addr) hf
  | write t addr val =>
    obtain ⟨hcur, hguest, -⟩ := hl
    obtain rfl : t = s.sys.hyp.cur := hcur
    exact stops_of_access (x := fun h => h.mmioWrite k addr val)
      (g := fun h => s.sys.accessed s.sys.hyp.cur none h) h₀ hguest
      (fun h₁ hg => hg.mmioWrite k addr val) hf
  | receive bytes =>
    rcases Lib.bind_eq_error.mp hf with hf | ⟨h₁, hleave, hf⟩
    · exact ⟨.inl (flushOwner_error h₀ hf).1.2, (flushOwner_error h₀ hf).2⟩
    have hreceive := foldlM_receive_gives bytes ((flushOwner_sends h₀ hleave).1.guests h₀)
    have hleft := boardless_of_leave h₀ hleave
    rcases Lib.bind_eq_error.mp hf with hf | ⟨h₂, hok, hf⟩
    · exact (hreceive.error f hf).imp_left (Or.imp_left hleft)
    · obtain ⟨hg, hnone⟩ := hreceive.ok h₂ hok
      obtain ⟨⟨-, hb⟩, hnull⟩ := enter_error hg hf
      exact ⟨(hnone hb).imp_left hleft, hnull⟩

/-! ### Where a byte is lost -/

/-- A byte sent by a task that does not own the console, to a full queue. -/
theorem lost_by_write (h : Inv s) (hl : Legal k s (.write u addr val))
    (hdr : uartAt k addr = some .UARTDR) (hne : u ≠ s.sys.hyp.console_forwarded_pid)
    (hfull : full s.sys.hyp = true) :
    ∃ t, step k s (.write u addr val) = .ok t ∧ ¬NoneLost t := by
  obtain ⟨hcur, hguest, -⟩ := hl
  obtain rfl : u = s.sys.hyp.cur := hcur
  obtain ⟨ref, hb⟩ := Option.ne_none_iff_exists'.mp hguest
  obtain ⟨rfl, -⟩ := board_of_guest h.guests hb
  obtain ⟨offset, hwin, -⟩ := uartAt_eq_some.mp hdr
  obtain ⟨h₁, hwrite, hpid, hs⟩ := mmioWrite_uart_sends (u := 0) val h.guests hb hwin
  rw [if_pos hfull] at hs
  set sys := s.sys.accessed s.sys.hyp.cur none h₁ with hsys
  have hg : Guests sys.hyp := hs.guests h.guests
  have hne' : sys.hyp.cur ≠ sys.hyp.console_forwarded_pid := by
    rw [show sys.hyp = h₁ from rfl, hs.cur, hpid]
    exact hne
  obtain ⟨sys', henter, hhyp, -⟩ := enter_of_ne hg hne'
  have hstep : Devices.step k s.sys (.write s.sys.hyp.cur addr val) = .ok sys' := by
    rw [Devices.step, Hyp.vmLeave, Hyp.flushOwner, if_neg hne, Lib.ok_bind, hwrite]
    exact henter
  refine ⟨_, by rw [step, hstep]; rfl, fun hnone => ?_⟩
  have hout : output sys'.hyp = output s.sys.hyp :=
    (congrArg output hhyp).trans (hs.output.trans (List.append_nil _))
  have hsent := hnone.output
  dsimp only at hsent
  rw [hout, h.none_lost.output, sentBy, if_pos hdr] at hsent
  exact absurd (congrArg List.length hsent) (by simp)

/-- The bytes that wait when a task is created. -/
theorem lost_by_createTask (h : Inv s) (hlen : s.sys.hyp.tsks.length < kNrTasks)
    (hsome : waiting s.sys.hyp ≠ []) : ∃ t, step k s .createTask = .ok t ∧ ¬NoneLost t := by
  obtain ⟨h', hcreate⟩ : ∃ h', s.sys.hyp.createTask = .ok h' := ⟨_, if_pos hlen⟩
  refine ⟨⟨{ s.sys with hyp := h' }, s.room, s.sent ++ []⟩, ?_, fun hnone => ?_⟩
  · rw [step, Devices.step, hcreate]
    rfl
  have hnil : waiting h' = [] := by
    obtain rfl := Consoles.createTask_ok hcreate
    have hnew : (s.sys.hyp.boards getPlatformBoard).init.console = some ⟨.new, .new⟩ := rfl
    exact (waiting_setBoard s.sys.hyp hnew).trans Queue.contents_new
  have hprinted : h'.printed = s.sys.hyp.printed := by
    obtain rfl := Consoles.createTask_ok hcreate
    rfl
  have hsent := hnone.output
  dsimp only at hsent
  rw [output, hnil, hprinted, ← h.none_lost.output, output] at hsent
  exact hsome (by simpa using hsent)

/-- **No output is lost exactly when no full queue is met**, and no task is created while a
byte waits: in every run from the boot, of guests that look at the flags before they send. -/
theorem no_output_lost_iff (k : BoardKind) {es : List Event}
    (hlegal : Lib.Each (step k) (Legal k) .boot es) :
    Kept k .boot es ↔ Lib.Each (step k) (Roomy k) .boot es := by
  constructor
  · intro h
    refine (Lib.along_iff_each (I := Inv) (fun s hs => hs.none_lost)
      (fun s e t hs hl hroomy ht => hs.step hl.1 hroomy ht) (fun _ _ _ _ _ _ _ => trivial)
      (fun s e hs hl hroomy => ?_) inv_boot (hlegal.and h.honest)).mp h.none_lost
    cases e with
    | createTask =>
      rw [Roomy, Classical.not_imp] at hroomy
      exact .inl (lost_by_createTask hs hroomy.1 hroomy.2)
    | read t addr => exact absurd ((honest_iff hs.guests hl.1).mp hl.2 t addr rfl) hroomy
    | write t addr val =>
      rw [Roomy, Classical.not_imp, Classical.not_imp, Bool.not_eq_false] at hroomy
      exact .inl (lost_by_write hs hl.1 hroomy.1 hroomy.2.1 hroomy.2.2)
    | switch next => exact absurd trivial hroomy
    | receive bytes => exact absurd trivial hroomy
  · intro h
    have hboth := hlegal.and h
    refine ⟨(Lib.along_of_each (I := Inv) (fun s e t hs hc ht => hs.step hc.1 hc.2 ht)
      (fun _ _ _ _ _ _ => trivial) inv_boot hboth).mono fun s hs => hs.none_lost,
      .of_inv (I := Inv) (fun s e t hs hc ht => hs.step hc.1 hc.2 ht)
        (fun s e hs hc f hf => step_stops hs.guests hc.1 hf) inv_boot hboth,
      .of_inv (I := Inv) (fun s e t hs hc ht => hs.step hc.1 hc.2 ht)
        (fun s e hs hc => (honest_iff hs.guests hc.1).mpr ?_) inv_boot hboth⟩
    rintro t addr rfl
    exact hc.2

/-- A task that does not own the console sends a byte, which is printed for the one that
does. -/
theorem no_output_lost_two_tasks : Kept .qemu .boot [.createTask, .createTask, .switch 2,
    .read 2 0x09000018, .write 2 0x09000000 0x61, .switch 1] :=
  (no_output_lost_iff .qemu (by decide +kernel)).mpr (by decide +kernel)

/-! ### A queue that fills -/

/-- **A guest that runs without the console**: `n` bytes wait, and the flags show room. -/
structure Stretch (u : TaskId) (n : ℕ) (s : Line) : Prop where
  inv : Inv s
  cur : s.sys.hyp.cur = u
  ne : u ≠ s.sys.hyp.console_forwarded_pid
  guest : s.sys.hyp.boardOf u ≠ none
  clear : txff ((s.sys.hyp.boards getPlatformBoard).uart .UARTFR) = false
  length : (waiting s.sys.hyp).length = n

/-- What an access to the line leaves as it is. -/
structure Accesses (h h' : Hyp) : Prop where
  tsks : h'.tsks = h.tsks
  cur : h'.cur = h.cur
  owner : h'.console_forwarded_pid = h.console_forwarded_pid
  printed : h'.printed = h.printed
  txff : txff ((h'.boards getPlatformBoard).uart .UARTFR) =
    txff ((h.boards getPlatformBoard).uart .UARTFR)

theorem accesses_setBoard (h : Hyp) {b : Board}
    (hb : txff (b.uart .UARTFR) = txff ((h.boards getPlatformBoard).uart .UARTFR)) :
    Accesses h (h.setBoard getPlatformBoard b) := by
  refine ⟨rfl, rfl, rfl, rfl, ?_⟩
  change txff ((Function.update h.boards getPlatformBoard b getPlatformBoard).uart .UARTFR) = _
  rwa [Function.update_self]

/-- The stretch goes on. -/
theorem Stretch.access {n : ℕ} (h : Stretch u n s) (bytes : List ℕ) (ht : Inv t)
    (ha : Accesses s.sys.hyp t.sys.hyp) (hs : output t.sys.hyp = output s.sys.hyp ++ bytes) :
    Stretch u (n + bytes.length) t where
  inv := ht
  cur := ha.cur.trans h.cur
  ne := ha.owner ▸ h.ne
  guest := by
    rw [Hyp.boardOf, ha.tsks]
    exact h.guest
  clear := ha.txff.trans h.clear
  length := by
    have hlen := congrArg List.length hs
    simp only [output, ha.printed, List.length_append, List.length_map, h.length] at hlen
    omega

/-- A queue that is not full yet. -/
theorem Stretch.room {n : ℕ} (h : Stretch u n s) :
    full s.sys.hyp = true ↔ n = kMaxSize - 1 := by
  obtain ⟨ref, hb⟩ := Option.ne_none_iff_exists'.mp h.guest
  rw [← h.cur] at hb
  obtain ⟨-, console, hcon, hq⟩ := board_of_guest h.inv.guests hb
  rw [full_of_console hcon, hq.out.full_iff, ← waiting_of_console hcon, h.length]

/-- **A look at the flags.** -/
theorem Stretch.poll {n : ℕ} (h : Stretch u n s) (hn : n < kMaxSize - 1)
    (hfr : uartAt k addr = some .UARTFR) : Legal k s (.read u addr) ∧
      ∃ t, step k s (.read u addr) = .ok t ∧ Stretch u n t ∧ t.room u = true := by
  have hl : Legal k s (.read u addr) := ⟨h.cur.symm, h.guest⟩
  have hroomy : Roomy k s (.read u addr) := fun _ _ hfull =>
    absurd (h.room.mp hfull) (Nat.ne_of_lt hn)
  refine ⟨hl, ?_⟩
  obtain ⟨ref, hb⟩ := Option.ne_none_iff_exists'.mp h.guest
  obtain rfl := h.cur
  obtain ⟨rfl, console, hcon, hq⟩ := board_of_guest h.inv.guests hb
  obtain ⟨offset, hwin, hreg⟩ := uartAt_eq_some.mp hfr
  have hread := mmioRead_uart hb hcon hwin
  obtain ⟨hflags, htxff⟩ :=
    uartRead_flags hreg (s.sys.hyp.boards getPlatformBoard).uart console
  set r := uartRead (s.sys.hyp.boards getPlatformBoard).uart console offset
  set b : Board := { s.sys.hyp.boards getPlatformBoard with uart := r.2.1, console := some r.2.2 }
  have ha : Accesses s.sys.hyp (s.sys.hyp.setBoard getPlatformBoard b) :=
    accesses_setBoard _ ((congrArg txff hflags).symm.trans htxff)
  -- the guest is entered again, which has nothing to print
  set sys := s.sys.accessed s.sys.hyp.cur (some r.1) (s.sys.hyp.setBoard getPlatformBoard b)
  have hs : Sends [] s.sys.hyp sys.hyp := mmioRead_sends h.inv.guests hread
  obtain ⟨sys', henter, hhyp, hreads⟩ := enter_of_ne (hs.guests h.inv.guests) (ha.owner ▸ h.ne)
  have hstep : step k s (.read s.sys.hyp.cur addr) = .ok
      ⟨sys', Function.update s.room s.sys.hyp.cur (showsRoom sys' s.sys.hyp.cur),
        s.sent ++ []⟩ := by
    rw [step, Devices.step, Hyp.vmLeave, Hyp.flushOwner, if_neg h.ne, Lib.ok_bind, hread,
      Lib.ok_bind]
    dsimp only
    rw [henter, Lib.ok_bind, if_pos hfr]
    rfl
  refine ⟨_, hstep, ?_, ?_⟩
  · refine h.access [] (h.inv.step hl hroomy hstep) ?_ ?_
    · exact hhyp.symm ▸ ha
    · exact (congrArg output hhyp).trans hs.output
  · have hlast : sys.reads s.sys.hyp.cur = r.1 :: s.sys.reads s.sys.hyp.cur :=
      Function.update_self ..
    dsimp only
    rw [Function.update_self, showsRoom, hreads, hlast, List.head?_cons, Option.any_some, htxff,
      h.clear]
    rfl

/-- **A byte is sent.** -/
theorem Stretch.send {n : ℕ} (h : Stretch u n s) (val : ℕ) (hn : n < kMaxSize - 1)
    (hroom : s.room u = true) (hdr : uartAt k addr = some .UARTDR) :
    Legal k s (.write u addr val) ∧
      ∃ t, step k s (.write u addr val) = .ok t ∧ Stretch u (n + 1) t := by
  have hl : Legal k s (.write u addr val) := ⟨h.cur.symm, h.guest, fun _ => hroom⟩
  -- below its capacity the queue takes one byte more
  have hfull : full s.sys.hyp = false :=
    Bool.not_eq_true _ ▸ fun hfull => Nat.ne_of_lt hn (h.room.mp hfull)
  have hroomy : Roomy k s (.write u addr val) := fun _ _ => hfull
  refine ⟨hl, ?_⟩
  obtain ⟨ref, hb⟩ := Option.ne_none_iff_exists'.mp h.guest
  have hguest := h.guest
  obtain rfl := h.cur
  obtain ⟨rfl, console, hcon, hq⟩ := board_of_guest h.inv.guests hb
  obtain ⟨offset, hwin, hreg⟩ := uartAt_eq_some.mp hdr
  have hwrite := mmioWrite_uart val hb hcon hwin
  have hflags := Serial.write_reg (s.sys.hyp.boards getPlatformBoard).uart console offset
    (val % 2 ^ 32) .UARTFR
  rw [hreg, if_neg (by decide)] at hflags
  set r := uartWrite (s.sys.hyp.boards getPlatformBoard).uart console offset (val % 2 ^ 32)
  set b : Board := { s.sys.hyp.boards getPlatformBoard with uart := r.1, console := some r.2 }
  have ha : Accesses s.sys.hyp (s.sys.hyp.setBoard getPlatformBoard b) :=
    accesses_setBoard _ (congrArg txff hflags)
  set sys := s.sys.accessed s.sys.hyp.cur none (s.sys.hyp.setBoard getPlatformBoard b)
  have hs : Sends [val &&& 0xff] s.sys.hyp sys.hyp := by
    have hs := mmioWrite_sends (u := 0) h.inv.guests hguest (fun _ => hfull) hwrite
    rwa [sentBy, if_pos hdr] at hs
  obtain ⟨sys', henter, hhyp, -⟩ := enter_of_ne (hs.guests h.inv.guests) (ha.owner ▸ h.ne)
  have hstep : step k s (.write s.sys.hyp.cur addr val) = .ok
      ⟨sys', Function.update s.room s.sys.hyp.cur false,
        s.sent ++ sentBy k (.write s.sys.hyp.cur addr val)⟩ := by
    rw [step, Devices.step, Hyp.vmLeave, Hyp.flushOwner, if_neg h.ne, Lib.ok_bind, hwrite,
      Lib.ok_bind, henter, Lib.ok_bind]
    dsimp only
    rw [if_pos hdr]
    rfl
  refine ⟨_, hstep, h.access [val &&& 0xff] (h.inv.step hl hroomy hstep) ?_ ?_⟩
  · exact hhyp.symm ▸ ha
  · exact (congrArg output hhyp).trans hs.output

/-- Looking at the flags and sending a byte, again and again. -/
def polling (u : TaskId) (fr dr val : ℕ) (n : ℕ) : List Event :=
  (List.replicate n [Event.read u fr, .write u dr val]).flatten

/-- **A long stretch** fills the queue. -/
theorem Stretch.fill {fr dr : ℕ} (hfr : uartAt k fr = some .UARTFR)
    (hdr : uartAt k dr = some .UARTDR) (val : ℕ) {n : ℕ} (h : Stretch u n s) (m : ℕ)
    (hn : n + m ≤ kMaxSize - 1) :
    Lib.Each (step k) (Legal k) s (polling u fr dr val m) ∧
      ∃ t, Lib.runFrom (step k) s (polling u fr dr val m) = .ok t ∧ Stretch u (n + m) t := by
  induction m generalizing n s with
  | zero => exact ⟨trivial, s, rfl, h⟩
  | succ m ih =>
    obtain ⟨hl₁, s₁, hs₁, h₁, hroom⟩ := h.poll (by omega) hfr
    obtain ⟨hl₂, s₂, hs₂, h₂⟩ := h₁.send val (by omega) hroom hdr
    obtain ⟨hl, t, ht, hstretch⟩ := ih h₂ (by omega)
    have hround : Lib.runFrom (step k) s [.read u fr, .write u dr val] = .ok s₂ := by
      simp only [Lib.runFrom, hs₁, hs₂]
    have hlround : Lib.Each (step k) (Legal k) s [.read u fr, .write u dr val] := by
      refine ⟨hl₁, fun t ht => ⟨?_, fun _ _ => trivial⟩⟩
      obtain rfl := Except.ok.inj (hs₁.symm.trans ht)
      exact hl₂
    rw [polling, List.replicate_succ, List.flatten_cons]
    refine ⟨hlround.append hround hl, t, (Lib.runFrom_append hround).trans ht, ?_⟩
    rwa [Nat.add_assoc, Nat.add_comm 1 m] at hstretch

/-- The flags show room that there is not. -/
theorem Stretch.dishonest (h : Stretch u (kMaxSize - 1) s) (hfr : uartAt k addr = some .UARTFR) :
    ¬Honest k s (.read u addr) := by
  intro hhonest
  have hl : Legal k s (.read u addr) := ⟨h.cur.symm, h.guest⟩
  have hroomy := (honest_iff h.inv.guests hl).mp hhonest u addr rfl hfr h.ne (h.room.mpr rfl)
  exact Bool.false_ne_true (h.clear.symm.trans hroomy)

/-- Two tasks, the second of which owns the console, and the first of which runs. -/
def withoutConsole : List Event :=
  [.createTask, .createTask, .switch 1, .receive [0x3f, 0x73, 0x32]]

/-- The first sends as many bytes as the queue holds, and looks at the flags once more. -/
def overrun : List Event :=
  withoutConsole ++ (polling 1 0x09000018 0x09000000 0x61 (kMaxSize - 1) ++ [.read 1 0x09000018])

/-- **The flags show room** when the queue is full. -/
theorem output_overrun : Lib.Each (step .qemu) (Legal .qemu) .boot overrun ∧
    ¬Kept .qemu .boot overrun := by
  have hlegal : Lib.Each (step .qemu) (Legal .qemu) .boot withoutConsole := by decide +kernel
  have hroomy : Lib.Each (step .qemu) (Roomy .qemu) .boot withoutConsole := by decide +kernel
  obtain ⟨s, hs, hcur, howner, hguest, hclear, hnil⟩ := Lib.exists_ok_of_any
    (P := fun s : Line => s.sys.hyp.cur = 1 ∧ s.sys.hyp.console_forwarded_pid = 2 ∧
      s.sys.hyp.boardOf 1 ≠ none ∧
      txff ((s.sys.hyp.boards getPlatformBoard).uart .UARTFR) = false ∧
      (waiting s.sys.hyp).length = 0)
    (x := Lib.runFrom (step .qemu) .boot withoutConsole) (by decide +kernel)
  have hinv : Inv s := Lib.Each.inv (fun s e t hs hc ht => hs.step hc.1 hc.2 ht) inv_boot
    (hlegal.and hroomy) hs
  have h : Stretch 1 0 s := ⟨hinv, hcur, by rw [howner]; decide, hguest, hclear, hnil⟩
  have hfr : uartAt .qemu 0x09000018 = some .UARTFR := by decide
  have hdr : uartAt .qemu 0x09000000 = some .UARTDR := by decide
  obtain ⟨hl, t, ht, hfull⟩ := h.fill hfr hdr 0x61 (kMaxSize - 1) (Nat.zero_add _).le
  rw [Nat.zero_add] at hfull
  have hlast : Legal .qemu t (.read 1 0x09000018) := ⟨hfull.cur.symm, hfull.guest⟩
  refine ⟨hlegal.append hs (hl.append ht ⟨hlast, fun _ _ => trivial⟩), fun hkept => ?_⟩
  have hrun := (Lib.runFrom_append hs).trans ht
  have hhonest := hkept.honest
  rw [overrun, ← List.append_assoc] at hhonest
  exact hfull.dishonest hfr (hhonest.last hrun)

end Output

end Evisor
