import Evisor.Lib.Run
import Evisor.Platforms.VirtioPl011Uart

/-!
# What is typed on the virtual serial line

A byte that has been typed waits in the input queue of the console, is moved to the data
register by a read of the flags, and leaves it by a read of the data register. There is
one data register, for both directions, and nothing keeps the next byte from being moved
there, or a byte that is sent from being put there, while the one before waits.

`Evisor.Serial.Line` is the line with what has been typed and what the guest has read.
Nothing is lost along a run exactly when no step of it disturbs a byte that waits
(`Evisor.Serial.no_input_lost_iff`).
-/

namespace Evisor

namespace Serial

/-- The serial line, and what has passed through it. -/
structure Line where
  regs : UartRegs
  console : Console
  /-- What has been typed. -/
  typed : List ℕ
  /-- The low bytes of the guest's reads of the data register. -/
  read : List ℕ
  /-- The guest's last look at the flags showed `RXFE` clear, and it has not read since. -/
  ready : Bool

/-- The line before anything happens. -/
def Line.boot : Line := ⟨.init, ⟨.new, .new⟩, [], [], false⟩

/-- What happens to the line. -/
inductive Event where
  /-- A byte arrives. -/
  | receive (c : ℕ)
  /-- The guest reads a register. -/
  | read (addr : ℕ)
  /-- The guest writes a register. -/
  | write (addr data : ℕ)

/-- The bit of the flags that says that there is nothing to receive. -/
def rxfe (flags : ℕ) : Bool := flags.testBit 4

/-- One event. -/
def step (s : Line) : Event → Except Fault Line
  | .receive c => .ok
    { s with
      console := { s.console with input := (s.console.input.push c).2 }
      typed := s.typed ++ [c] }
  | .read addr =>
    let r := uartRead s.regs s.console addr
    .ok
      { s with
        regs := r.2.1
        console := r.2.2
        read := if uartReg addr = some .UARTDR then s.read ++ [r.1 &&& 0xff] else s.read
        ready := if uartReg addr = some .UARTDR then false
          else if uartReg addr = some .UARTFR then !rxfe r.1 else s.ready }
  | .write addr data =>
    let r := uartWrite s.regs s.console addr data
    .ok { s with regs := r.1, console := r.2 }

/-- What is given: a byte arrives while the queue has room, and the guest reads the data
register only after the flags have shown `RXFE` clear. -/
def Legal (s : Line) : Event → Prop
  | .receive c => c < 256 ∧ ¬s.console.input.full = true
  | .read addr => uartReg addr = some .UARTDR → s.ready = true
  | .write _ _ => True

/-- The byte that waits in the data register. -/
def Line.waiting (s : Line) : List ℕ :=
  if rxfe (s.regs .UARTFR) then [] else [s.regs .UARTDR &&& 0xff]

/-- **Nothing is lost**: what the guest has read and what it can still read is what has
been typed, in that order. -/
def NoneLost (s : Line) : Prop := s.read ++ (s.waiting ++ s.console.input.contents) = s.typed

/-- **A step that leaves the byte that waits alone**: a look at the flags is taken while
none waits or none can be moved, a byte that is sent while one waits is the same, and a
write to the flags does not change `RXFE`. -/
def Harmless (s : Line) : Event → Prop
  | .receive _ => True
  | .read addr => uartReg addr = some .UARTFR →
      rxfe (s.regs .UARTFR) = true ∨ s.console.input.empty = true
  | .write addr data =>
    (uartReg addr = some .UARTDR → rxfe (s.regs .UARTFR) = true ∨
      data &&& 0xff = s.regs .UARTDR &&& 0xff) ∧
    (uartReg addr = some .UARTFR → rxfe data = rxfe (s.regs .UARTFR))

instance : DecidablePred NoneLost := fun _ => inferInstanceAs (Decidable (_ = _))

instance (s : Line) : ∀ e, Decidable (Legal s e)
  | .receive _ => inferInstanceAs (Decidable (_ ∧ _))
  | .read _ => inferInstanceAs (Decidable (_ → _))
  | .write _ _ => .isTrue trivial

instance (s : Line) : ∀ e, Decidable (Harmless s e)
  | .receive _ => .isTrue trivial
  | .read _ => inferInstanceAs (Decidable (_ → _))
  | .write _ _ => inferInstanceAs (Decidable (_ ∧ _))

/-! ### Bits -/

theorem rxfe_set (flags : ℕ) : rxfe (flags ||| 0x10) = true := by
  rw [rxfe, Nat.testBit_or]
  exact Bool.or_true _

theorem rxfe_clear (flags : ℕ) : rxfe (flags &&& notRxfe) = false := by
  rw [rxfe, Nat.testBit_and]
  exact Bool.and_false _

theorem rxfe_write (data : ℕ) : rxfe (data &&& 0x1ff) = rxfe data := by
  rw [rxfe, Nat.testBit_and]
  exact Bool.and_true _

/-- The low byte of the data register is that of what is moved there. -/
theorem low_byte_moved (dr : ℕ) {c : ℕ} (hc : c < 256) :
    ((dr &&& 0xf00) ||| (c &&& 0xff)) &&& 0xff = c := by
  have hlow : c &&& 0xff = c := by
    rw [Nat.and_two_pow_sub_one_eq_mod c 8]
    exact Nat.mod_eq_of_lt hc
  rw [Nat.and_or_distrib_right, Nat.and_assoc, hlow, hlow]
  exact (congrArg (· ||| c) (Nat.and_zero dr)).trans (Nat.zero_or c)

theorem low_byte_sent (data : ℕ) : (data &&& 0xfff) &&& 0xff = data &&& 0xff := by
  rw [Nat.and_assoc]
  rfl

/-! ### Steps -/

/-- What is kept as long as nothing is lost. -/
structure Inv (s : Line) : Prop where
  none_lost : NoneLost s
  queue : s.console.input.Ok
  bytes : ∀ c ∈ s.console.input.contents, c < 256
  ready : s.ready = true → rxfe (s.regs .UARTFR) = false

theorem inv_boot : Inv .boot where
  none_lost := by
    rw [NoneLost, show Line.boot.console.input.contents = [] from Queue.contents_new]
    rfl
  queue := Queue.new_ok
  bytes c hc := by
    rw [show Line.boot.console.input.contents = [] from Queue.contents_new] at hc
    cases hc
  ready h := by cases h

variable {s t : Line}

/-- A byte that arrives waits behind the others. -/
theorem Inv.receive (h : Inv s) {c : ℕ} (hlegal : Legal s (.receive c))
    (ht : step s (.receive c) = .ok t) : Inv t := by
  obtain ⟨hc, hroom⟩ := hlegal
  obtain rfl := Except.ok.inj ht
  have hcontents := h.queue.contents_push hroom c
  refine ⟨?_, h.queue.push c, fun d hd => ?_, h.ready⟩
  · change s.read ++ (s.waiting ++ (s.console.input.push c).2.contents) = s.typed ++ [c]
    rw [hcontents, ← h.none_lost, List.append_assoc, List.append_assoc]
  · change d ∈ (s.console.input.push c).2.contents at hd
    rw [hcontents] at hd
    rcases List.mem_append.mp hd with hd | hd
    · exact h.bytes d hd
    · obtain rfl := List.mem_singleton.mp hd
      exact hc

/-- A look at the flags that finds something typed moves it to the data register. -/
def Line.move (s : Line) : Line :=
  { s with
    regs := Function.update
      (Function.update s.regs .UARTDR
        ((s.regs .UARTDR &&& 0xf00) ||| (s.console.input.pop.1 &&& 0xff))) .UARTFR
      (s.regs .UARTFR &&& notRxfe)
    console := { s.console with input := s.console.input.pop.2 }
    ready := true }

theorem step_flags {addr : ℕ} (haddr : uartReg addr = some .UARTFR)
    (hsome : ¬s.console.input.empty = true) : step s (.read addr) = .ok s.move := by
  have hflags := rxfe_clear (s.regs .UARTFR)
  rw [step, uartRead]
  simp only [haddr, if_neg hsome, Function.update_of_ne (show UartReg.UARTFR ≠ .UARTDR by decide),
    Function.update_self, hflags]
  rfl

theorem step_flags_of_empty {addr : ℕ} (haddr : uartReg addr = some .UARTFR)
    (hempty : s.console.input.empty = true) :
    step s (.read addr) = .ok { s with ready := !rxfe (s.regs .UARTFR) } := by
  rw [step, uartRead]
  simp only [haddr, if_pos hempty]
  rfl

theorem move_flags (s : Line) : s.move.regs .UARTFR = s.regs .UARTFR &&& notRxfe := by
  simp only [Line.move, Function.update_self]

theorem move_data (s : Line) : s.move.regs .UARTDR =
    (s.regs .UARTDR &&& 0xf00) ||| (s.console.input.pop.1 &&& 0xff) := by
  simp only [Line.move, Function.update_of_ne (show UartReg.UARTDR ≠ .UARTFR by decide),
    Function.update_self]

/-- The byte that has been moved is the one that waits then. -/
theorem move_waiting (h : Inv s) (hsome : ¬s.console.input.empty = true) :
    s.move.waiting = [s.console.input.pop.1] := by
  have hpop := h.queue.contents_pop hsome
  have hc : s.console.input.pop.1 < 256 := h.bytes _ (by rw [hpop]; exact List.mem_cons_self)
  rw [Line.waiting, move_flags, rxfe_clear, move_data, low_byte_moved _ hc]
  rfl

/-- **A look at the flags** loses nothing when no byte waits. -/
theorem Inv.read_flags (h : Inv s) {addr : ℕ} (haddr : uartReg addr = some .UARTFR)
    (hquiet : rxfe (s.regs .UARTFR) = true ∨ s.console.input.empty = true)
    (ht : step s (.read addr) = .ok t) : Inv t := by
  by_cases hempty : s.console.input.empty = true
  · rw [step_flags_of_empty haddr hempty] at ht
    obtain rfl := Except.ok.inj ht
    exact ⟨h.none_lost, h.queue, h.bytes, fun hready => by simpa using hready⟩
  · rw [step_flags haddr hempty] at ht
    obtain rfl := Except.ok.inj ht
    have hpop := h.queue.contents_pop hempty
    have hnone : s.waiting = [] := if_pos (hquiet.resolve_right hempty)
    refine ⟨?_, h.queue.pop, fun c hc => h.bytes c ?_, fun _ => ?_⟩
    · have hlost := h.none_lost
      rw [NoneLost, hnone, hpop] at hlost
      rw [NoneLost, move_waiting h hempty]
      exact hlost
    · rw [hpop]
      exact List.mem_cons_of_mem _ hc
    · rw [move_flags, rxfe_clear]

/-- A byte that waits is lost when the next one is moved. -/
theorem lost_by_flags (h : Inv s) {addr : ℕ} (haddr : uartReg addr = some .UARTFR)
    (hwaits : ¬rxfe (s.regs .UARTFR) = true) (hsome : ¬s.console.input.empty = true)
    (ht : step s (.read addr) = .ok t) : ¬NoneLost t := by
  rw [step_flags haddr hsome] at ht
  obtain rfl := Except.ok.inj ht
  have hwait : s.waiting = [s.regs .UARTDR &&& 0xff] := if_neg hwaits
  have hlost := congrArg List.length h.none_lost
  intro hnone
  have hnone := congrArg List.length hnone
  rw [move_waiting h hsome] at hnone
  rw [hwait, h.queue.contents_pop hsome] at hlost
  simp only [List.length_append, List.length_cons, List.length_nil] at hlost hnone
  have hread : s.move.read = s.read := rfl
  have htyped : s.move.typed = s.typed := rfl
  have hrest : s.move.console.input = s.console.input.pop.2 := rfl
  rw [hread, htyped, hrest] at hnone
  omega

/-- **A read of the data register** takes the byte that waits. -/
theorem Inv.read_data (h : Inv s) {addr : ℕ} (haddr : uartReg addr = some .UARTDR)
    (hready : s.ready = true) (ht : step s (.read addr) = .ok t) : Inv t := by
  have hstep : step s (.read addr) = .ok
      { s with
        regs := Function.update s.regs .UARTFR (s.regs .UARTFR ||| 0x10)
        read := s.read ++ [s.regs .UARTDR &&& 0xff]
        ready := false } := by
    rw [step, uartRead]
    simp only [haddr, if_true]
  rw [hstep] at ht
  obtain rfl := Except.ok.inj ht
  have hwait : s.waiting = [s.regs .UARTDR &&& 0xff] := if_neg (by rw [h.ready hready]; decide)
  refine ⟨?_, h.queue, h.bytes, fun hr => by cases hr⟩
  have hlost := h.none_lost
  rw [NoneLost, hwait, ← List.append_assoc] at hlost
  have hset : rxfe (Function.update s.regs .UARTFR (s.regs .UARTFR ||| 0x10) .UARTFR) = true := by
    rw [Function.update_self, rxfe_set]
  rw [NoneLost, Line.waiting, if_pos hset]
  exact hlost

/-- A step to a register that leaves the line and its queue alone keeps what is kept. -/
theorem Inv.of_eq (h : Inv s) (hinput : t.console.input = s.console.input)
    (hflags : rxfe (t.regs .UARTFR) = rxfe (s.regs .UARTFR)) (hwait : t.waiting = s.waiting)
    (hread : t.read = s.read) (htyped : t.typed = s.typed) (hready : t.ready = s.ready) :
    Inv t := by
  refine ⟨?_, by rw [hinput]; exact h.queue, by rw [hinput]; exact h.bytes, fun hr => ?_⟩
  · rw [NoneLost, hread, hwait, hinput, htyped]
    exact h.none_lost
  · rw [hflags]
    exact h.ready (hready ▸ hr)

/-- The bytes that wait, of which there is at most one, can be told from their number and
from what they are. -/
theorem waiting_eq_of_noneLost (h : NoneLost s) (hinput : t.console.input = s.console.input)
    (hread : t.read = s.read) (htyped : t.typed = s.typed) (ht : NoneLost t) :
    t.waiting = s.waiting := by
  rw [NoneLost, hinput, hread, htyped, ← h] at ht
  exact List.append_cancel_right (List.append_cancel_left ht)

/-- A read of another register changes nothing. -/
theorem Inv.read_other (h : Inv s) {addr : ℕ} (hdr : uartReg addr ≠ some .UARTDR)
    (hfr : uartReg addr ≠ some .UARTFR) (ht : step s (.read addr) = .ok t) : Inv t := by
  have hr : (uartRead s.regs s.console addr).2 = (s.regs, s.console) := by
    rw [uartRead_eq_iff, QuietUartRead]
    split
    · exact absurd ‹_› hdr
    · exact absurd ‹_› hfr
    · trivial
  obtain rfl := Except.ok.inj ht
  have hregs : (uartRead s.regs s.console addr).2.1 = s.regs := congrArg Prod.fst hr
  have hcon : (uartRead s.regs s.console addr).2.2 = s.console := congrArg Prod.snd hr
  simp only [if_neg hdr, if_neg hfr, hregs, hcon]
  exact h

/-- What a write leaves alone. -/
theorem write_input (regs : UartRegs) (console : Console) (addr data : ℕ) :
    (uartWrite regs console addr data).2.input = console.input := by
  rw [uartWrite]
  split
  · split
    · rfl
    · rfl
  · rfl
  · rfl

/-- What a write does to a register. -/
theorem write_reg (regs : UartRegs) (console : Console) (addr data : ℕ) (r : UartReg) :
    (uartWrite regs console addr data).1 r =
      if uartReg addr = some r then data &&& r.mask else regs r := by
  have hwrite : ∀ q, uartReg addr = some q →
      (uartWrite regs console addr data).1 = Function.update regs q (data &&& q.mask) := by
    intro q hq
    rw [uartWrite, hq]
    cases q <;> rfl
  cases haddr : uartReg addr with
  | none =>
    rw [if_neg (Option.some_ne_none r).symm]
    simp only [uartWrite, haddr]
  | some q =>
    rw [hwrite q haddr]
    by_cases hr : q = r
    · rw [hr, if_pos rfl, Function.update_self]
    · rw [if_neg (fun heq => hr (Option.some.inj heq)), Function.update_of_ne (Ne.symm hr)]

theorem step_write_reg {addr data : ℕ} (ht : step s (.write addr data) = .ok t) (r : UartReg) :
    t.regs r = if uartReg addr = some r then data &&& r.mask else s.regs r := by
  obtain rfl := Except.ok.inj ht
  exact write_reg ..

/-- The byte that waits after a write. -/
theorem write_waiting {addr data : ℕ} (ht : step s (.write addr data) = .ok t) :
    t.waiting = if rxfe (if uartReg addr = some .UARTFR then data else s.regs .UARTFR) then []
      else [(if uartReg addr = some .UARTDR then data else s.regs .UARTDR) &&& 0xff] := by
  rw [Line.waiting, step_write_reg ht, step_write_reg ht]
  have hflags : rxfe (if uartReg addr = some .UARTFR then data &&& UartReg.UARTFR.mask
      else s.regs .UARTFR) =
      rxfe (if uartReg addr = some .UARTFR then data else s.regs .UARTFR) := by
    split
    · exact rxfe_write data
    · rfl
  rw [hflags]
  congr 2
  split
  · exact low_byte_sent data
  · rfl

/-- **A write** leaves the byte that waits alone exactly when it is harmless. -/
theorem write_waiting_eq_iff {addr data : ℕ} (ht : step s (.write addr data) = .ok t) :
    t.waiting = s.waiting ↔ Harmless s (.write addr data) := by
  rw [write_waiting ht, Line.waiting, Harmless]
  by_cases hdr : uartReg addr = some .UARTDR
  · have hfr : uartReg addr ≠ some .UARTFR := by
      rw [hdr]
      decide
    rw [if_neg hfr, if_pos hdr]
    cases rxfe (s.regs .UARTFR)
    · simp [hdr]
    · simp [hdr]
  · rw [if_neg hdr]
    by_cases hfr : uartReg addr = some .UARTFR
    · rw [if_pos hfr]
      cases rxfe (s.regs .UARTFR) <;> cases rxfe data <;> simp [hfr]
    · rw [if_neg hfr]
      simp [hdr, hfr]

/-- A write that leaves the byte that waits alone keeps what is kept. -/
theorem Inv.write (h : Inv s) {addr data : ℕ} (hquiet : Harmless s (.write addr data))
    (ht : step s (.write addr data) = .ok t) : Inv t := by
  have hwait := (write_waiting_eq_iff ht).mpr hquiet
  have hflags : rxfe (t.regs .UARTFR) = rxfe (s.regs .UARTFR) := by
    rw [step_write_reg ht]
    split_ifs with hfr
    · exact (rxfe_write data).trans (hquiet.2 hfr)
    · rfl
  have hinput : t.console.input = s.console.input := by
    obtain rfl := Except.ok.inj ht
    exact write_input ..
  obtain rfl := Except.ok.inj ht
  exact h.of_eq hinput hflags hwait rfl rfl rfl

/-- A write that does not leave it alone loses a byte, or makes one up. -/
theorem lost_by_write (h : Inv s) {addr data : ℕ} (hharm : ¬Harmless s (.write addr data))
    (ht : step s (.write addr data) = .ok t) : ¬NoneLost t := by
  intro hnone
  refine hharm ((write_waiting_eq_iff ht).mp ?_)
  have hinput : t.console.input = s.console.input := by
    obtain rfl := Except.ok.inj ht
    exact write_input ..
  obtain rfl := Except.ok.inj ht
  exact waiting_eq_of_noneLost h.none_lost hinput rfl rfl hnone

/-! ### Runs -/

/-- **What keeps what is kept.** -/
theorem Inv.step (h : Inv s) {e : Event} (hlegal : Legal s e) (hquiet : Harmless s e)
    (ht : Serial.step s e = .ok t) : Inv t := by
  cases e with
  | receive c => exact h.receive hlegal ht
  | write addr data => exact h.write hquiet ht
  | read addr =>
    by_cases hdr : uartReg addr = some .UARTDR
    · exact h.read_data hdr (hlegal hdr) ht
    · by_cases hfr : uartReg addr = some .UARTFR
      · exact h.read_flags hfr (hquiet hfr) ht
      · exact h.read_other hdr hfr ht

/-- Every other step loses a byte, or makes one up. -/
theorem lost (h : Inv s) {e : Event} (hharm : ¬Harmless s e) (ht : step s e = .ok t) :
    ¬NoneLost t := by
  cases e with
  | receive c => exact absurd trivial hharm
  | write addr data => exact lost_by_write h hharm ht
  | read addr =>
    rw [Harmless, Classical.not_imp, not_or] at hharm
    exact lost_by_flags h hharm.1 hharm.2.1 hharm.2.2 ht

/-- No event stops the line. -/
theorem step_isOk (s : Line) (e : Event) : ∃ t, step s e = .ok t := by
  cases e with
  | receive c => exact ⟨_, rfl⟩
  | read addr => exact ⟨_, rfl⟩
  | write addr data => exact ⟨_, rfl⟩

/-- **What is typed is read, in order and once each**, in every state of a run from the
boot, exactly when every step of the run leaves the byte that waits alone. -/
theorem no_input_lost_iff {es : List Event} (hlegal : Lib.Each step Legal .boot es) :
    Lib.Along step NoneLost (fun _ => False) .boot es ↔ Lib.Each step Harmless .boot es := by
  refine Lib.along_iff_each (fun s h => h.none_lost) (fun s e t h hl hq ht => h.step hl hq ht)
    (fun s e f _ _ _ hf => ?_) (fun s e h _ hharm => ?_) inv_boot hlegal
  · obtain ⟨t, ht⟩ := step_isOk s e
    cases ht.symm.trans hf
  · obtain ⟨t, ht⟩ := step_isOk s e
    exact Or.inl ⟨t, ht, lost h hharm ht⟩

/-- A byte is typed, found and read. -/
theorem no_input_lost_iff_echo :
    Lib.Along step NoneLost (fun _ => False) .boot [.receive 0x61, .read 0x018, .read 0x000] :=
  (no_input_lost_iff (by decide)).mpr (by decide)

/-- **A byte is lost** by polling `TXFF` before the one that was found is read: of two bytes
typed, the guest reads the second only. -/
theorem input_lost :
    Lib.Each step Legal .boot
      [.receive 0x61, .receive 0x62, .read 0x018, .read 0x018, .read 0x000] ∧
    ∃ t, Lib.runFrom step .boot
      [.receive 0x61, .receive 0x62, .read 0x018, .read 0x018, .read 0x000] = .ok t ∧
      t.typed = [0x61, 0x62] ∧ t.read = [0x62] ∧ t.console.input.empty = true ∧ ¬NoneLost t :=
  ⟨by decide, _, rfl, by decide, by decide, by decide, by decide⟩

end Serial

end Evisor
