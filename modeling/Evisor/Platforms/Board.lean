import Evisor.Platforms.BoardKind
import Evisor.Platforms.VirtioGic
import Evisor.Platforms.VirtioPl011Uart

/-!
# The devices of a board

`platforms/board.h`, and the `MmioRead` and `MmioWrite` of the two boards. An access
of the current task reaches the virtual serial line or the virtual distributor of the
board its `Tcb` points to – which `GetPlatformBoard` (`platforms/platform.cc`) made the
same object for every task.
-/

namespace Evisor

/-- `Board`, with the devices of the class derived from it. -/
structure Board where
  /-- `console_`, null before the first `Init`. -/
  console : Option Console
  /-- `virtio_uart_`. -/
  uart : UartRegs
  /-- `virtio_gic_`. -/
  gic : GicRegs

/-- A board as it is constructed. -/
def Board.new : Board := ⟨none, .init, .init⟩

/-- `Board::Init`: a console with two new queues. -/
def Board.init (b : Board) : Board := { b with console := some ⟨.new, .new⟩ }

/-- What the devices of a board hold: the registers of the serial line and of the
distributor, what has been typed and what has been sent. -/
def Board.devices (b : Board) : Option (UartRegs × GicRegs × List ℕ × List ℕ) :=
  b.console.map fun console => (b.uart, b.gic, console.input.contents, console.out.contents)

/-- A board whose console holds nothing is as it was when it gets a new one. -/
theorem Board.devices_init {b : Board} {console : Console} (hcon : b.console = some console)
    (hin : console.input.contents = []) (hout : console.out.contents = []) :
    b.init.devices = b.devices := by
  rw [devices, devices, hcon, init, Option.map_some, Option.map_some, hin, hout,
    Queue.contents_new]

/-- A reference to the board object of the platform. -/
def getPlatformBoard : ℕ := 0

/-- Where the guest finds the serial line. -/
def BoardKind.uartWindow : BoardKind → ℕ
  | .bcm2711Nuttx => 0x09000000
  | b => b.UART0_BASE

/-- Where the guest finds the distributor. -/
def BoardKind.gicWindow : BoardKind → ℕ
  | .bcm2711Nuttx => 0x08000000
  | b => b.GIC_V2_DISTRIBUTOR_BASE

/-- What an address of a guest's access is to the board. -/
inductive Window where
  /-- An offset in the serial line. -/
  | uart (offset : ℕ)
  /-- An offset in the distributor. -/
  | gic (offset : ℕ)
  /-- Neither. -/
  | other
  deriving DecidableEq, Repr

/-- The comparisons of `MmioRead` and `MmioWrite`; `base_addr` is a `uint32_t`. -/
def BoardKind.window (k : BoardKind) (addr : ℕ) : Window :=
  let base_addr := addr &&& 0xFFFFF000
  if base_addr = k.uartWindow then .uart (addr &&& 0xFFF)
  else if base_addr = k.gicWindow then .gic (addr &&& 0xFFF)
  else .other

/-- `MmioRead`, of the current task's board. -/
def Board.mmioRead (k : BoardKind) (b : Board) (addr : ℕ) : Except Fault (ℕ × Board) :=
  match k.window addr with
  | .uart offset =>
    match b.console with
    | none => .error .nullDeref
    | some console =>
      let r := uartRead b.uart console offset
      .ok (r.1, { b with uart := r.2.1, console := some r.2.2 })
  | .gic offset => do
    let res ← gicRead b.gic offset
    return (res, b)
  | .other => .ok (0, b)

/-- `MmioWrite`, of the current task's board. -/
def Board.mmioWrite (k : BoardKind) (b : Board) (addr val : ℕ) : Except Fault Board :=
  match k.window addr with
  | .uart offset =>
    match b.console with
    | none => .error .nullDeref
    | some console =>
      let r := uartWrite b.uart console offset (val % 2 ^ 32)
      .ok { b with uart := r.1, console := some r.2 }
  | .gic offset => do
    let gic ← gicWrite b.gic offset (val % 2 ^ 32)
    return { b with gic }
  | .other =>
    match k with
    | .qemu => .ok b
    | .bcm2711 | .bcm2711Nuttx => .error (.panic "Unexpected write: addr = %08x, data = %08x")

/-! ### Boards that have been initialised -/

/-- **A board that has been initialised** has a console, whose queues are in order. -/
def Board.Ready (b : Board) : Prop := ∃ console, b.console = some console ∧ console.Ok

theorem Board.init_ready (b : Board) : b.init.Ready := ⟨_, rfl, Queue.new_ok, Queue.new_ok⟩

/-- **A register outside its array**: what an address of the distributor is taken for. -/
def BoardKind.Outside (k : BoardKind) (addr : ℕ) : Prop :=
  ∃ offset entry, k.window addr = .gic offset ∧ gicDecode offset = some entry ∧
    ¬entry.2 < entry.1.size

/-- What a write may stop with: the boards of the Raspberry Pi end with an error where they
have no device. -/
def BoardKind.WriteStops (k : BoardKind) (addr : ℕ) (f : Fault) : Prop :=
  k.Outside addr ∧ f = .outOfBounds ∨ k ≠ .qemu ∧ k.window addr = .other ∧ f.IsPanic

/-- A read of an initialised board follows no null pointer. -/
theorem Board.Ready.mmioRead {b : Board} (h : b.Ready) (k : BoardKind) (addr : ℕ) :
    Lib.Gives (b.mmioRead k addr) (fun r => r.2.Ready)
      (fun f => k.Outside addr ∧ f = .outOfBounds) := by
  obtain ⟨console, hcon, hok⟩ := h
  rw [Board.mmioRead]
  split
  · rw [hcon]
    exact .of_ok ⟨_, rfl, uartRead_ok hok _ _⟩
  · refine Lib.Gives.bind (P := fun _ => True) ?_ fun res _ => .of_ok ⟨console, hcon, hok⟩
    rw [gicRead]
    split
    · split
      · exact .of_ok trivial
      · exact .of_error ⟨⟨_, _, ‹_›, ‹_›, ‹_›⟩, rfl⟩
    · exact .of_ok trivial
  · exact .of_ok ⟨console, hcon, hok⟩

/-- Nor does a write. -/
theorem Board.Ready.mmioWrite {b : Board} (h : b.Ready) (k : BoardKind) (addr val : ℕ) :
    Lib.Gives (b.mmioWrite k addr val) Board.Ready (k.WriteStops addr) := by
  obtain ⟨console, hcon, hok⟩ := h
  rw [Board.mmioWrite.eq_def]
  split
  · rw [hcon]
    exact .of_ok ⟨_, rfl, uartWrite_ok hok _ _ _⟩
  · refine Lib.Gives.bind (P := fun _ => True) ?_ fun gic _ => .of_ok ⟨console, hcon, hok⟩
    rw [gicWrite]
    split
    · split
      · exact .of_ok trivial
      · exact .of_error (.inl ⟨⟨_, _, ‹_›, ‹_›, ‹_›⟩, rfl⟩)
    · exact .of_ok trivial
  · rename_i hother
    cases k with
    | qemu => exact .of_ok ⟨console, hcon, hok⟩
    | bcm2711 => exact .of_error (.inr ⟨by decide, hother, trivial⟩)
    | bcm2711Nuttx => exact .of_error (.inr ⟨by decide, hother, trivial⟩)

/-! ### Accesses that leave the board as it is -/

/-- A read that leaves the board as it is. -/
def Board.QuietRead (k : BoardKind) (b : Board) (addr : ℕ) : Prop :=
  match k.window addr with
  | .uart offset => ∀ console, b.console = some console → QuietUartRead b.uart console offset
  | _ => True

/-- A write that leaves the board as it is: to the distributor, of what the entry
holds. -/
def Board.QuietWrite (k : BoardKind) (b : Board) (addr val : ℕ) : Prop :=
  match k.window addr with
  | .uart offset => ∀ console, b.console = some console →
      QuietUartWrite b.uart console offset (val % 2 ^ 32)
  | .gic offset => ∀ entry ∈ gicDecode offset, val % 2 ^ 32 = b.gic entry.1 entry.2
  | .other => True

instance (k : BoardKind) (b : Board) (addr : ℕ) : Decidable (b.QuietRead k addr) :=
  match h : k.window addr with
  | .uart offset => decidable_of_iff (∀ console ∈ b.console, QuietUartRead b.uart console offset)
      (by rw [Board.QuietRead, h]; rfl)
  | .gic _ | .other => .isTrue (by rw [Board.QuietRead, h]; trivial)

instance (k : BoardKind) (b : Board) (addr val : ℕ) : Decidable (b.QuietWrite k addr val) :=
  match h : k.window addr with
  | .uart offset => decidable_of_iff
      (∀ console ∈ b.console, QuietUartWrite b.uart console offset (val % 2 ^ 32))
      (by rw [Board.QuietWrite, h]; rfl)
  | .gic offset => decidable_of_iff
      (∀ entry ∈ gicDecode offset, val % 2 ^ 32 = b.gic entry.1 entry.2)
      (by rw [Board.QuietWrite, h])
  | .other => .isTrue (by rw [Board.QuietWrite, h]; trivial)

variable {k : BoardKind} {b b' : Board} {addr val res : ℕ}

/-- A board with another serial line and console is another board. -/
theorem Board.put_eq_iff {console : Console} (hcon : b.console = some console)
    (r : UartRegs × Console) :
    { b with uart := r.1, console := some r.2 } = b ↔ r = (b.uart, console) := by
  constructor
  · intro heq
    exact Prod.ext (congrArg Board.uart heq)
      (Option.some.inj ((congrArg Board.console heq).trans hcon))
  · rintro rfl
    rw [← hcon]

/-- **A read leaves the board as it is exactly when it is quiet.** -/
theorem Board.mmioRead_eq_iff (h : b.mmioRead k addr = .ok (res, b')) :
    b' = b ↔ b.QuietRead k addr := by
  rw [mmioRead] at h
  rw [QuietRead]
  cases hwin : k.window addr with
  | uart offset =>
    simp only [hwin] at h
    cases hcon : b.console with
    | none => simp only [hcon] at h; cases h
    | some console =>
      simp only [hcon, Except.ok.injEq, Prod.mk.injEq] at h
      obtain ⟨-, rfl⟩ := h
      rw [put_eq_iff hcon, uartRead_eq_iff]
      simp only [Option.some.injEq, forall_eq']
  | gic offset =>
    simp only [hwin] at h
    obtain ⟨_, -, h⟩ := Lib.bind_eq_ok.mp h
    obtain ⟨-, rfl⟩ := Prod.mk.inj (Except.ok.inj h)
    exact iff_of_true rfl trivial
  | other =>
    simp only [hwin] at h
    obtain ⟨-, rfl⟩ := Prod.mk.inj (Except.ok.inj h)
    exact iff_of_true rfl trivial

/-- **A write leaves the board as it is exactly when it is quiet.** -/
theorem Board.mmioWrite_eq_iff (h : b.mmioWrite k addr val = .ok b') :
    b' = b ↔ b.QuietWrite k addr val := by
  simp only [mmioWrite] at h
  rw [QuietWrite]
  cases hwin : k.window addr with
  | uart offset =>
    simp only [hwin] at h
    cases hcon : b.console with
    | none => simp only [hcon] at h; cases h
    | some console =>
      simp only [hcon, Except.ok.injEq] at h
      obtain rfl := h
      rw [put_eq_iff hcon, uartWrite_eq_iff]
      simp only [Option.some.injEq, forall_eq']
  | gic offset =>
    simp only [hwin] at h
    obtain ⟨gic, hg, h⟩ := Lib.bind_eq_ok.mp h
    obtain rfl := Except.ok.inj h
    rw [gicWrite] at hg
    cases hdec : gicDecode offset with
    | none =>
      simp only [hdec, Except.ok.injEq] at hg
      obtain rfl := hg
      exact iff_of_true rfl (fun _ hdec' => by cases hdec.symm.trans hdec')
    | some entry =>
      obtain ⟨bank, i⟩ := entry
      simp only [hdec] at hg
      split at hg
      · obtain rfl := Except.ok.inj hg
        -- the board is the same exactly when the register already held what is stored
        constructor
        · intro heq entry hdec'
          obtain rfl := Option.some.inj (hdec.symm.trans hdec')
          have hentry := congrFun (congrFun (congrArg Board.gic heq) bank) i
          simpa only [Function.update_self] using hentry
        · intro hq
          rw [hq _ hdec, Function.update_eq_self, Function.update_eq_self]
      · cases hg
  | other =>
    simp only [hwin] at h
    cases k with
    | qemu =>
      obtain rfl := Except.ok.inj h
      exact iff_of_true rfl trivial
    | bcm2711 => cases h
    | bcm2711Nuttx => cases h

end Evisor
