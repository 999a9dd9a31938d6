import Evisor.Drivers.MmcApp
import Evisor.Lib.Dialogue

/-!
# What the card is told, and what it answers

Of the accesses to the controller three are what the card hears and says: `ARG1` and `CMDTM`, which
are written for a command, and `RESP0`, which is read once for an answer. In between the driver
looks at `INTERRUPT`, acknowledges it, and moves data.

A command that succeeds says its word (`Emmc.word`), and one that fails may do without the answer
(`Emmc.sendCommand_says`). An application command says the word of `APP_CMD` first
(`Emmc.appCommand_says`).
-/

namespace Evisor

namespace Emmc

/-- What the card hears and says. -/
inductive Letter where
  | arg (v : Word)
  | cmd (v : Word)
  | resp (v : Word)
  deriving DecidableEq

/-- The letter of an access, if it has one. -/
def letter : Lib.Access Reg Word → Option Letter
  | .write .ARG1 v => some (.arg v)
  | .write .CMDTM v => some (.cmd v)
  | .read .RESP0 v => some (.resp v)
  | _ => none

/-- **What has been said** between two states of the registers. -/
def Said (b : Lib.Bus Reg Word) (l : List Letter) (c : Lib.Bus Reg Word) : Prop :=
  ∃ accesses, c.log = b.log ++ accesses ∧ accesses.filterMap letter = l

/-- An access that the card does not notice. -/
def Silent (a : Lib.Access Reg Word) : Prop := letter a = none

/-- An answer of the card. -/
def Answer : Letter → Prop
  | .resp _ => True
  | _ => False

/-- **The word of a command**, with the answer to it. -/
def word (c : CmdRegister) (arg v : Word) : List Letter :=
  .arg arg :: .cmd c.word :: if c.responses = 0 then [] else [.resp v]

/-- A command that has been sent, with its answer or without. -/
def Sent (c : CmdRegister) (arg : Word) (l : List Letter) : Prop :=
  l = [.arg arg, .cmd c.word] ∨ ∃ v, l = word c arg v

theorem Said.refl (b : Lib.Bus Reg Word) : Said b [] b := ⟨[], (List.append_nil _).symm, rfl⟩

theorem Said.trans {b c e : Lib.Bus Reg Word} {l m : List Letter} (h : Said b l c)
    (h' : Said c m e) : Said b (l ++ m) e := by
  obtain ⟨x, hx, rfl⟩ := h
  obtain ⟨y, hy, rfl⟩ := h'
  exact ⟨x ++ y, by rw [hy, hx, List.append_assoc], List.filterMap_append⟩

/-- Nothing has been said by silent accesses. -/
theorem Said.of_only {b c : Lib.Bus Reg Word} (h : b.Only Silent c) : Said b [] c := by
  obtain ⟨-, x, hx, hsilent⟩ := h
  exact ⟨x, hx, List.filterMap_eq_nil_iff.mpr hsilent⟩

/-! ### What a command does besides -/

/-- **Nothing is said**, and the answer that is there stays. -/
structure Hush (s t : State) : Prop where
  regs_ : s.regs_.Only Silent t.regs_
  response0 : t.d.response0 = s.d.response0

variable {device : Device} {s t u : State}

theorem Hush.refl (s : State) : Hush s s := ⟨.refl _, rfl⟩

theorem Hush.trans (h : Hush s t) (h' : Hush t u) : Hush s u :=
  ⟨h.regs_.trans h'.regs_, h'.response0.trans h.response0⟩

theorem Hush.said (h : Hush s t) : Said s.regs_ [] t.regs_ := .of_only h.regs_

theorem silent_read {r : Reg} (hr : r ≠ .RESP0) (v : Word) : Silent (.read r v) := by
  cases r <;> first | rfl | exact absurd rfl hr

theorem silent_write {r : Reg} (hr : r ≠ .ARG1 ∧ r ≠ .CMDTM) (v : Word) :
    Silent (.write r v) := by
  cases r <;> first | rfl | exact absurd rfl hr.1 | exact absurd rfl hr.2

theorem hush_read {r : Reg} (hr : r ≠ .RESP0) (s : State) : Hush s (s.read r) :=
  ⟨(Lib.Bus.Only.refl _).read (silent_read hr), rfl⟩

theorem hush_write {r : Reg} (hr : r ≠ .ARG1 ∧ r ≠ .CMDTM) (s : State) (v : Word) :
    Hush s (s.write r v) :=
  ⟨(Lib.Bus.Only.refl _).write (silent_write hr v), rfl⟩

theorem hush_unexpected (reg_val : Word) (s : State) : Hush s (unexpected reg_val s) :=
  (⟨.refl _, rfl⟩ : Hush s { s with d := { s.d with cmd_error := reg_val &&& 0xffff0000 } }).trans
    (hush_read (by decide) _)

theorem hush_poll (s : State) {r : Reg} (hr : r ≠ .RESP0) (p : Word → Bool) (n : ℕ) :
    Hush s { s with regs_ := (s.regs_.poll r p n).2 } := by
  refine ⟨?_, rfl⟩
  rw [Lib.Bus.poll_eq]
  exact (Lib.Bus.Only.refl _).readN (silent_read hr) _

theorem hush_takeStatus (mask ack : Word) (s : State) : Hush s (takeStatus mask ack s).2 :=
  ((hush_poll s (r := .INTERRUPT) (by decide) _ _).trans (hush_read (by decide) _)).trans
    (hush_write (by decide) _ _)

theorem hush_readData (n pos : ℕ) (s : State) : Hush s (readData n pos s) := by
  induction n generalizing pos s with
  | zero => exact .refl s
  | succ n ih =>
    refine Hush.trans ?_ (ih (pos + 1) (readWord pos s))
    exact (⟨.refl _, rfl⟩ : Hush s { s with d := { s.d with
      buffer := Function.update s.d.buffer pos s.next } }).trans (hush_read (by decide) _)

theorem hush_writeData (n pos : ℕ) (s : State) : Hush s (writeData n pos s) := by
  induction n generalizing pos s with
  | zero => exact .refl s
  | succ n ih => exact (hush_write (by decide) s _).trans (ih (pos + 1) _)

theorem hush_transferBlocks (interrupts : Word) (write : Bool) (left pos : ℕ) (s : State) :
    Hush s (transferBlocks device interrupts write left pos s).2 := by
  induction left generalizing pos s with
  | zero => exact .refl s
  | succ left ih =>
    have hstatus := hush_takeStatus interrupts interrupts s
    rw [transferBlocks]
    split
    · exact hstatus.trans (hush_unexpected _ _)
    · refine hstatus.trans (Hush.trans ?_ (ih _ _))
      cases write with
      | true => exact hush_writeData _ _ _
      | false => exact hush_readData _ _ _

theorem hush_transferData (device : Device) (s : State) : Hush s (transferData device s) := by
  rw [transferData]
  split
  · exact hush_transferBlocks _ _ _ _ s
  · exact .refl s

theorem hush_waitTransferDone (s : State) : Hush s (waitTransferDone s).2 := by
  have hstatus := hush_takeStatus 0x2 0xffff0002 s
  rw [waitTransferDone]
  split
  · exact hstatus.trans (hush_unexpected _ _)
  · exact hstatus.trans (hush_write (by decide) _ _)

/-! ### Commands -/

/-- **The answer** is read once, if there is one to the command. -/
theorem said_readResponse (s : State) : Said s.regs_
    (if s.d.cmd_reg.responses = 0 then [] else [.resp (readResponse s).d.response0])
    (readResponse s).regs_ := by
  rw [readResponse, CmdRegister.responses]
  split
  · exact ⟨[.read .RESP0 s.next], rfl, rfl⟩
  · split
    · have hfirst : Said s.regs_ [.resp s.next] (readResp 0 .RESP0 s).regs_ :=
        ⟨[.read .RESP0 s.next], rfl, rfl⟩
      have hrest : (readResp 0 .RESP0 s).regs_.Only Silent
          (readResp 3 .RESP3 (readResp 2 .RESP2 (readResp 1 .RESP1
            (readResp 0 .RESP0 s)))).regs_ :=
        (((Lib.Bus.Only.refl _).read (r := .RESP1) (silent_read (by decide))).read
          (r := .RESP2) (silent_read (by decide))).read (r := .RESP3) (silent_read (by decide))
      exact hfirst.trans (.of_only hrest)
    · exact .refl _

/-- An answer comes if the wait for it succeeds, and not else. -/
theorem said_waitCommandDone (s : State) : Said s.regs_
    (if (waitCommandDone s).1 = false ∨ s.d.cmd_reg.responses = 0 then []
      else [.resp (waitCommandDone s).2.d.response0]) (waitCommandDone s).2.regs_ := by
  have hpoll := hush_poll s (r := .INTERRUPT) (by decide) commandDone s.d.cmd_timeout_usec
  have hack := (hpoll.trans (hush_read (r := .INTERRUPT) (by decide) _)).trans
    (hush_write (r := .INTERRUPT) (by decide) _ 0xffff0001)
  simp only [waitCommandDone]
  split
  · simpa using hpoll.said
  · split
    · simpa using (hack.trans (hush_unexpected _ _)).said
    · simp only [Bool.true_eq_false, false_or]
      exact hack.said.trans (said_readResponse _)

/-- **What a command says**: its word when it succeeds, and maybe no answer when it fails. -/
theorem sendCommand_says (device : Device) (h : s.d.transfer_blocks ≤ 0xffff) :
    ∃ l, Said s.regs_ l (sendCommand device s).2.regs_ ∧
      ((sendCommand device s).1 = true →
        l = word s.d.cmd_reg s.d.cmd_arg (sendCommand device s).2.d.response0) ∧
      Sent s.d.cmd_reg s.d.cmd_arg l := by
  have hstart : Said s.regs_ [.arg s.d.cmd_arg, .cmd s.d.cmd_reg.word]
      (startCommand device s).regs_ := by
    refine ⟨[.write .BLKSIZECNT (BitVec.ofNat 32 device.block_size |||
      BitVec.ofNat 32 s.d.transfer_blocks <<< 16), .write .ARG1 s.d.cmd_arg,
      .write .CMDTM s.d.cmd_reg.word], ?_, rfl⟩
    simp only [startCommand, State.write, Lib.Bus.write_log, List.append_assoc,
      List.singleton_append]
    rfl
  have hwait := hstart.trans (said_waitCommandDone (startCommand device s))
  have hreg : (startCommand device s).d.cmd_reg = s.d.cmd_reg := rfl
  rw [hreg] at hwait
  rw [sendCommand, if_neg (Nat.not_lt.mpr h)]
  dsimp only
  cases hok : (waitCommandDone (startCommand device s)).1 with
  | false =>
    rw [if_pos rfl]
    rw [hok, if_pos (.inl rfl)] at hwait
    exact ⟨_, hwait, fun h => (by cases h), .inl rfl⟩
  | true =>
    rw [if_neg (by simp)]
    rw [hok] at hwait
    simp only [Bool.true_eq_false, false_or] at hwait
    have hdata := hush_transferData device (waitCommandDone (startCommand device s)).2
    -- the data, and the end of the transfer, leave the answer
    have hsaid : ∀ {t : State}, Hush (waitCommandDone (startCommand device s)).2 t →
        Said s.regs_ (word s.d.cmd_reg s.d.cmd_arg t.d.response0) t.regs_ := by
      intro t ht
      have hall := hwait.trans ht.said
      rw [← ht.response0, List.append_nil] at hall
      exact hall
    split
    · have hend := hdata.trans (hush_waitTransferDone _)
      exact ⟨_, hsaid hend, fun _ => rfl, .inr ⟨_, rfl⟩⟩
    · exact ⟨_, hsaid hdata, fun _ => rfl, .inr ⟨_, rfl⟩⟩

/-- **What an application command says**: the word of `APP_CMD`, and then its own. Where `APP_CMD`
fails the caller is left with it. -/
theorem appCommand_says (device : Device) (hindex : ¬60 ≤ s.d.cmd_reg.index)
    (h : s.d.transfer_blocks ≤ 0xffff) :
    ∃ l, Said s.regs_ l (appCommand device s).2.regs_ ∧
      ((∃ v m, l = word (kCommands_ .APP_CMD) (appArg device) v ++ m ∧
          ((appCommand device s).1 = true →
            m = word s.d.cmd_reg s.d.cmd_arg (appCommand device s).2.d.response0) ∧
          Sent s.d.cmd_reg s.d.cmd_arg m ∧
          (appCommand device s).2.d.cmd_reg = s.d.cmd_reg ∧
          (appCommand device s).2.d.cmd_arg = s.d.cmd_arg) ∨
        (appCommand device s).1 = false ∧ Sent (kCommands_ .APP_CMD) (appArg device) l ∧
          (appCommand device s).2.d.cmd_reg = kCommands_ .APP_CMD ∧
          (appCommand device s).2.d.cmd_arg = appArg device) := by
  obtain ⟨l, hl, hok, hsent⟩ := sendCommand_says device (s := announce device s) h
  obtain ⟨hreg, harg, hkept⟩ := sendCommand_kept device (announce device s)
  rw [appCommand, if_neg hindex]
  dsimp only
  cases hfirst : (sendCommand device (announce device s)).1 with
  | false =>
    rw [if_pos rfl]
    exact ⟨l, hl, .inr ⟨rfl, hsent, hreg, harg⟩⟩
  | true =>
    obtain rfl := hok hfirst
    obtain ⟨m, hm, hok', hsent'⟩ := sendCommand_says device
      (s := (sendCommand device (announce device s)).2.withCommand s.d.cmd_reg s.d.cmd_arg)
      (hkept.trans_le h)
    obtain ⟨hreg', harg', -⟩ := sendCommand_kept device
      ((sendCommand device (announce device s)).2.withCommand s.d.cmd_reg s.d.cmd_arg)
    rw [if_neg (by simp)]
    exact ⟨_, hl.trans hm, .inl ⟨_, m, rfl, hok', hsent', hreg', harg'⟩⟩

end Emmc

end Evisor
