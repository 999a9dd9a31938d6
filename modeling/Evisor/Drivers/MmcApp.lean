import Evisor.Drivers.MmcCommand

/-!
# Application commands

`Mmc::AppCommand` of `drivers/mmc/mmc.cc` and the loop of `Mmc::CheckOcr` in
`drivers/mmc/mmc_card.cc`. An application command is announced to the card by `APP_CMD`, which is
put in the place of the command that was given, sent, and taken out again.

It is taken out only if it has been answered. Where it has not, the caller is left with `APP_CMD`
in the place of its command, and what `CheckOcr` tries again is no longer what it has asked for.
-/

namespace Evisor

namespace Emmc

open Lib (EachTry retry)
open Lib.Bus (written)

/-! ### Announcing a command -/

/-- Another command in the place of the one that was given. -/
def State.withCommand (s : State) (cmd_reg : CmdRegister) (cmd_arg : Word) : State :=
  { s with d := { s.d with cmd_reg := cmd_reg, cmd_arg := cmd_arg } }

/-- The argument of `APP_CMD`. -/
def appArg (device : Device) : Word := if device.rca ≠ 0 then device.rca <<< 16 else 0

/-- `APP_CMD` in the place of a command. -/
def announce (device : Device) (s : State) : State :=
  s.withCommand (kCommands_ .APP_CMD) (appArg device)

/-- `Mmc::AppCommand`. -/
def appCommand (device : Device) (s : State) : Bool × State :=
  if 60 ≤ s.d.cmd_reg.index then (false, s)
  else
    let sent := sendCommand device (announce device s)
    if sent.1 = false then (false, sent.2)
    else sendCommand device (sent.2.withCommand s.d.cmd_reg s.d.cmd_arg)

/-- `APP_CMD` is sent, and answered. -/
def AppAnswered (s : State) : Prop :=
  s.d.transfer_blocks ≤ 0xffff ∧ Answered s.d.cmd_timeout_usec s.regs_.values s.regs_.reads

instance (s : State) : Decidable (AppAnswered s) := inferInstanceAs (Decidable (_ ∧ _))

/-- The ways in which the command that was given is left with the caller: it is refused, or
`APP_CMD` has been answered, or it is `APP_CMD` itself. -/
def Restores (device : Device) (s : State) : Prop :=
  60 ≤ s.d.cmd_reg.index ∨ AppAnswered s ∨
    s.d.cmd_reg = kCommands_ .APP_CMD ∧ s.d.cmd_arg = appArg device

variable {device : Device} {s : State}

/-- `APP_CMD` has no data, and the card is not busy after it. -/
theorem announce_fst :
    (sendCommand device (announce device s)).1 = true ↔ AppAnswered s := by
  have hend : ¬((announce device s).d.cmd_reg.response_type = RT48Busy ∨
      (announce device s).d.cmd_reg.is_data = 1) := by
    change ¬((kCommands_ .APP_CMD).response_type = RT48Busy ∨ (kCommands_ .APP_CMD).is_data = 1)
    decide
  rw [sendCommand_fst]
  exact ⟨fun h => ⟨h.1, h.2.1⟩, fun h => ⟨h.1, h.2, fun hcon => absurd hcon hend⟩⟩

theorem appCommand_of_refused (h : 60 ≤ s.d.cmd_reg.index) :
    appCommand device s = (false, s) :=
  if_pos h

/-- Where `APP_CMD` is not answered, nothing else is sent. -/
theorem appCommand_of_unanswered (hindex : ¬60 ≤ s.d.cmd_reg.index) (h : ¬AppAnswered s) :
    appCommand device s = (false, (sendCommand device (announce device s)).2) := by
  rw [appCommand, if_neg hindex]
  refine if_pos ?_
  rw [← Bool.not_eq_true, announce_fst]
  exact h

/-- Where it is, the command that was given follows. -/
theorem appCommand_of_answered (hindex : ¬60 ≤ s.d.cmd_reg.index) (h : AppAnswered s) :
    appCommand device s = sendCommand device
      ((sendCommand device (announce device s)).2.withCommand s.d.cmd_reg s.d.cmd_arg) := by
  rw [appCommand, if_neg hindex]
  refine if_neg ?_
  rw [announce_fst.mpr h]
  exact Bool.true_eq_false_eq_False

/-- An application command that succeeds has been announced. -/
theorem answered_of_appCommand (h : (appCommand device s).1 = true) : AppAnswered s := by
  by_contra hno
  by_cases hindex : 60 ≤ s.d.cmd_reg.index
  · rw [appCommand_of_refused hindex] at h
    cases h
  · rw [appCommand_of_unanswered hindex hno] at h
    cases h

theorem appCommand_transfer_blocks (device : Device) (s : State) :
    (appCommand device s).2.d.transfer_blocks = s.d.transfer_blocks := by
  have happ := (sendCommand_kept device (announce device s)).2.2
  by_cases hindex : 60 ≤ s.d.cmd_reg.index
  · rw [appCommand_of_refused hindex]
  · by_cases h : AppAnswered s
    · rw [appCommand_of_answered hindex h]
      exact (sendCommand_kept device _).2.2.trans happ
    · rw [appCommand_of_unanswered hindex h]
      exact happ

/-- **When the command that was given is left with the caller.** -/
theorem appCommand_restores_iff (device : Device) (s : State) :
    ((appCommand device s).2.d.cmd_reg = s.d.cmd_reg ∧
      (appCommand device s).2.d.cmd_arg = s.d.cmd_arg) ↔ Restores device s := by
  by_cases hindex : 60 ≤ s.d.cmd_reg.index
  · rw [appCommand_of_refused hindex]
    exact iff_of_true ⟨rfl, rfl⟩ (.inl hindex)
  · by_cases h : AppAnswered s
    · rw [appCommand_of_answered hindex h]
      have hkept := sendCommand_kept device
        ((sendCommand device (announce device s)).2.withCommand s.d.cmd_reg s.d.cmd_arg)
      exact iff_of_true ⟨hkept.1, hkept.2.1⟩ (.inr (.inl h))
    · rw [appCommand_of_unanswered hindex h]
      have hkept := sendCommand_kept device (announce device s)
      rw [hkept.1, hkept.2.1, Restores, or_iff_right hindex, or_iff_right h]
      exact and_congr eq_comm eq_comm

/-! ### What goes out -/

/-- **An attempt for a command** sends `APP_CMD` and, if that is answered, the command. -/
structure SendsApp (device : Device) (c : CmdRegister) (arg : Word) (s : State) : Prop where
  cmd_reg : s.d.cmd_reg = c
  cmd_arg : s.d.cmd_arg = arg
  sent : written .CMDTM (appCommand device s).2.regs_.log = written .CMDTM s.regs_.log ++
    (kCommands_ .APP_CMD).word :: if AppAnswered s then [c.word] else []
  sent_arg : written .ARG1 (appCommand device s).2.regs_.log = written .ARG1 s.regs_.log ++
    appArg device :: if AppAnswered s then [arg] else []

theorem sendsApp (device : Device) (hindex : ¬60 ≤ s.d.cmd_reg.index)
    (hblocks : s.d.transfer_blocks ≤ 0xffff) :
    SendsApp device s.d.cmd_reg s.d.cmd_arg s := by
  have happ := written_sendCommand device (s := announce device s) hblocks
  by_cases h : AppAnswered s
  · have hnext := written_sendCommand device
      (s := (sendCommand device (announce device s)).2.withCommand s.d.cmd_reg s.d.cmd_arg)
      ((sendCommand_kept device (announce device s)).2.2.trans_le hblocks)
    refine ⟨rfl, rfl, ?_, ?_⟩
    · rw [appCommand_of_answered hindex h, hnext.1, if_pos h]
      exact (congrArg (· ++ _) happ.1).trans (List.append_assoc _ _ _)
    · rw [appCommand_of_answered hindex h, hnext.2, if_pos h]
      exact (congrArg (· ++ _) happ.2).trans (List.append_assoc _ _ _)
  · refine ⟨rfl, rfl, ?_, ?_⟩
    · rw [appCommand_of_unanswered hindex h, if_neg h]
      exact happ.1
    · rw [appCommand_of_unanswered hindex h, if_neg h]
      exact happ.2

/-! ### Asking for the operating conditions -/

/-- The attempts of the loop of `CheckOcr`. -/
def kOcrAttempts : ℕ := 5

/-- The state in which `CheckOcr` calls `AppCommand` first. The command has no buffer, and no
blocks to put there. -/
def ocrStart (regs_ : Lib.Bus Reg Word) : State where
  d :=
    { cmd_type := .CTOcrCheck
      cmd_reg := kCommands_ .CTOcrCheck
      cmd_arg := 0
      cmd_timeout_usec := 2000
      transfer_blocks := 0
      buffer := fun _ => 0
      cmd_response := fun _ => 0
      cmd_error := 0 }
  regs_ := regs_

/-- `Mmc::CheckOcr`. -/
def checkOcr (device : Device) (regs_ : Lib.Bus Reg Word) : Bool × Device × Lib.Bus Reg Word :=
  let done := retry (appCommand device) kOcrAttempts (ocrStart regs_)
  if done.1 = false then (false, device, done.2.regs_)
  else
    let ocr := (done.2.d.response0 >>> 8 &&& 0xffff).setWidth 16
    (true, { device with ocr := ocr }, done.2.regs_)

/-- An attempt for `CTOcrCheck` is followed by one for the same exactly if it is announced. -/
theorem sendsApp_next_iff (hblocks : s.d.transfer_blocks = 0)
    (h : SendsApp device (kCommands_ .CTOcrCheck) 0 s) :
    SendsApp device (kCommands_ .CTOcrCheck) 0 (appCommand device s).2 ↔ AppAnswered s := by
  have hindex : ¬60 ≤ s.d.cmd_reg.index := by
    rw [h.cmd_reg]
    decide
  have hrestores := appCommand_restores_iff device s
  rw [Restores, or_iff_right hindex] at hrestores
  constructor
  · intro hnext
    rcases hrestores.mp ⟨hnext.cmd_reg.trans h.cmd_reg.symm, hnext.cmd_arg.trans h.cmd_arg.symm⟩
      with hanswered | ⟨happ, -⟩
    · exact hanswered
    · rw [h.cmd_reg] at happ
      exact absurd happ (by decide)
  · intro hanswered
    obtain ⟨hreg, harg⟩ := hrestores.mpr (.inl hanswered)
    have hsends := sendsApp device (s := (appCommand device s).2) (hreg ▸ hindex)
      ((appCommand_transfer_blocks device s).trans hblocks ▸ Nat.zero_le _)
    rwa [hreg, harg, h.cmd_reg, h.cmd_arg] at hsends

/-- **Retrying an application command.** `AppCommand` leaves the command as it was given exactly if
it refuses it, or `APP_CMD` is answered or is that command; and every attempt of `CheckOcr` is for
`CTOcrCheck`, with the argument `0`, exactly if all but the last one that it may make find
`APP_CMD` answered. -/
theorem app_command_retry_iff (device : Device) :
    (∀ s, ((appCommand device s).2.d.cmd_reg = s.d.cmd_reg ∧
        (appCommand device s).2.d.cmd_arg = s.d.cmd_arg) ↔ Restores device s) ∧
      ∀ regs_ : Lib.Bus Reg Word,
        EachTry (appCommand device) (SendsApp device (kCommands_ .CTOcrCheck) 0) kOcrAttempts
            (ocrStart regs_) ↔
          EachTry (appCommand device) AppAnswered (kOcrAttempts - 1) (ocrStart regs_) := by
  refine ⟨appCommand_restores_iff device, fun regs_ => ?_⟩
  refine Lib.eachTry_succ_iff (J := fun t => t.d.transfer_blocks = 0)
    (fun t ht => (appCommand_transfer_blocks device t).trans ht)
    (fun t => answered_of_appCommand) (fun t ht hsends => sendsApp_next_iff ht hsends) rfl ?_
  exact sendsApp device (s := ocrStart regs_)
    (show ¬60 ≤ (kCommands_ .CTOcrCheck).index by decide) (Nat.zero_le _)

/-- The device as `Open` sets it up. -/
def newCard : Device := ⟨false, 0, 0, 0, 0, by decide⟩

/-- A controller that reports an error of the first command, and answers from then on. -/
def failsOnce : Lib.Bus Reg Word :=
  ⟨fun i => [0x10000, 0x10000, 0, 1, 1, 0, 1, 1, 0].getD i 0, 0, []⟩

/-- `CheckOcr` passes without having asked. The first attempt loses the command, and the second one
sends `APP_CMD` twice. -/
theorem ocr_never_asked :
    (appCommand newCard (ocrStart failsOnce)).2.d.cmd_reg = kCommands_ .APP_CMD ∧
      ¬EachTry (appCommand newCard) (SendsApp newCard (kCommands_ .CTOcrCheck) 0) kOcrAttempts
        (ocrStart failsOnce) ∧
      (checkOcr newCard failsOnce).1 = true ∧
      written .CMDTM (checkOcr newCard failsOnce).2.2.log =
        List.replicate 3 (kCommands_ .APP_CMD).word := by
  have hlost : (appCommand newCard (ocrStart failsOnce)).2.d.cmd_reg = kCommands_ .APP_CMD := by
    decide +kernel
  refine ⟨hlost, fun h => ?_, by decide +kernel, by decide +kernel⟩
  have hfails : (appCommand newCard (ocrStart failsOnce)).1 = false := by decide +kernel
  have hsecond := (h.2 hfails).1.cmd_reg
  rw [hlost] at hsecond
  exact absurd hsecond (by decide)

end Emmc

end Evisor
