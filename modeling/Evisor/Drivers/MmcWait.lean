import Evisor.Drivers.MmcCommand

/-!
# Waiting for a command

`Mmc::WaitCommandDone` polls `INTERRUPT` as often as `cmd_timeout_usec` says, and gives up if
nothing has been shown. Whether something has been shown it concludes from the counter of the
polls, and that counter is the same after the *last* poll whether or not it has shown anything
(`Emmc.wait_judged_iff`).
-/

namespace Evisor

namespace Emmc

open Lib (firstHit)
open Lib.Bus (written)

/-- What poll `k` of `INTERRUPT` returns, the first one being poll `0`. -/
def pollAt (s : State) (k : ℕ) : Word := s.regs_.values (s.regs_.reads + k)

/-- **The first poll that shows anything** is poll `k`. -/
def FirstShown (s : State) (k : ℕ) : Prop :=
  k < s.d.cmd_timeout_usec ∧ pollAt s k ≠ 0 ∧ ∀ j < k, pollAt s j = 0

/-- **No poll shows anything.** -/
def NoneShown (s : State) : Prop := ∀ k < s.d.cmd_timeout_usec, pollAt s k = 0

/-- **A time-out is reported**: the function fails and leaves `INTERRUPT` as it is. -/
def TimedOut (s : State) : Prop :=
  (waitCommandDone s).1 = false ∧
    written .INTERRUPT (waitCommandDone s).2.regs_.log = written .INTERRUPT s.regs_.log

/-- **A command is judged exactly**: a time-out is reported when no poll shows anything, and
otherwise the read after the first poll that does decides. -/
structure JudgedExactly (s : State) : Prop where
  timedOut : TimedOut s ↔ NoneShown s
  success : ∀ k, FirstShown s k → ((waitCommandDone s).1 = true ↔
    pollAt s (k + 1) &&& 0x1 = 0x1 ∧ pollAt s (k + 1) &&& 0xffff0000 = 0)
  error : ∀ k, FirstShown s k → (waitCommandDone s).1 = false →
    (waitCommandDone s).2.d.cmd_error = pollAt s (k + 1) &&& 0xffff0000

variable {s : State} {k : ℕ}

/-! ### What has been shown -/

theorem commandDone_eq_false_iff {reg_val : Word} : commandDone reg_val = false ↔ reg_val = 0 := by
  rw [commandDone, Bool.or_eq_false_iff, bne_eq_false_iff_eq, bne_eq_false_iff_eq]
  refine ⟨And.right, ?_⟩
  rintro rfl
  exact ⟨rfl, rfl⟩

theorem firstHit_eq_some : firstHit commandDone s.regs_.values s.d.cmd_timeout_usec s.regs_.reads =
    some k ↔ FirstShown s k := by
  rw [Lib.firstHit_eq_some_iff, FirstShown]
  simp only [commandDone_eq_false_iff, ← Bool.not_eq_false]
  rfl

theorem firstHit_eq_none : firstHit commandDone s.regs_.values s.d.cmd_timeout_usec s.regs_.reads =
    none ↔ NoneShown s := by
  rw [Lib.firstHit_eq_none_iff]
  simp only [commandDone_eq_false_iff]
  rfl

/-- Only one poll is the first that shows anything. -/
theorem FirstShown.not_noneShown (h : FirstShown s k) : ¬NoneShown s := fun hnone =>
  h.2.1 (hnone k h.1)

/-- The interrupt bits of a command that is done. -/
theorem and_done_iff {v : Word} :
    v &&& 0xffff0001 = 1 ↔ v &&& 0x1 = 0x1 ∧ v &&& 0xffff0000 = 0 := by
  constructor
  · intro h
    have hmask : ∀ m : Word, 0xffff0001 &&& m = m → v &&& m = 1 &&& m := by
      intro m hm
      rw [← h, BitVec.and_assoc, hm]
    exact ⟨hmask 0x1 (by decide), hmask 0xffff0000 (by decide)⟩
  · rintro ⟨hdone, herror⟩
    have hsplit : (0xffff0001 : Word) = 0x1 ||| 0xffff0000 := by decide
    rw [hsplit, BitVec.and_or_distrib_left, hdone, herror]
    decide

/-! ### What is done then -/

/-- The polls have been made. -/
def polled (s : State) : State :=
  { s with regs_ := (s.regs_.poll .INTERRUPT commandDone s.d.cmd_timeout_usec).2 }

/-- What `WaitCommandDone` does after the polls if it does not give up. -/
def judge (s : State) : Bool × State :=
  let interrupts := s.next
  let s := (s.read .INTERRUPT).write .INTERRUPT 0xffff0001
  if interrupts &&& 0xffff0001 ≠ 1 then (false, unexpected interrupts s)
  else (true, readResponse s)

theorem waitCommandDone_eq (s : State) : waitCommandDone s =
    if s.d.cmd_timeout_usec ≤ times s.d.cmd_timeout_usec
        (firstHit commandDone s.regs_.values s.d.cmd_timeout_usec s.regs_.reads) then
      (false, polled s)
    else judge (polled s) := by
  rw [waitCommandDone, polled, Lib.Bus.poll_eq]
  rfl

/-- `INTERRUPT` is read and acknowledged. -/
def acknowledged (s : State) : State := (s.read .INTERRUPT).write .INTERRUPT 0xffff0001

theorem judge_of_done (h : s.next &&& 0xffff0001 = 1) :
    judge s = (true, readResponse (acknowledged s)) :=
  if_neg (not_not.mpr h)

theorem judge_of_not_done (h : s.next &&& 0xffff0001 ≠ 1) :
    judge s = (false, unexpected s.next (acknowledged s)) :=
  if_pos h

theorem judge_fst : (judge s).1 = true ↔ s.next &&& 0x1 = 0x1 ∧ s.next &&& 0xffff0000 = 0 := by
  rw [← and_done_iff]
  by_cases h : s.next &&& 0xffff0001 = 1
  · rw [judge_of_done h]
    exact iff_of_true rfl h
  · rw [judge_of_not_done h]
    exact iff_of_false Bool.false_ne_true h

theorem judge_error (h : (judge s).1 = false) :
    (judge s).2.d.cmd_error = s.next &&& 0xffff0000 := by
  by_cases hdone : s.next &&& 0xffff0001 = 1
  · rw [judge_of_done hdone] at h
    cases h
  · rw [judge_of_not_done hdone]
    rfl

/-- A response is read only. -/
theorem written_readResponse (r : Reg) (s : State) :
    written r (readResponse s).regs_.log = written r s.regs_.log := by
  rw [readResponse]
  split
  · simp [readResp, State.read, written]
  · split
    · simp [readResp, State.read, written]
    · rfl

/-- **Judging acknowledges**: `INTERRUPT` is written to. -/
theorem written_judge (s : State) : written .INTERRUPT (judge s).2.regs_.log =
    written .INTERRUPT s.regs_.log ++ [0xffff0001] := by
  by_cases h : s.next &&& 0xffff0001 = 1
  · rw [judge_of_done h, written_readResponse]
    simp [acknowledged, State.read, State.write, written]
  · rw [judge_of_not_done h]
    simp [unexpected, acknowledged, State.read, State.write, written]

/-- Polling does not. -/
theorem written_polled (s : State) :
    written .INTERRUPT (polled s).regs_.log = written .INTERRUPT s.regs_.log := by
  have honly : s.regs_.Only (fun a => ∀ v, a ≠ .write .INTERRUPT v) (polled s).regs_ := by
    rw [polled, Lib.Bus.poll_eq]
    exact (Lib.Bus.Only.refl _).readN (by simp) _
  exact honly.written_eq fun v h => h v rfl

theorem polled_next (h : FirstShown s k) : (polled s).next = pollAt s (k + 1) := by
  have hreads := Lib.polls_of_some (firstHit_eq_some.mpr h)
  rw [State.next, polled, Lib.Bus.poll_eq, Lib.Bus.next, Lib.Bus.readN_values, Lib.Bus.readN_reads,
    hreads]
  rfl

/-! ### Giving up -/

/-- **A time-out is reported** when the counter has reached the limit. -/
theorem timedOut_iff : TimedOut s ↔ s.d.cmd_timeout_usec ≤ times s.d.cmd_timeout_usec
    (firstHit commandDone s.regs_.values s.d.cmd_timeout_usec s.regs_.reads) := by
  rw [TimedOut, waitCommandDone_eq]
  split
  case isTrue hle =>
    exact iff_of_true ⟨rfl, written_polled s⟩ hle
  case isFalse hlt =>
    refine iff_of_false (fun h => ?_) hlt
    have hlen := congrArg List.length h.2
    rw [written_judge, written_polled, List.length_append] at hlen
    exact absurd hlen (by simp)

/-- Without a time-out the command is judged. -/
theorem waitCommandDone_of_not_timedOut (h : ¬TimedOut s) :
    waitCommandDone s = judge (polled s) := by
  rw [waitCommandDone_eq, if_neg (timedOut_iff.not.mp h)]

/-- **When anything is shown**, a time-out is reported if it is the last poll that shows it. -/
theorem FirstShown.timedOut_iff (h : FirstShown s k) :
    TimedOut s ↔ k + 1 = s.d.cmd_timeout_usec := by
  have hk := h.1
  rw [Emmc.timedOut_iff, firstHit_eq_some.mpr h, times]
  omega

/-- **When nothing is shown**, a time-out is reported unless the counter has come round. -/
theorem NoneShown.timedOut_iff (h : NoneShown s) :
    TimedOut s ↔ s.d.cmd_timeout_usec + 1 < 2 ^ 32 := by
  rw [Emmc.timedOut_iff, firstHit_eq_none.mpr h, times]
  omega

/-- Something is shown first, or nothing. -/
theorem shown_or_none (s : State) : (∃ k, FirstShown s k) ∨ NoneShown s := by
  rcases hhit : firstHit commandDone s.regs_.values s.d.cmd_timeout_usec s.regs_.reads with _ | k
  · exact Or.inr (firstHit_eq_none.mp hhit)
  · exact Or.inl ⟨k, firstHit_eq_some.mp hhit⟩

/-- **A command is judged exactly** when it is not the last poll that shows the first thing, and
when nothing is shown, the counter does not come round. -/
theorem wait_judged_iff (s : State) : JudgedExactly s ↔
    ¬FirstShown s (s.d.cmd_timeout_usec - 1) ∧
      (NoneShown s → s.d.cmd_timeout_usec + 1 < 2 ^ 32) := by
  constructor
  · intro h
    refine ⟨fun hlast => ?_, fun hnone => ?_⟩
    · have hpos := hlast.1
      exact hlast.not_noneShown (h.timedOut.mp (hlast.timedOut_iff.mpr (by omega)))
    · exact hnone.timedOut_iff.mp (h.timedOut.mpr hnone)
  · rintro ⟨hlast, hnone⟩
    have hearly : ∀ k, FirstShown s k → ¬TimedOut s := by
      intro k hk hout
      have heq := hk.timedOut_iff.mp hout
      exact hlast (by rwa [← heq, Nat.add_sub_cancel])
    refine ⟨⟨fun hout => ?_, fun h => h.timedOut_iff.mpr (hnone h)⟩, fun k hk => ?_, fun k hk => ?_⟩
    · exact (shown_or_none s).resolve_left fun hshown =>
        hshown.elim fun k hk => hearly k hk hout
    · rw [waitCommandDone_of_not_timedOut (hearly k hk), judge_fst, polled_next hk]
    · rw [waitCommandDone_of_not_timedOut (hearly k hk), ← polled_next hk]
      exact judge_error

/-- A command that is done at the first poll, and the last one. -/
def State.doneAtOnce : State where
  d := { cmd_type := .SEND_IF_COND, cmd_reg := kCommands_ .SEND_IF_COND, cmd_arg := 0x1aa,
         cmd_timeout_usec := 1, transfer_blocks := 0, buffer := fun _ => 0,
         cmd_response := fun _ => 0, cmd_error := 0 }
  regs_ := ⟨fun _ => 1, 0, []⟩

/-- **A command that is done is given up.** -/
theorem done_given_up : ¬∀ s : State, 0 < s.d.cmd_timeout_usec → JudgedExactly s := by
  intro h
  have hdone : FirstShown .doneAtOnce 0 := ⟨Nat.one_pos, by decide, by simp⟩
  have hout : TimedOut .doneAtOnce := hdone.timedOut_iff.mpr rfl
  exact hdone.not_noneShown ((h .doneAtOnce Nat.one_pos).timedOut.mp hout)

end Emmc

end Evisor
