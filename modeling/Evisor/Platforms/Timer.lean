import Evisor.Lib.Bus
import Mathlib.Order.Monotone.Basic
import Mathlib.Tactic.NormNum

/-!
# Sleeping

`platforms/timer.cc`: `Timer::Sleep` and `Timer::SleepUsec` compute when to wake up and read the
free-running counter until it is not below that. The counter has 32 bits and comes round after
little more than an hour.

`Sleep.Clock` is the time at which the counter is read. What a reading tells depends on whether
the counter has come round, and on whether the sum has (`Sleep.reached_iff`,
`Sleep.reached_iff_wrapped`).
-/

namespace Evisor

namespace Sleep

/-- `uint32_t`. -/
abbrev Word := BitVec 32

/-- The register of the system timer that is read: the low word of the counter. -/
inductive TimerReg where
  | CLO
  deriving DecidableEq

/-- The loop of the two functions: how many readings are below `target_time`, if there have been no
more than `fuel` when one is not. -/
def waitUntil (target_time : Word) (fuel : ℕ) (b : Lib.Bus TimerReg Word) :
    Option ℕ × Lib.Bus TimerReg Word :=
  b.poll .CLO (fun time => !decide (time < target_time)) fuel

/-- `Timer::Sleep`. -/
def sleep (msec : Word) (fuel : ℕ) (b : Lib.Bus TimerReg Word) :
    Option ℕ × Lib.Bus TimerReg Word :=
  let target_time := b.next + msec * 1000
  waitUntil target_time fuel (b.read .CLO)

/-- `Timer::SleepUsec`. -/
def sleepUsec (usec : Word) (fuel : ℕ) (b : Lib.Bus TimerReg Word) :
    Option ℕ × Lib.Bus TimerReg Word :=
  let target_time := b.next + usec
  waitUntil target_time fuel (b.read .CLO)

/-! ### Time -/

/-- **When the counter is read**: what it shows when a sleep begins, and how many microseconds later
each reading of the loop is made. -/
structure Clock where
  start : Word
  elapsed : ℕ → ℕ
  mono : Monotone elapsed

/-- What the counter shows a while after the start. -/
def Clock.at (c : Clock) (usec : ℕ) : Word := c.start + BitVec.ofNat 32 usec

/-- The counter, when a sleep begins. -/
def Clock.bus (c : Clock) : Lib.Bus TimerReg Word :=
  ⟨fun i => if i = 0 then c.start else c.at (c.elapsed (i - 1)), 0, []⟩

/-- **A sleep returns** at reading `k` of its loop. -/
def Returns (f : ℕ → Lib.Bus TimerReg Word → Option ℕ × Lib.Bus TimerReg Word) (c : Clock)
    (k : ℕ) : Prop :=
  ∃ fuel, (f fuel c.bus).1 = some k

/-- The first reading that is made at least `usec` microseconds after the start. -/
def Clock.FirstAfter (c : Clock) (usec k : ℕ) : Prop :=
  usec ≤ c.elapsed k ∧ ∀ j < k, c.elapsed j < usec

/-- The readings up to `k` are less than half a period apart, the first one from the start. -/
def Clock.Dense (c : Clock) (k : ℕ) : Prop :=
  c.elapsed 0 < 2 ^ 31 ∧ ∀ j < k, c.elapsed (j + 1) - c.elapsed j < 2 ^ 31

/-- **A sleep waits** for `usec` microseconds and no longer than it must. -/
structure Waits (f : ℕ → Lib.Bus TimerReg Word → Option ℕ × Lib.Bus TimerReg Word) (usec : ℕ)
    (c : Clock) : Prop where
  atLeast : ∀ k, Returns f c k → usec ≤ c.elapsed k
  prompt : ∀ k, c.FirstAfter usec k → c.Dense k → Returns f c k

/-- **The sleep and the counter agree**: if the counter does not come round while the time passes,
it has not either when the first reading after it is made. If it does, it has already when the first
reading of all is made. -/
def Clock.InStep (c : Clock) (usec : ℕ) : Prop :=
  if c.start.toNat + usec < 2 ^ 32 then
    ∀ k, c.FirstAfter usec k → c.Dense k → c.start.toNat + c.elapsed k < 2 ^ 32
  else 2 ^ 32 ≤ c.start.toNat + c.elapsed 0

variable {c : Clock} {usec k : ℕ}

/-! ### What a reading tells -/

theorem Clock.toNat_at (c : Clock) (usec : ℕ) :
    (c.at usec).toNat = (c.start.toNat + usec) % 2 ^ 32 := by
  rw [Clock.at, BitVec.toNat_add, BitVec.toNat_ofNat, Nat.add_mod_mod]

/-- **When the sum does not come round**, a reading reaches it as long as the counter does not. -/
theorem reached_iff (hsum : c.start.toNat + usec < 2 ^ 32) {e : ℕ} (he : e < 2 ^ 32) :
    ¬c.at e < c.at usec ↔ usec ≤ e ∧ c.start.toNat + e < 2 ^ 32 := by
  have hstart := c.start.isLt
  rw [BitVec.lt_def, c.toNat_at, c.toNat_at]
  omega

/-- **When the sum comes round**, a reading reaches it as long as the counter does *not*, too. -/
theorem reached_iff_wrapped (hsum : 2 ^ 32 ≤ c.start.toNat + usec) (husec : usec < 2 ^ 32) {e : ℕ}
    (he : e < 2 ^ 32) :
    ¬c.at e < c.at usec ↔ usec ≤ e ∨ c.start.toNat + e < 2 ^ 32 := by
  have hstart := c.start.isLt
  rw [BitVec.lt_def, c.toNat_at, c.toNat_at]
  omega

/-! ### Where a sleep returns -/

theorem sleep_eq (msec : Word) : sleep msec = sleepUsec (msec * 1000) := rfl

/-- **A sleep returns** at the first reading that reaches the sum. -/
theorem returns_iff (usec : Word) : Returns (sleepUsec usec) c k ↔
    ¬c.at (c.elapsed k) < c.at usec.toNat ∧
      ∀ j < k, c.at (c.elapsed j) < c.at usec.toNat := by
  have hloop : ∀ fuel, (sleepUsec usec fuel c.bus).1 =
      Lib.firstHit (fun time => !decide (time < c.at usec.toNat)) c.bus.values fuel 1 := by
    intro fuel
    rw [sleepUsec, waitUntil, Lib.Bus.poll_eq]
    have hsum : c.bus.next + usec = c.at usec.toNat := by
      rw [Clock.at, BitVec.ofNat_toNat, BitVec.setWidth_eq]
      rfl
    rw [hsum]
    rfl
  have hvalue : ∀ j, c.bus.values (1 + j) = c.at (c.elapsed j) := by
    intro j
    rw [Nat.add_comm]
    rfl
  simp only [Returns, hloop, Lib.firstHit_eq_some_iff, hvalue, Bool.not_eq_true',
    Bool.not_eq_false', decide_eq_true_eq, decide_eq_false_iff_not]
  constructor
  · rintro ⟨fuel, -, h⟩
    exact h
  · exact fun h => ⟨k + 1, k.lt_succ_self, h⟩

/-- The first reading after the time is made before the counter shows the same again. -/
theorem Clock.FirstAfter.elapsed_lt (h : c.FirstAfter usec k) (hdense : c.Dense k)
    (husec : usec < 2 ^ 31) : c.elapsed k < 2 ^ 32 := by
  rcases k with _ | k
  · have hfirst := hdense.1
    omega
  · have hbefore := h.2 k k.lt_succ_self
    have hgap := hdense.2 k k.lt_succ_self
    omega

/-- **When the sum does not come round**, a sleep may last too long, but not too short. -/
theorem waits_iff_of_lt {usec : Word} (husec : usec.toNat < 2 ^ 31)
    (hsum : c.start.toNat + usec.toNat < 2 ^ 32) : Waits (sleepUsec usec) usec.toNat c ↔
      ∀ k, c.FirstAfter usec.toNat k → c.Dense k → c.start.toNat + c.elapsed k < 2 ^ 32 := by
  constructor
  · intro h k hfirst hdense
    have hreached := ((returns_iff usec).mp (h.prompt k hfirst hdense)).1
    exact ((reached_iff hsum (hfirst.elapsed_lt hdense husec)).mp hreached).2
  · intro h
    refine ⟨fun k hk => ?_, fun k hfirst hdense => (returns_iff usec).mpr ⟨?_, fun j hj => ?_⟩⟩
    · rcases Nat.lt_or_ge (c.elapsed k) (2 ^ 32) with hlt | hge
      · exact ((reached_iff hsum hlt).mp ((returns_iff usec).mp hk).1).1
      · omega
    · exact (reached_iff hsum (hfirst.elapsed_lt hdense husec)).mpr
        ⟨hfirst.1, h k hfirst hdense⟩
    · have hbefore := hfirst.2 j hj
      by_contra hreached
      have hafter := ((reached_iff hsum (by omega)).mp hreached).1
      omega

/-- **When the sum comes round**, a sleep is too short unless the counter has come round before it
is read again. -/
theorem waits_iff_of_le {usec : Word} (husec : usec.toNat < 2 ^ 31)
    (hsum : 2 ^ 32 ≤ c.start.toNat + usec.toNat) : Waits (sleepUsec usec) usec.toNat c ↔
      2 ^ 32 ≤ c.start.toNat + c.elapsed 0 := by
  have hreached := fun {e : ℕ} => reached_iff_wrapped hsum usec.isLt (e := e)
  constructor
  · intro h
    by_contra hlt
    have hshort : Returns (sleepUsec usec) c 0 :=
      (returns_iff usec).mpr ⟨(hreached (by omega)).mpr (Or.inr (by omega)), by simp⟩
    have hwaited := h.atLeast 0 hshort
    omega
  · intro h
    have hround : ∀ k, 2 ^ 32 ≤ c.start.toNat + c.elapsed k := by
      intro k
      have hmono := c.mono (Nat.zero_le k)
      omega
    refine ⟨fun k hk => ?_, fun k hfirst hdense => (returns_iff usec).mpr ⟨?_, fun j hj => ?_⟩⟩
    · rcases Nat.lt_or_ge (c.elapsed k) (2 ^ 32) with hlt | hge
      · have hk' := (hreached hlt).mp ((returns_iff usec).mp hk).1
        have hround' := hround k
        omega
      · omega
    · exact (hreached (hfirst.elapsed_lt hdense husec)).mpr (Or.inl hfirst.1)
    · have hbefore := hfirst.2 j hj
      have hround' := hround j
      by_contra hafter
      have hafter' := (hreached (by omega)).mp hafter
      omega

/-- **When a sleep waits** for the time it is given. -/
theorem waits_iff {usec : Word} (husec : usec.toNat < 2 ^ 31) :
    Waits (sleepUsec usec) usec.toNat c ↔ c.InStep usec.toNat := by
  rw [Clock.InStep]
  split_ifs with hsum
  · exact waits_iff_of_lt husec hsum
  · exact waits_iff_of_le husec (Nat.not_lt.mp hsum)

/-- **Both sleeps wait** for the time they are given exactly when the sum and the counter come round
together. -/
theorem sleep_waits_iff (c : Clock) :
    (∀ usec : Word, usec.toNat < 2 ^ 31 →
      (Waits (sleepUsec usec) usec.toNat c ↔ c.InStep usec.toNat)) ∧
    ∀ msec : Word, 1000 * msec.toNat < 2 ^ 31 →
      (Waits (sleep msec) (1000 * msec.toNat) c ↔ c.InStep (1000 * msec.toNat)) := by
  refine ⟨fun usec => waits_iff, fun msec hmsec => ?_⟩
  have husec : (msec * 1000).toNat = 1000 * msec.toNat := by
    rw [BitVec.toNat_mul, show (1000 : Word).toNat = 1000 from rfl, Nat.mod_eq_of_lt (by omega),
      Nat.mul_comm]
  rw [← husec, sleep_eq]
  exact waits_iff (by omega)

/-- A counter that is read every microsecond. -/
def Clock.steady (start : Word) : Clock := ⟨start, id, monotone_id⟩

theorem Clock.steady_inStep {start : Word} {usec : ℕ} (h : start.toNat + usec < 2 ^ 32) :
    (Clock.steady start).InStep usec := by
  refine (if_pos h).mpr fun k hfirst _ => ?_
  have hk : k ≤ usec := by
    by_contra hlt
    exact absurd (hfirst.2 usec (Nat.lt_of_not_le hlt)) (Nat.lt_irrefl usec)
  change start.toNat + k < 2 ^ 32
  omega

/-- A sleep of five microseconds, and one of five milliseconds, from the start of the counter. -/
theorem sleep_waits_five : Waits (sleepUsec 5) 5 (.steady 0) ∧ Waits (sleep 5) 5000 (.steady 0) :=
  ⟨((sleep_waits_iff _).1 5 (by decide)).mpr (Clock.steady_inStep (by decide)),
    ((sleep_waits_iff _).2 5 (by decide)).mpr (Clock.steady_inStep (by decide))⟩

/-- **A sleep of two microseconds is over at once**, one microsecond before the counter comes
round. -/
theorem sleep_not_waiting : ¬∀ c : Clock,
    (∀ usec : Word, usec.toNat < 2 ^ 31 → Waits (sleepUsec usec) usec.toNat c) ∧
      ∀ msec : Word, 1000 * msec.toNat < 2 ^ 31 → Waits (sleep msec) (1000 * msec.toNat) c := by
  intro h
  have hwaits := (h (.steady 0xffffffff)).1 2 (by decide)
  exact absurd ((waits_iff_of_le (by decide) (by decide)).mp hwaits) (by decide)

end Sleep

end Evisor
