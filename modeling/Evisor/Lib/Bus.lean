import Mathlib.Data.List.Basic

/-!
# Talking to a device through its registers

A driver sees a device only through what the device's registers return when they are read. The
device is therefore a sequence of values, one for each read, about which nothing is said: it may
return anything at any time. Beside it is kept what has been done to the registers so far, in
order, so that a statement about what a driver *did* is a statement about a list.

Two loops are common to drivers: a register is read until it shows something, a bounded number of
times (`Lib.Bus.poll`), and an operation is tried again until it succeeds, a bounded number of
times (`Lib.retry`). What the first one does is a matter of the values alone (`Lib.firstHit`,
`Lib.polls`).
-/

namespace Lib

universe u v

/-- An access to a register: the value that a read has returned, or that has been written. -/
inductive Access (ρ : Type u) (ν : Type v) where
  | read (r : ρ) (v : ν)
  | write (r : ρ) (v : ν)
  deriving DecidableEq

/-- The registers of a device: what the reads return, one after the other, how many there have
been, and all accesses so far. -/
structure Bus (ρ : Type u) (ν : Type v) where
  values : ℕ → ν
  reads : ℕ
  log : List (Access ρ ν)

variable {ρ : Type u} {ν : Type v}

namespace Bus

/-- What the next read returns. -/
def next (b : Bus ρ ν) : ν := b.values b.reads

/-- The registers after a read. -/
def read (b : Bus ρ ν) (r : ρ) : Bus ρ ν :=
  { b with reads := b.reads + 1, log := b.log ++ [.read r b.next] }

/-- The registers after a write. -/
def write (b : Bus ρ ν) (r : ρ) (v : ν) : Bus ρ ν :=
  { b with log := b.log ++ [.write r v] }

/-- The registers after `n` reads of the same one. -/
def readN (r : ρ) : ℕ → Bus ρ ν → Bus ρ ν
  | 0, b => b
  | n + 1, b => readN r n (b.read r)

variable {r : ρ} {v : ν} {b : Bus ρ ν}

@[simp] theorem read_values : (b.read r).values = b.values := rfl

@[simp] theorem read_reads : (b.read r).reads = b.reads + 1 := rfl

@[simp] theorem read_log : (b.read r).log = b.log ++ [.read r b.next] := rfl

@[simp] theorem write_values : (b.write r v).values = b.values := rfl

@[simp] theorem write_reads : (b.write r v).reads = b.reads := rfl

@[simp] theorem write_log : (b.write r v).log = b.log ++ [.write r v] := rfl

@[simp] theorem readN_values (n : ℕ) : (b.readN r n).values = b.values := by
  induction n generalizing b with
  | zero => rfl
  | succ n ih => rw [readN, ih, read_values]

@[simp] theorem readN_reads (n : ℕ) : (b.readN r n).reads = b.reads + n := by
  induction n generalizing b with
  | zero => rfl
  | succ n ih =>
    rw [readN, ih, read_reads]
    omega

/-! ### What has been done to the registers -/

/-- **Nothing but** accesses that satisfy `P` lies between the one state of the registers and the
other. -/
def Only (P : Access ρ ν → Prop) (b c : Bus ρ ν) : Prop :=
  c.values = b.values ∧ ∃ l, c.log = b.log ++ l ∧ ∀ a ∈ l, P a

variable {P Q : Access ρ ν → Prop} {c d : Bus ρ ν}

theorem Only.refl (b : Bus ρ ν) : Only P b b :=
  ⟨rfl, [], (List.append_nil _).symm, fun _ ha => by cases ha⟩

theorem Only.trans (h : Only P b c) (h' : Only P c d) : Only P b d := by
  obtain ⟨hv, l, hl, hP⟩ := h
  obtain ⟨hv', l', hl', hP'⟩ := h'
  refine ⟨hv'.trans hv, l ++ l', by rw [hl', hl, List.append_assoc], fun a ha => ?_⟩
  exact (List.mem_append.mp ha).elim (hP a) (hP' a)

theorem Only.read (h : Only P b c) (hP : ∀ v, P (.read r v)) : Only P b (c.read r) :=
  h.trans ⟨rfl, _, rfl, fun _ ha => List.mem_singleton.mp ha ▸ hP _⟩

theorem Only.write (h : Only P b c) (hP : P (.write r v)) : Only P b (c.write r v) :=
  h.trans ⟨rfl, _, rfl, fun _ ha => List.mem_singleton.mp ha ▸ hP⟩

theorem Only.readN (h : Only P b c) (hP : ∀ v, P (.read r v)) (n : ℕ) : Only P b (c.readN r n) := by
  induction n generalizing c with
  | zero => exact h
  | succ n ih => exact ih (h.read hP)

/-- The values written to a register, in order. -/
def written [DecidableEq ρ] (r : ρ) : List (Access ρ ν) → List ν
  | [] => []
  | .read _ _ :: l => written r l
  | .write q v :: l => if q = r then v :: written r l else written r l

variable [DecidableEq ρ]

@[simp] theorem written_append (l l' : List (Access ρ ν)) :
    written r (l ++ l') = written r l ++ written r l' := by
  induction l with
  | nil => rfl
  | cons a l ih =>
    cases a with
    | read q v => exact ih
    | write q v =>
      by_cases hq : q = r
      · simp [written, hq, ih]
      · simp [written, hq, ih]

/-- Nothing is written to a register by accesses that are no writes to it. -/
theorem written_eq_nil {l : List (Access ρ ν)} (h : ∀ a ∈ l, ∀ v, a ≠ .write r v) :
    written r l = [] := by
  induction l with
  | nil => rfl
  | cons a l ih =>
    have hrest := ih fun a ha => h a (List.mem_cons_of_mem _ ha)
    cases a with
    | read q v => exact hrest
    | write q v =>
      have hq : q ≠ r := fun hq => h _ List.mem_cons_self v (by rw [hq])
      rw [written, if_neg hq, hrest]

theorem Only.written_eq (h : Only P b c) (hP : ∀ v, ¬P (.write r v)) :
    written r c.log = written r b.log := by
  obtain ⟨-, l, hl, hl'⟩ := h
  have hnil : written r l = [] := written_eq_nil fun a ha v hav => hP v (hav ▸ hl' a ha)
  rw [hl, written_append, hnil, List.append_nil]

/-! ### Reading until something is seen -/

/-- A register is read until `p` is true of what is read, `n` times at most: the reads before that,
if it has been seen. -/
def poll (r : ρ) (p : ν → Bool) : ℕ → Bus ρ ν → Option ℕ × Bus ρ ν
  | 0, b => (none, b)
  | n + 1, b =>
    if p b.next then (some 0, b.read r)
    else
      let rest := poll r p n (b.read r)
      (rest.1.map (· + 1), rest.2)

end Bus

/-- The first of `n` values from place `i` on of which `p` is true. -/
def firstHit (p : ν → Bool) (w : ℕ → ν) : ℕ → ℕ → Option ℕ
  | 0, _ => none
  | n + 1, i => if p (w i) then some 0 else (firstHit p w n (i + 1)).map (· + 1)

/-- The reads made until one of `n` values from place `i` on has been found. -/
def polls (p : ν → Bool) (w : ℕ → ν) : ℕ → ℕ → ℕ
  | 0, _ => 0
  | n + 1, i => if p (w i) then 1 else polls p w n (i + 1) + 1

/-- **What polling does** is a matter of the values alone. -/
theorem Bus.poll_eq (r : ρ) (p : ν → Bool) (n : ℕ) (b : Bus ρ ν) :
    b.poll r p n = (firstHit p b.values n b.reads, b.readN r (polls p b.values n b.reads)) := by
  induction n generalizing b with
  | zero => rfl
  | succ n ih =>
    by_cases hp : p (b.values b.reads) = true
    · simp [Bus.poll, firstHit, polls, Bus.next, Bus.readN, hp]
    · simp [Bus.poll, firstHit, polls, Bus.next, Bus.readN, hp, ih]

section FirstHit

variable {p : ν → Bool} {w : ℕ → ν} {n i k : ℕ}

/-- None of some values will do when the first one will not, and none of the others. -/
theorem none_before_succ : (∀ j < n + 1, p (w (i + j)) = false) ↔
    p (w i) = false ∧ ∀ j < n, p (w (i + 1 + j)) = false := by
  rw [Nat.forall_lt_succ_left]
  simp only [Nat.add_zero, Nat.add_right_comm i 1, Nat.add_assoc]

/-- **What has been found** is what comes first. -/
theorem firstHit_eq_some_iff :
    firstHit p w n i = some k ↔ k < n ∧ p (w (i + k)) = true ∧ ∀ j < k, p (w (i + j)) = false := by
  induction n generalizing i k with
  | zero => simp [firstHit]
  | succ n ih =>
    rw [firstHit]
    by_cases hp : p (w i) = true
    · rw [if_pos hp, Option.some_inj]
      rcases k with _ | k
      · simp [hp]
      · rw [none_before_succ]
        simp [hp]
    · rw [if_neg hp]
      rcases k with _ | k
      · simp [hp]
      · rw [none_before_succ]
        simp [hp, ih, Nat.add_right_comm i 1, Nat.add_assoc]

/-- **Nothing is found** among values of which none will do. -/
theorem firstHit_eq_none_iff : firstHit p w n i = none ↔ ∀ j < n, p (w (i + j)) = false := by
  induction n generalizing i with
  | zero => simp [firstHit]
  | succ n ih =>
    rw [firstHit, none_before_succ, ← ih]
    by_cases hp : p (w i) = true
    · simp [hp]
    · simp [hp]

/-- What is there is found by reading often enough. -/
theorem exists_firstHit (h : p (w (i + k)) = true) : ∃ j ≤ k, firstHit p w (k + 1) i = some j := by
  rcases hhit : firstHit p w (k + 1) i with _ | j
  · have hfalse := firstHit_eq_none_iff.mp hhit k k.lt_succ_self
    rw [h] at hfalse
    cases hfalse
  · exact ⟨j, Nat.le_of_lt_succ (firstHit_eq_some_iff.mp hhit).1, rfl⟩

theorem polls_of_some (h : firstHit p w n i = some k) : polls p w n i = k + 1 := by
  induction n generalizing i k with
  | zero => simp [firstHit] at h
  | succ n ih =>
    rw [firstHit] at h
    rw [polls]
    by_cases hp : p (w i) = true
    · rw [if_pos hp] at h ⊢
      rw [← Option.some_inj.mp h]
    · rw [if_neg hp] at h ⊢
      obtain ⟨j, hj, rfl⟩ := Option.map_eq_some_iff.mp h
      rw [ih hj]

end FirstHit

/-! ### Trying again -/

section Retry

variable {σ : Type*} (f : σ → Bool × σ)

/-- An operation is tried until it succeeds, `n` times at most. -/
def retry : ℕ → σ → Bool × σ
  | 0, s => (false, s)
  | n + 1, s => if (f s).1 then f s else retry n (f s).2

/-- **Every attempt** is made in a state that satisfies `C`. -/
def EachTry (C : σ → Prop) : ℕ → σ → Prop
  | 0, _ => True
  | n + 1, s => C s ∧ ((f s).1 = false → EachTry C n (f s).2)

/-- The state in which the attempt that succeeds is made, if one does. -/
def lastTry : ℕ → σ → σ
  | 0, s => s
  | n + 1, s => if (f s).1 then s else lastTry n (f s).2

variable {f} {C P J : σ → Prop}

theorem retry_of_ok {n : ℕ} {s : σ} (h : (f s).1 = true) : retry f (n + 1) s = f s := if_pos h

theorem retry_of_failed {n : ℕ} {s : σ} (h : (f s).1 = false) :
    retry f (n + 1) s = retry f n (f s).2 :=
  if_neg (by simp [h])

/-- When one attempt succeeds, the outcome is the outcome of that one. -/
theorem retry_eq_last {n : ℕ} {s : σ} (h : (retry f n s).1 = true) :
    f (lastTry f n s) = retry f n s := by
  induction n generalizing s with
  | zero => cases h
  | succ n ih =>
    cases hf : (f s).1 with
    | true => rw [lastTry, retry, if_pos hf, if_pos hf]
    | false =>
      simp only [retry, lastTry, hf] at h ⊢
      exact ih h

/-- **What failing attempts satisfy anyway** is satisfied by all if it is by one that succeeds. -/
theorem eachTry_iff_last (hfail : ∀ s, (f s).1 = false → C s) {n : ℕ} {s : σ} :
    EachTry f C n s ↔ ((retry f n s).1 = true → C (lastTry f n s)) := by
  induction n generalizing s with
  | zero => exact ⟨fun _ h => (by cases h), fun _ => trivial⟩
  | succ n ih =>
    cases hf : (f s).1 with
    | true => simp [EachTry, retry, lastTry, hf]
    | false => simp [EachTry, retry, lastTry, hf, ih, hfail s hf]

/-- What every attempt keeps is true where the last one is made. -/
theorem lastTry_of_kept (hkeep : ∀ s, J s → J (f s).2) {n : ℕ} {s : σ} (hs : J s) :
    J (lastTry f n s) := by
  induction n generalizing s with
  | zero => exact hs
  | succ n ih =>
    rw [lastTry]
    split
    · exact hs
    · exact ih (hkeep s hs)

/-- **What attempts hand on.** If an attempt hands `P` on to the next one exactly when `C` is true
of it, and `C` is true of those that succeed, then all are made where `P` is true exactly when `C`
is true of all but the last one that may be made. -/
theorem eachTry_succ_iff (hkeep : ∀ s, J s → J (f s).2) (hok : ∀ s, (f s).1 = true → C s)
    (hiff : ∀ s, J s → P s → (P (f s).2 ↔ C s)) {n : ℕ} {s : σ} (hJ : J s) (hP : P s) :
    EachTry f P (n + 1) s ↔ EachTry f C n s := by
  induction n generalizing s with
  | zero => exact ⟨fun _ => trivial, fun _ => ⟨hP, fun _ => trivial⟩⟩
  | succ n ih =>
    constructor
    · rintro ⟨-, hrest⟩
      cases hf : (f s).1 with
      | true => exact ⟨hok s hf, fun hfalse => by rw [hf] at hfalse; cases hfalse⟩
      | false =>
        have hnext : P (f s).2 := (hrest hf).1
        exact ⟨(hiff s hJ hP).mp hnext, fun _ => (ih (hkeep s hJ) hnext).mp (hrest hf)⟩
    · rintro ⟨hC, hrest⟩
      have hnext : P (f s).2 := (hiff s hJ hP).mpr hC
      exact ⟨hP, fun hf => (ih (hkeep s hJ) hnext).mpr (hrest hf)⟩

end Retry

end Lib
