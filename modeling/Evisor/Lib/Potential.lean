import Mathlib.Algebra.Order.Group.Basic
import Mathlib.Algebra.Order.Group.Int
import Mathlib.Data.Int.Cast.Basic
import Mathlib.Tactic.Abel
import Evisor.Lib.Run

/-!
# Accounts kept over a run

What a run costs, and what it is paid, summed over its steps (`Lib.total`). To bound one by the
other it is enough to find a potential of the states that pays for each step
(`Lib.total_le`).

The same argument shows that a run comes somewhere: if each step is paid for that does not lead
to the goal, then a run that costs more than there is to pay has met the goal on its way
(`Lib.reached_or_total_le`).
-/

namespace Lib

variable {σ ε φ M : Type*} [AddCommGroup M]

/-- The sum over the steps of a run, of what each is worth. -/
def total (step : σ → ε → Except φ σ) (f : σ → ε → M) : σ → List ε → M
  | _, [] => 0
  | s, e :: es => f s e + match step s e with
    | .ok t => total step f t es
    | .error _ => 0

variable {step : σ → ε → Except φ σ} {f g : σ → ε → M} {q : σ → M} {I G : σ → Prop}
  {C : σ → ε → Prop} {s t u : σ} {e : ε} {es : List ε}

theorem total_cons (h : step s e = .ok u) :
    total step f s (e :: es) = f s e + total step f u es := by
  rw [total, h]

theorem total_zero (s : σ) (es : List ε) : total step (fun _ _ => (0 : M)) s es = 0 := by
  induction es generalizing s with
  | nil => rfl
  | cons e es ih =>
    rw [total, zero_add]
    cases step s e with
    | ok t => exact ih t
    | error _ => rfl

/-- What steps are worth may be measured otherwise. -/
theorem total_map {N : Type*} [AddCommGroup N] (h : M →+ N) (s : σ) (es : List ε) :
    total step (fun s e => h (f s e)) s es = h (total step f s es) := by
  induction es generalizing s with
  | nil => exact (map_zero h).symm
  | cons e es ih =>
    rw [total, total, map_add]
    cases step s e with
    | ok t => exact congrArg (h (f s e) + ·) (ih t)
    | error _ => rw [map_zero]

/-- The events of a kind are counted. -/
theorem total_eq_countP {p : ε → Bool} (h : runFrom step s es = .ok t) :
    total step (fun _ e => if p e then (1 : ℤ) else 0) s es = es.countP p := by
  induction es generalizing s with
  | nil => rfl
  | cons e es ih =>
    obtain ⟨u, hu, hrest⟩ := runFrom_cons_eq_ok.mp h
    rw [total_cons hu, ih hrest, List.countP_cons, Nat.cast_add, add_comm, Nat.cast_ite,
      Nat.cast_one, Nat.cast_zero]

variable [PartialOrder M] [IsOrderedAddMonoid M]

/-- **A run reaches the goal, or it is paid for**: each step that does not lead to the goal costs
no more than it is paid and takes from the potential. -/
theorem reached_or_total_le
    (hstep : ∀ s e t, I s → C s e → step s e = .ok t →
      G t ∨ I t ∧ q t + f s e ≤ q s + g s e)
    (hs : I s) (hC : Each step C s es) (hrun : runFrom step s es = .ok t) :
    (∃ pre u, pre <+: es ∧ runFrom step s pre = .ok u ∧ G u) ∨
      I t ∧ q t + total step f s es ≤ q s + total step g s es := by
  induction es generalizing s with
  | nil =>
    obtain rfl := Except.ok.inj hrun
    exact .inr ⟨hs, le_rfl⟩
  | cons e es ih =>
    obtain ⟨u, hu, hrest⟩ := runFrom_cons_eq_ok.mp hrun
    rcases hstep s e u hs hC.1 hu with hgoal | ⟨hI, hpaid⟩
    · exact .inl ⟨[e], u, List.prefix_append [e] es, runFrom_cons_eq_ok.mpr ⟨u, hu, rfl⟩, hgoal⟩
    rcases ih hI (hC.2 u hu) hrest with ⟨pre, v, hpre, hv, hgoal⟩ | ⟨hIt, hle⟩
    · refine .inl ⟨e :: pre, v, List.cons_prefix_cons.mpr ⟨rfl, hpre⟩, ?_, hgoal⟩
      exact runFrom_cons_eq_ok.mpr ⟨u, hu, hv⟩
    · refine .inr ⟨hIt, ?_⟩
      rw [total_cons hu, total_cons hu]
      calc q t + (f s e + total step f u es) = q t + total step f u es + f s e := by abel
        _ ≤ q u + total step g u es + f s e := by gcongr
        _ = q u + f s e + total step g u es := by abel
        _ ≤ q s + g s e + total step g u es := by gcongr
        _ = q s + (g s e + total step g u es) := by abel

/-- **A run costs no more than it is paid** and takes from the potential, if each step does. -/
theorem total_le
    (hstep : ∀ s e t, I s → C s e → step s e = .ok t → I t ∧ q t + f s e ≤ q s + g s e)
    (hs : I s) (hC : Each step C s es) (hrun : runFrom step s es = .ok t) :
    I t ∧ q t + total step f s es ≤ q s + total step g s es := by
  rcases reached_or_total_le (G := fun _ => False)
    (fun s e t hI hC h => .inr (hstep s e t hI hC h)) hs hC hrun with ⟨_, _, -, -, h⟩ | h
  · exact h.elim
  · exact h

end Lib
