import Mathlib.Data.List.Basic

/-!
# First in, first out

A machine that answers every call it is given (`Lib.answers`), and one such machine: a list with
room for `cap` elements, to which calls add at the one end and from which they take at the other
(`Lib.Fifo.step`). What has been put in comes out in the same order, each element once
(`Lib.Fifo.conserved`).

A machine *refines* another one when its states stand for states of the other and the answers are
the same, up to how they are written (`Lib.answers_refine`).
-/

namespace Lib

section Answers

variable {σ τ ε ω ω' : Type*}

/-- The answers to calls, and the state they lead to. -/
def answers (step : σ → ε → ω × σ) : σ → List ε → List ω × σ
  | s, [] => ([], s)
  | s, e :: es =>
    let rest := answers step (step s e).2 es
    ((step s e).1 :: rest.1, rest.2)

variable {step : σ → ε → ω × σ} {step' : τ → ε → ω' × τ}

/-- **What each call keeps, all calls keep.** -/
theorem answers_inv (I : σ → Prop) (hstep : ∀ s e, I s → I (step s e).2) {s : σ} (hs : I s)
    (es : List ε) : I (answers step s es).2 := by
  induction es generalizing s with
  | nil => exact hs
  | cons e es ih => exact ih (hstep s e hs)

/-- **A machine refines another one** when every call does. -/
theorem answers_refine (abs : σ → τ) (out : ω' → ω) (I : σ → Prop)
    (hstep : ∀ s e, I s → I (step s e).2)
    (hsim : ∀ s e, I s → (step s e).1 = out (step' (abs s) e).1 ∧
      abs (step s e).2 = (step' (abs s) e).2) {s : σ} (hs : I s) (es : List ε) :
    (answers step s es).1 = (answers step' (abs s) es).1.map out ∧
      abs (answers step s es).2 = (answers step' (abs s) es).2 := by
  induction es generalizing s with
  | nil => exact ⟨rfl, rfl⟩
  | cons e es ih =>
    obtain ⟨hout, habs⟩ := hsim s e hs
    obtain ⟨hrest, hlast⟩ := ih (hstep s e hs)
    rw [habs] at hrest hlast
    refine ⟨?_, hlast⟩
    simp only [answers, List.map_cons, hout, hrest]

end Answers

namespace Fifo

variable {α : Type*} {cap : ℕ}

/-- An element is to be added, or the oldest one to be taken. -/
inductive Call (α : Type*) where
  | push (a : α)
  | pop

/-- Whether an element has been added, or which one has been taken if there was one. -/
inductive Answer (α : Type*) where
  | pushed (done : Bool)
  | popped (a : Option α)

/-- A list with room for `cap` elements. -/
def step (cap : ℕ) : List α → Call α → Answer α × List α
  | l, .push a => if l.length = cap then (.pushed false, l) else (.pushed true, l ++ [a])
  | l, .pop => (.popped l.head?, l.tail)

/-- The elements that have been added, by the calls and the answers. -/
def accepted : List (Call α) → List (Answer α) → List α
  | .push a :: calls, .pushed true :: answers => a :: accepted calls answers
  | _ :: calls, _ :: answers => accepted calls answers
  | _, _ => []

/-- The elements that have been taken. -/
def delivered : List (Answer α) → List α
  | [] => []
  | .popped (some a) :: answers => a :: delivered answers
  | _ :: answers => delivered answers

/-- **Nothing is lost, doubled or overtaken**: what was there and what has been added is, in this
order, what has been taken and what is there. -/
theorem conserved (l : List α) (calls : List (Call α)) :
    l ++ accepted calls (answers (step cap) l calls).1 =
      delivered (answers (step cap) l calls).1 ++ (answers (step cap) l calls).2 := by
  induction calls generalizing l with
  | nil => simp [answers, accepted, delivered]
  | cons call calls ih =>
    rcases call with a | _
    · by_cases hfull : l.length = cap
      · have hrest := ih l
        simpa only [answers, step, if_pos hfull, accepted, delivered] using hrest
      · have hrest := ih (l ++ [a])
        rw [List.append_assoc, List.singleton_append] at hrest
        simpa only [answers, step, if_neg hfull, accepted, delivered] using hrest
    · rcases l with _ | ⟨a, l⟩
      · exact ih []
      · exact congrArg (a :: ·) (ih l)

end Fifo

end Lib
