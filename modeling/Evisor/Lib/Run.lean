import Mathlib.Tactic.Linarith

/-!
# Runs of a machine that may fault

A machine is a function `step : σ → ε → Except φ σ`: in a state it is given an
event, and it either moves to the next state or stops with a fault. Nothing here
says what states, events or faults are.

Three notions are enough for every statement about whole runs made later on.

* `Lib.Each` – every step of the run is *made from* a state and an event
  satisfying a condition;
* `Lib.Along` – every state the run *reaches* satisfies a property, and if the
  run stops with a fault then the fault is an acceptable one;
* `Lib.runFrom` – the state the run ends in.

An invariant is an `Along` proved from an `Each`, one step at a time
(`Lib.along_of_each`). When the steps that break the property are exactly those
outside the condition, the two notions coincide (`Lib.along_iff_each`).
-/

namespace Lib

universe u v

section Runs

variable {σ ε φ : Type*}

/-- The state a run ends in, or the fault it stops with. -/
def runFrom (step : σ → ε → Except φ σ) : σ → List ε → Except φ σ
  | s, [] => .ok s
  | s, e :: es => match step s e with
    | .ok t => runFrom step t es
    | .error f => .error f

/-- **Every state of the run** satisfies `P`, and a fault that stops it satisfies
`Q`. -/
def Along (step : σ → ε → Except φ σ) (P : σ → Prop) (Q : φ → Prop) : σ → List ε → Prop
  | s, [] => P s
  | s, e :: es => P s ∧ match step s e with
    | .ok t => Along step P Q t es
    | .error f => Q f

/-- **Every step of the run** is made from a state and an event satisfying `C`. -/
def Each (step : σ → ε → Except φ σ) (C : σ → ε → Prop) : σ → List ε → Prop
  | _, [] => True
  | s, e :: es => C s e ∧ ∀ t, step s e = .ok t → Each step C t es

/-- Whether every step of a run is made from a state and an event satisfying a
condition can be found out by making the run. -/
instance Each.decidable (step : σ → ε → Except φ σ) (C : σ → ε → Prop)
    [∀ s e, Decidable (C s e)] : ∀ s es, Decidable (Each step C s es)
  | _, [] => .isTrue trivial
  | s, e :: es => match h : step s e with
    | .ok t =>
      have := Each.decidable step C t es
      decidable_of_iff (C s e ∧ Each step C t es)
        ⟨fun hc => ⟨hc.1, fun _ hu => Except.ok.inj (h.symm.trans hu) ▸ hc.2⟩,
          fun hc => ⟨hc.1, hc.2 t h⟩⟩
    | .error _ =>
      decidable_of_iff (C s e)
        ⟨fun hc => ⟨hc, fun _ hu => by cases h.symm.trans hu⟩, fun hc => hc.1⟩

/-- So can whether the states it reaches satisfy a property. -/
instance Along.decidable (step : σ → ε → Except φ σ) (P : σ → Prop) (Q : φ → Prop)
    [DecidablePred P] [DecidablePred Q] : ∀ s es, Decidable (Along step P Q s es)
  | s, [] => inferInstanceAs (Decidable (P s))
  | s, e :: es => match h : step s e with
    | .ok t =>
      have := Along.decidable step P Q t es
      decidable_of_iff (P s ∧ Along step P Q t es) (by rw [Along, h])
    | .error f => decidable_of_iff (P s ∧ Q f) (by rw [Along, h])

variable {step : σ → ε → Except φ σ} {P I : σ → Prop} {Q : φ → Prop} {C L : σ → ε → Prop}

/-- A run comes to its end when its first step does, and the rest. -/
theorem runFrom_cons_eq_ok {s t : σ} {e : ε} {es : List ε} :
    runFrom step s (e :: es) = .ok t ↔ ∃ u, step s e = .ok u ∧ runFrom step u es = .ok t := by
  rw [runFrom]
  cases step s e with
  | error f => simp
  | ok u => simp

/-- A run satisfies a property at its start. -/
theorem Along.head {s : σ} {es : List ε} (h : Along step P Q s es) : P s := by
  cases es with
  | nil => exact h
  | cons e es => exact h.1

theorem Along.mono {P' : σ → Prop} (hP : ∀ s, P s → P' s) :
    ∀ {s : σ} {es : List ε}, Along step P Q s es → Along step P' Q s es := by
  intro s es
  induction es generalizing s with
  | nil => exact hP s
  | cons e es ih =>
    rintro ⟨hs, h⟩
    refine ⟨hP s hs, ?_⟩
    cases hst : step s e with
    | ok t => exact ih (by simpa only [hst] using h)
    | error f => simpa only [hst] using h

/-- A property of every state reached is a property of the last one. -/
theorem Along.last {s t : σ} {es : List ε} (h : Along step P Q s es)
    (hrun : runFrom step s es = .ok t) : P t := by
  induction es generalizing s with
  | nil =>
    obtain rfl := Except.ok.inj hrun
    exact h
  | cons e es ih =>
    obtain ⟨u, hst, hrest⟩ := runFrom_cons_eq_ok.mp hrun
    exact ih (by simpa only [hst] using h.2) hrest

/-- The fault that stops a run is an acceptable one. -/
theorem Along.fault {s : σ} {es : List ε} {f : φ} (h : Along step P Q s es)
    (hrun : runFrom step s es = .error f) : Q f := by
  induction es generalizing s with
  | nil => cases hrun
  | cons e es ih =>
    cases hst : step s e with
    | ok u => exact ih (by simpa only [hst] using h.2) (by simpa only [runFrom, hst] using hrun)
    | error g =>
      obtain rfl : g = f := by simpa [runFrom, hst] using hrun
      simpa only [hst] using h.2

/-- What each step keeps that meets the condition, a run keeps whose steps all do. -/
theorem Each.inv (hstep : ∀ s e t, I s → C s e → step s e = .ok t → I t) {s t : σ} {es : List ε}
    (hs : I s) (h : Each step C s es) (hrun : runFrom step s es = .ok t) : I t := by
  induction es generalizing s with
  | nil =>
    obtain rfl := Except.ok.inj hrun
    exact hs
  | cons e es ih =>
    obtain ⟨u, hst, hrest⟩ := runFrom_cons_eq_ok.mp hrun
    exact ih (hstep s e u hs h.1 hst) (h.2 u hst) hrest

/-- Runs follow one another. -/
theorem runFrom_append {s t : σ} {es es' : List ε} (h : runFrom step s es = .ok t) :
    runFrom step s (es ++ es') = runFrom step t es' := by
  induction es generalizing s with
  | nil =>
    obtain rfl := Except.ok.inj h
    rfl
  | cons e es ih =>
    obtain ⟨u, hst, hrest⟩ := runFrom_cons_eq_ok.mp h
    simp only [List.cons_append, runFrom, hst]
    exact ih hrest

/-- The last event of a run. -/
theorem runFrom_concat {s t : σ} {es : List ε} {e : ε} (h : runFrom step s es = .ok t) :
    runFrom step s (es ++ [e]) = step t e := by
  rw [runFrom_append h, runFrom]
  cases step t e <;> rfl

/-- What every step satisfies, the steps of a run do. -/
theorem Each.of_mem {P : ε → Prop} (s : σ) {es : List ε} (h : ∀ e ∈ es, P e) :
    Each step (fun _ e => P e) s es := by
  induction es generalizing s with
  | nil => trivial
  | cons e es ih =>
    obtain ⟨he, hes⟩ := List.forall_mem_cons.mp h
    exact ⟨he, fun t _ => ih t hes⟩

theorem Each.of_forall (hC : ∀ s e, C s e) (s : σ) (es : List ε) : Each step C s es := by
  induction es generalizing s with
  | nil => trivial
  | cons e es ih => exact ⟨hC s e, fun t _ => ih t⟩

/-- **What each step keeps, a run keeps.** -/
theorem runFrom_inv (hstep : ∀ s e t, I s → step s e = .ok t → I t) {s t : σ} {es : List ε}
    (hs : I s) (hrun : runFrom step s es = .ok t) : I t :=
  Each.inv (C := fun _ _ => True) (fun s e t hs _ => hstep s e t hs) hs
    (Each.of_forall (fun _ _ => trivial) s es) hrun

/-- Conditions on the steps of a run combine. -/
theorem Each.and {s : σ} {es : List ε} (hL : Each step L s es) (hC : Each step C s es) :
    Each step (fun s e => L s e ∧ C s e) s es := by
  induction es generalizing s with
  | nil => trivial
  | cons e es ih =>
    exact ⟨⟨hL.1, hC.1⟩, fun t ht => ih (hL.2 t ht) (hC.2 t ht)⟩

theorem Each.mono {s : σ} {es : List ε} (h : Each step L s es) (hLC : ∀ s e, L s e → C s e) :
    Each step C s es := by
  induction es generalizing s with
  | nil => trivial
  | cons e es ih => exact ⟨hLC s e h.1, fun t ht => ih (h.2 t ht)⟩

/-- What follows from the condition as long as an invariant holds that such steps keep. -/
theorem Each.of_inv {R : σ → ε → Prop} (hok : ∀ s e t, I s → C s e → step s e = .ok t → I t)
    (hCR : ∀ s e, I s → C s e → R s e) {s : σ} {es : List ε} (hs : I s) (h : Each step C s es) :
    Each step R s es := by
  induction es generalizing s with
  | nil => trivial
  | cons e es ih =>
    exact ⟨hCR s e hs h.1, fun t ht => ih (hok s e t hs h.1 ht) (h.2 t ht)⟩

/-- Conditions on the steps of runs that follow one another. -/
theorem Each.append {s t : σ} {es es' : List ε} (h : Each step C s es)
    (hrun : runFrom step s es = .ok t) (h' : Each step C t es') : Each step C s (es ++ es') := by
  induction es generalizing s with
  | nil =>
    obtain rfl := Except.ok.inj hrun
    exact h'
  | cons e es ih =>
    refine ⟨h.1, fun u hu => ih (h.2 u hu) ?_⟩
    simpa only [runFrom, hu] using hrun

/-- A run is made longer by one step. -/
theorem Each.concat {s t : σ} {es : List ε} {e : ε} (h : Each step C s es)
    (hrun : runFrom step s es = .ok t) (hc : C t e) : Each step C s (es ++ [e]) :=
  h.append hrun ⟨hc, fun _ _ => trivial⟩

/-- The last step of a run satisfies the condition. -/
theorem Each.last {s t : σ} {es : List ε} {e : ε} (h : Each step C s (es ++ [e]))
    (hrun : runFrom step s es = .ok t) : C t e := by
  induction es generalizing s with
  | nil =>
    obtain rfl := Except.ok.inj hrun
    exact h.1
  | cons d es ih =>
    obtain ⟨u, hst, hrest⟩ := runFrom_cons_eq_ok.mp hrun
    exact ih (h.2 u hst) hrest

/-- **Conditions that come to the same.** If two conditions on a step agree as long as an
invariant holds that the steps allowed by the second one keep, then they agree on whole
runs. -/
theorem each_congr {R : σ → ε → Prop}
    (hok : ∀ s e t, I s → L s e → C s e → step s e = .ok t → I t)
    (hiff : ∀ s e, I s → L s e → (R s e ↔ C s e)) {s : σ} {es : List ε} (hs : I s)
    (hL : Each step L s es) : Each step R s es ↔ Each step C s es := by
  induction es generalizing s with
  | nil => exact Iff.rfl
  | cons e es ih =>
    constructor
    · rintro ⟨hr, hrest⟩
      have hc := (hiff s e hs hL.1).mp hr
      exact ⟨hc, fun t ht => (ih (hok s e t hs hL.1 hc ht) (hL.2 t ht)).mp (hrest t ht)⟩
    · rintro ⟨hc, hrest⟩
      exact ⟨(hiff s e hs hL.1).mpr hc,
        fun t ht => (ih (hok s e t hs hL.1 hc ht) (hL.2 t ht)).mpr (hrest t ht)⟩

/-- **The invariant rule.** If the steps allowed by `C` keep `I` and fault only as
`Q` permits, then a run made of such steps keeps `I` throughout. -/
theorem along_of_each
    (hok : ∀ s e t, I s → C s e → step s e = .ok t → I t)
    (herr : ∀ s e f, I s → C s e → step s e = .error f → Q f) :
    ∀ {s : σ} {es : List ε}, I s → Each step C s es → Along step I Q s es := by
  intro s es
  induction es generalizing s with
  | nil => intro hs _; exact hs
  | cons e es ih =>
    rintro hs ⟨hc, hrest⟩
    refine ⟨hs, ?_⟩
    cases hst : step s e with
    | ok t => exact ih (hok s e t hs hc hst) (hrest t hst)
    | error f => exact herr s e f hs hc hst

/-- **The exact condition of a run.** If, from states of the invariant, the steps
that satisfy `C` keep the invariant and those that do not either fault badly or
reach a state violating `P`, then `P` holds along a run exactly when all its steps
satisfy `C`. -/
theorem along_iff_each (hIP : ∀ s, I s → P s)
    (hok : ∀ s e t, I s → L s e → C s e → step s e = .ok t → I t)
    (herr : ∀ s e f, I s → L s e → C s e → step s e = .error f → Q f)
    (hbad : ∀ s e, I s → L s e → ¬C s e →
      (∃ t, step s e = .ok t ∧ ¬P t) ∨ ∃ f, step s e = .error f ∧ ¬Q f)
    {s : σ} {es : List ε} (hs : I s) (hL : Each step L s es) :
    Along step P Q s es ↔ Each step C s es := by
  constructor
  · intro h
    induction es generalizing s with
    | nil => trivial
    | cons e es ih =>
      by_cases hc : C s e
      · refine ⟨hc, fun t ht => ih (hok s e t hs hL.1 hc ht) (hL.2 t ht) ?_⟩
        simpa only [ht] using h.2
      · rcases hbad s e hs hL.1 hc with ⟨t, ht, hP⟩ | ⟨f, hf, hQ⟩
        · exact absurd (Along.head (by simpa only [ht] using h.2)) hP
        · exact absurd (by simpa only [hf] using h.2) hQ
  · intro hC
    exact Along.mono hIP (along_of_each (C := fun s e => L s e ∧ C s e)
      (fun s e t hs hc => hok s e t hs hc.1 hc.2) (fun s e f hs hc => herr s e f hs hc.1 hc.2)
      hs (hL.and hC))

/-- **Where a property fails.** If a step that does not satisfy `C` leads to a state
violating `P`, then `P` holds along a run that comes to its end only when all its steps
satisfy `C`. -/
theorem each_of_along (hok : ∀ s e t, I s → L s e → C s e → step s e = .ok t → I t)
    (hbad : ∀ s e t, I s → L s e → ¬C s e → step s e = .ok t → ¬P t)
    {s : σ} {es : List ε} (hs : I s) (hL : Each step L s es)
    (hend : (runFrom step s es).isOk = true) (h : Along step P Q s es) : Each step C s es := by
  induction es generalizing s with
  | nil => trivial
  | cons e es ih =>
    rw [runFrom] at hend
    cases hst : step s e with
    | error f => simp only [hst] at hend; cases hend
    | ok t =>
      simp only [hst] at hend
      have hrest : Along step P Q t es := by simpa only [hst] using h.2
      have hc : C s e := by
        by_contra hc
        exact hbad s e t hs hL.1 hc hst hrest.head
      refine ⟨hc, fun u hu => ?_⟩
      obtain rfl := Except.ok.inj (hst.symm.trans hu)
      exact ih (hok s e t hs hL.1 hc hst) (hL.2 t hst) hend hrest

/-- **Purging a run.** Suppose that the events hidden from an observer do not change
what it sees, as long as they are made where `C` allows them, and that what the other
events do to what it sees depends on what it sees alone. Then a run looks to the
observer like the run without the hidden events. -/
theorem runFrom_purge {ω : Type*} {v : σ → ω} {hidden : ε → Bool}
    (hhide : ∀ s e t, hidden e = true → C s e → step s e = .ok t → v t = v s)
    (hsee : ∀ s s' e t, hidden e = false → v s' = v s → step s e = .ok t →
      ∃ t', step s' e = .ok t' ∧ v t' = v t)
    {s s' t : σ} {es : List ε} (hC : Each step C s es) (hview : v s' = v s)
    (hrun : runFrom step s es = .ok t) :
    ∃ t', runFrom step s' (es.filter fun e => !hidden e) = .ok t' ∧ v t' = v t := by
  induction es generalizing s s' with
  | nil =>
    obtain rfl := Except.ok.inj hrun
    exact ⟨s', rfl, hview⟩
  | cons e es ih =>
    obtain ⟨u, hst, hrest⟩ := runFrom_cons_eq_ok.mp hrun
    cases hid : hidden e with
    | true =>
      rw [List.filter_cons_of_neg (by simp [hid])]
      exact ih (hC.2 u hst) (hview.trans (hhide s e u hid hC.1 hst).symm) hrest
    | false =>
      rw [List.filter_cons_of_pos (by simp [hid])]
      obtain ⟨u', hu', hv⟩ := hsee s s' e u hid hview hst
      obtain ⟨t', ht', hvt⟩ := ih (hC.2 u hst) hv hrest
      exact ⟨t', runFrom_cons_eq_ok.mpr ⟨u', hu', ht'⟩, hvt⟩

end Runs

/-! ### Sequencing computations that may fault -/

section Bind

variable {φ : Type v} {α β : Type u}

/-- A sequence of two computations succeeds when both do. -/
theorem bind_eq_ok {x : Except φ α} {f : α → Except φ β} {b : β} :
    x >>= f = .ok b ↔ ∃ a, x = .ok a ∧ f a = .ok b := by
  cases x with
  | error e => simp [bind, Except.bind]
  | ok a => simp [bind, Except.bind]

/-- A sequence of two computations faults when one of them does. -/
theorem bind_eq_error {x : Except φ α} {f : α → Except φ β} {e : φ} :
    x >>= f = .error e ↔ x = .error e ∨ ∃ a, x = .ok a ∧ f a = .error e := by
  cases x with
  | error e => simp [bind, Except.bind]
  | ok a => simp [bind, Except.bind]

/-- A computation found to succeed has a result. -/
theorem exists_ok_of_isOk {x : Except φ α} (h : x.isOk = true) : ∃ a, x = .ok a := by
  cases x with
  | error e => cases h
  | ok a => exact ⟨a, rfl⟩

/-- So has one found to have a result that satisfies a property. -/
theorem exists_ok_of_any {P : α → Prop} [DecidablePred P] {x : Except φ α}
    (h : (x.toOption.any fun a => decide (P a)) = true) : ∃ a, x = .ok a ∧ P a := by
  cases x with
  | error e => cases h
  | ok a => exact ⟨a, rfl, of_decide_eq_true h⟩

/-- **What a computation gives**: a result that satisfies `P`, or a fault that satisfies
`Q`. -/
structure Gives (x : Except φ α) (P : α → Prop) (Q : φ → Prop) : Prop where
  ok : ∀ a, x = .ok a → P a
  error : ∀ f, x = .error f → Q f

variable {P P' : α → Prop} {Q : φ → Prop} {R : β → Prop}

theorem Gives.of_ok {a : α} (h : P a) : Gives (.ok a) P Q :=
  ⟨fun b hb => Except.ok.inj hb ▸ h, fun f hf => (by cases hf)⟩

theorem Gives.of_error {f : φ} (h : Q f) : Gives (.error f : Except φ α) P Q :=
  ⟨fun a ha => (by cases ha), fun g hg => Except.error.inj hg ▸ h⟩

theorem Gives.mono {x : Except φ α} (h : Gives x P Q) (hP : ∀ a, P a → P' a) : Gives x P' Q :=
  ⟨fun a ha => hP a (h.ok a ha), h.error⟩

/-- **The rule of sequencing.** -/
theorem Gives.bind {x : Except φ α} {f : α → Except φ β} (h : Gives x P Q)
    (hf : ∀ a, P a → Gives (f a) R Q) : Gives (x >>= f) R Q := by
  cases x with
  | error e => exact .of_error (h.error e rfl)
  | ok a => exact hf a (h.ok a rfl)

/-- **A step that gives what is wanted of a state** keeps an invariant along a run. -/
theorem along_of_gives {σ ε : Type u} {step : σ → ε → Except φ σ} {I : σ → Prop}
    {C : σ → ε → Prop} (hstep : ∀ s e, I s → C s e → Gives (step s e) I Q) {s : σ} {es : List ε}
    (hs : I s) (hC : Each step C s es) : Along step I Q s es :=
  along_of_each (fun s e t hI hc ht => (hstep s e hI hc).ok t ht)
    (fun s e f hI hc hf => (hstep s e hI hc).error f hf) hs hC

@[simp] theorem ok_bind (a : α) (f : α → Except φ β) : (Except.ok a : Except φ α) >>= f = f a := rfl

@[simp] theorem error_bind (e : φ) (f : α → Except φ β) :
    (Except.error e : Except φ α) >>= f = .error e := rfl

@[simp] theorem pure_eq_ok (a : α) : (pure a : Except φ α) = .ok a := rfl

end Bind

end Lib
