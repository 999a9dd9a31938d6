import Mathlib.Tactic.Linarith
import Mathlib.Data.List.Infix
import Evisor.Lib.Run

/-!
# Computations that may be refused what they ask for

A computation with a state that asks, one after the other, for things that its environment grants
or refuses. The environment is a list of answers that goes on for ever, and what has been asked
for is kept beside the state, also where the computation faults.

A computation may fault because it goes on with something it has been refused. One that does so at
the first refusal (`Lib.Asks.Strict`) is determined by what it does where nothing is refused: as
long as everything that it asks for *there* is granted it does the same, and else it faults. This
is kept by sequences, so that it can be read off the text of a program.

What a computation does where nothing is refused is a judgement of its own (`Lib.Asks.Served`), with
the same rules. And a computation may keep more of a state than another one that does the same
(`Lib.Asks.Projects`), which is how something is written down that the program itself does not.
-/

namespace Lib

/-- A computation that asks for things of type `ρ`. It faults for a reason, or, without one, by
going on with what it has been refused. -/
def Asks (ρ σ ψ α : Type) : Type := (ℕ → Bool) → σ × List ρ → Except (Option ψ) α × σ × List ρ

namespace Asks

variable {ρ σ ψ α β γ δ : Type}

instance : Monad (Asks ρ σ ψ) where
  pure a := fun _ s => (.ok a, s)
  bind x f := fun answers s =>
    match x answers s with
    | (.ok a, s) => f a answers s
    | (.error e, s) => (.error e, s)

/-- What neither asks nor changes anything. -/
def lift (y : Except ψ α) : Asks ρ σ ψ α := fun _ s => (y.mapError some, s)

/-- A change of the state, which may fault. -/
def change (f : σ → Except ψ (α × σ)) : Asks ρ σ ψ α := fun _ s =>
  match f s.1 with
  | .ok (a, t) => (.ok a, t, s.2)
  | .error e => (.error (some e), s)

/-- A request, of what can be granted at all if `p` is true of it. -/
def ask (p : ρ → Bool) (r : ρ) : Asks ρ σ ψ Bool := fun answers s =>
  (.ok (answers s.2.length && p r), s.1, s.2 ++ [r])

/-- Going on with what has been refused. -/
def refused : Asks ρ σ ψ α := fun _ s => (.error none, s)

/-- An environment that refuses nothing. -/
def always : ℕ → Bool := fun _ => true

/-- What is asked for from place `n` on is granted. -/
def Granted (p : ρ → Bool) (answers : ℕ → Bool) (n : ℕ) (requests : List ρ) : Prop :=
  ∀ i r, n ≤ i → requests[i]? = some r → answers i = true ∧ p r = true

/-- **A strict computation**, from a state: it does what it does where nothing is refused, or faults
without a reason, as it is granted what it asks for there or not. When it returns then, so does
`y`, and `Q` is true of what they return and of the state. -/
structure Strict (p : ρ → Bool) (x : Asks ρ σ ψ α) (s : σ × List ρ) (y : Except ψ γ)
    (Q : α → γ → σ → Prop) : Prop where
  grows : s.2 <+: (x always s).2.2
  same : ∀ answers, Granted p answers s.2.length (x always s).2.2 →
    x answers s = x always s ∧ (x always s).1 ≠ .error none
  stops : ∀ answers, ¬Granted p answers s.2.length (x always s).2.2 →
    (x answers s).1 = .error none
  ok : ∀ a, (x always s).1 = .ok a → ∃ c, y = .ok c ∧ Q a c (x always s).2.1

variable {p : ρ → Bool} {x : Asks ρ σ ψ α} {f : α → Asks ρ σ ψ β} {s : σ × List ρ}
  {answers : ℕ → Bool} {y : Except ψ γ} {z : γ → Except ψ δ} {Q Q' : α → γ → σ → Prop}
  {R : β → δ → σ → Prop}

/-! ### Sequences -/

theorem bind_of_ok {a : α} (h : (x answers s).1 = .ok a) :
    (x >>= f) answers s = f a answers (x answers s).2 := by
  obtain ⟨r, hr⟩ : ∃ r, x answers s = r := ⟨_, rfl⟩
  rw [hr] at h ⊢
  change (match x answers s with
    | (.ok a, s) => f a answers s
    | (.error e, s) => (.error e, s)) = _
  rw [hr]
  obtain ⟨_, t⟩ := r
  subst h
  rfl

theorem bind_of_error {e : Option ψ} (h : (x answers s).1 = .error e) :
    (x >>= f) answers s = (.error e, (x answers s).2) := by
  obtain ⟨r, hr⟩ : ∃ r, x answers s = r := ⟨_, rfl⟩
  rw [hr] at h ⊢
  change (match x answers s with
    | (.ok a, s) => f a answers s
    | (.error e, s) => (.error e, s)) = _
  rw [hr]
  obtain ⟨_, t⟩ := r
  subst h
  rfl

/-- Sequences associate. -/
theorem bind_assoc {g : β → Asks ρ σ ψ δ} : (x >>= f) >>= g = x >>= fun a => f a >>= g := by
  funext answers s
  cases hr : (x answers s).1 with
  | error e =>
    have hfirst := bind_of_error (f := f) hr
    rw [bind_of_error (f := fun a => f a >>= g) hr, bind_of_error (congrArg Prod.fst hfirst),
      hfirst]
  | ok a =>
    rw [bind_of_ok (f := fun a => f a >>= g) hr]
    have hfirst : (x >>= f) answers s = f a answers (x answers s).2 := bind_of_ok hr
    cases hs : (f a answers (x answers s).2).1 with
    | error e => rw [bind_of_error (hfirst ▸ hs), bind_of_error hs, hfirst]
    | ok b => rw [bind_of_ok (hfirst ▸ hs), bind_of_ok hs, hfirst]

/-- What is asked for last, and before. -/
theorem granted_iff {n m : ℕ} {l l' : List ρ} (hl : l <+: l') (hm : l.length = m) (hn : n ≤ m) :
    Granted p answers n l' ↔ Granted p answers n l ∧ Granted p answers m l' := by
  have hsame : ∀ i, i < m → l'[i]? = l[i]? := by
    intro i hi
    obtain ⟨rest, rfl⟩ := hl
    exact List.getElem?_append_left (hm ▸ hi)
  constructor
  · refine fun h => ⟨fun i r hi hr => h i r hi ?_, fun i r hi hr => h i r (hn.trans hi) hr⟩
    obtain ⟨hlt, -⟩ := List.getElem?_eq_some_iff.mp hr
    rw [hsame i (hm ▸ hlt), hr]
  · rintro ⟨hbefore, hlast⟩ i r hi hr
    rcases Nat.lt_or_ge i m with hlt | hge
    · exact hbefore i r hi ((hsame i hlt).symm.trans hr)
    · exact hlast i r hge hr

/-- Nothing is granted that is not asked for. -/
theorem granted_length (l : List ρ) : Granted p answers l.length l := by
  intro i r hi hr
  obtain ⟨hlt, -⟩ := List.getElem?_eq_some_iff.mp hr
  exact absurd hlt (Nat.not_lt.mpr hi)

/-- **A sequence of strict computations is strict.** -/
theorem Strict.bind (hx : Strict p x s y Q)
    (hf : ∀ a c t, y = .ok c → Q a c t.1 → Strict p (f a) t (z c) R) :
    Strict p (x >>= f) s (y >>= z) R := by
  cases hr : (x always s).1 with
  | error e =>
    have hbind : (x >>= f) always s = (.error e, (x always s).2) := bind_of_error hr
    refine ⟨?_, fun answers hg => ?_, fun answers hg => ?_, fun b hb => ?_⟩
    · rw [hbind]
      exact hx.grows
    · rw [hbind] at hg ⊢
      obtain ⟨hsame, hne⟩ := hx.same answers hg
      refine ⟨by rw [bind_of_error (hsame ▸ hr), hsame], fun h => hne ?_⟩
      rw [hr, Except.error.inj h]
    · rw [hbind] at hg
      rw [bind_of_error (hx.stops answers hg)]
    · rw [hbind] at hb
      cases hb
  | ok a =>
    have hbind : (x >>= f) always s = f a always (x always s).2 := bind_of_ok hr
    obtain ⟨c, rfl, hQ⟩ := hx.ok a hr
    have hnext := hf a c (x always s).2 rfl hQ
    -- all is granted to both if it is to the first, and then to the second
    have hiff : ∀ answers, Granted p answers s.2.length (f a always (x always s).2).2.2 ↔
        Granted p answers s.2.length (x always s).2.2 ∧
          Granted p answers (x always s).2.2.length (f a always (x always s).2).2.2 :=
      fun answers => granted_iff hnext.grows rfl hx.grows.length_le
    refine ⟨?_, fun answers hg => ?_, fun answers hg => ?_, fun b hb => ?_⟩
    · rw [hbind]
      exact hx.grows.trans hnext.grows
    · rw [hbind] at hg ⊢
      obtain ⟨hfirst, hrest⟩ := (hiff answers).mp hg
      have hsame := (hx.same answers hfirst).1
      rw [bind_of_ok (hsame ▸ hr), hsame]
      exact hnext.same answers hrest
    · rw [hbind] at hg
      by_cases hfirst : Granted p answers s.2.length (x always s).2.2
      · have hsame := (hx.same answers hfirst).1
        rw [bind_of_ok (hsame ▸ hr), hsame]
        exact hnext.stops answers fun hrest => hg ((hiff answers).mpr ⟨hfirst, hrest⟩)
      · rw [bind_of_error (hx.stops answers hfirst)]
    · rw [hbind] at hb ⊢
      exact hnext.ok b hb

/-- So is one that does something beside what `y` does. -/
theorem Strict.seq {c : γ} {w : Except ψ δ} (hx : Strict p x s (.ok c) Q)
    (hf : ∀ a t, Q a c t.1 → Strict p (f a) t w R) : Strict p (x >>= f) s w R := by
  refine Strict.bind (z := fun _ => w) hx fun a c' t hc hQ => hf a t ?_
  exact Except.ok.inj hc ▸ hQ

theorem Strict.mono (h : Strict p x s y Q) (hQ : ∀ a c t, y = .ok c → Q a c t → Q' a c t) :
    Strict p x s y Q' := by
  refine ⟨h.grows, h.same, h.stops, fun a ha => ?_⟩
  obtain ⟨c, hc, hac⟩ := h.ok a ha
  exact ⟨c, hc, hQ a c _ hc hac⟩

/-- What asks for nothing, and does not fault without a reason, is strict. -/
theorem strict_of_silent {e : Except (Option ψ) α} {t : σ}
    (hx : ∀ answers, x answers s = (e, t, s.2)) (hne : e ≠ .error none)
    (hok : ∀ a, e = .ok a → ∃ c, y = .ok c ∧ Q a c t) :
    Strict p x s y Q := by
  refine ⟨by rw [hx], fun answers _ => ?_, fun answers hg => ?_, fun a ha => ?_⟩
  · rw [hx, hx]
    exact ⟨rfl, hne⟩
  · rw [hx] at hg
    exact absurd (granted_length s.2) hg
  · rw [hx] at ha ⊢
    exact hok a ha

theorem strict_pure {a : α} {c : γ} (hQ : Q a c s.1) :
    Strict p (pure a : Asks ρ σ ψ α) s (.ok c) Q := by
  refine strict_of_silent (e := .ok a) (t := s.1) (fun _ => rfl) (fun h => (by cases h)) ?_
  rintro _ ⟨⟩
  exact ⟨c, rfl, hQ⟩

/-- A computation without a state is strict. -/
theorem strict_lift {y : Except ψ α} {Q : α → α → σ → Prop} (hQ : ∀ a, y = .ok a → Q a a s.1) :
    Strict p (lift y : Asks ρ σ ψ α) s y Q := by
  refine strict_of_silent (e := y.mapError some) (t := s.1) (fun _ => rfl) ?_ fun a ha => ?_
  · cases y with
    | error e => exact fun h => (by cases h)
    | ok a => exact fun h => (by cases h)
  · cases y with
    | error e => cases ha
    | ok b =>
      obtain rfl := Except.ok.inj ha
      exact ⟨b, rfl, hQ b rfl⟩

/-- It is followed by what is strict in the same state. -/
theorem strict_lift_bind {y : Except ψ α} {z : α → Except ψ δ}
    (hf : ∀ a, y = .ok a → Strict p (f a) s (z a) R) : Strict p (lift y >>= f) s (y >>= z) R := by
  cases y with
  | error e =>
    exact strict_of_silent (e := .error (some e)) (t := s.1) (fun _ => rfl) (fun h => (by cases h))
      fun a ha => (by cases ha)
  | ok a => exact hf a rfl

/-- So is a change of the state. -/
theorem strict_change {g : σ → Except ψ (α × σ)} {c : γ}
    (hg : ∀ a t, g s.1 = .ok (a, t) → Q a c t) :
    Strict p (change g : Asks ρ σ ψ α) s (.ok c) Q := by
  cases hr : g s.1 with
  | error e =>
    refine strict_of_silent (e := .error (some e)) (t := s.1) (fun answers => ?_)
      (fun h => (by cases h)) fun a ha => (by cases ha)
    rw [change, hr]
  | ok r =>
    refine strict_of_silent (e := .ok r.1) (t := r.2) (fun answers => ?_) (fun h => (by cases h)) ?_
    · rw [change, hr]
    · rintro _ ⟨⟩
      exact ⟨c, rfl, hg r.1 r.2 hr⟩

/-- **A request whose refusal is gone on with** is strict, if what follows when it is granted is. -/
theorem strict_ask {r : ρ} {k : Bool → Asks ρ σ ψ α}
    (hno : ∀ answers t, (k false answers t).1 = .error none ∧ (k false answers t).2 = t)
    (hyes : p r = true → Strict p (k true) (s.1, s.2 ++ [r]) y Q) :
    Strict p (ask p r >>= k) s y Q := by
  have hrun : ∀ answers, (ask p r >>= k) answers s =
      k (answers s.2.length && p r) answers (s.1, s.2 ++ [r]) := fun answers => rfl
  have hlast : ∀ (answers : ℕ → Bool) (l : List ρ), s.2 ++ [r] <+: l →
      Granted p answers s.2.length l → answers s.2.length = true ∧ p r = true := by
    rintro answers _ ⟨rest, rfl⟩ hg
    refine hg s.2.length r le_rfl ?_
    rw [List.append_assoc, List.singleton_append, List.getElem?_append_right le_rfl, Nat.sub_self]
    rfl
  cases hp : p r with
  | false =>
    -- what nobody may ask for is refused whatever the answers are
    have hnever : ∀ answers, (ask p r >>= k) answers s = k false answers (s.1, s.2 ++ [r]) := by
      intro answers
      rw [hrun, hp, Bool.and_false]
    have hstop := fun answers => hno answers (s.1, s.2 ++ [r])
    refine ⟨?_, fun answers hg => ?_, fun answers _ => ?_, fun a ha => ?_⟩
    · rw [hnever, (hstop always).2]
      exact List.prefix_append _ _
    · rw [hnever, (hstop always).2] at hg
      have hgranted := (hlast answers _ (List.prefix_refl _) hg).2
      rw [hp] at hgranted
      cases hgranted
    · rw [hnever, (hstop answers).1]
    · rw [hnever, (hstop always).1] at ha
      cases ha
  | true =>
    have hnext := hyes hp
    have halways : (ask p r >>= k) always s = k true always (s.1, s.2 ++ [r]) := by
      rw [hrun, hp, Bool.and_true]
      rfl
    -- all is granted if the request is, and all that follows
    have hiff : ∀ answers, Granted p answers s.2.length (k true always (s.1, s.2 ++ [r])).2.2 ↔
        answers s.2.length = true ∧ Granted p answers (s.2 ++ [r]).length
          (k true always (s.1, s.2 ++ [r])).2.2 := by
      intro answers
      rw [granted_iff (l := s.2 ++ [r]) (m := (s.2 ++ [r]).length) hnext.grows rfl (by simp)]
      refine and_congr_left fun _ => ⟨fun h => (hlast answers _ (List.prefix_refl _) h).1, ?_⟩
      intro hanswer i q hi hq
      obtain ⟨hlt, hget⟩ := List.getElem?_eq_some_iff.mp hq
      rw [List.length_append, List.length_singleton] at hlt
      obtain rfl : i = s.2.length := by omega
      rw [List.getElem_concat_length rfl] at hget
      exact ⟨hanswer, hget ▸ hp⟩
    refine ⟨?_, fun answers hg => ?_, fun answers hg => ?_, fun a ha => ?_⟩
    · rw [halways]
      exact (List.prefix_append _ _).trans hnext.grows
    · rw [halways] at hg ⊢
      obtain ⟨hanswer, hrest⟩ := (hiff answers).mp hg
      rw [hrun, hanswer, hp, Bool.and_true]
      exact hnext.same answers hrest
    · rw [halways] at hg
      rw [hrun, hp, Bool.and_true]
      cases hanswer : answers s.2.length with
      | false => exact (hno _ _).1
      | true => exact hnext.stops answers fun hrest => hg ((hiff answers).mpr ⟨hanswer, hrest⟩)
    · rw [halways] at ha ⊢
      exact hnext.ok a ha

/-! ### Where nothing is refused -/

/-- **What a computation does where nothing is refused**: it returns something and leaves a state,
of which `P` is true, or it faults for a reason of which `E` is. -/
structure Served (x : Asks ρ σ ψ α) (s : σ × List ρ) (P : α → σ → Prop) (E : ψ → Prop) : Prop where
  ok : ∀ a, (x always s).1 = .ok a → P a (x always s).2.1
  error : ∀ e, (x always s).1 = .error e → ∃ f, e = some f ∧ E f

variable {P : α → σ → Prop} {R : β → σ → Prop} {E E' : ψ → Prop}

theorem Served.mono {P' : α → σ → Prop} (h : Served x s P E) (hP : ∀ a t, P a t → P' a t)
    (hE : ∀ f, E f → E' f) : Served x s P' E' := by
  refine ⟨fun a ha => hP a _ (h.ok a ha), fun e he => ?_⟩
  obtain ⟨f, hf, hfault⟩ := h.error e he
  exact ⟨f, hf, hE f hfault⟩

/-- **The rule of sequencing.** -/
theorem Served.bind (hx : Served x s P E) (hf : ∀ a t, P a t.1 → Served (f a) t R E) :
    Served (x >>= f) s R E := by
  rcases hr : (x always s).1 with e | a
  · have hbind : (x >>= f) always s = (.error e, (x always s).2) := bind_of_error hr
    refine ⟨fun b hb => ?_, fun e' he' => ?_⟩
    · rw [hbind] at hb
      cases hb
    · rw [hbind] at he'
      obtain rfl := Except.error.inj he'
      exact hx.error e hr
  · have hbind : (x >>= f) always s = f a always (x always s).2 := bind_of_ok hr
    obtain ⟨hok, herror⟩ := hf a (x always s).2 (hx.ok a hr)
    rw [← hbind] at hok herror
    exact ⟨hok, herror⟩

theorem served_pure {a : α} (h : P a s.1) : Served (pure a : Asks ρ σ ψ α) s P E := by
  refine ⟨?_, fun e he => (by cases he)⟩
  rintro _ ⟨⟩
  exact h

/-- A computation without a state leaves it as it is. -/
theorem served_lift {y : Except ψ α} {T : α → Prop} (h : Gives y T E) :
    Served (lift y : Asks ρ σ ψ α) s (fun a t => T a ∧ t = s.1) E := by
  rcases y with f | a
  · refine ⟨fun b hb => (by cases hb), ?_⟩
    rintro _ ⟨⟩
    exact ⟨f, rfl, h.error f rfl⟩
  · refine ⟨?_, fun e he => (by cases he)⟩
    rintro _ ⟨⟩
    exact ⟨h.ok a rfl, rfl⟩

theorem served_change {g : σ → Except ψ (α × σ)} (h : Gives (g s.1) (fun r => P r.1 r.2) E) :
    Served (change g : Asks ρ σ ψ α) s P E := by
  rcases hr : g s.1 with f | r
  · have hrun : (change g : Asks ρ σ ψ α) always s = (.error (some f), s) := by rw [change, hr]
    refine ⟨fun a ha => ?_, fun e he => ?_⟩
    · rw [hrun] at ha
      cases ha
    · rw [hrun] at he
      obtain rfl := Except.error.inj he
      exact ⟨f, rfl, h.error f hr⟩
  · have hrun : (change g : Asks ρ σ ψ α) always s = (.ok r.1, r.2, s.2) := by rw [change, hr]
    refine ⟨fun a ha => ?_, fun e he => ?_⟩
    · rw [hrun] at ha ⊢
      obtain rfl := Except.ok.inj ha
      exact h.ok r hr
    · rw [hrun] at he
      cases he

/-- A request is granted if it can be. -/
theorem served_ask {r : ρ} (hp : p r = true) :
    Served (ask p r : Asks ρ σ ψ Bool) s (fun granted t => granted = true ∧ t = s.1) E := by
  refine ⟨fun a ha => ⟨?_, rfl⟩, fun e he => (by cases he)⟩
  exact (Except.ok.inj ha).symm.trans hp

/-! ### With more of a state -/

section Projects

variable {σ' : Type}

/-- **A computation with more of a state** does what another one does to the part that this has. -/
structure Projects (proj : σ' → σ) (x' : Asks ρ σ' ψ α) (x : Asks ρ σ ψ α) : Prop where
  same : ∀ answers s, x answers (proj s.1, s.2) =
    ((x' answers s).1, proj (x' answers s).2.1, (x' answers s).2.2)

variable {proj : σ' → σ} {x' : Asks ρ σ' ψ α} {f' : α → Asks ρ σ' ψ β}

theorem Projects.bind (hx : Projects proj x' x) (hf : ∀ a, Projects proj (f' a) (f a)) :
    Projects proj (x' >>= f') (x >>= f) := by
  refine ⟨fun answers s => ?_⟩
  have hfirst := hx.same answers s
  rcases hr : (x' answers s).1 with e | a
  · rw [bind_of_error (congrArg Prod.fst (hfirst.trans (by rw [hr]))), bind_of_error hr, hfirst]
  · rw [bind_of_ok (congrArg Prod.fst (hfirst.trans (by rw [hr]))), bind_of_ok hr, hfirst]
    exact (hf a).same answers (x' answers s).2

theorem projects_pure (a : α) :
    Projects proj (pure a : Asks ρ σ' ψ α) (pure a : Asks ρ σ ψ α) := ⟨fun _ _ => rfl⟩

theorem projects_lift (y : Except ψ α) :
    Projects proj (lift y : Asks ρ σ' ψ α) (lift y : Asks ρ σ ψ α) := ⟨fun _ _ => rfl⟩

theorem projects_ask (p : ρ → Bool) (r : ρ) :
    Projects proj (ask p r : Asks ρ σ' ψ Bool) (ask p r : Asks ρ σ ψ Bool) := ⟨fun _ _ => rfl⟩

theorem projects_refused :
    Projects proj (refused : Asks ρ σ' ψ α) (refused : Asks ρ σ ψ α) := ⟨fun _ _ => rfl⟩

theorem projects_change {g : σ → Except ψ (α × σ)} {g' : σ' → Except ψ (α × σ')}
    (h : ∀ s, g (proj s) = (g' s).map fun r => (r.1, proj r.2)) :
    Projects proj (change g' : Asks ρ σ' ψ α) (change g : Asks ρ σ ψ α) := by
  refine ⟨fun answers s => ?_⟩
  rw [change, change, h]
  rcases g' s.1 with e | r
  · rfl
  · rfl

end Projects

end Asks

end Lib
