import Mathlib.Algebra.Order.Group.Nat

/-!
# One question at a time

Two parties leave messages for one another in two boxes. One of them asks, and waits until there is
an answer. The other one answers when it likes, and may leave messages of its own meanwhile, which
are not answers (`Lib.Exchange.Party`). An answer is given once, and what is asked about may be in a
memory that both of them see.

Whatever traffic there is, a question is under way (`Lib.Exchange.Waiting`) until its answer is
taken, and then none is (`Lib.Exchange.Idle`): the first message taken that is an answer is the
answer to the question.
-/

namespace Lib

namespace Exchange

universe u v

/-- The two boxes, with the messages that have not been taken, and the memory. -/
structure Boxes (μ : Type u) (σ : Type v) where
  asked : List μ
  told : List μ
  mem : σ

/-- What the other party does: it answers the next question, or leaves another message. -/
inductive Traffic (μ : Type u) where
  | serve
  | other (m : μ)
  deriving DecidableEq

/-- **The other party**: which messages are answers, how many find room in the box, and what it
makes of a question. -/
structure Party (μ : Type u) (σ : Type v) where
  isAnswer : μ → Bool
  depth : ℕ
  reply : μ → μ
  serve : μ → σ → σ
  isAnswer_reply : ∀ m, isAnswer (reply m) = true

variable {μ : Type u} {σ : Type v} (P : Party μ σ)

/-- One thing that the other party does. While the box is full it waits. -/
def Party.traffic (b : Boxes μ σ) : Traffic μ → Boxes μ σ
  | .serve =>
    if P.depth ≤ b.told.length then b
    else match b.asked with
      | [] => b
      | m :: rest => ⟨rest, b.told ++ [P.reply m], P.serve m b.mem⟩
  | .other m =>
    if P.depth ≤ b.told.length ∨ P.isAnswer m = true then b
    else { b with told := b.told ++ [m] }

/-- No question is under way. -/
structure Idle (b : Boxes μ σ) : Prop where
  asked : b.asked = []
  told : ∀ m ∈ b.told, P.isAnswer m = false

/-- A question has been asked, about a memory. -/
structure Pending (m : μ) (s : σ) (b : Boxes μ σ) : Prop where
  asked : b.asked = [m]
  told : ∀ w ∈ b.told, P.isAnswer w = false
  mem : b.mem = s

/-- It has been answered, and `n` other messages are to be taken before the answer. -/
structure Answered (m : μ) (s : σ) (n : ℕ) (b : Boxes μ σ) : Prop where
  asked : b.asked = []
  told : ∃ l r, b.told = l ++ P.reply m :: r ∧ l.length = n ∧
    (∀ w ∈ l, P.isAnswer w = false) ∧ ∀ w ∈ r, P.isAnswer w = false
  mem : b.mem = P.serve m s

/-- **A question is under way**: it has not been answered yet, or the answer has not been taken. -/
def Waiting (m : μ) (s : σ) (b : Boxes μ σ) : Prop :=
  Pending P m s b ∨ ∃ n, Answered P m s n b

/-- What the other party does, one thing after the other. -/
def Party.traffics (b : Boxes μ σ) (ts : List (Traffic μ)) : Boxes μ σ := ts.foldl P.traffic b

/-- How many other messages there are. -/
def others : List (Traffic μ) → ℕ
  | [] => 0
  | .serve :: ts => others ts
  | .other _ :: ts => others ts + 1

variable {P} {b : Boxes μ σ} {m w : μ} {s : σ} {rest : List μ}

/-- One more message that is no answer. -/
theorem told_append {l : List μ} (h : ∀ m ∈ l, P.isAnswer m = false) (hm : ¬P.isAnswer m = true) :
    ∀ w ∈ l ++ [m], P.isAnswer w = false := fun w hw =>
  (List.mem_append.mp hw).elim (h w) fun hw =>
    List.mem_singleton.mp hw ▸ Bool.not_eq_true _ ▸ hm

/-! ### One thing after the other -/

/-- While no question is under way other messages come, and nothing else. -/
theorem Idle.traffic (h : Idle P b) (t : Traffic μ) :
    Idle P (P.traffic b t) ∧ (P.traffic b t).mem = b.mem ∧
      (P.traffic b t).told.length ≤ b.told.length + others [t] := by
  cases t with
  | serve =>
    simp only [Party.traffic, h.asked, ite_self, others]
    exact ⟨h, trivial, le_rfl⟩
  | other m =>
    rw [Party.traffic]
    split
    case isTrue => exact ⟨h, rfl, Nat.le_add_right _ _⟩
    case isFalse hm =>
      exact ⟨⟨h.asked, told_append h.told (not_or.mp hm).2⟩, rfl, List.length_append.le⟩

/-- **Asking.** -/
theorem Idle.ask (h : Idle P b) (m : μ) : Pending P m b.mem { b with asked := b.asked ++ [m] } :=
  ⟨by rw [h.asked]; rfl, h.told, rfl⟩

/-- A question that has been answered stays so. -/
theorem Answered.traffic {n : ℕ} (h : Answered P m s n b) (t : Traffic μ) :
    Answered P m s n (P.traffic b t) ∧
      (P.traffic b t).told.length ≤ b.told.length + others [t] := by
  cases t with
  | serve =>
    simp only [Party.traffic, h.asked, ite_self, others]
    exact ⟨h, le_rfl⟩
  | other w =>
    rw [Party.traffic]
    split
    case isTrue => exact ⟨h, Nat.le_add_right _ _⟩
    case isFalse hw =>
      obtain ⟨l, r, htold, hn, hl, hr⟩ := h.told
      refine ⟨⟨h.asked, ⟨l, r ++ [w], ?_, hn, hl, told_append hr (not_or.mp hw).2⟩, h.mem⟩, ?_⟩
      · simp only [htold, List.append_assoc, List.cons_append]
      · exact List.length_append.le

/-- One that has not is answered next if there is room. -/
theorem Pending.traffic (h : Pending P m s b) (t : Traffic μ) :
    (Pending P m s (P.traffic b t) ∧ (t = .serve → P.depth ≤ b.told.length) ∧
        (P.traffic b t).told.length ≤ b.told.length + others [t]) ∨
      Answered P m s b.told.length (P.traffic b t) ∧
        (P.traffic b t).told.length ≤ b.told.length + others [t] + 1 := by
  cases t with
  | serve =>
    rw [Party.traffic]
    split
    case isTrue hfull => exact .inl ⟨h, fun _ => hfull, Nat.le_add_right _ _⟩
    case isFalse =>
      simp only [h.asked, h.mem]
      exact .inr ⟨⟨rfl, ⟨b.told, [], rfl, rfl, h.told, fun w hw => nomatch hw⟩, rfl⟩,
        List.length_append.le⟩
  | other w =>
    rw [Party.traffic]
    split
    case isTrue => exact .inl ⟨h, fun ht => (by cases ht), Nat.le_add_right _ _⟩
    case isFalse hw =>
      exact .inl ⟨⟨h.asked, told_append h.told (not_or.mp hw).2, h.mem⟩, fun ht => (by cases ht),
        List.length_append.le⟩

/-! ### Many things -/

theorem others_cons (t : Traffic μ) (ts : List (Traffic μ)) :
    others (t :: ts) = others [t] + others ts := by
  cases t with
  | serve => exact (Nat.zero_add _).symm
  | other m => exact Nat.add_comm _ _

theorem Idle.traffics (h : Idle P b) (ts : List (Traffic μ)) :
    Idle P (P.traffics b ts) ∧ (P.traffics b ts).mem = b.mem ∧
      (P.traffics b ts).told.length ≤ b.told.length + others ts := by
  induction ts generalizing b with
  | nil => exact ⟨h, rfl, le_rfl⟩
  | cons t ts ih =>
    obtain ⟨ht, hmem, hlength⟩ := h.traffic t
    obtain ⟨hts, hmem', hlength'⟩ := ih ht
    rw [others_cons]
    exact ⟨hts, hmem'.trans hmem, hlength'.trans (by omega)⟩

theorem Answered.traffics {n : ℕ} (h : Answered P m s n b) (ts : List (Traffic μ)) :
    Answered P m s n (P.traffics b ts) ∧
      (P.traffics b ts).told.length ≤ b.told.length + others ts := by
  induction ts generalizing b with
  | nil => exact ⟨h, le_rfl⟩
  | cons t ts ih =>
    obtain ⟨ht, hlength⟩ := h.traffic t
    obtain ⟨hts, hlength'⟩ := ih ht
    rw [others_cons]
    exact ⟨hts, hlength'.trans (by omega)⟩

/-- **A question is answered** when it is served, if there is room. -/
theorem Pending.traffics (h : Pending P m s b) (ts : List (Traffic μ)) :
    (Pending P m s (P.traffics b ts) ∧
        (.serve ∈ ts → P.depth ≤ b.told.length + others ts) ∧
        (P.traffics b ts).told.length ≤ b.told.length + others ts) ∨
      ∃ n ≤ b.told.length + others ts, Answered P m s n (P.traffics b ts) ∧
        (P.traffics b ts).told.length ≤ b.told.length + others ts + 1 := by
  induction ts generalizing b with
  | nil => exact .inl ⟨h, nofun, le_rfl⟩
  | cons t ts ih =>
    rw [others_cons]
    rcases h.traffic t with ⟨ht, hroom, hlength⟩ | ⟨ht, hlength⟩
    · rcases ih ht with ⟨hts, hserve, hlength'⟩ | ⟨n, hn, hts, hlength'⟩
      · refine .inl ⟨hts, fun hmem => ?_, hlength'.trans (by omega)⟩
        rcases List.mem_cons.mp hmem with heq | hmem
        · exact (hroom heq.symm).trans (by omega)
        · exact (hserve hmem).trans (by omega)
      · exact .inr ⟨n, hn.trans (by omega), hts, hlength'.trans (by omega)⟩
    · obtain ⟨hts, hlength'⟩ := ht.traffics ts
      exact .inr ⟨_, Nat.le_add_right _ _, hts, hlength'.trans (by omega)⟩

/-- Messages are taken by the one that asks, and by nobody else. -/
theorem Party.told_prefix (b : Boxes μ σ) (ts : List (Traffic μ)) :
    b.told <+: (P.traffics b ts).told := by
  induction ts generalizing b with
  | nil => exact List.prefix_rfl
  | cons t ts ih =>
    refine List.IsPrefix.trans ?_ (ih (P.traffic b t))
    cases t with
    | serve =>
      rw [Party.traffic]
      split
      · exact List.prefix_rfl
      · split
        · exact List.prefix_rfl
        · exact List.prefix_append _ _
    | other m =>
      rw [Party.traffic]
      split
      · exact List.prefix_rfl
      · exact List.prefix_append _ _

/-- Whatever happens, a question stays under way. -/
theorem Waiting.traffics (h : Waiting P m s b) (ts : List (Traffic μ)) :
    Waiting P m s (P.traffics b ts) := by
  rcases h with h | ⟨n, h⟩
  · rcases h.traffics ts with ⟨hts, -⟩ | ⟨n, -, hts, -⟩
    · exact .inl hts
    · exact .inr ⟨n, hts⟩
  · exact .inr ⟨n, (h.traffics ts).1⟩

/-! ### Taking messages -/

/-- An answer is there to be taken. -/
theorem Answered.told_ne_nil {n : ℕ} (h : Answered P m s n b) : b.told ≠ [] := by
  obtain ⟨l, r, htold, -⟩ := h.told
  rw [htold]
  exact List.append_ne_nil_of_right_ne_nil l (List.cons_ne_nil _ r)

/-- A message that is taken before the answer is none. -/
theorem Pending.take (h : Pending P m s b) (htold : b.told = w :: rest) :
    P.isAnswer w = false ∧ Pending P m s { b with told := rest } := by
  have hothers := h.told
  rw [htold] at hothers
  obtain ⟨hw, hrest⟩ := List.forall_mem_cons.mp hothers
  exact ⟨hw, h.asked, hrest, h.mem⟩

/-- **The answer is taken** when it is the first message, and no question is under way then. -/
theorem Answered.take_zero (h : Answered P m s 0 b) (htold : b.told = w :: rest) :
    P.isAnswer w = true ∧ Idle P { b with told := rest } ∧ b.mem = P.serve m s := by
  obtain ⟨l, r, hanswer, hn, -, hr⟩ := h.told
  obtain rfl := List.length_eq_zero_iff.mp hn
  rw [htold] at hanswer
  obtain ⟨rfl, rfl⟩ := List.cons_eq_cons.mp hanswer
  exact ⟨P.isAnswer_reply m, ⟨h.asked, hr⟩, h.mem⟩

theorem Answered.take_succ {n : ℕ} (h : Answered P m s (n + 1) b) (htold : b.told = w :: rest) :
    P.isAnswer w = false ∧ Answered P m s n { b with told := rest } := by
  obtain ⟨l, r, hanswer, hn, hl, hr⟩ := h.told
  rw [htold] at hanswer
  cases l with
  | nil => cases hn
  | cons v l =>
    obtain ⟨rfl, rfl⟩ := List.cons_eq_cons.mp hanswer
    obtain ⟨hw, hrest⟩ := List.forall_mem_cons.mp hl
    exact ⟨hw, h.asked, ⟨l, r, rfl, Nat.succ.inj hn, hrest, hr⟩, h.mem⟩

/-- **Taking a message**: the first one that is an answer is the one to the question. -/
theorem Waiting.take (h : Waiting P m s b) (htold : b.told = w :: rest) :
    (P.isAnswer w = true → Idle P { b with told := rest } ∧ b.mem = P.serve m s) ∧
      (P.isAnswer w = false → Waiting P m s { b with told := rest }) := by
  rcases h with h | ⟨n, h⟩
  · obtain ⟨hw, hrest⟩ := h.take htold
    exact ⟨fun hw' => absurd hw' (Bool.eq_false_iff.mp hw), fun _ => .inl hrest⟩
  · cases n with
    | zero =>
      obtain ⟨hw, hidle, hmem⟩ := h.take_zero htold
      exact ⟨fun _ => ⟨hidle, hmem⟩, fun hw' => absurd hw (Bool.eq_false_iff.mp hw')⟩
    | succ n =>
      obtain ⟨hw, hrest⟩ := h.take_succ htold
      exact ⟨fun hw' => absurd hw' (Bool.eq_false_iff.mp hw), fun _ => .inr ⟨n, hrest⟩⟩

/-! ### Room -/

/-- How many other messages there are before the next `n` looks at the boxes, the first of which is
look `a`. -/
def coming (sched : ℕ → List (Traffic μ)) : ℕ → ℕ → ℕ
  | _, 0 => 0
  | a, n + 1 => others (sched a) + coming sched (a + 1) n

/-- **Room**: however long nothing is taken, there will be no more than `c` messages but for the
answer. -/
def Room (sched : ℕ → List (Traffic μ)) (c : ℕ) (b : Boxes μ σ) (a : ℕ) : Prop :=
  ∀ n, b.told.length + coming sched a n ≤ c

variable {sched : ℕ → List (Traffic μ)} {a c : ℕ}

theorem Room.length_le (h : Room sched c b a) : b.told.length ≤ c := h 0

/-- What comes before the next look has been counted. -/
theorem Room.look (h : Room sched c b a) : b.told.length + others (sched a) ≤ c := h 1

theorem Room.next {b' : Boxes μ σ} {d : ℕ} (h : Room sched c b a)
    (hlength : b'.told.length ≤ b.told.length + others (sched a) + d) :
    Room sched (c + d) b' (a + 1) := fun n => by
  have hn : b.told.length + (others (sched a) + coming sched (a + 1) n) ≤ c := h (n + 1)
  omega

theorem Room.mono {d : ℕ} (h : Room sched c b a) (hd : c ≤ d) : Room sched d b a := fun n =>
  (h n).trans hd

/-- Taking a message makes room for one. -/
theorem Room.take (h : Room sched (c + 1) b a) (htold : b.told = w :: rest) :
    Room sched c { b with told := rest } a := fun n => by
  have hn := h n
  rw [htold, List.length_cons] at hn
  dsimp only
  omega

end Exchange

end Lib
