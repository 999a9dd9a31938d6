import Mathlib.Data.List.Basic

/-!
# Keeping to a protocol

A driver talks to its device: it says something, hears an answer, and goes on or breaks off. What
may be said and heard on the way from one state to another is a `Lib.Protocol`, a relation between
the two states and a word. An `Lib.Attempt` is a part of the driver that says in the end whether it
has gone through.

An attempt keeps to a protocol (`Lib.KeepsTo`) when every run that goes through has said a word of
it, and every run that breaks off has said the beginning of one, but for an answer at its end that
the driver did not like. This is kept by doing one attempt after the other
(`Lib.KeepsTo.andThen`), and an attempt that is made again and again has said the beginnings of
words, and a word at the end if it has gone through (`Lib.KeepsTo.again`).
-/

namespace Lib

universe u v

variable {σ : Type u} {α : Type v}

/-- What may be said on the way from one state to another. -/
abbrev Protocol (σ : Type u) (α : Type v) := σ → List α → σ → Prop

/-- A part of a driver, and whether it has gone through. There is no outcome of one that waits for
ever. -/
abbrev Attempt (σ : Type u) := σ → Option (Bool × σ)

/-- **The beginning of a word** of a language, where the last letter may be another one if it is an
answer. -/
def Begins (answer : α → Prop) (P : List α → Prop) (l : List α) : Prop :=
  ∃ w, P w ∧ ∃ l₀, l₀ <+: w ∧ (l = l₀ ∨ ∃ a, answer a ∧ l = l₀ ++ [a])

section Begins

variable {answer : α → Prop} {P Q : List α → Prop} {l m w : List α}

/-- A prefix of a word is the beginning of one. -/
theorem begins_of_prefix (hw : P w) (hl : l <+: w) : Begins answer P l :=
  ⟨w, hw, l, hl, .inl rfl⟩

/-- An answer that ends the dialogue may be any. -/
theorem begins_of_answer {a : α} (hw : P w) (hl : l <+: w) (ha : answer a) :
    Begins answer P (l ++ [a]) :=
  ⟨w, hw, l, hl, .inr ⟨a, ha, rfl⟩⟩

/-- What begins a word begins every word that goes on from one. -/
theorem Begins.mono (h : Begins answer P l) (hPQ : ∀ w, P w → ∃ m, Q (w ++ m)) :
    Begins answer Q l := by
  obtain ⟨w, hw, l₀, hl₀, hl⟩ := h
  obtain ⟨m, hm⟩ := hPQ w hw
  exact ⟨w ++ m, hm, l₀, hl₀.trans (List.prefix_append w m), hl⟩

theorem Begins.imp (h : Begins answer P l) (hPQ : ∀ w, P w → Q w) : Begins answer Q l :=
  h.mono fun w hw => ⟨[], (List.append_nil w).symm ▸ hPQ w hw⟩

/-- What begins a word begins it behind what has been said before. -/
theorem Begins.append (h : Begins answer P m) (hPQ : ∀ w, P w → Q (l ++ w)) :
    Begins answer Q (l ++ m) := by
  obtain ⟨w, hw, m₀, hm₀, hm⟩ := h
  refine ⟨l ++ w, hPQ w hw, l ++ m₀, (List.prefix_append_right_inj l).mpr hm₀, ?_⟩
  rcases hm with rfl | ⟨a, ha, rfl⟩
  · exact .inl rfl
  · exact .inr ⟨a, ha, (List.append_assoc ..).symm⟩

end Begins

namespace Protocol

/-- The words that can be said from a state. -/
def words (W : Protocol σ α) (s : σ) (w : List α) : Prop := ∃ t, W s w t

/-- One protocol and then another. -/
def seq (V W : Protocol σ α) : Protocol σ α := fun s w u =>
  ∃ l t m, V s l t ∧ W t m u ∧ w = l ++ m

/-- A protocol that can be gone through from everywhere. -/
def Total (W : Protocol σ α) : Prop := ∀ s, ∃ w t, W s w t

variable {V W W' : Protocol σ α} {answer : α → Prop} {s t : σ} {l m w : List α}

theorem Total.seq (hV : V.Total) (hW : W.Total) : (V.seq W).Total := by
  intro s
  obtain ⟨l, t, hl⟩ := hV s
  obtain ⟨m, u, hm⟩ := hW t
  exact ⟨l ++ m, u, l, t, m, hl, hm, rfl⟩

theorem Total.mono (hW : W.Total) (h : ∀ s w t, W s w t → W' s w t) : W'.Total := by
  intro s
  obtain ⟨w, t, hw⟩ := hW s
  exact ⟨w, t, h s w t hw⟩

/-- What begins the first of two protocols begins both. -/
theorem begins_seq_left (h : Begins answer (V.words s) l) (hW : W.Total) :
    Begins answer ((V.seq W).words s) l := by
  refine h.mono fun w hw => ?_
  obtain ⟨t, hV⟩ := hw
  obtain ⟨m, u, hm⟩ := hW t
  exact ⟨m, u, w, t, m, hV, hm, rfl⟩

/-- A word of the first, and what begins the second. -/
theorem begins_seq_right (hV : V s l t) (h : Begins answer (W.words t) m) :
    Begins answer ((V.seq W).words s) (l ++ m) :=
  h.append fun w ⟨u, hw⟩ => ⟨u, l, t, w, hV, hw, rfl⟩

end Protocol

/-! ### Attempts -/

/-- One attempt, and then another if it has gone through. -/
def andThen (f g : Attempt σ) : Attempt σ := fun s =>
  (f s).bind fun r => if r.1 then g r.2 else some r

/-- An attempt is made until it goes through, `n` times at most. -/
def again (f : Attempt σ) : ℕ → Attempt σ
  | 0, s => some (false, s)
  | n + 1, s => (f s).bind fun r => if r.1 then some r else again f n r.2

/-- **A record of what is said**: nothing where nothing happens, and one thing after the other. -/
structure Records (Said : Protocol σ α) : Prop where
  nil : ∀ s, Said s [] s
  append : ∀ {s t u : σ} {l m : List α}, Said s l t → Said t m u → Said s (l ++ m) u

/-- **An attempt keeps to a protocol**, one that can be gone through from everywhere. -/
structure KeepsTo (Said : Protocol σ α) (answer : α → Prop) (f : Attempt σ) (W : Protocol σ α) :
    Prop where
  total : W.Total
  through : ∀ {s t : σ}, f s = some (true, t) → ∃ w, Said s w t ∧ W s w t
  off : ∀ {s t : σ}, f s = some (false, t) → ∃ l, Said s l t ∧ Begins answer (W.words s) l

variable {Said V W W' : Protocol σ α} {answer : α → Prop} {f g : Attempt σ} {s t : σ}

theorem keepsTo_of_run (htotal : W.Total)
    (h : ∀ {s t : σ} {ok : Bool}, f s = some (ok, t) → ∃ l, Said s l t ∧
      (ok = true → W s l t) ∧ (ok = false → Begins answer (W.words s) l)) :
    KeepsTo Said answer f W where
  total := htotal
  through hf := by
    obtain ⟨l, hl, hW, -⟩ := h hf
    exact ⟨l, hl, hW rfl⟩
  off hf := by
    obtain ⟨l, hl, -, hbegins⟩ := h hf
    exact ⟨l, hl, hbegins rfl⟩

theorem KeepsTo.mono (h : KeepsTo Said answer f W) (hW : ∀ s w t, W s w t → W' s w t) :
    KeepsTo Said answer f W' where
  total := h.total.mono hW
  through hf := by
    obtain ⟨w, hw, hword⟩ := h.through hf
    exact ⟨w, hw, hW _ _ _ hword⟩
  off hf := by
    obtain ⟨l, hl, hbegins⟩ := h.off hf
    exact ⟨l, hl, hbegins.imp fun w ⟨t, hw⟩ => ⟨t, hW _ _ _ hw⟩⟩

/-- **One attempt after the other** keeps to the one protocol and then to the other. -/
theorem KeepsTo.andThen (hrec : Records Said) (hf : KeepsTo Said answer f V)
    (hg : KeepsTo Said answer g W) : KeepsTo Said answer (andThen f g) (V.seq W) where
  total := hf.total.seq hg.total
  through {s u} h := by
    obtain ⟨⟨ok, t⟩, hfs, h⟩ := Option.bind_eq_some_iff.mp h
    cases ok with
    | false => cases h
    | true =>
      obtain ⟨l, hl, hV⟩ := hf.through hfs
      obtain ⟨m, hm, hword⟩ := hg.through h
      exact ⟨l ++ m, hrec.append hl hm, l, t, m, hV, hword, rfl⟩
  off {s u} h := by
    obtain ⟨⟨ok, t⟩, hfs, h⟩ := Option.bind_eq_some_iff.mp h
    cases ok with
    | false =>
      obtain rfl := congrArg Prod.snd (Option.some.inj h)
      obtain ⟨l, hl, hbegins⟩ := hf.off hfs
      exact ⟨l, hl, Protocol.begins_seq_left hbegins hg.total⟩
    | true =>
      obtain ⟨l, hl, hV⟩ := hf.through hfs
      obtain ⟨m, hm, hbegins⟩ := hg.off h
      exact ⟨l ++ m, hrec.append hl hm, Protocol.begins_seq_right hV hbegins⟩

/-- **What goes on after something that cannot break off**, and that finds something out. -/
theorem KeepsTo.after {β : Type*} (hrec : Records Said) {f : σ → β × σ} {g : β → Attempt σ}
    {V : β → Protocol σ α} {W : β → Protocol σ α}
    (hf : ∀ s, ∃ l, Said s l (f s).2 ∧ V (f s).1 s l (f s).2)
    (hg : ∀ b, KeepsTo Said answer (g b) (W b)) :
    KeepsTo Said answer (fun s => g (f s).1 (f s).2) fun s w u => ∃ b, (V b).seq (W b) s w u where
  total s := by
    obtain ⟨l, -, hV⟩ := hf s
    obtain ⟨m, u, hm⟩ := (hg (f s).1).total (f s).2
    exact ⟨l ++ m, u, (f s).1, l, (f s).2, m, hV, hm, rfl⟩
  through {s u} h := by
    obtain ⟨l, hl, hV⟩ := hf s
    obtain ⟨m, hm, hword⟩ := (hg _).through h
    exact ⟨l ++ m, hrec.append hl hm, (f s).1, l, (f s).2, m, hV, hword, rfl⟩
  off {s u} h := by
    obtain ⟨l, hl, hV⟩ := hf s
    obtain ⟨m, hm, hbegins⟩ := (hg _).off h
    refine ⟨l ++ m, hrec.append hl hm, hbegins.append fun w ⟨u, hw⟩ => ?_⟩
    exact ⟨u, (f s).1, l, (f s).2, w, hV, hw, rfl⟩

/-- **What attempts say**: the beginnings of words, and the word of the one that goes through. -/
inductive Tries (f : Attempt σ) (answer : α → Prop) (W : Protocol σ α) :
    ℕ → σ → List α → Bool → σ → Prop
  | none (s : σ) : Tries f answer W 0 s [] false s
  | through {n : ℕ} {s t : σ} {w : List α} (hf : f s = some (true, t)) (hw : W s w t) :
    Tries f answer W (n + 1) s w true t
  | next {n : ℕ} {s t u : σ} {l m : List α} {ok : Bool} (hf : f s = some (false, t))
    (hl : Begins answer (W.words s) l) (hm : Tries f answer W n t m ok u) :
    Tries f answer W (n + 1) s (l ++ m) ok u

/-- **Trying again.** -/
theorem KeepsTo.again (hrec : Records Said) (hf : KeepsTo Said answer f W) {n : ℕ} {ok : Bool}
    (h : again f n s = some (ok, t)) : ∃ w, Said s w t ∧ Tries f answer W n s w ok t := by
  induction n generalizing s with
  | zero =>
    obtain ⟨rfl, rfl⟩ := Prod.mk.inj (Option.some.inj h)
    exact ⟨[], hrec.nil _, .none _⟩
  | succ n ih =>
    obtain ⟨⟨ok', u⟩, hfs, h⟩ := Option.bind_eq_some_iff.mp h
    cases ok' with
    | true =>
      obtain ⟨rfl, rfl⟩ := Prod.mk.inj (Option.some.inj h)
      obtain ⟨w, hw, hword⟩ := hf.through hfs
      exact ⟨w, hw, .through hfs hword⟩
    | false =>
      obtain ⟨l, hl, hbegins⟩ := hf.off hfs
      obtain ⟨m, hm, hrest⟩ := ih h
      exact ⟨l ++ m, hrec.append hl hm, .next hfs hbegins hrest⟩

/-- Attempts that succeed in the end have ended with a word. -/
theorem Tries.ends {n : ℕ} {w : List α} (h : Tries f answer W n s w true t) :
    ∃ u l m, W u m t ∧ w = l ++ m := by
  generalize hok : true = ok at h
  induction h with
  | none => cases hok
  | through _ hw => exact ⟨_, [], _, hw, (List.nil_append _).symm⟩
  | @next _ _ _ _ l _ _ _ _ _ ih =>
    obtain ⟨u, l', m, hm, rfl⟩ := ih hok
    exact ⟨u, l ++ l', m, hm, (List.append_assoc ..).symm⟩

end Lib
