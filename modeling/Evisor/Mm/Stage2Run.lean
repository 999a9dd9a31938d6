import Evisor.Mm.Stage2Tree

/-!
# The stage 2 tables as maps

The three functions through which the hypervisor maps a page of a task, in any order
and over any tasks. Seen from outside, each task has a map from page frames to pages
and flags, and a call changes it at one frame: `Evisor.Mm.stage2_map`. The memory and
the map of the heap may hold anything to begin with; no task has a table yet.
-/

namespace Evisor

namespace Mm

/-- A call that maps a page. -/
inductive MapCall where
  /-- `PgTableStage2::MapPageAccessible`. -/
  | mapPageAccessible (task : TaskId) (ipa page : ℕ)
  /-- `PgTableStage2::MapNewPage`. -/
  | mapNewPage (task : TaskId) (ipa page : ℕ)
  /-- `PgTableStage2::MapNewDevicePage`. -/
  | mapNewDevicePage (task : TaskId) (ipa page : ℕ) (accessable : Bool)

/-- The task a call is for. -/
def MapCall.task : MapCall → TaskId
  | .mapPageAccessible task _ _ | .mapNewPage task _ _ | .mapNewDevicePage task _ _ _ => task

/-- The address a call maps. -/
def MapCall.ipa : MapCall → ℕ
  | .mapPageAccessible _ ipa _ | .mapNewPage _ ipa _ | .mapNewDevicePage _ ipa _ _ => ipa

/-- The page a call maps it to. -/
def MapCall.page : MapCall → ℕ
  | .mapPageAccessible _ _ page | .mapNewPage _ _ page | .mapNewDevicePage _ _ page _ => page

/-- The flags of a page that a call maps. -/
def MapCall.flags : MapCall → ℕ
  | .mapPageAccessible .. | .mapNewPage .. => kStage2PteDram
  | .mapNewDevicePage _ _ _ accessable =>
    if accessable then kStage2PteDeviceAccessible else kStage2PteDeviceNotAccessible

/-- One call. -/
def step (L : Layout) (s : Mm) : MapCall → Except Fault Mm
  | .mapPageAccessible task ipa page => mapPageAccessible L s task ipa page
  | .mapNewPage task ipa page => mapNewPage L s task ipa page
  | .mapNewDevicePage task ipa page accessable => mapNewDevicePage L s task ipa page accessable

/-- A legal call: an address of 36 bits, which is what the tables have entries for, and a page
on a page boundary. -/
def MapCall.Legal (c : MapCall) : Prop :=
  c.ipa < 2 ^ 36 ∧ c.page < 2 ^ 64 ∧ c.page % PAGE_SIZE = 0

instance (c : MapCall) : Decidable c.Legal :=
  inferInstanceAs (Decidable (_ ∧ _))

/-- Whether a call maps the page frame of an address of a task. -/
def MapCall.Maps (c : MapCall) (t : TaskId) (ipa : ℕ) : Prop :=
  c.task = t ∧ c.ipa / PAGE_SIZE = ipa / PAGE_SIZE

instance (c : MapCall) (t : TaskId) (ipa : ℕ) : Decidable (c.Maps t ipa) :=
  inferInstanceAs (Decidable (_ ∧ _))

/-- **The last call** of a sequence that maps the page frame of an address. -/
def lastCall (calls : List MapCall) (t : TaskId) (ipa : ℕ) : Option MapCall :=
  calls.reverse.find? fun c => c.Maps t ipa

/-- A state in which no task has a table. -/
def NoTables (s : Mm) : Prop := ∀ t, (s.ctx t).page_table = 0

/-- **What a task's tables should say of an address**: the page and the flags of the
call, or nothing. -/
def Translates (s : Mm) (t : TaskId) (ipa : ℕ) : Option MapCall → Prop
  | none => s.translate t ipa = .invalid
  | some c => ∃ desc, s.translate t ipa = .page desc ∧ desc &&& PAGE_MASK = c.page ∧
    desc % PAGE_SIZE = c.flags

variable {L : Layout} {s : Mm}

theorem NoTables.tableAt (h : NoTables s) (t : TaskId) (p : List (Fin PTRS_PER_TABLE)) :
    s.tableAt t p = none :=
  Lib.reach_append_of_none (p := []) p ((tableAt_nil s t).trans (root_of_zero (h t)))

theorem NoTables.inv (h : NoTables s) : Inv L s := by
  have hno : ∀ {t p table}, s.tableAt t p ≠ some table := fun {t p _} ht =>
    by cases (h.tableAt t p).symm.trans ht
  exact ⟨⟨fun _ _ ht _ => absurd ht hno⟩, fun _ ht => absurd ht hno, fun _ ht => absurd ht hno⟩

/-- The flags a call can write. -/
theorem MapCall.flags_mem (c : MapCall) :
    c.flags ∈ [kStage2PteDram, kStage2PteDeviceAccessible, kStage2PteDeviceNotAccessible] := by
  rcases c with _ | _ | ⟨_, _, _, _ | _⟩ <;> simp [flags]

/-- The flags of a call are below the page, and mark the entry as one that ends the
walk. -/
theorem MapCall.flags_lt (c : MapCall) : c.flags < 2 ^ 12 ∧ c.flags % 4 = 3 := by
  have hall : ∀ f ∈ [kStage2PteDram, kStage2PteDeviceAccessible, kStage2PteDeviceNotAccessible],
      f < 2 ^ 12 ∧ f % 4 = 3 := by decide
  exact hall c.flags c.flags_mem

/-- The entry a call writes is taken apart again. -/
theorem MapCall.Legal.entry {c : MapCall} (h : c.Legal) :
    translationOf (c.page ||| c.flags) = .page (c.page ||| c.flags) ∧
      (c.page ||| c.flags) &&& PAGE_MASK = c.page ∧ (c.page ||| c.flags) % PAGE_SIZE = c.flags := by
  obtain ⟨-, hlt, hal⟩ := h
  obtain ⟨hflags, hthree⟩ := c.flags_lt
  rw [Lib.or_eq_add (k := 12) hal hflags]
  have hal' : c.page % 4096 = 0 := hal
  refine ⟨if_pos (by omega), ?_, Lib.add_mod_of_aligned hal hflags⟩
  rw [and_pageMask (by omega)]
  exact Lib.add_div_mul_of_aligned hal' hflags

/-- **One call** writes the entry of its page frame, and no other. -/
theorem Inv.step (h : Inv L s) {c : MapCall} (hc : c.Legal) {s' : Mm}
    (hs : step L s c = .ok s') :
    Inv L s' ∧ ∀ t ipa, ipa < 2 ^ 36 →
      s'.entryOf t ipa = if c.Maps t ipa then c.page ||| c.flags else s.entryOf t ipa := by
  have hipa := hc.1
  -- the address `MapPage` is given is the one of the call, but for the offset
  obtain ⟨ipa₀, pte, hm, hframe⟩ : ∃ ipa₀ pte,
      Evisor.mapPage L s c.task ipa₀ c.page c.flags = .ok (pte, s') ∧
        ipa₀ / 4096 = c.ipa / 4096 := by
    cases c with
    | mapPageAccessible task ipa page =>
      obtain ⟨⟨pte, s₁⟩, hm, hs⟩ := Lib.bind_eq_ok.mp hs
      obtain rfl := Except.ok.inj hs
      exact ⟨_, _, hm, rfl⟩
    | mapNewPage task ipa page =>
      obtain ⟨⟨pte, s₁⟩, hm, hs⟩ := Lib.bind_eq_ok.mp hs
      obtain rfl := Except.ok.inj hs
      exact ⟨_, _, hm, mask_frame (hipa.trans (by decide))⟩
    | mapNewDevicePage task ipa page accessable =>
      obtain ⟨⟨pte, s₁⟩, hm, hs⟩ := Lib.bind_eq_ok.mp hs
      obtain rfl := Except.ok.inj hs
      exact ⟨_, _, hm, mask_frame (hipa.trans (by decide))⟩
  obtain ⟨hinv, hentry⟩ := h.mapPage hm
  refine ⟨hinv, fun t ipa hlt => ?_⟩
  rw [hentry]
  refine if_congr ⟨?_, ?_⟩ rfl rfl
  · rintro ⟨rfl, hf⟩
    refine ⟨rfl, ?_⟩
    change c.ipa / 4096 = ipa / 4096
    omega
  · rintro ⟨rfl, hf⟩
    change c.ipa / 4096 = ipa / 4096 at hf
    exact ⟨rfl, by rw [hframe, hf]⟩

/-- The only way a call fails is to stop for lack of memory. -/
theorem step_error {c : MapCall} {f : Fault} (hs : step L s c = .error f) : f.IsPanic := by
  cases c <;> rcases Lib.bind_eq_error.mp hs with h | ⟨_, -, h⟩ <;>
    first | exact (mapPage_error h).isPanic | cases h

/-- The last call of a sequence is in its tail, or is its head. -/
theorem lastCall_cons (c : MapCall) (calls : List MapCall) (t : TaskId) (ipa : ℕ) :
    lastCall (c :: calls) t ipa =
      (lastCall calls t ipa).or (if c.Maps t ipa then some c else none) := by
  rw [lastCall, List.reverse_cons, List.find?_append, lastCall]
  congr 1
  by_cases h : c.Maps t ipa <;> simp [h]

/-- **A sequence of calls** leaves at each entry what the last call for it wrote. -/
theorem Inv.run (h : Inv L s) {calls : List MapCall} (hc : ∀ c ∈ calls, c.Legal) {s' : Mm}
    (hs : Lib.runFrom (Mm.step L) s calls = .ok s') :
    Inv L s' ∧ ∀ t ipa, ipa < 2 ^ 36 → s'.entryOf t ipa =
      (lastCall calls t ipa).elim (s.entryOf t ipa) fun c => c.page ||| c.flags := by
  induction calls generalizing s with
  | nil =>
    obtain rfl := Except.ok.inj hs
    exact ⟨h, fun _ _ _ => rfl⟩
  | cons c calls ih =>
    obtain ⟨hc₀, hcs⟩ := List.forall_mem_cons.mp hc
    obtain ⟨s₁, hst, hs⟩ := Lib.runFrom_cons_eq_ok.mp hs
    obtain ⟨hinv₁, hone⟩ := h.step hc₀ hst
    obtain ⟨hinv, hrest⟩ := ih hinv₁ hcs hs
    refine ⟨hinv, fun t ipa hlt => ?_⟩
    rw [hrest t ipa hlt, lastCall_cons, hone t ipa hlt]
    cases lastCall calls t ipa with
    | some c' => rfl
    | none => rw [Option.none_or]; split <;> rfl

/-- A sequence of calls fails only for lack of memory. -/
theorem run_error {calls : List MapCall} {f : Fault}
    (hs : Lib.runFrom (step L) s calls = .error f) : f.IsPanic := by
  induction calls generalizing s with
  | nil => cases hs
  | cons c calls ih =>
    cases hst : step L s c with
    | error g =>
      simp only [Lib.runFrom, hst] at hs
      exact Except.error.inj hs ▸ step_error hst
    | ok s₁ =>
      simp only [Lib.runFrom, hst] at hs
      exact ih hs

/-- **The stage 2 tables implement a map for each task.** After any sequence of calls
that map pages, over any tasks, the walk of a task's tables at an address ends at the
page and the flags of the last call for that task and page frame, and at an invalid
entry if there was none. One more call changes the translation of no other page frame
of its task and of none of another task. No table is shared between tasks or between
places in one tree. And if a sequence of calls does not come back, then because the
heap was exhausted. -/
theorem stage2_map (L : Layout) {s₀ : Mm} (h₀ : NoTables s₀) {calls : List MapCall}
    (hlegal : ∀ c ∈ calls, c.Legal) :
    (∀ s, Lib.runFrom (step L) s₀ calls = .ok s →
      (∀ t ipa, ipa < 2 ^ 36 → Translates s t ipa (lastCall calls t ipa)) ∧
      (∀ c s', c.Legal → step L s c = .ok s' → ∀ t ipa, ipa < 2 ^ 36 → ¬c.Maps t ipa →
        s'.translate t ipa = s.translate t ipa) ∧
      ∀ t p t' p' table, p.length ≤ 2 → p'.length ≤ 2 → s.tableAt t p = some table →
        s.tableAt t' p' = some table → t = t' ∧ p = p') ∧
    ∀ f, Lib.runFrom (step L) s₀ calls = .error f → f.IsPanic := by
  refine ⟨fun s hs => ?_, fun f hf => run_error hf⟩
  obtain ⟨hinv, hentry⟩ := (NoTables.inv (L := L) h₀).run hlegal hs
  refine ⟨fun t ipa hlt => ?_, fun c s' hc hst t ipa hlt hnot => ?_,
    fun t p t' p' table hp hp' ht ht' => hinv.separated.inj hp hp' ht ht'⟩
  · have hold : s₀.entryOf t ipa = 0 := by
      rw [entryOf, entryAt, h₀.tableAt, Option.elim_none]
    have htr := hinv.translate_eq t ipa
    rw [hentry t ipa hlt, hold] at htr
    cases hlast : lastCall calls t ipa with
    | none =>
      rw [hlast] at htr
      exact htr
    | some c =>
      rw [hlast] at htr
      have hmem : c ∈ calls := List.mem_reverse.mp (List.mem_of_find?_eq_some hlast)
      obtain ⟨hpage, haddr, hflags⟩ := (hlegal c hmem).entry
      exact ⟨_, htr.trans hpage, haddr, hflags⟩
  · obtain ⟨hinv', hone⟩ := hinv.step hc hst
    rw [hinv'.translate_eq, hinv.translate_eq, hone t ipa hlt, if_neg hnot]

theorem noTables_boot : NoTables boot := fun _ => rfl

/-- Three pages of two tasks. -/
theorem stage2_map_three_pages :
    ∃ s, Lib.runFrom (step .qemu) boot [.mapPageAccessible 1 0x40000000 0x80000000,
        .mapNewDevicePage 1 0x08000000 0x08000000 false, .mapNewPage 2 0x40000123 0x80001000] =
          .ok s ∧
      Translates s 2 0x40000fff (some (.mapNewPage 2 0x40000123 0x80001000)) := by
  have hrun : (Lib.runFrom (step .qemu) boot [.mapPageAccessible 1 0x40000000 0x80000000,
      .mapNewDevicePage 1 0x08000000 0x08000000 false,
      .mapNewPage 2 0x40000123 0x80001000]).isOk = true := by decide +kernel
  obtain ⟨s, hs⟩ := Lib.exists_ok_of_isOk hrun
  exact ⟨s, hs, ((stage2_map .qemu noTables_boot (by decide)).1 s hs).1 2 0x40000fff (by decide)⟩

end Mm

end Evisor
