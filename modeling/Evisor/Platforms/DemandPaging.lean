import Evisor.Arch.Trap
import Evisor.Platforms.Isolation

/-!
# Demand paging

A guest's access goes through two translations: its own, from a virtual address to an
intermediate one, and that of its stage 2 tables. A fault of the second is answered
by mapping a page – at the address `FAR_EL2` holds, which is the one before the first
translation. `PgTableStage2::GetIpa` would give the other, but nothing calls it.

So the fault is resolved when both addresses use the same entry, and only then
(`Evisor.DemandPaging.demand_paging_iff`). A guest that runs with its own translation
off, or maps its memory one to one, never sees the difference.
-/

namespace Evisor

namespace DemandPaging

/-- A guest's own translation, which maps pages to pages. -/
structure Stage1 where
  /-- The frame a page is mapped to. -/
  frame : ℕ → ℕ

/-- The intermediate address of a virtual one. -/
def Stage1.ipa (m : Stage1) (va : ℕ) : ℕ := m.frame (va / PAGE_SIZE) * PAGE_SIZE + va % PAGE_SIZE

/-- The translation of a guest that has it off. -/
def Stage1.off : Stage1 := ⟨id⟩

/-- Whether an access to an intermediate address is a stage 2 translation fault: the
address is beyond the 36 bits configured in `VTCR_EL2`, or the tables have nothing for
it. -/
def Faults (s : Mm) (t : TaskId) (ipa : ℕ) : Prop := 2 ^ 36 ≤ ipa ∨ s.translate t ipa = .invalid

/-- **The fault is resolved**: the access does not fault again, and what was mapped
at other addresses, of this task and of others, still is as it was. -/
def Resolves (s s' : Mm) (t : TaskId) (ipa : ℕ) : Prop :=
  ¬Faults s' t ipa ∧ ∀ t' ipa', ¬(t' = t ∧ ipa' / PAGE_SIZE = ipa / PAGE_SIZE) →
    ¬Faults s t' ipa' → s'.translate t' ipa' = s.translate t' ipa'

/-- The virtual address leads to the entry of the intermediate one. -/
def SameEntry (va ipa : ℕ) : Prop := ipa < 2 ^ 36 ∧ va / PAGE_SIZE % 2 ^ 27 = ipa / PAGE_SIZE

/-- The handlers of task `t`, of which only the pager is used here. -/
def pager (L : Layout) (t : TaskId) (others : TrapHandlers Memory) : TrapHandlers Memory :=
  { others with
    handleMmTrapMemoryAccessFault := fun addr s => handleMmTrapMemoryAccessFault L s t addr }

variable {b : BoardKind} {L : Layout} {s s' : Memory} {t : TaskId} {va : ℕ}

/-- **After a page has been given** at the address of the fault, it is resolved
exactly when that address leads to the entry of the intermediate one. -/
theorem resolves_iff (h : s.mm.Inv L) {ipa i : ℕ} (hf : Faults s.mm t ipa)
    (hp : Paged L s t va i s') : Resolves s.mm s'.mm t ipa ↔ SameEntry va ipa := by
  have hentry := hp.entry
  have huser : Mm.translationOf (L.userPage i ||| kStage2PteDram) =
      .page (L.userPage i ||| kStage2PteDram) := by
    refine if_pos ?_
    have hmod := (Isolation.userEntry (L := L) hp.index).1
    have hdram : kStage2PteDram % 4 = 3 := by decide
    omega
  constructor
  · rintro ⟨hnot, -⟩
    obtain ⟨hlt, hne⟩ := not_or.mp hnot
    refine ⟨not_le.mp hlt, ?_⟩
    rw [hp.inv.translate_eq, hentry] at hne
    split_ifs at hne with hsame
    · have hsmall : ipa / 4096 < 2 ^ 24 := by omega
      simp only [PAGE_SIZE]
      omega
    · -- the entry is the one that faulted
      rw [← h.translate_eq] at hne
      exact absurd (hf.resolve_left hlt) hne
  · rintro ⟨hlt, hsame⟩
    simp only [PAGE_SIZE] at hsame
    refine ⟨?_, ?_⟩
    · rintro (hle | hinv)
      · exact absurd hle (not_le.mpr hlt)
      · rw [hp.inv.translate_eq, hentry, if_pos ⟨rfl, by omega⟩, huser] at hinv
        cases hinv
    · intro t' ipa' hother hnf
      obtain ⟨hlt', -⟩ := not_or.mp hnf
      rw [hp.inv.translate_eq, h.translate_eq, hentry, if_neg]
      rintro ⟨rfl, hframe⟩
      refine hother ⟨rfl, ?_⟩
      simp only [PAGE_SIZE]
      omega

/-- **One fault**: what the handler makes of it. -/
theorem trap_resolves_iff (h : s.mm.Inv L) (others : TrapHandlers Memory) {esr ipa : ℕ}
    (hva : va < 2 ^ 64) (hf : Faults s.mm t ipa)
    (hec : esrEl2Ec esr = kEsrEl2EcDataAboartFromLow)
    (hdfsc : esrDfsc esr >>> 2 = kEsrEl2DfscTranslationFault) :
    (∀ s', trapHandleLowerElAarch64Sync (pager L t others) s esr va = .ok s' →
      (Resolves s.mm s'.mm t ipa ↔ SameEntry va ipa)) ∧
    ∀ f, trapHandleLowerElAarch64Sync (pager L t others) s esr va = .error f → f.IsPanic := by
  rw [trap_of_translationFault _ _ _ hec hdfsc]
  refine ⟨fun s' hok => ?_, fun f herr => ?_⟩
  · obtain ⟨⟨handled, s₁⟩, hh, hok⟩ := Lib.bind_eq_ok.mp hok
    obtain ⟨rfl, i, hp⟩ := handleMmTrapMemoryAccessFault_ok h hva hh
    obtain rfl := Except.ok.inj hok
    exact resolves_iff h hf hp
  · rcases Lib.bind_eq_error.mp herr with herr | ⟨⟨handled, s₁⟩, hh, herr⟩
    · exact (handleMmTrapMemoryAccessFault_error herr).isPanic
    · obtain ⟨rfl, -⟩ := handleMmTrapMemoryAccessFault_ok h hva hh
      cases herr

/-- **When demand paging resolves the fault.** In every state the system reaches, for
every translation of the guest's own and every access that is a stage 2 translation
fault: once the data abort has been handled, the access does not fault again and
nothing else has changed exactly when the intermediate address is within 36 bits and
its page number is the low 27 bits of that of the virtual address. If the abort is not
handled, then because memory was exhausted. -/
theorem demand_paging_iff (b : BoardKind) (L : BoardLayout b) {events : List Isolation.Event}
    (hlegal : Lib.Each (Isolation.step b L.toLayout) Isolation.Legal .boot events)
    {s : Isolation.System}
    (hs : Lib.runFrom (Isolation.step b L.toLayout) .boot events = .ok s)
    (others : TrapHandlers Memory) (t : TaskId) (m : Stage1) {va esr : ℕ} (hva : va < 2 ^ 64)
    (hfault : Faults s.memory.mm t (m.ipa va))
    (hec : esrEl2Ec esr = kEsrEl2EcDataAboartFromLow)
    (hdfsc : esrDfsc esr >>> 2 = kEsrEl2DfscTranslationFault) :
    (∀ s', trapHandleLowerElAarch64Sync (pager L.toLayout t others) s.memory esr va = .ok s' →
      (Resolves s.memory.mm s'.mm t (m.ipa va) ↔ SameEntry va (m.ipa va))) ∧
    ∀ f, trapHandleLowerElAarch64Sync (pager L.toLayout t others) s.memory esr va = .error f →
      f.IsPanic :=
  trap_resolves_iff (Isolation.inv_of_run hlegal hs).tree others hva hfault hec hdfsc

/-- Handlers that do nothing, for tests of the pager. -/
def noHandlers : TrapHandlers Memory :=
  ⟨fun s => .ok s, fun _ s => .ok s, fun _ s => .ok (false, s), fun _ _ _ s => .ok (false, s)⟩

/-- The syndrome of a data abort by a translation fault at level 3. -/
def translationFaultEsr : ℕ := (kEsrEl2EcDataAboartFromLow <<< 26) ||| 0b000111

/-- Whether the first task of the QEMU board faults at an intermediate address, and the
fault of a virtual one is handled. -/
def firstFault (va ipa : ℕ) : Bool :=
  match Lib.runFrom (Isolation.step .qemu BoardLayout.qemu.toLayout) .boot [.createTask] with
  | .ok s => decide (s.memory.mm.translate 1 ipa = .invalid) &&
      (trapHandleLowerElAarch64Sync (pager BoardLayout.qemu.toLayout 1 noHandlers) s.memory
        translationFaultEsr va).isOk
  | .error _ => false

theorem firstFault_spec {va ipa : ℕ} (h : firstFault va ipa = true) :
    ∃ s s', Lib.runFrom (Isolation.step .qemu BoardLayout.qemu.toLayout) .boot [.createTask] =
        .ok s ∧ Faults s.memory.mm 1 ipa ∧
      trapHandleLowerElAarch64Sync (pager BoardLayout.qemu.toLayout 1 noHandlers) s.memory
        translationFaultEsr va = .ok s' := by
  rw [firstFault] at h
  split at h
  · rename_i s hs
    obtain ⟨hinv, hok⟩ := (Bool.and_eq_true_iff).mp h
    obtain ⟨s', hs'⟩ := Lib.exists_ok_of_isOk hok
    exact ⟨s, s', hs, .inr (of_decide_eq_true hinv), hs'⟩
  · cases h

/-- A guest that runs without its own translation. -/
theorem demand_paging_iff_off :
    ∃ (s : Isolation.System) (s' : Memory),
      trapHandleLowerElAarch64Sync (pager BoardLayout.qemu.toLayout 1 noHandlers) s.memory
        translationFaultEsr 0x40000010 = .ok s' ∧
      (Resolves s.memory.mm s'.mm 1 (Stage1.off.ipa 0x40000010) ↔
        SameEntry 0x40000010 (Stage1.off.ipa 0x40000010)) := by
  obtain ⟨s, s', hs, hf, hok⟩ := firstFault_spec (by decide +kernel :
    firstFault 0x40000010 (Stage1.off.ipa 0x40000010) = true)
  exact ⟨s, s', hok, (demand_paging_iff .qemu .qemu (by decide +kernel) hs noHandlers 1 .off
    (by decide) hf (by decide) (by decide)).1 s' hok⟩

/-- **A guest that maps its memory elsewhere**: the page is mapped at the virtual
address, and the access faults again. -/
theorem demand_paging_remapped :
    ∃ (s : Isolation.System) (s' : Memory),
      Lib.runFrom (Isolation.step .qemu BoardLayout.qemu.toLayout) .boot [.createTask] = .ok s ∧
      Faults s.memory.mm 1 (Stage1.ipa ⟨fun page => page - 0x40000⟩ 0x80000010) ∧
      trapHandleLowerElAarch64Sync (pager BoardLayout.qemu.toLayout 1 noHandlers) s.memory
        translationFaultEsr 0x80000010 = .ok s' ∧
      ¬Resolves s.memory.mm s'.mm 1 (Stage1.ipa ⟨fun page => page - 0x40000⟩ 0x80000010) := by
  obtain ⟨s, s', hs, hf, hok⟩ := firstFault_spec (by decide +kernel :
    firstFault 0x80000010 (Stage1.ipa ⟨fun page => page - 0x40000⟩ 0x80000010) = true)
  have hinv := (Isolation.inv_of_run (L := .qemu) (by decide +kernel) hs).tree
  refine ⟨s, s', hs, hf, hok, fun hres => ?_⟩
  have hsame := ((trap_resolves_iff hinv noHandlers (by decide) hf (by decide) (by decide)).1
    s' hok).mp hres
  exact absurd hsame.2 (by decide)

end DemandPaging

end Evisor
