import Evisor.Mm.KmmTrap

/-!
# What trapped registers read back

A guest's access to a system register that traps is decoded by `TrapMcrMrcInstructions`, from
two lists of encodings: one for the registers that can be written, one for those that can be
read. `ACTLR_EL1` is in both under its encoding. The other register that can be written,
`CSSELR_EL1`, is in the list of writes under the encoding of `CCSIDR_EL1`; whoever writes with
that encoding reads the field of `CCSIDR_EL1` back (`Evisor.Machine.reads_back_iff`).
-/

namespace Evisor

namespace Machine

/-- `opc1`, `crn`, `crm` and `opc2` of an access that traps. -/
def issEncoding (iss : ℕ) : ℕ × ℕ × ℕ × ℕ :=
  ((iss >>> 14) &&& 0x7, (iss >>> 10) &&& 0xf, (iss >>> 1) &&& 0xf, (iss >>> 17) &&& 0x7)

/-- An access that `HandleTrapSystem` has decoded, in the given direction. -/
def IsAccess (dir iss : ℕ) : Prop :=
  ((iss >>> 20) &&& 0xf = 0b0010 ∨ (iss >>> 20) &&& 0xf = 0b0011) ∧ iss &&& 0x1 = dir

instance (dir iss : ℕ) : Decidable (IsAccess dir iss) := inferInstanceAs (Decidable (_ ∧ _))

/-- The field of a table that an encoding names. -/
def named (table : List (VReg × ℕ × ℕ × ℕ × ℕ)) (e : ℕ × ℕ × ℕ × ℕ) : Option VReg :=
  lookup table e.1 e.2.1 e.2.2.1 e.2.2.2

/-- **A register reads back what was written**: of two accesses with one encoding, a write and
a read, the second is accepted and puts the value written into its register (if that is one
that holds a value), and together they change no other field than the one written, no field of
another task, and no word but in the saved context of this one. -/
def ReadsBack (s : Machine) (w r : ℕ) : Prop :=
  ∀ s₁, handleTrapSystem w s = .ok s₁ → ∃ s₂ name, handleTrapSystem r s₁ = .ok s₂ ∧
    named msrTable (issEncoding w) = some name ∧
    (issRt r ≠ 31 → s₂.xreg s.cur (issRt r) = s.xreg s.cur (issRt w)) ∧
    (∀ field ≠ name, s₂.vcpu_sysregs s.cur field = s.vcpu_sysregs s.cur field) ∧
    (∀ t ≠ s.cur, s₂.vcpu_sysregs t = s.vcpu_sysregs t) ∧
    ∀ a, a < s.getVCpuRegs s.cur ∨ s.getVCpuRegs s.cur + vcpuContextSize ≤ a →
      s₂.stack a = s.stack a

/-- **What is written can be read back**: it is written to `ACTLR_EL1` (and not from the
register that is always zero while the word in its place is not), or it is what the field of
`CCSIDR_EL1` holds. -/
def Agrees (s : Machine) (w : ℕ) : Prop :=
  issEncoding w = (0, 1, 0, 1) ∧
      (issRt w = 31 → s.stack (s.getVCpuRegs s.cur + 8 * 31) = 0) ∨
    issEncoding w = (1, 0, 0, 0) ∧
      s.vcpu_sysregs s.cur .ccsidr_el1 = s.xreg s.cur (issRt w)

variable {s s₁ : Machine} {w r : ℕ}

/-! ### The two lists -/

/-- The encodings that can be written. -/
theorem named_msr {e : ℕ × ℕ × ℕ × ℕ} {name : VReg} (h : named msrTable e = some name) :
    name = .actlr_el1 ∧ e = (0, 1, 0, 1) ∨ name = .csselr_el1 ∧ e = (1, 0, 0, 0) := by
  obtain ⟨x, hx, rfl⟩ := Option.map_eq_some_iff.mp h
  have hmem := List.mem_of_find?_eq_some hx
  have he : x.2 = e := by simpa using List.find?_some hx
  rw [msrTable, List.mem_cons, List.mem_singleton] at hmem
  rcases hmem with rfl | rfl
  · exact .inl ⟨rfl, he.symm⟩
  · exact .inr ⟨rfl, he.symm⟩

/-- What is read with the encoding of `ACTLR_EL1`, and with that of `CCSIDR_EL1`. -/
theorem named_mrs : named mrsTable (0, 1, 0, 1) = some .actlr_el1 ∧
    named mrsTable (1, 0, 0, 0) = some .ccsidr_el1 := ⟨by decide, by decide⟩

/-! ### The two accesses -/

/-- The access is counted. -/
def counted (s : Machine) : Machine :=
  s.modifyStat s.cur fun stat => { stat with sysreg_traps := stat.sysreg_traps + 1 }

/-- A field is written. -/
def setField (s : Machine) (name : VReg) (v : Word) : Machine :=
  { s with
    vcpu_sysregs := Function.update s.vcpu_sysregs s.cur
      (Function.update (s.vcpu_sysregs s.cur) name v) }

/-- **A write that traps.** -/
theorem handle_write (hw : IsAccess 0 w) (hok : handleTrapSystem w s = .ok s₁) :
    ∃ name, named msrTable (issEncoding w) = some name ∧
      s₁ = (s.counted.setField name
        (s.stack (s.getVCpuRegs s.cur + 8 * issRt w))).incrementCurrentTaskPc 4 := by
  simp only [handleTrapSystem, if_pos hw.1, trapMcrMrcInstructions, if_pos hw.2] at hok
  cases hname : named msrTable (issEncoding w) with
  | none =>
    rw [named, issEncoding] at hname
    simp only [hname, Option.map_none] at hok
    cases hok
  | some name =>
    rw [named, issEncoding] at hname
    simp only [hname, Option.map_some] at hok
    exact ⟨name, rfl, (Except.ok.inj hok).symm⟩

/-- **A read that traps.** -/
theorem handle_read (hr : IsAccess 1 r) {name : VReg}
    (hname : named mrsTable (issEncoding r) = some name) :
    handleTrapSystem r s = .ok ((s.counted.storeWord (s.getVCpuRegs s.cur + 8 * issRt r)
      (s.vcpu_sysregs s.cur name)).incrementCurrentTaskPc 4) := by
  have hdir : ¬r &&& 0x1 = 0 := by
    rw [hr.2]
    exact Nat.one_ne_zero
  rw [named, issEncoding] at hname
  simp only [handleTrapSystem, if_pos hr.1, trapMcrMrcInstructions, if_neg hdir, hname,
    Option.map_some]
  rfl

theorem issRt_lt (iss : ℕ) : issRt iss < 32 := Nat.and_lt_two_pow (n := 5) _ (by decide)

/-- What a write that is followed by a read leaves: the value read in its register, and the
program counter twice stepped on. -/
theorem write_read (hw : IsAccess 0 w) (hr : IsAccess 1 r)
    (hok : handleTrapSystem w s = .ok s₁) {name field : VReg}
    (hname : named msrTable (issEncoding w) = some name)
    (hfield : named mrsTable (issEncoding r) = some field) :
    ∃ s₂, handleTrapSystem r s₁ = .ok s₂ ∧
      s₂.vcpu_sysregs = Function.update s.vcpu_sysregs s.cur
        (Function.update (s.vcpu_sysregs s.cur) name
          (s.stack (s.getVCpuRegs s.cur + 8 * issRt w))) ∧
      s₂.stack (s.getVCpuRegs s.cur + 8 * issRt r) = Function.update (s.vcpu_sysregs s.cur) name
        (s.stack (s.getVCpuRegs s.cur + 8 * issRt w)) field ∧
      (∀ t, s₂.getVCpuRegs t = s.getVCpuRegs t) ∧
      ∀ a, a < s.getVCpuRegs s.cur ∨ s.getVCpuRegs s.cur + vcpuContextSize ≤ a →
        s₂.stack a = s.stack a := by
  obtain ⟨name', hname', rfl⟩ := handle_write hw hok
  obtain rfl := Option.some.inj (hname.symm.trans hname')
  have hrt := issRt_lt r
  set s₁ := (s.counted.setField name
    (s.stack (s.getVCpuRegs s.cur + 8 * issRt w))).incrementCurrentTaskPc 4 with hs₁
  have hregs : s₁.vcpu_sysregs s.cur = Function.update (s.vcpu_sysregs s.cur) name
      (s.stack (s.getVCpuRegs s.cur + 8 * issRt w)) := Function.update_self ..
  refine ⟨_, handle_read hr hfield, rfl, ?_, fun _ => rfl, fun a ha => ?_⟩
  · have hne : issRt r ≠ 32 := Nat.ne_of_lt hrt
    refine (incrementCurrentTaskPc_of_ne _ hne).trans ((storeWord_self ..).trans ?_)
    exact congrFun hregs field
  · -- the words that are stored are those of the register and of the program counter
    rw [vcpuContextSize] at ha
    have hpc : a ≠ s.getVCpuRegs s.cur + 8 * 32 := by omega
    have hreg : a ≠ s.getVCpuRegs s.cur + 8 * issRt r := by omega
    exact (storeWord_of_ne _ _ hpc).trans ((storeWord_of_ne _ _ hreg).trans
      (storeWord_of_ne _ _ hpc))

/-- What is written is read back when the field that is read then holds it. -/
theorem reads_back_field (hw : IsAccess 0 w) (hr : IsAccess 1 r)
    (henc : issEncoding w = issEncoding r) (hok : handleTrapSystem w s = .ok s₁)
    {name field : VReg} (hname : named msrTable (issEncoding w) = some name)
    (hfield : named mrsTable (issEncoding w) = some field) :
    ReadsBack s w r ↔ issRt r = 31 ∨ Function.update (s.vcpu_sysregs s.cur) name
      (s.stack (s.getVCpuRegs s.cur + 8 * issRt w)) field = s.xreg s.cur (issRt w) := by
  obtain ⟨s₂, hread, hregs, hval, hframe, hstack⟩ :=
    write_read hw hr hok hname (henc ▸ hfield)
  have hx : issRt r ≠ 31 → s₂.xreg s.cur (issRt r) = Function.update (s.vcpu_sysregs s.cur) name
      (s.stack (s.getVCpuRegs s.cur + 8 * issRt w)) field := fun hne => by
    rw [xreg_eq hne, hframe, hval]
  constructor
  · intro h
    obtain ⟨s₂', name', hread', -, hback, -⟩ := h s₁ hok
    obtain rfl := Except.ok.inj (hread.symm.trans hread')
    by_cases hne : issRt r = 31
    · exact .inl hne
    · exact .inr ((hx hne).symm.trans (hback hne))
  · intro h s₁' hok'
    obtain rfl := Except.ok.inj (hok.symm.trans hok')
    refine ⟨s₂, name, hread, hname, fun hne => (hx hne).trans (h.resolve_left hne),
      fun field' hne => ?_, fun t ht => ?_, hstack⟩
    · rw [hregs, Function.update_self, Function.update_of_ne hne]
    · rw [hregs, Function.update_of_ne ht]

/-- **A trapped register reads back what was written exactly when** it is `ACTLR_EL1`, or the
value is that of `CCSIDR_EL1`: in every state, for every encoding that can be written and any
two registers (and always when the second one holds no value). -/
theorem reads_back_iff (s : Machine) {w r : ℕ} (hw : IsAccess 0 w) (hr : IsAccess 1 r)
    (henc : issEncoding w = issEncoding r) (haccepted : (handleTrapSystem w s).isOk = true) :
    ReadsBack s w r ↔ issRt r = 31 ∨ Agrees s w := by
  obtain ⟨s₁, hok⟩ := Lib.exists_ok_of_isOk haccepted
  obtain ⟨name, hname, -⟩ := handle_write hw hok
  obtain ⟨hactlr, hccsidr⟩ := named_mrs
  rcases named_msr hname with ⟨rfl, he⟩ | ⟨rfl, he⟩
  · have hother : issEncoding w ≠ (1, 0, 0, 0) := by
      rw [he]
      decide
    rw [reads_back_field hw hr henc hok hname (he ▸ hactlr), Function.update_self]
    refine or_congr_right ?_
    rw [Agrees, or_iff_left fun h => hother h.1, and_iff_right he]
    constructor
    · intro h h31
      rw [h31] at h
      exact h.trans (if_pos rfl)
    · intro h
      by_cases h31 : issRt w = 31
      · rw [xreg, if_pos h31, h31]
        exact h h31
      · exact (xreg_eq h31 s s.cur).symm
  · have hother : issEncoding w ≠ (0, 1, 0, 1) := by
      rw [he]
      decide
    rw [reads_back_field hw hr henc hok hname (he ▸ hccsidr), Function.update_of_ne (by decide)]
    refine or_congr_right ?_
    rw [Agrees, or_iff_right fun h => hother h.1, and_iff_right he]

/-- The syndrome of an access with an encoding. -/
def accessIss (opc1 crn crm opc2 rt dir : ℕ) : ℕ :=
  0b0011 <<< 20 ||| opc2 <<< 17 ||| opc1 <<< 14 ||| crn <<< 10 ||| rt <<< 5 ||| crm <<< 1 ||| dir

/-- `ACTLR_EL1` is written from `x1` and read into `x2`. -/
theorem reads_back_actlr : ReadsBack (ones .qemu) (accessIss 0 1 0 1 1 0) (accessIss 0 1 0 1 2 1) :=
  (reads_back_iff (ones .qemu) (by decide) (by decide) (by decide) (by decide +kernel)).mpr
    (.inr (.inl ⟨by decide, fun h => absurd h (by decide)⟩))

/-- **`CSSELR_EL1` is written, and `CCSIDR_EL1` read back.** -/
theorem csselr_lost : IsAccess 0 (accessIss 1 0 0 0 1 0) ∧ IsAccess 1 (accessIss 1 0 0 0 2 1) ∧
    issEncoding (accessIss 1 0 0 0 1 0) = issEncoding (accessIss 1 0 0 0 2 1) ∧
    (handleTrapSystem (accessIss 1 0 0 0 1 0) (ones .qemu)).isOk = true ∧
    ¬ReadsBack (ones .qemu) (accessIss 1 0 0 0 1 0) (accessIss 1 0 0 0 2 1) := by
  have hw : IsAccess 0 (accessIss 1 0 0 0 1 0) := by decide
  have hr : IsAccess 1 (accessIss 1 0 0 0 2 1) := by decide
  have haccepted : (handleTrapSystem (accessIss 1 0 0 0 1 0) (ones .qemu)).isOk = true := by
    decide +kernel
  refine ⟨hw, hr, by decide, haccepted, fun h => ?_⟩
  obtain ⟨s₁, hok⟩ := Lib.exists_ok_of_isOk haccepted
  have hname : named msrTable (issEncoding (accessIss 1 0 0 0 1 0)) = some .csselr_el1 := by
    decide
  have hfield : named mrsTable (issEncoding (accessIss 1 0 0 0 1 0)) = some .ccsidr_el1 := by
    decide
  rcases (reads_back_field hw hr (by decide) hok hname hfield).mp h with h31 | hvalue
  · exact absurd h31 (by decide)
  · exact absurd hvalue (by decide)

end Machine

end Evisor
