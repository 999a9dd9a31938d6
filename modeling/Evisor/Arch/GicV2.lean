import Evisor.Lib.Lanes
import Evisor.Platforms.VirtioGic

/-!
# The interrupt distributor

`GicV2::RegisterIrq` of `arch/arm64/irq/gic_v2.cc`. The registers of the distributor are storage:
they keep what is written to them. An interrupt has a bit in `GICD_ISENABLER`, a byte in
`GICD_IPRIORITYR` and a byte in `GICD_ITARGETSR`, four or thirty-two of them to a word.

A registration changes what belongs to its interrupt and nothing else, so that registrations of
different interrupts can be made in either order (`Gic.registered_comm`). But the priority is
not put into its byte: its bits are *cleared* there (`Gic.registered_priorities`).
-/

namespace Evisor

namespace Gic

/-- `uint32_t`. -/
abbrev Word := BitVec 32

variable {H : Type*}

/-- The length of `irq_handler_`. -/
def kHandlers : ℕ := 1024

/-- `GicV2`: the registers of the distributor, and the handlers. -/
structure GicV2 (H : Type*) where
  D : GicBank → ℕ → Word
  irq_handler_ : ℕ → H

/-- A register is written. -/
def GicV2.write (s : GicV2 H) (bank : GicBank) (i : ℕ) (v : Word) : GicV2 H :=
  { s with D := Function.update s.D bank (Function.update (s.D bank) i v) }

/-- A register is read, and written with what is made of its value. -/
def GicV2.modify (s : GicV2 H) (bank : GicBank) (i : ℕ) (g : Word → Word) :
    Except Fault (GicV2 H) :=
  if i < bank.size then .ok (s.write bank i (g (s.D bank i))) else .error .outOfBounds

/-- The bit of an interrupt is set. -/
def enable (id : ℕ) (reg : Word) : Word := reg ||| (1 : Word) <<< (id % 32)

/-- What is done with the priority of an interrupt. -/
def maskPriority (id : ℕ) (priority : BitVec 8) (reg : Word) : Word :=
  let priority_mask := ~~~(priority.setWidth 32 <<< (id % 4 * 8))
  reg &&& priority_mask

/-- What is done with the target of an interrupt. -/
def setTarget (id target_processor : ℕ) (reg : Word) : Word :=
  let itargetsr_shift := id % 4 * 8
  reg &&& ~~~((0xff : Word) <<< itargetsr_shift) |||
    ((0x01 : Word) <<< target_processor) <<< itargetsr_shift

/-- `GicV2::RegisterIrq`. -/
def registerIrq (id target_processor : ℕ) (priority : BitVec 8) (handler : H) (s : GicV2 H) :
    Except Fault (GicV2 H) :=
  if id < kHandlers then
    let s := { s with irq_handler_ := Function.update s.irq_handler_ id handler }
    (s.modify .GICD_ISENABLER (id / 32) (enable id)).bind fun s =>
      (s.modify .GICD_IPRIORITYR (id / 4) (maskPriority id priority)).bind fun s =>
        s.modify .GICD_ITARGETSR (id / 4) (setTarget id target_processor)
  else .error .outOfBounds

/-! ### What belongs to an interrupt -/

/-- The bits by which interrupts are enabled. -/
def GicV2.enabled (s : GicV2 H) : ℕ → BitVec 1 := Lib.lane 32 1 (s.D .GICD_ISENABLER)

/-- The priorities of the interrupts. -/
def GicV2.priorities (s : GicV2 H) : ℕ → BitVec 8 := Lib.lane 4 8 (s.D .GICD_IPRIORITYR)

/-- The processors that the interrupts go to, a bit for each. -/
def GicV2.targets (s : GicV2 H) : ℕ → BitVec 8 := Lib.lane 4 8 (s.D .GICD_ITARGETSR)

/-- The arrays of registers that a registration writes to. -/
def IsRegistered (bank : GicBank) : Prop :=
  bank = .GICD_ISENABLER ∨ bank = .GICD_IPRIORITYR ∨ bank = .GICD_ITARGETSR

/-- **What belongs to the interrupts is all there is.** -/
theorem GicV2.ext_lanes {s t : GicV2 H} (henabled : s.enabled = t.enabled)
    (hpriorities : s.priorities = t.priorities) (htargets : s.targets = t.targets)
    (hothers : ∀ bank, ¬IsRegistered bank → s.D bank = t.D bank)
    (hhandlers : s.irq_handler_ = t.irq_handler_) : s = t := by
  have hD : s.D = t.D := by
    funext bank
    by_cases hbank : IsRegistered bank
    · rcases hbank with rfl | rfl | rfl
      · exact Lib.lane_injective (by decide) (by decide) rfl henabled
      · exact Lib.lane_injective (by decide) (by decide) rfl hpriorities
      · exact Lib.lane_injective (by decide) (by decide) rfl htargets
    · exact hothers bank hbank
  rcases s with ⟨D, handlers⟩
  rcases t with ⟨D', handlers'⟩
  obtain rfl : D = D' := hD
  obtain rfl : handlers = handlers' := hhandlers
  rfl

/-! ### Registration -/

/-- The distributor after a registration. -/
def registered (id target_processor : ℕ) (priority : BitVec 8) (handler : H) (s : GicV2 H) :
    GicV2 H where
  D := Function.update (Function.update (Function.update s.D
      .GICD_ISENABLER (Function.update (s.D .GICD_ISENABLER) (id / 32)
        (enable id (s.D .GICD_ISENABLER (id / 32)))))
      .GICD_IPRIORITYR (Function.update (s.D .GICD_IPRIORITYR) (id / 4)
        (maskPriority id priority (s.D .GICD_IPRIORITYR (id / 4)))))
      .GICD_ITARGETSR (Function.update (s.D .GICD_ITARGETSR) (id / 4)
        (setTarget id target_processor (s.D .GICD_ITARGETSR (id / 4))))
  irq_handler_ := Function.update s.irq_handler_ id handler

variable {id id' target_processor target_processor' : ℕ} {priority priority' : BitVec 8}
  {handler handler' : H} {s : GicV2 H}

/-- **A registration succeeds** for every interrupt that there is. -/
theorem registerIrq_eq (hid : id < 1020) : registerIrq id target_processor priority handler s =
    .ok (registered id target_processor priority handler s) := by
  have h32 : id / 32 < GicBank.GICD_ISENABLER.size := by
    change id / 32 < 32
    omega
  have h4 : id / 4 < GicBank.GICD_IPRIORITYR.size := by
    change id / 4 < 255
    omega
  have h4' : id / 4 < GicBank.GICD_ITARGETSR.size := h4
  rw [registerIrq, if_pos (show id < kHandlers by simp only [kHandlers]; omega)]
  simp only [GicV2.modify, h32, h4, h4', if_true, Except.bind]
  rfl

theorem onLane_enable (id : ℕ) : Lib.OnLane (id % 32 * 1) (fun _ : BitVec 1 => 1) (enable id) := by
  rw [Nat.mul_one]
  exact Lib.OnLane.setBit (Nat.mod_lt id (by decide))

theorem onLane_maskPriority (id : ℕ) (priority : BitVec 8) :
    Lib.OnLane (id % 4 * 8) (· &&& ~~~priority) (maskPriority id priority) :=
  Lib.OnLane.andNot (by omega) priority

theorem onLane_setTarget (id : ℕ) (htarget : target_processor < 8) :
    Lib.OnLane (id % 4 * 8) (fun _ => (1 : BitVec 8) <<< target_processor)
      (setTarget id target_processor) := by
  have hbit : ∀ t < 8, ((1 : BitVec 8) <<< t).setWidth 32 = (1 : Word) <<< t := by decide
  have hpos : id % 4 * 8 + 8 ≤ 32 := by omega
  have hput := Lib.OnLane.put hpos ((1 : BitVec 8) <<< target_processor)
  rw [hbit target_processor htarget] at hput
  exact hput

@[simp] theorem registered_enabled : (registered id target_processor priority handler s).enabled =
    Function.update s.enabled id 1 :=
  Lib.lane_update (onLane_enable id) (s.D .GICD_ISENABLER)

@[simp] theorem registered_priorities :
    (registered id target_processor priority handler s).priorities =
      Function.update s.priorities id (s.priorities id &&& ~~~priority) :=
  Lib.lane_update (onLane_maskPriority id priority) (s.D .GICD_IPRIORITYR)

theorem registered_targets (htarget : target_processor < 8) :
    (registered id target_processor priority handler s).targets =
      Function.update s.targets id (1 <<< target_processor) :=
  Lib.lane_update (onLane_setTarget id htarget) (s.D .GICD_ITARGETSR)

@[simp] theorem registered_handlers :
    (registered id target_processor priority handler s).irq_handler_ =
      Function.update s.irq_handler_ id handler := rfl

theorem registered_others {bank : GicBank} (h : ¬IsRegistered bank) :
    (registered id target_processor priority handler s).D bank = s.D bank := by
  rw [IsRegistered, not_or, not_or] at h
  simp only [registered]
  rw [Function.update_of_ne h.2.2, Function.update_of_ne h.2.1, Function.update_of_ne h.1]

/-- **Registrations of different interrupts** can be made in either order. -/
theorem registered_comm (hne : id ≠ id') (htarget : target_processor < 8)
    (htarget' : target_processor' < 8) :
    registered id' target_processor' priority' handler'
        (registered id target_processor priority handler s) =
      registered id target_processor priority handler
        (registered id' target_processor' priority' handler' s) := by
  refine GicV2.ext_lanes ?_ ?_ ?_ (fun bank hbank => ?_) ?_
  · simp only [registered_enabled]
    exact Function.update_comm hne _ _ _
  · simp only [registered_priorities, Function.update_of_ne hne, Function.update_of_ne hne.symm]
    exact Function.update_comm hne _ _ _
  · simp only [registered_targets htarget, registered_targets htarget']
    exact Function.update_comm hne _ _ _
  · simp only [registered_others hbank]
  · simp only [registered_handlers]
    exact Function.update_comm hne _ _ _

/-! ### What a registration is for -/

/-- **One interrupt is configured**: what belongs to it is as it has been asked for, and everything
else is as before. -/
structure Configured (id target_processor : ℕ) (priority : BitVec 8) (handler : H)
    (s t : GicV2 H) : Prop where
  priority : t.priorities id = priority
  target : t.targets id = 1 <<< target_processor
  enabled : t.enabled id = 1
  handler : t.irq_handler_ id = handler
  unchanged : ∀ j ≠ id, t.priorities j = s.priorities j ∧ t.targets j = s.targets j ∧
    t.enabled j = s.enabled j ∧ t.irq_handler_ j = s.irq_handler_ j
  others : ∀ bank, ¬IsRegistered bank → t.D bank = s.D bank

/-- **Registrations commute** with one. -/
def Commutes (id target_processor : ℕ) (priority : BitVec 8) (handler : H) (s : GicV2 H) : Prop :=
  ∀ (id' target_processor' : ℕ) (priority' : BitVec 8) (handler' : H), id' < 1020 →
    target_processor' < 8 → id ≠ id' →
    (registerIrq id target_processor priority handler s).bind
        (registerIrq id' target_processor' priority' handler') =
      (registerIrq id' target_processor' priority' handler' s).bind
        (registerIrq id target_processor priority handler)

/-- Bits that are cleared are as they are asked for when neither is set. -/
theorem and_not_eq_iff {p old : BitVec 8} : old &&& ~~~p = p ↔ p = 0 ∧ old = 0 := by
  constructor
  · intro h
    have hp : p = 0 := by
      rw [← BitVec.and_self (x := p)]
      nth_rewrite 1 [← h]
      rw [BitVec.and_assoc, BitVec.and_comm (~~~p), BitVec.and_not_self]
      exact BitVec.and_zero
    subst hp
    rw [show ~~~(0 : BitVec 8) = BitVec.allOnes 8 from rfl, BitVec.and_allOnes] at h
    exact ⟨rfl, h⟩
  · rintro ⟨rfl, rfl⟩
    rfl

theorem commutes (hid : id < 1020) (htarget : target_processor < 8) :
    Commutes id target_processor priority handler s := by
  intro id' target_processor' priority' handler' hid' htarget' hne
  rw [registerIrq_eq hid, registerIrq_eq hid']
  simp only [Except.bind]
  rw [registerIrq_eq hid, registerIrq_eq hid', registered_comm hne htarget htarget']

/-- **One interrupt is configured**, its priority apart. -/
theorem configured_iff (htarget : target_processor < 8) :
    Configured id target_processor priority handler s
        (registered id target_processor priority handler s) ↔
      priority = 0 ∧ s.priorities id = 0 := by
  rw [← and_not_eq_iff]
  constructor
  · intro h
    simpa using h.priority
  · intro h
    refine ⟨by simpa using h, by simp [registered_targets htarget], by simp, by simp,
      fun j hj => ?_, fun bank => registered_others⟩
    simp [registered_targets htarget, Function.update_of_ne hj]

/-- **A registration configures its interrupt**, and commutes with others, exactly when the
priority asked for is zero and has been zero. -/
theorem register_irq_iff (hid : id < 1020) (htarget : target_processor < 8) :
    (∃ t, registerIrq id target_processor priority handler s = .ok t ∧
        Configured id target_processor priority handler s t) ∧
      Commutes id target_processor priority handler s ↔
      priority = 0 ∧ s.priorities id = 0 := by
  have hconfig : Configured id target_processor priority handler s
      (registered id target_processor priority handler s) ↔ priority = 0 ∧ s.priorities id = 0 :=
    configured_iff htarget
  rw [← hconfig, registerIrq_eq hid]
  constructor
  · rintro ⟨⟨t, ht, hconf⟩, -⟩
    obtain rfl := Except.ok.inj ht
    exact hconf
  · intro hconf
    exact ⟨⟨_, rfl, hconf⟩, commutes hid htarget⟩

/-- A distributor after reset. -/
def GicV2.reset : GicV2 ℕ := ⟨fun _ _ => 0, fun _ => 0⟩

/-- An interrupt with the highest priority, on the first processor. -/
theorem register_irq_highest :
    (∃ t, registerIrq 30 0 0 1 GicV2.reset = .ok t ∧ Configured 30 0 0 1 GicV2.reset t) ∧
      Commutes 30 0 0 1 GicV2.reset :=
  (register_irq_iff (by decide) (by decide)).mpr ⟨rfl, rfl⟩

/-- **The interrupt of the system timer** is registered with the lowest priority, and gets the
highest. -/
theorem timer_priority_lost : ¬∀ (id target_processor : ℕ) (priority : BitVec 8) (handler : ℕ)
    (s : GicV2 ℕ), id < 1020 → target_processor < 8 →
      (∃ t, registerIrq id target_processor priority handler s = .ok t ∧
          Configured id target_processor priority handler s t) ∧
        Commutes id target_processor priority handler s := by
  intro h
  obtain ⟨⟨t, ht, hconf⟩, -⟩ := h 0x61 0 0xff 1 GicV2.reset (by decide) (by decide)
  rw [registerIrq_eq (by decide)] at ht
  obtain rfl := Except.ok.inj ht
  exact absurd ((configured_iff (by decide)).mp hconf).1 (by decide)

end Gic

end Evisor
