import Evisor.Basic

/-!
# Decoding a synchronous exception

`arch/arm64/irq/trap.cc`. An exception a guest takes is told apart by the class in
its syndrome, `ESR_EL2`, and a data abort further by its fault status. What is then
done – yielding, emulating a register, mapping a page, emulating a device – is the
business of the functions called, which are gathered in `Evisor.TrapHandlers` so that
the decoding stands once, whatever part of the hypervisor they are about.
-/

namespace Evisor

/-- `kEsrEl2EcTrapWfx`. -/
def kEsrEl2EcTrapWfx : ℕ := 0b000001

/-- `kEsrEl2EcTrapFpReg`. -/
def kEsrEl2EcTrapFpReg : ℕ := 0b000111

/-- `kEsrEl2EcHvc64`. -/
def kEsrEl2EcHvc64 : ℕ := 0b010110

/-- `kEsrEl2EcTrapSystem`. -/
def kEsrEl2EcTrapSystem : ℕ := 0b011000

/-- `kEsrEl2EcTrapSve`. -/
def kEsrEl2EcTrapSve : ℕ := 0b011001

/-- `kEsrEl2EcDataAboartFromLow`. -/
def kEsrEl2EcDataAboartFromLow : ℕ := 0b100100

/-- `kEsrEl2DfscTranslationFault`. -/
def kEsrEl2DfscTranslationFault : ℕ := 0b0001

/-- `kEsrEl2DfscPermissionFault`. -/
def kEsrEl2DfscPermissionFault : ℕ := 0b0011

/-- `EsrEl2Ec`: the exception class. -/
def esrEl2Ec (esr : ℕ) : ℕ := (esr >>> 26) &&& 0x3f

/-- `DFSC`: the status of a data abort. -/
def esrDfsc (esr : ℕ) : ℕ := esr &&& 0x3f

/-- `SRT`: the register a data abort is about. -/
def esrSrt (esr : ℕ) : ℕ := (esr >>> 16) &&& 0x1f

/-- `WnR`: whether a data abort is by a write. -/
def esrWnr (esr : ℕ) : ℕ := (esr >>> 6) &&& 0x1

/-- What the exceptions of a guest are answered with. -/
structure TrapHandlers (σ : Type*) where
  /-- `HandleTrapWfx`. -/
  handleTrapWfx : σ → Except Fault σ
  /-- `HandleTrapSystem`, of the instruction specific syndrome. -/
  handleTrapSystem : ℕ → σ → Except Fault σ
  /-- `HandleMmTrapMemoryAccessFault`, of the faulting address. -/
  handleMmTrapMemoryAccessFault : ℕ → σ → Except Fault (Bool × σ)
  /-- `HandleMmTrapRegisterAccess`, of the faulting address, the register, and
  whether the access is a read. -/
  handleMmTrapRegisterAccess : ℕ → ℕ → Bool → σ → Except Fault (Bool × σ)

variable {σ : Type*}

/-- `HandleTrapMemAbort`. -/
def handleTrapMemAbort (h : TrapHandlers σ) (s : σ) (addr esr : ℕ) : Except Fault (Bool × σ) :=
  let dfsc_without_level := esrDfsc esr >>> 2
  if dfsc_without_level = kEsrEl2DfscTranslationFault then h.handleMmTrapMemoryAccessFault addr s
  else if dfsc_without_level = kEsrEl2DfscPermissionFault then
    h.handleMmTrapRegisterAccess addr (esrSrt esr) (esrWnr esr = 0) s
  else .ok (false, s)

/-- `TrapHandleLowerElAarch64Sync`. -/
def trapHandleLowerElAarch64Sync (h : TrapHandlers σ) (s : σ) (esr far : ℕ) : Except Fault σ :=
  let ec := esrEl2Ec esr
  if ec = kEsrEl2EcTrapWfx then h.handleTrapWfx s
  else if ec = kEsrEl2EcTrapFpReg then
    .error (.panic "ESR_EL2_EC_TRAP_FP_REG has not yet been implemented.")
  else if ec = kEsrEl2EcHvc64 then
    .error (.panic "ESR_EL2_EC_HVC64 has not yet been implemented.")
  else if ec = kEsrEl2EcTrapSystem then h.handleTrapSystem (esr &&& 0xfffffff) s
  else if ec = kEsrEl2EcTrapSve then
    .error (.panic "ESR_EL2_EC_TRAP_SVE has not yet been implemented.")
  else if ec = kEsrEl2EcDataAboartFromLow then do
    let (handled, s) ← handleTrapMemAbort h s far esr
    if handled then return s else .error (.panic "Failed to handle memory abort trap")
  else .error (.panic "Uncaught exception(%d): cause: %s, address: %x, far_el2: %x")

/-- **A translation fault** is answered by the pager, with the address `FAR_EL2` holds. -/
theorem trap_of_translationFault (h : TrapHandlers σ) (s : σ) {esr : ℕ} (far : ℕ)
    (hec : esrEl2Ec esr = kEsrEl2EcDataAboartFromLow)
    (hdfsc : esrDfsc esr >>> 2 = kEsrEl2DfscTranslationFault) :
    trapHandleLowerElAarch64Sync h s esr far = (do
      let (handled, s) ← h.handleMmTrapMemoryAccessFault far s
      if handled then return s else .error (.panic "Failed to handle memory abort trap")) := by
  rw [trapHandleLowerElAarch64Sync, hec]
  simp only [handleTrapMemAbort, hdfsc, if_true]
  rfl

/-- **A permission fault** is an access to a device. -/
theorem trap_of_permissionFault (h : TrapHandlers σ) (s : σ) {esr : ℕ} (far : ℕ)
    (hec : esrEl2Ec esr = kEsrEl2EcDataAboartFromLow)
    (hdfsc : esrDfsc esr >>> 2 = kEsrEl2DfscPermissionFault) :
    trapHandleLowerElAarch64Sync h s esr far = (do
      let (handled, s) ← h.handleMmTrapRegisterAccess far (esrSrt esr) (esrWnr esr = 0) s
      if handled then return s else .error (.panic "Failed to handle memory abort trap")) := by
  rw [trapHandleLowerElAarch64Sync, hec]
  simp only [handleTrapMemAbort, hdfsc]
  rfl

end Evisor
