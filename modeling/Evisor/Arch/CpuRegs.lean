import Evisor.Lib.Assign

/-!
# The system registers of a virtual processor

`VCpuSysregs` of `arch/arm64/cpu_regs.h` is a record of 64-bit words, one a
register. It is written here as a function of the register's name, so that code
that names a register as a macro argument stays one definition; the constructors
of `Evisor.VReg` are in the order of the record's fields, which is the order the
assembly of `cpu_regs.cc` walks through them.
-/

namespace Evisor

/-- A 64-bit word. -/
abbrev Word := BitVec 64

/-- The fields of `VCpuSysregs`. -/
inductive VReg where
  -- not trapped registers
  | sctlr_el1 | ttbr0_el1 | ttbr1_el1 | tcr_el1 | esr_el1 | far_el1 | afsr0_el1 | afsr1_el1
  | mair_el1 | amair_el1 | contextidr_el1 | cpacr_el1 | elr_el1 | fpcr | fpsr
  | midr_el1 | mpidr_el1 | par_el1 | sp_el0 | sp_el1 | spsr_el1 | tpidr_el0 | tpidr_el1
  | tpidrro_el0 | vbar_el1
  -- trapped by HCR_EL2.TACR
  | actlr_el1
  -- trapped by HCR_EL2.TID3
  | id_pfr0_el1 | id_pfr1_el1 | id_mmfr0_el1 | id_mmfr1_el1 | id_mmfr2_el1 | id_mmfr3_el1
  | id_isar0_el1 | id_isar1_el1 | id_isar2_el1 | id_isar3_el1 | id_isar4_el1 | id_isar5_el1
  | mvfr0_el1 | mvfr1_el1 | mvfr2_el1 | id_aa64pfr0_el1 | id_aa64pfr1_el1 | id_aa64dfr0_el1
  | id_aa64dfr1_el1 | id_aa64isar0_el1 | id_aa64isar1_el1 | id_aa64mmfr0_el1 | id_aa64mmfr1_el1
  | id_aa64afr0_el1 | id_aa64afr1_el1
  -- trapped by HCR_EL2.TID2
  | ctr_el0 | ccsidr_el1 | clidr_el1 | csselr_el1
  -- trapped by HCR_EL2.TID1
  | aidr_el1 | revidr_el1
  -- Arm generic timer
  | cntkctl_el1 | cntp_ctl_el0 | cntp_cval_el0 | cntp_tval_el0 | cntv_ctl_el0 | cntv_cval_el0
  | cntv_tval_el0
  deriving DecidableEq, Repr

/-- `VCpuSysregs`. -/
abbrev VCpuSysregs := VReg → Word

/-! ### Storing and loading -/

/-- A system register of the processor. -/
inductive SysReg where
  /-- The register a field of `VCpuSysregs` is named after. -/
  | el1 (r : VReg)
  /-- What a guest finds in `midr_el1`. -/
  | vpidr_el2
  /-- What a guest finds in `mpidr_el1`. -/
  | vmpidr_el2
  deriving DecidableEq, Repr

/-- The fields of `VCpuSysregs` that `CpuRegStoreVCpuSysregs` and
`CpuRegLoadVCpuSysregs` go through, as they follow in memory. -/
def notTrapped : List VReg :=
  [.sctlr_el1, .ttbr0_el1, .ttbr1_el1, .tcr_el1, .esr_el1, .far_el1, .afsr0_el1, .afsr1_el1,
    .mair_el1, .amair_el1, .contextidr_el1, .cpacr_el1, .elr_el1, .fpcr, .fpsr, .midr_el1,
    .mpidr_el1, .par_el1, .sp_el0, .sp_el1, .spsr_el1, .tpidr_el0, .tpidr_el1, .tpidrro_el0,
    .vbar_el1]

/-- The registers `CpuRegStoreVCpuSysregs` reads, in turn. -/
def storeRegs : List SysReg :=
  [.el1 .sctlr_el1, .el1 .ttbr0_el1, .el1 .ttbr1_el1, .el1 .tcr_el1, .el1 .esr_el1,
    .el1 .far_el1, .el1 .afsr0_el1, .el1 .afsr1_el1, .el1 .mair_el1, .el1 .amair_el1,
    .el1 .contextidr_el1, .el1 .cpacr_el1, .el1 .elr_el1, .el1 .fpcr, .el1 .fpsr,
    .el1 .midr_el1, .el1 .mpidr_el1, .el1 .par_el1, .el1 .sp_el0, .el1 .sp_el1, .el1 .spsr_el1,
    .el1 .tpidr_el0, .el1 .tpidr_el1, .el1 .tpidrro_el0, .el1 .vbar_el1]

/-- The registers `CpuRegLoadVCpuSysregs` writes, in turn. -/
def loadRegs : List SysReg :=
  [.el1 .sctlr_el1, .el1 .ttbr0_el1, .el1 .ttbr1_el1, .el1 .tcr_el1, .el1 .esr_el1,
    .el1 .far_el1, .el1 .afsr0_el1, .el1 .afsr1_el1, .el1 .mair_el1, .el1 .amair_el1,
    .el1 .contextidr_el1, .el1 .cpacr_el1, .el1 .elr_el1, .el1 .fpcr, .el1 .fpsr,
    .vpidr_el2, .vmpidr_el2, .el1 .par_el1, .el1 .sp_el0, .el1 .sp_el1, .el1 .spsr_el1,
    .el1 .tpidr_el0, .el1 .tpidr_el1, .el1 .tpidrro_el0, .el1 .vbar_el1]

/-- `CpuRegStoreVCpuSysregs`. -/
def cpuRegStoreVCpuSysregs (sys : SysReg → Word) (regs : VCpuSysregs) : VCpuSysregs :=
  Lib.assign (notTrapped.zip (storeRegs.map sys)) regs

/-- `CpuRegLoadVCpuSysregs`. -/
def cpuRegLoadVCpuSysregs (regs : VCpuSysregs) (sys : SysReg → Word) : SysReg → Word :=
  Lib.assign (loadRegs.zip (notTrapped.map regs)) sys

/-- The register in which a guest finds what a field stands for. -/
def VReg.seen : VReg → SysReg
  | .midr_el1 => .vpidr_el2
  | .mpidr_el1 => .vmpidr_el2
  | r => .el1 r

variable {sys : SysReg → Word} {regs : VCpuSysregs} {r : VReg}

/-- **Storing** puts each register in the field of its name. -/
theorem store_field (hr : r ∈ notTrapped) : cpuRegStoreVCpuSysregs sys regs r = sys (.el1 r) :=
  Lib.assign_map (g := id) (by decide) (fun r => sys (.el1 r)) hr regs

/-- Storing leaves the fields of the registers that trap. -/
theorem store_trapped (hr : r ∉ notTrapped) : cpuRegStoreVCpuSysregs sys regs r = regs r :=
  Lib.assign_map_of_notMem (g := id) (l := notTrapped) (fun r => sys (.el1 r))
    (by rwa [List.map_id]) regs

/-- **Loading** puts each field where a guest finds it. -/
theorem load_seen (hr : r ∈ notTrapped) : cpuRegLoadVCpuSysregs regs sys r.seen = regs r :=
  Lib.assign_map (g := VReg.seen) (by decide) regs hr sys

/-- The processor's own identification is loaded nowhere. -/
theorem load_ident (hr : r = .midr_el1 ∨ r = .mpidr_el1) :
    cpuRegLoadVCpuSysregs regs sys (.el1 r) = sys (.el1 r) :=
  Lib.assign_map_of_notMem (g := VReg.seen) (l := notTrapped) regs
    (by rcases hr with rfl | rfl <;> decide) sys

end Evisor
