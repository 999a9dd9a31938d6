import Evisor.Basic

/-!
# The boards

The two boards of `platforms/` and the addresses of their devices
(`platforms/qemu/peripheral.h`, `platforms/bcm2711/peripheral.h`), as the build
selects them.
-/

namespace Evisor

/-- The boards there are. -/
inductive BoardKind where
  /-- `BoardQemu`. -/
  | qemu
  /-- `BoardBcm2711`. -/
  | bcm2711
  /-- `BoardBcm2711`, with `TEST_GUEST_IS_NUTTX`. -/
  | bcm2711Nuttx
  deriving DecidableEq, Repr

namespace BoardKind

/-- `GIC_V2_DISTRIBUTOR_BASE`. -/
def GIC_V2_DISTRIBUTOR_BASE : BoardKind → ℕ
  | qemu => 0x08000000
  | bcm2711 | bcm2711Nuttx => 0xFF841000

/-- `GIC_V2_CPU_INTERFACE_BASE`. -/
def GIC_V2_CPU_INTERFACE_BASE : BoardKind → ℕ
  | qemu => 0x08010000
  | bcm2711 | bcm2711Nuttx => 0xFF842000

/-- `GIC_V2_VIRTUAL_CPU_BASE`. -/
def GIC_V2_VIRTUAL_CPU_BASE : BoardKind → ℕ
  | qemu => 0x08040000
  | bcm2711 | bcm2711Nuttx => 0xFF846000

/-- `UART0_BASE`. -/
def UART0_BASE : BoardKind → ℕ
  | qemu => 0x09000000
  | bcm2711 | bcm2711Nuttx => 0xFE201000

end BoardKind

end Evisor
