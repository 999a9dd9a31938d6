import Evisor.Mm.Pager
import Evisor.Platforms.BoardKind

/-!
# What a board maps for a new task

`BoardQemu::Init` (`platforms/qemu/board_qemu.cc`) and `BoardBcm2711::Init`
(`platforms/bcm2711/board_bcm2711.cc`, which has other addresses when the guest is
NuttX): the pages of the interrupt distributor and of the serial line, which no guest
may touch so that its accesses trap, and those of the virtual interrupt interface,
which it uses directly.
-/

namespace Evisor

namespace BoardKind

/-- Where the guest sees a page of the distributor. -/
def distributorIpa : BoardKind → ℕ → ℕ
  | qemu, pa | bcm2711, pa => pa
  | bcm2711Nuttx, pa => 0x08000000 ||| (pa &&& 0xfff)

/-- Where the guest sees a page of the virtual interrupt interface. -/
def virtualCpuIpa : BoardKind → ℕ → ℕ
  | qemu, pa => pa - 0x30000
  | bcm2711, pa => pa
  | bcm2711Nuttx, pa => (0x08010000 ||| (pa &&& 0xffff)) - 0x6000

/-- Where the guest sees the serial line. -/
def uartIpa : BoardKind → ℕ → ℕ
  | qemu, pa | bcm2711, pa => pa
  | bcm2711Nuttx, pa => 0x09000000 ||| (pa &&& 0x00000fff)

/-- The pages that `for (pa = start; pa < end; pa += PAGE_SIZE)` goes through. -/
def pages (start stop : ℕ) : List ℕ :=
  List.range' start ((stop - start + (PAGE_SIZE - 1)) / PAGE_SIZE) PAGE_SIZE

/-- The pages of the distributor. -/
def distributorPages (b : BoardKind) : List ℕ :=
  pages b.GIC_V2_DISTRIBUTOR_BASE b.GIC_V2_CPU_INTERFACE_BASE

/-- The pages of the virtual interrupt interface. -/
def virtualCpuPages (b : BoardKind) : List ℕ :=
  pages b.GIC_V2_VIRTUAL_CPU_BASE (b.GIC_V2_VIRTUAL_CPU_BASE + 0x2000)

/-- The pages of the serial line. -/
def uartPages (b : BoardKind) : List ℕ := pages b.UART0_BASE (b.UART0_BASE + 0x1000)

end BoardKind

/-- One of the loops of `Board::Init`. -/
def mapDevicePages (L : Layout) (s : Mm) (tsk : TaskId) (accessable : Bool) (ipa : ℕ → ℕ) :
    List ℕ → Except Fault Mm
  | [] => .ok s
  | pa :: rest => do
    let s ← mapNewDevicePage L s tsk (ipa pa) pa accessable
    mapDevicePages L s tsk accessable ipa rest

/-- The allocations of `Board::Init` of the base class: a `Console`, and a `Queue` for
each direction, which asks for its buffer. -/
def consoleAlloc (L : Layout) (heap : HeapMap) : Except Fault HeapMap := do
  let (_, heap) ← kmmMalloc L heap 16
  let (_, heap) ← kmmMalloc L heap 16
  let (_, heap) ← kmmMalloc L heap 1024
  let (_, heap) ← kmmMalloc L heap 16
  let (_, heap) ← kmmMalloc L heap 1024
  return heap

/-- `Board::Init` of a board, as far as memory is concerned. -/
def boardInit (L : Layout) (b : BoardKind) (s : Mm) (tsk : TaskId) : Except Fault Mm := do
  let heap ← consoleAlloc L s.heap
  let s ← mapDevicePages L { s with heap } tsk false b.distributorIpa b.distributorPages
  let s ← mapDevicePages L s tsk true b.virtualCpuIpa b.virtualCpuPages
  mapDevicePages L s tsk false b.uartIpa b.uartPages

/-- **A layout for a board**: its device pages are outside the memory laid out. -/
structure BoardLayout (b : BoardKind) extends Layout where
  devices_apart : ∀ pa ∈ b.distributorPages ++ b.virtualCpuPages ++ b.uartPages,
    pa + PAGE_SIZE ≤ kHeapStart ∨ kUserStart + kUserSize ≤ pa

/-- The layout of the QEMU board, for a kernel image that ends at `0x40400000`. -/
def BoardLayout.qemu : BoardLayout .qemu where
  toLayout := .qemu
  devices_apart := by decide

end Evisor
