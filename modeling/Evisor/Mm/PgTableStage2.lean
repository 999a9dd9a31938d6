import Evisor.Kernel.Task
import Evisor.Lib.Bits
import Evisor.Mm.Heap

/-!
# Writing the stage 2 tables

`mm/pgtable_stage2.cc`. A task has a tree of tables of 512 entries, three levels
deep, which takes an intermediate physical address to a page. `MapPage` descends the
tree, making the tables it misses from cleared pages of the heap, and writes the
entry at the bottom.

`Evisor.stage2Walk` is the other side: what the processor finds when it walks the
tables a task's `VTTBR_EL2` points to.
-/

namespace Evisor

/-! ### The bits of an entry -/

/-- `kStage2PteTypePage`. -/
def kStage2PteTypePage : ℕ := 3

/-- `kStage2PteTypePageTable`. -/
def kStage2PteTypePageTable : ℕ := 3

/-- `kStage2PteAf`. -/
def kStage2PteAf : ℕ := 1 <<< 10

/-- `kStage2PteShNonShareable`. -/
def kStage2PteShNonShareable : ℕ := 0 <<< 8

/-- `kStage2PteShOuterShareable`. -/
def kStage2PteShOuterShareable : ℕ := 3 <<< 8

/-- `kStage2PteS2ApNone`. -/
def kStage2PteS2ApNone : ℕ := 0 <<< 6

/-- `kStage2PteS2ApRW`. -/
def kStage2PteS2ApRW : ℕ := 3 <<< 6

/-- `kStage2PteMemAttrWb`. -/
def kStage2PteMemAttrWb : ℕ := 0xf <<< 2

/-- `kStage2PteMemAttrDevice_nGnRnE`. -/
def kStage2PteMemAttrDevice_nGnRnE : ℕ := 0x0 <<< 2

/-- `kStage2PteDram`. -/
def kStage2PteDram : ℕ :=
  kStage2PteTypePage ||| kStage2PteAf ||| kStage2PteShOuterShareable ||| kStage2PteS2ApRW |||
    kStage2PteMemAttrWb

/-- `kStage2PteDeviceNotAccessible`. -/
def kStage2PteDeviceNotAccessible : ℕ :=
  kStage2PteTypePage ||| kStage2PteAf ||| kStage2PteShNonShareable ||| kStage2PteS2ApNone |||
    kStage2PteMemAttrDevice_nGnRnE

/-- `kStage2PteDeviceAccessible`. -/
def kStage2PteDeviceAccessible : ℕ :=
  kStage2PteTypePage ||| kStage2PteAf ||| kStage2PteShNonShareable ||| kStage2PteS2ApRW |||
    kStage2PteMemAttrDevice_nGnRnE

/-! ### Mapping a page -/

/-- `PTRS_PER_TABLE`. -/
def PTRS_PER_TABLE : ℕ := 512

/-- `LV1_SHIFT`. -/
def LV1_SHIFT : ℕ := PAGE_SHIFT + 2 * 9

/-- `LV2_SHIFT`. -/
def LV2_SHIFT : ℕ := PAGE_SHIFT + 1 * 9

/-- A task, by its `pid`. -/
abbrev TaskId := ℕ

/-- What mapping reads and writes: memory, the map of the heap, and the `MmContext`
of every task. -/
structure Mm where
  /-- Memory. -/
  mem : Mem
  /-- `kernelHeapMemMap`. -/
  heap : HeapMap
  /-- `Tcb::mm`. -/
  ctx : TaskId → MmContext

/-- The state at boot: nothing is handed out, and no task has a table. -/
def Mm.boot : Mm := ⟨fun _ => 0, fun _ => false, fun _ => ⟨0, 0⟩⟩

/-- A cleared page of the heap. -/
def Mm.zalloc (L : Layout) (s : Mm) : Except Fault (ℕ × Mm) := do
  let (page, mem, heap) ← kmmZalloc L s.mem s.heap PAGE_SIZE
  return (page, { s with mem, heap })

/-- Writing a word of memory. -/
def Mm.store (s : Mm) (a v : ℕ) : Mm := { s with mem := Function.update s.mem a v }

/-- Writing the `MmContext` of a task. -/
def Mm.setContext (s : Mm) (task : TaskId) (c : MmContext) : Mm :=
  { s with ctx := Function.update s.ctx task c }

/-- The index of the entry an address uses in a table whose entries each map
`2 ^ shift` bytes. -/
def tableIndex (ipa shift : ℕ) : ℕ := (ipa >>> shift) &&& (PTRS_PER_TABLE - 1)

/-- `PgTableStage2::CreatePageTable`. -/
def createPageTable (L : Layout) (s : Mm) (table shift ipa : ℕ) : Except Fault (ℕ × Mm) :=
  let index := tableIndex ipa shift
  if s.mem (table + 8 * index) = 0 then do
    let (next_level_table, s) ← s.zalloc L
    let entry := next_level_table ||| kStage2PteTypePageTable
    return (next_level_table, s.store (table + 8 * index) entry)
  else .ok (s.mem (table + 8 * index) &&& PAGE_MASK, s)

/-- `PgTableStage2::SetPageTableEntry`. -/
def setPageTableEntry (s : Mm) (pte ipa pa flags : ℕ) : ℕ × Mm :=
  let index := tableIndex ipa PAGE_SHIFT
  let entry := pa ||| flags
  (pte + 8 * index, s.store (pte + 8 * index) entry)

/-- The first step of `MapPage`: the first table of the task is made if there is none. -/
def createFirstTable (L : Layout) (s : Mm) (task : TaskId) : Except Fault (ℕ × Mm) :=
  if (s.ctx task).page_table = 0 then do
    let (table, s) ← s.zalloc L
    return (table, s.setContext task { s.ctx task with page_table := table })
  else .ok ((s.ctx task).page_table, s)

/-- `PgTableStage2::MapPage`. -/
def mapPage (L : Layout) (s : Mm) (task : TaskId) (ipa page flags : ℕ) :
    Except Fault (ℕ × Mm) := do
  let (lv1_table, s) ← createFirstTable L s task
  let (lv2_table, s) ← createPageTable L s lv1_table LV1_SHIFT ipa
  let (lv3_table, s) ← createPageTable L s lv2_table LV2_SHIFT ipa
  let s := s.setContext task { s.ctx task with pages := (s.ctx task).pages + 1 }
  return setPageTableEntry s lv3_table ipa page flags

/-- `PgTableStage2::MapPageAccessible`. -/
def mapPageAccessible (L : Layout) (s : Mm) (task : TaskId) (ipa page : ℕ) : Except Fault Mm := do
  let (_, s) ← mapPage L s task ipa page kStage2PteDram
  return s

/-- `PgTableStage2::MapNewPage`, whose flushing of caches leaves the tables alone. -/
def mapNewPage (L : Layout) (s : Mm) (tsk : TaskId) (ipa page : ℕ) : Except Fault Mm := do
  let (_, s) ← mapPage L s tsk (ipa &&& PAGE_MASK) page kStage2PteDram
  return s

/-- `PgTableStage2::MapNewDevicePage`. -/
def mapNewDevicePage (L : Layout) (s : Mm) (task : TaskId) (ipa page : ℕ) (accessable : Bool) :
    Except Fault Mm := do
  let (_, s) ← mapPage L s task (ipa &&& PAGE_MASK) page
    (if accessable then kStage2PteDeviceAccessible else kStage2PteDeviceNotAccessible)
  return s

/-! ### The processor's walk -/

/-- What the tables say of an address. -/
inductive Translation where
  /-- Nothing: an access is a translation fault. -/
  | invalid
  /-- A descriptor that ends the walk above the last level. -/
  | block (desc : ℕ)
  /-- A descriptor of the last level. -/
  | page (desc : ℕ)
  deriving DecidableEq, Repr

/-- The address bits of a descriptor. -/
def descAddr (desc : ℕ) : ℕ := desc &&& 0x0000fffffffff000

/-- **The walk**, from the table of level 1 at `root`: a descriptor is a link to a
table, or below the last one to a page, when its two low bits are set. -/
def stage2Walk (m : Mem) (root ipa : ℕ) : Translation :=
  let d1 := m (root + 8 * tableIndex ipa LV1_SHIFT)
  if d1 % 4 = 1 then .block d1 else if d1 % 4 ≠ 3 then .invalid else
  let d2 := m (descAddr d1 + 8 * tableIndex ipa LV2_SHIFT)
  if d2 % 4 = 1 then .block d2 else if d2 % 4 ≠ 3 then .invalid else
  let d3 := m (descAddr d2 + 8 * tableIndex ipa PAGE_SHIFT)
  if d3 % 4 = 3 then .page d3 else .invalid

/-- What the tables of a task say of an address; a task without tables has nothing. -/
def Mm.translate (s : Mm) (task : TaskId) (ipa : ℕ) : Translation :=
  if (s.ctx task).page_table = 0 then .invalid
  else stage2Walk s.mem (s.ctx task).page_table ipa

end Evisor
