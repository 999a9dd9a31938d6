import Mathlib.Logic.Function.Basic
import Evisor.Basic
import Evisor.Lib.Bits

/-!
# The address map of the hypervisor

`arch/arm64/mmu.cc` makes the tables that EL2 runs with, from a list of regions. The
first table has an entry for each GiB of the 36 bits of an address; an entry is empty,
or a block, or leads to a table with 512 entries, and in tables of the third level an
entry is empty or a page. Tables are taken one after the other from an array.

A region is gone through from its start: the entry for the address at hand is found
again from the first table (`Evisor.Xlat.findPteIndex`), and is written if what is left
of the region covers all it stands for; otherwise the next level is made sure of, where
a block that was there is split (`Evisor.Xlat.splitPteBlockDesc`).

What the hardware makes of the tables is `Evisor.XlatTables.translate`.
-/

namespace Evisor

/-! ### Configuration -/

/-- `CONFIG_MMU_TABLE_LEVEL_MAX`. -/
def CONFIG_MMU_TABLE_LEVEL_MAX : ℕ := 3

/-- `PAGE_TABLE_BASE_LEVEL`, for `CONFIG_MMU_VA_BITS` of 36. -/
def PAGE_TABLE_BASE_LEVEL : ℕ := 1

/-- `CONFIG_MMU_MAX_XLAT_TABLES`. -/
def CONFIG_MMU_MAX_XLAT_TABLES : ℕ := 14

/-- `XLAT_TABLE_ENTRIES`. -/
def XLAT_TABLE_ENTRIES : ℕ := 512

/-- `NUM_BASE_LEVEL_ENTRIES`. -/
def NUM_BASE_LEVEL_ENTRIES : ℕ := 64

/-- `GET_VA_LEVEL_SHIFT`. -/
def levelShift (level : ℕ) : ℕ := 12 + 9 * (CONFIG_MMU_TABLE_LEVEL_MAX - level)

/-- `PTE_DESC_TYPE_MASK`. -/
def PTE_DESC_TYPE_MASK : ℕ := 3

/-- `PTE_INVALID_DESC`. -/
def PTE_INVALID_DESC : ℕ := 0

/-- `PTE_BLOCK_DESC`. -/
def PTE_BLOCK_DESC : ℕ := 1

/-- `PTE_TABLE_DESC`. -/
def PTE_TABLE_DESC : ℕ := 3

/-- `PTE_PAGE_DESC`. -/
def PTE_PAGE_DESC : ℕ := 3

/-- `Mmu::MmuMapRegion`, but for its name. -/
structure MmuMapRegion where
  base_pa : ℕ
  base_va : ℕ
  size : ℕ
  attrs : ℕ

/-- Where the linker has put the tables. -/
structure XlatTables where
  /-- `s_base_xlat_table`. -/
  base : ℕ
  /-- `s_xlat_tables`. -/
  pool : ℕ
  pool_aligned : pool % 4096 = 0
  pool_end : pool + 4096 * CONFIG_MMU_MAX_XLAT_TABLES ≤ 2 ^ 48
  apart : base + 8 * NUM_BASE_LEVEL_ENTRIES ≤ pool ∨
    pool + 4096 * CONFIG_MMU_MAX_XLAT_TABLES ≤ base

/-- The words of memory, and the number of tables that have been taken. -/
structure Xlat where
  /-- Memory. -/
  mem : ℕ → ℕ
  /-- `idx`, of `NewXlatTablesEntry`. -/
  idx : ℕ

/-! ### Descriptors -/

/-- `PteDescType`. -/
def pteDescType (desc : ℕ) : ℕ := desc &&& PTE_DESC_TYPE_MASK

/-- The memory type of `SetPteBlockDesc`. -/
def memType (attrs : ℕ) : ℕ := attrs &&& 0x7

/-- What `SetPteBlockDesc` makes of the attributes of a region, whatever the level. -/
def blockAttrs (attrs : ℕ) : ℕ :=
  let attrs := attrs % 2 ^ 32
  -- `kNonSecure`
  let desc := if attrs &&& (1 <<< 4) ≠ 0 then 1 <<< 5 else 0
  -- `kRW`
  let desc := desc ||| if attrs &&& (1 <<< 3) ≠ 0 then 0 <<< 7 else 1 <<< 7
  -- `PTE_BLOCK_DESC_AF`
  let desc := desc ||| 1 <<< 10
  let desc := desc ||| memType attrs <<< 2
  match memType attrs with
  | 0 | 1 | 2 => desc ||| 2 <<< 8 ||| 1 <<< 53 ||| 1 <<< 54
  | 3 | 5 =>
    let desc := desc ||| 2 <<< 8
    -- `kExecuteNever`
    if attrs &&& (1 <<< 5) ≠ 0 then desc ||| 1 <<< 53 else desc
  | 4 =>
    let desc := desc ||| 3 <<< 8
    if attrs &&& (1 <<< 5) ≠ 0 then desc ||| 1 <<< 53 else desc
  | _ => desc

/-- `SetPteBlockDesc`: the descriptor written. -/
def setPteBlockDesc (pa attrs level : ℕ) : ℕ :=
  pa ||| (if level = 3 then PTE_PAGE_DESC else PTE_BLOCK_DESC) ||| blockAttrs attrs

/-! ### Building -/

namespace Xlat

variable (X : XlatTables)

/-- Writing a word. -/
def store (s : Xlat) (a v : ℕ) : Xlat := { s with mem := Function.update s.mem a v }

/-- `GetVaIndex`. -/
def getVaIndex (va level : ℕ) : ℕ := (va >>> levelShift level) &&& (XLAT_TABLE_ENTRIES - 1)

/-- The loop of `FindPteIndex`, with the levels left. -/
def findPteIndexLoop (mem : ℕ → ℕ) (va level : ℕ) : ℕ → ℕ → Option ℕ
  | 0, _ => none
  | left + 1, table =>
    let i := CONFIG_MMU_TABLE_LEVEL_MAX - left
    let pte := table + 8 * getVaIndex va i
    if i = level then some pte
    else if pteDescType (mem pte) ≠ PTE_TABLE_DESC then none
    else findPteIndexLoop mem va level left (mem pte &&& 0x0000fffffffff000)

/-- `FindPteIndex`. -/
def findPteIndex (s : Xlat) (va level : ℕ) : Option ℕ :=
  findPteIndexLoop s.mem va level (CONFIG_MMU_TABLE_LEVEL_MAX + 1 - PAGE_TABLE_BASE_LEVEL) X.base

/-- `NewXlatTablesEntry`. -/
def newXlatTablesEntry (s : Xlat) : Except Fault (ℕ × Xlat) :=
  if s.idx < CONFIG_MMU_MAX_XLAT_TABLES then
    .ok (X.pool + 4096 * s.idx, { s with idx := s.idx + 1 })
  else .error (.panic "don't have enough xlat tables anymore")

/-- `SetPteTableDesc`. -/
def setPteTableDesc (s : Xlat) (pte table : ℕ) : Xlat := s.store pte (PTE_TABLE_DESC ||| table)

/-- The entry with index `i` that `SplitPteBlockDesc` makes of a descriptor. -/
def splitDesc (old_block_desc level i : ℕ) : ℕ :=
  let desc := old_block_desc ||| i <<< levelShift (level + 1)
  if level = 2 then desc ||| PTE_PAGE_DESC else desc

/-- The loop of `SplitPteBlockDesc`, with the entries left. -/
def splitLoop (s : Xlat) (new_table old_block_desc level : ℕ) : ℕ → Xlat
  | 0 => s
  | left + 1 =>
    (splitLoop s new_table old_block_desc level left).store (new_table + 8 * left)
      (splitDesc old_block_desc level left)

/-- `SplitPteBlockDesc`. -/
def splitPteBlockDesc (s : Xlat) (pte level : ℕ) : Except Fault Xlat := do
  let old_block_desc := s.mem pte
  let (new_table, s) ← s.newXlatTablesEntry X
  return (s.splitLoop new_table old_block_desc level XLAT_TABLE_ENTRIES).setPteTableDesc pte
    new_table

/-- The loop of `InitXlatTables`, with the passes it may still make. -/
def initXlatLoop : ℕ → Xlat → (va pa size attrs level : ℕ) → Except Fault Xlat
  | 0, _, _, _, _, _, _ => .error .outOfFuel
  | fuel + 1, s, va, pa, size, attrs, level =>
    if size = 0 then .ok s
    else if CONFIG_MMU_TABLE_LEVEL_MAX < level then
      .error (.panic "max translation table level exceeded")
    else match s.findPteIndex X va level with
    | none => .error (.panic "Couln't find PTE")
    | some pte =>
      let level_size := 1 <<< levelShift level
      if size ≥ level_size ∧ va &&& (level_size - 1) = 0 then
        initXlatLoop fuel (s.store pte (setPteBlockDesc pa attrs level))
          ((va + level_size) % 2 ^ 64)
          ((pa + level_size) % 2 ^ 64) (size - level_size) attrs PAGE_TABLE_BASE_LEVEL
      else if pteDescType (s.mem pte) = PTE_INVALID_DESC then do
        let (new_table, s) ← s.newXlatTablesEntry X
        initXlatLoop fuel (s.setPteTableDesc pte new_table) va pa size attrs (level + 1)
      else if pteDescType (s.mem pte) = PTE_BLOCK_DESC then do
        let s ← s.splitPteBlockDesc X pte level
        initXlatLoop fuel s va pa size attrs (level + 1)
      else if pteDescType (s.mem pte) = PTE_TABLE_DESC then
        initXlatLoop fuel s va pa size attrs (level + 1)
      else .error (.panic "Never reach here!")

/-- The passes of the loop that a region takes at most. -/
def initXlatFuel (size : ℕ) : ℕ := 3 * (size / 4096) + 1

/-- `InitXlatTables`. -/
def initXlatTables (s : Xlat) (region : MmuMapRegion) : Except Fault Xlat :=
  if region.base_va &&& (PAGE_SIZE - 1) ≠ 0 then
    .error (.panic "virtual address is not page aligned")
  else if region.size &&& (PAGE_SIZE - 1) ≠ 0 then
    .error (.panic "memory size is not page aligned")
  else initXlatLoop X (initXlatFuel region.size) s region.base_va region.base_pa region.size
    region.attrs PAGE_TABLE_BASE_LEVEL

/-- Regions, one after the other. -/
def initRegions (s : Xlat) : List MmuMapRegion → Except Fault Xlat
  | [] => .ok s
  | region :: rest => do
    let s ← s.initXlatTables X region
    initRegions s rest

/-- `CreatePageTables`. -/
def createPageTables (s : Xlat) (guest kernel : List MmuMapRegion) : Except Fault Xlat := do
  let s ← s.initRegions X guest
  s.initRegions X kernel

end Xlat

/-! ### What the hardware does -/

/-- What a descriptor of a block or a page, found where `n` bits of the address are left,
gives: the output address, and the descriptor without its type and its address. -/
def leafOf (desc va n : ℕ) : ℕ × ℕ :=
  (desc % 2 ^ 48 / 2 ^ n * 2 ^ n + va % 2 ^ n, desc / 2 ^ 48 * 2 ^ 48 + desc % 4096 / 4 * 4)

/-- A walk, from a table with `left` levels below it. -/
def walk (mem : ℕ → ℕ) (va : ℕ) : ℕ → ℕ → Option (ℕ × ℕ)
  | 0, table =>
    let desc := mem (table + 8 * (va / 2 ^ 12 % 512))
    if desc % 4 = 3 then some (leafOf desc va 12) else none
  | left + 1, table =>
    let desc := mem (table + 8 * (va / 2 ^ (12 + 9 * (left + 1)) % 512))
    if desc % 4 = 3 then walk mem va left (desc % 2 ^ 48 / 4096 * 4096)
    else if desc % 4 = 1 then some (leafOf desc va (12 + 9 * (left + 1)))
    else none

/-- **The translation of an address**: the output address and the attributes, and nothing
where the walk ends in an invalid descriptor. -/
def XlatTables.translate (X : XlatTables) (mem : ℕ → ℕ) (va : ℕ) : Option (ℕ × ℕ) :=
  walk mem va 2 X.base

end Evisor
