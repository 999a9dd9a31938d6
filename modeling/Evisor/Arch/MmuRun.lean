import Evisor.Arch.MmuTree
import Evisor.Lib.Run

/-!
# The address map that is built

From the two changes that are made to the tables (`Evisor.Xlat.Inv.block` and
`Evisor.Xlat.Inv.table`) to whole runs. A pass of the loop of `InitXlatTables` makes one
of them, or goes one level down; a region is mapped in the end whatever there was before
it (`Evisor.Xlat.initXlatLoop_maps`), and so the last of the regions that has an address
settles its translation: `Evisor.Xlat.createPageTables_last_region`.

The only thing that can go wrong is that there are not enough tables.
-/

namespace Evisor

namespace Xlat

variable {X : XlatTables} {s s' : Xlat} {va n t : ℕ}

/-! ### Taking a table -/

/-- The descriptor of a link. -/
theorem tableDesc_eq {table : ℕ} (h : table % 4 = 0) : PTE_TABLE_DESC ||| table = table + 3 := by
  rw [Nat.or_comm, Lib.or_eq_add (k := 2) h (by decide)]
  rfl

theorem nextTable_mod (X : XlatTables) (s : Xlat) : nextTable X s % 4 = 0 := by
  have := X.pool_aligned
  rw [nextTable]
  omega

theorem pteDescType_eq (desc : ℕ) : pteDescType desc = desc % 4 :=
  Nat.and_two_pow_sub_one_eq_mod desc 2

/-- What the entries of a table hold while `SplitPteBlockDesc` fills it. -/
theorem splitLoop_mem (s : Xlat) (table old level : ℕ) {left : ℕ} {i : ℕ} (hi : i < left) :
    (s.splitLoop table old level left).mem (table + 8 * i) = splitDesc old level i := by
  induction left with
  | zero => exact absurd hi (Nat.not_lt_zero _)
  | succ left ih =>
    rcases Nat.lt_succ_iff_lt_or_eq.mp hi with hlt | rfl
    · refine (Function.update_of_ne ?_ ..).trans (ih hlt)
      omega
    · exact Function.update_self ..

/-- Other words are not touched. -/
theorem splitLoop_mem_of_ne (s : Xlat) (table old level : ℕ) {left a : ℕ}
    (ha : ∀ i < left, a ≠ table + 8 * i) : (s.splitLoop table old level left).mem a = s.mem a := by
  induction left with
  | zero => rfl
  | succ left ih =>
    refine (Function.update_of_ne (ha left (Nat.lt_succ_self _)) ..).trans ?_
    exact ih fun i hi => ha i (hi.trans (Nat.lt_succ_self _))

theorem splitLoop_idx (s : Xlat) (table old level left : ℕ) :
    (s.splitLoop table old level left).idx = s.idx := by
  induction left with
  | zero => rfl
  | succ left ih => exact ih

theorem setPteTableDesc_mem (s : Xlat) {pte table : ℕ} (h : table % 4 = 0) :
    (s.setPteTableDesc pte table).mem pte = table + 3 :=
  (Function.update_self ..).trans (tableDesc_eq h)

theorem setPteTableDesc_mem_of_ne (s : Xlat) {pte table a : ℕ} (h : a ≠ pte) :
    (s.setPteTableDesc pte table).mem a = s.mem a := Function.update_of_ne h ..

/-- **An empty entry** gets an empty table. -/
theorem Inv.grown_empty (h : Inv X s) (hva : va < 2 ^ 36) (hn : n < 2)
    (ht : tableAt X s.mem (pathOf va n) = some t)
    (hidx : s.idx < CONFIG_MMU_MAX_XLAT_TABLES)
    (hzero : s.mem (t + 8 * index va n) % 4 = 0) :
    Grown X s (setPteTableDesc { s with idx := s.idx + 1 } (t + 8 * index va n) (nextTable X s))
      (t + 8 * index va n) va n := by
  set s' := setPteTableDesc { s with idx := s.idx + 1 } (t + 8 * index va n) (nextTable X s)
  have hother : ∀ a, a ≠ t + 8 * index va n → s'.mem a = s.mem a :=
    fun a ha => setPteTableDesc_mem_of_ne _ ha
  have hfresh : ∀ j : Fin 512, s'.mem (nextTable X s + 8 * j) = 0 := fun j =>
    (hother _ (h.entry_not_fresh hva hn.le ht le_rfl hidx j)).trans (h.fresh _ le_rfl hidx j)
  refine ⟨rfl, setPteTableDesc_mem _ (nextTable_mod X s), fun a ha _ => hother a ha,
    fun j => .inl (hfresh j), fun _ j => ?_, ?_⟩
  · rw [hfresh]
    decide
  · intro va' hva' hsame
    have hpos : ∀ level, leafType level ≠ 0 := by
      intro level
      rw [leafType]
      split <;> decide
    rw [hfresh, decode, decode, if_neg (hpos _).symm, hzero, if_neg (hpos _).symm]

/-- **A block** is split into the entries of a table. -/
theorem Inv.grown_split (h : Inv X s) (hva : va < 2 ^ 36) (hn : n < 2)
    (ht : tableAt X s.mem (pathOf va n) = some t)
    (hidx : s.idx < CONFIG_MMU_MAX_XLAT_TABLES) {pa attrs : ℕ}
    (hleaf : IsLeaf n (s.mem (t + 8 * index va n)) pa attrs) :
    Grown X s
      (setPteTableDesc (splitLoop { s with idx := s.idx + 1 } (nextTable X s)
        (s.mem (t + 8 * index va n)) (n + 1) XLAT_TABLE_ENTRIES) (t + 8 * index va n)
        (nextTable X s))
      (t + 8 * index va n) va n := by
  set old := s.mem (t + 8 * index va n)
  generalize hs₁ : splitLoop { s with idx := s.idx + 1 } (nextTable X s) old (n + 1)
    XLAT_TABLE_ENTRIES = s₁
  set s' := setPteTableDesc s₁ (t + 8 * index va n) (nextTable X s)
  have hentry : ∀ j : Fin 512,
      s'.mem (nextTable X s + 8 * j) = splitDesc old (n + 1) j := by
    intro j
    have hj : (j : ℕ) < XLAT_TABLE_ENTRIES := j.isLt
    calc s'.mem (nextTable X s + 8 * j) = s₁.mem (nextTable X s + 8 * j) :=
          setPteTableDesc_mem_of_ne s₁ (h.entry_not_fresh hva hn.le ht le_rfl hidx j)
      _ = splitDesc old (n + 1) j := by rw [← hs₁, splitLoop_mem _ _ _ _ hj]
  have hsplit : ∀ j : Fin 512, IsLeaf (n + 1) (splitDesc old (n + 1) j)
      (pa + j * 2 ^ levelShift (n + 2)) attrs := fun j => hleaf.split hn j.isLt
  have hcount : s₁.idx = s.idx + 1 := by rw [← hs₁, splitLoop_idx]
  refine ⟨hcount, setPteTableDesc_mem _ (nextTable_mod X s), ?_, ?_, ?_, ?_⟩
  · intro a ha hnew
    have hrest : ∀ i < XLAT_TABLE_ENTRIES, a ≠ nextTable X s + 8 * i := fun i hi => hnew ⟨i, hi⟩
    calc s'.mem a = s₁.mem a := setPteTableDesc_mem_of_ne s₁ ha
      _ = s.mem a := by rw [← hs₁, splitLoop_mem_of_ne _ _ _ _ hrest]
  · intro j
    rw [hentry]
    exact .inr (.inl ⟨_, _, hsplit j⟩)
  · intro hn' j
    have htype := (hsplit j).type hn'.le
    have hblock : leafType (n + 1 + 1) = 1 := if_neg (by omega)
    rw [hentry]
    omega
  · -- the parts of the block stand for what the block did
    intro va' _ _
    obtain ⟨-, hsize⟩ := hleaf.field hn
    rw [hentry, (hsplit _).decode hn, hleaf.decode hn.le, hsize]
    refine congrArg some (Prod.ext ?_ rfl)
    change pa + va' / 2 ^ levelShift (n + 2) % 512 * 2 ^ levelShift (n + 2) +
      va' % 2 ^ levelShift (n + 2) = pa + va' % (512 * 2 ^ levelShift (n + 2))
    rw [Nat.mul_comm 512, Nat.mod_mul, Nat.mul_comm (2 ^ levelShift (n + 2))]
    omega

/-! ### Finding an entry -/

theorem getVaIndex_eq (va level : ℕ) : getVaIndex va level = va / 2 ^ levelShift level % 512 :=
  Lib.shiftRight_and_mask va _ 9

/-- The address in a descriptor. -/
theorem and_address (x : ℕ) : x &&& 0x0000fffffffff000 = x % 2 ^ 48 / 4096 * 4096 := by
  rw [← Lib.mod_and_eq (n := 48) (by decide)]
  exact Lib.and_mask_eq (k := 12) (w := 36) (Nat.mod_lt _ (by decide))

/-- One step of `FindPteIndex`. -/
theorem findPteIndexLoop_link {mem : ℕ → ℕ} {level left u : ℕ}
    (hn : CONFIG_MMU_TABLE_LEVEL_MAX - left = n + 1) (hlevel : n + 1 ≠ level)
    (hc : child X mem t (index va n) = some u) :
    findPteIndexLoop mem va level (left + 1) t = findPteIndexLoop mem va level left u := by
  have hindex : getVaIndex va (n + 1) = (index va n).val := getVaIndex_eq va (n + 1)
  rw [child] at hc
  split at hc
  · cases hc
  split at hc
  swap
  · cases hc
  rename_i h3
  obtain rfl := Option.some.inj hc
  rw [findPteIndexLoop]
  simp only [hn]
  rw [if_neg hlevel, hindex, pteDescType_eq, h3, if_neg (by decide), and_address]

theorem findPteIndexLoop_last {mem : ℕ → ℕ} {left : ℕ}
    (hn : CONFIG_MMU_TABLE_LEVEL_MAX - left = n + 1) :
    findPteIndexLoop mem va (n + 1) (left + 1) t = some (t + 8 * index va n) := by
  have hindex : getVaIndex va (n + 1) = (index va n).val := getVaIndex_eq va (n + 1)
  rw [findPteIndexLoop]
  simp only [hn]
  rw [if_pos trivial, hindex]

/-- **The entry of an address is found** in the table at the end of its path. -/
theorem findPteIndex_eq (s : Xlat) (hn : n ≤ 2)
    (ht : tableAt X s.mem (pathOf va n) = some t) :
    s.findPteIndex X va (n + 1) = some (t + 8 * index va n) := by
  change findPteIndexLoop s.mem va (n + 1) 3 X.base = _
  rcases level_cases hn with ⟨rfl, -⟩ | ⟨rfl, -⟩ | ⟨rfl, -⟩
  · obtain rfl := Option.some.inj (tableAt_nil.symm.trans ht)
    exact findPteIndexLoop_last rfl
  · obtain ⟨t₀, ht₀, hc⟩ := Lib.reach_concat_eq_some.mp ht
    obtain rfl := Option.some.inj (tableAt_nil.symm.trans ht₀)
    rw [findPteIndexLoop_link (n := 0) rfl (by decide) hc]
    exact findPteIndexLoop_last rfl
  · obtain ⟨t₁, ht₁, hc₁⟩ := Lib.reach_concat_eq_some.mp ht
    obtain ⟨t₀, ht₀, hc₀⟩ := Lib.reach_concat_eq_some.mp ht₁
    obtain rfl := Option.some.inj (tableAt_nil.symm.trans ht₀)
    rw [findPteIndexLoop_link (n := 0) rfl (by decide) hc₀,
      findPteIndexLoop_link (n := 1) rfl (by decide) hc₁]
    exact findPteIndexLoop_last rfl

/-! ### Going through a region -/

/-- What running out of tables is reported as. -/
def outOfTables : Fault := .panic "don't have enough xlat tables anymore"

/-- **The tables end up with a map**, unless there are not enough of them. -/
def Maps (X : XlatTables) (m : ℕ → Option (ℕ × ℕ)) : Except Fault Xlat → Prop
  | .ok s => Inv X s ∧ ∀ va < 2 ^ 36, X.translate s.mem va = m va
  | .error e => e = outOfTables

/-- A map with a range mapped anew. -/
def mapRange (m : ℕ → Option (ℕ × ℕ)) (va pa size attrs x : ℕ) : Option (ℕ × ℕ) :=
  if va ≤ x ∧ x < va + size then some (pa + (x - va), blockAttrs attrs) else m x

theorem Maps.congr {m m' : ℕ → Option (ℕ × ℕ)} {r : Except Fault Xlat} (h : Maps X m r)
    (hm : ∀ va < 2 ^ 36, m va = m' va) : Maps X m' r := by
  cases r with
  | error e => exact h
  | ok s => exact ⟨h.1, fun va hva => (h.2 va hva).trans (hm va hva)⟩

/-- A table is taken, or there is none left. -/
theorem newXlatTablesEntry_cases (X : XlatTables) (s : Xlat) :
    s.idx < CONFIG_MMU_MAX_XLAT_TABLES ∧
      s.newXlatTablesEntry X = .ok (nextTable X s, { s with idx := s.idx + 1 }) ∨
    s.newXlatTablesEntry X = .error outOfTables := by
  rw [newXlatTablesEntry]
  by_cases hidx : s.idx < CONFIG_MMU_MAX_XLAT_TABLES
  · rw [if_pos hidx]
    exact .inl ⟨hidx, rfl⟩
  · rw [if_neg hidx]
    exact .inr rfl

/-- What is left of a region that is being mapped. -/
structure Left (va pa size : ℕ) : Prop where
  va_page : va % 4096 = 0
  size_page : size % 4096 = 0
  va_end : va + size ≤ 2 ^ 36
  pa_end : pa + size ≤ 2 ^ 48
  congr : pa % 2 ^ 30 = va % 2 ^ 30

/-- The descriptor that is written for a block in a region. -/
theorem Left.isLeaf {pa size : ℕ} (h : Left va pa size) (hn : n ≤ 2)
    (hsize : 2 ^ levelShift (n + 1) ≤ size) (hal : va % 2 ^ levelShift (n + 1) = 0)
    (attrs : ℕ) : IsLeaf n (setPteBlockDesc pa attrs (n + 1)) pa attrs := by
  obtain ⟨-, -, -, hpa, hcongr⟩ := h
  refine ⟨rfl, ?_, by omega⟩
  rcases level_cases hn with ⟨-, hs⟩ | ⟨-, hs⟩ | ⟨-, hs⟩ <;> rw [hs] at hal ⊢ <;> omega

/-- What is left of a region after a block of it. -/
theorem Left.next {pa size : ℕ} (h : Left va pa size) (hn : n ≤ 2)
    (hsize : 2 ^ levelShift (n + 1) ≤ size) :
    Left (va + 2 ^ levelShift (n + 1)) (pa + 2 ^ levelShift (n + 1))
      (size - 2 ^ levelShift (n + 1)) := by
  obtain ⟨hva, hsz, hvend, hpend, hcongr⟩ := h
  rcases level_cases hn with ⟨-, hs⟩ | ⟨-, hs⟩ | ⟨-, hs⟩ <;> rw [hs] at hsize ⊢ <;>
    constructor <;> omega

/-- The addresses of a block. -/
theorem same_block_iff {b x : ℕ} (hpos : 0 < b) (hal : va % b = 0) :
    x / b = va / b ↔ va ≤ x ∧ x < va + b := by
  have hva : va / b * b = va := Nat.div_mul_cancel (Nat.dvd_of_mod_eq_zero hal)
  rw [Nat.div_eq_iff hpos, hva]
  omega

/-- How far an address is into its block. -/
theorem mod_block {b x : ℕ} (hal : va % b = 0) (hle : va ≤ x) (hlt : x < va + b) :
    x % b = x - va := by
  obtain ⟨d, rfl⟩ := Nat.exists_eq_add_of_le hle
  rw [Nat.add_mod, hal, Nat.zero_add, Nat.mod_mod, Nat.mod_eq_of_lt (by omega),
    Nat.add_sub_cancel_left]

/-- A block and what is left of its region make up the region. -/
theorem mapRange_block {m m' : ℕ → Option (ℕ × ℕ)} {pa size desc attrs : ℕ} (hn : n ≤ 2)
    (hleaf : IsLeaf n desc pa attrs) (hsize : 2 ^ levelShift (n + 1) ≤ size)
    (hal : va % 2 ^ levelShift (n + 1) = 0) {x : ℕ}
    (hm : m' x = if x / 2 ^ levelShift (n + 1) = va / 2 ^ levelShift (n + 1) then decode n desc x
      else m x) :
    mapRange m' (va + 2 ^ levelShift (n + 1)) (pa + 2 ^ levelShift (n + 1))
      (size - 2 ^ levelShift (n + 1)) attrs x = mapRange m va pa size attrs x := by
  have hpos : 0 < 2 ^ levelShift (n + 1) := Nat.two_pow_pos _
  simp only [hleaf.decode hn, same_block_iff hpos hal] at hm
  rw [mapRange, mapRange, hm]
  set b := 2 ^ levelShift (n + 1)
  by_cases hblock : va ≤ x ∧ x < va + b
  · rw [if_neg (by omega), if_pos hblock, if_pos (by omega), mod_block hal hblock.1 hblock.2]
  by_cases hrest : va + b ≤ x ∧ x < va + b + (size - b)
  · rw [if_pos hrest, if_pos (by omega)]
    exact congrArg some (Prod.ext (by dsimp only; omega) rfl)
  · rw [if_neg hrest, if_neg hblock, if_neg (by omega)]

/-- **The loop maps a region**, whatever the tables are like, in a number of passes that
goes with its size. -/
theorem initXlatLoop_maps {fuel pa size attrs : ℕ} (h : Inv X s) (hleft : Left va pa size)
    (hn : n ≤ 2) (ht : tableAt X s.mem (pathOf va n) = some t)
    (hfuel : 3 * (size / 4096) + 1 - n ≤ fuel) (hzero : size = 0 → n = 0) :
    Maps X (mapRange (X.translate s.mem) va pa size attrs)
      (initXlatLoop X fuel s va pa size attrs (n + 1)) := by
  induction fuel generalizing s va pa size n t with
  | zero =>
    have hsz := hleft.size_page
    rcases Nat.eq_zero_or_pos size with rfl | hpos
    · have := hzero rfl
      omega
    · omega
  | succ fuel ih =>
    rcases Nat.eq_zero_or_pos size with rfl | hpos
    · rw [initXlatLoop, if_pos rfl]
      exact ⟨h, fun x _ => (if_neg (by omega)).symm⟩
    have hva : va < 2 ^ 36 := by
      have := hleft.va_end
      omega
    have hsz := hleft.size_page
    have hlevel : ¬CONFIG_MMU_TABLE_LEVEL_MAX < n + 1 := Nat.not_lt.mpr (Nat.succ_le_succ hn)
    have hshift : 1 <<< levelShift (n + 1) = 2 ^ levelShift (n + 1) := Nat.one_shiftLeft _
    rw [initXlatLoop, if_neg hpos.ne', if_neg hlevel, findPteIndex_eq s hn ht]
    simp only [hshift, Nat.and_two_pow_sub_one_eq_mod, pteDescType_eq, PTE_INVALID_DESC,
      PTE_BLOCK_DESC, PTE_TABLE_DESC]
    by_cases hfit : size ≥ 2 ^ levelShift (n + 1) ∧ va % 2 ^ levelShift (n + 1) = 0
    · -- the descriptor is written, and the next pass is at the first level again
      obtain ⟨hsize, hal⟩ := hfit
      have hleaf := hleft.isLeaf hn hsize hal attrs
      have hnext := hleft.next hn hsize
      obtain ⟨hinv, htrans⟩ := h.block hva hn ht hleaf
      have hva' : (va + 2 ^ levelShift (n + 1)) % 2 ^ 64 = va + 2 ^ levelShift (n + 1) := by
        have := hnext.va_end
        exact Nat.mod_eq_of_lt (by omega)
      have hpa' : (pa + 2 ^ levelShift (n + 1)) % 2 ^ 64 = pa + 2 ^ levelShift (n + 1) := by
        have := hnext.pa_end
        exact Nat.mod_eq_of_lt (by omega)
      have hpages : 3 * ((size - 2 ^ levelShift (n + 1)) / 4096) + 1 - 0 ≤ fuel := by
        rcases level_cases hn with ⟨-, hs⟩ | ⟨-, hs⟩ | ⟨-, hs⟩ <;> rw [hs] at hsize ⊢ <;> omega
      rw [if_pos ⟨hsize, hal⟩, hva', hpa']
      refine (ih hinv hnext (Nat.zero_le 2) tableAt_nil hpages fun _ => rfl).congr fun x hx => ?_
      exact mapRange_block hn hleaf hsize hal (htrans x hx)
    rw [if_neg hfit]
    have hn' : n < 2 := by
      rcases level_cases hn with ⟨rfl, -⟩ | ⟨rfl, -⟩ | ⟨rfl, hs⟩
      · decide
      · decide
      · refine absurd ?_ hfit
        rw [hs]
        have := hleft.va_page
        omega
    have hblock : leafType (n + 1) = 1 := if_neg (by omega)
    have hdown : 3 * (size / 4096) + 1 - (n + 1) ≤ fuel := by omega
    have hpage : size = 0 → n + 1 = 0 := fun h0 => absurd h0 hpos.ne'
    -- a table is put in the place of the entry
    have hgrow : ∀ {s'}, s.idx < CONFIG_MMU_MAX_XLAT_TABLES →
        s.mem (t + 8 * index va n) % 4 ≠ 3 → Grown X s s' (t + 8 * index va n) va n →
        Maps X (mapRange (X.translate s.mem) va pa size attrs)
          (initXlatLoop X fuel s' va pa size attrs (n + 1 + 1)) := by
      intro s' hidx h3 hg
      obtain ⟨hinv, htable, htrans⟩ := h.table hva hn' ht (child_eq_none h3) hidx hg
      refine (ih hinv hleft hn' htable hdown hpage).congr fun x hx => ?_
      rw [mapRange, mapRange, htrans x hx]
    rcases h.entry hva hn ht with hempty | ⟨pa₀, attrs₀, hleaf⟩ | ⟨-, hlink⟩
    · have h0 : s.mem (t + 8 * index va n) % 4 = 0 := by rw [hempty]
      rw [if_pos h0]
      rcases newXlatTablesEntry_cases X s with ⟨hidx, hnew⟩ | hnew
      · rw [hnew]
        exact hgrow hidx (by omega) (h.grown_empty hva hn' ht hidx h0)
      · rw [hnew]
        rfl
    · have h1 := hleaf.type hn
      rw [hblock] at h1
      rw [if_neg (by omega), if_pos h1, splitPteBlockDesc]
      rcases newXlatTablesEntry_cases X s with ⟨hidx, hnew⟩ | hnew
      · rw [hnew]
        exact hgrow hidx (by omega) (h.grown_split hva hn' ht hidx hleaf)
      · rw [hnew]
        rfl
    · rw [if_neg (by omega), if_neg (by omega), if_pos hlink]
      exact ih h hleft hn' (h.tableAt_link hva hn ht hlink) hdown hpage

/-! ### Going through regions -/

end Xlat

/-- **The regions the address map can be made of**: on page boundaries, within the 36 bits
of an address and the 48 bits of an output address, and as far into a GiB there as here. -/
structure MmuMapRegion.Legal (r : MmuMapRegion) : Prop where
  va_page : r.base_va % PAGE_SIZE = 0
  pa_page : r.base_pa % PAGE_SIZE = 0
  size_page : r.size % PAGE_SIZE = 0
  va_end : r.base_va + r.size ≤ 2 ^ 36
  pa_end : r.base_pa + r.size ≤ 2 ^ 48
  congr : r.base_pa % 2 ^ 30 = r.base_va % 2 ^ 30

/-- A region has an address. -/
def MmuMapRegion.Covers (r : MmuMapRegion) (va : ℕ) : Prop :=
  r.base_va ≤ va ∧ va < r.base_va + r.size

instance (r : MmuMapRegion) (va : ℕ) : Decidable (r.Covers va) :=
  inferInstanceAs (Decidable (_ ∧ _))

/-- What a region makes of an address. -/
def MmuMapRegion.leaf (r : MmuMapRegion) (va : ℕ) : ℕ × ℕ :=
  (r.base_pa + (va - r.base_va), blockAttrs r.attrs)

/-- **The region that settles the translation of an address**: the last one that has it. -/
def decidingRegion (regions : List MmuMapRegion) (va : ℕ) : Option MmuMapRegion :=
  regions.reverse.find? fun r => r.Covers va

/-- A region settles what no later one does. -/
theorem decidingRegion_cons (r : MmuMapRegion) (rest : List MmuMapRegion) (va : ℕ) :
    decidingRegion (r :: rest) va =
      (decidingRegion rest va).or (if r.Covers va then some r else none) := by
  rw [decidingRegion, List.reverse_cons, List.find?_append, decidingRegion]
  congr 1
  by_cases h : r.Covers va
  · rw [if_pos h]
    exact List.find?_cons_of_pos (decide_eq_true h)
  · rw [if_neg h]
    exact List.find?_cons_of_neg (by simpa using h)

/-- The region that settles an address is one of them, and has it. -/
theorem decidingRegion_mem {regions : List MmuMapRegion} {r : MmuMapRegion} {va : ℕ}
    (h : decidingRegion regions va = some r) : r ∈ regions ∧ r.Covers va :=
  ⟨List.mem_reverse.mp (List.mem_of_find?_eq_some h), by
    simpa using List.find?_some (p := fun r : MmuMapRegion => decide (r.Covers va)) h⟩

namespace Xlat

variable {X : XlatTables} {s : Xlat}

/-- A map with regions mapped anew, one after the other. -/
def mapRegions (m : ℕ → Option (ℕ × ℕ)) (regions : List MmuMapRegion) (va : ℕ) :
    Option (ℕ × ℕ) :=
  ((decidingRegion regions va).map fun r => r.leaf va).or (m va)

theorem mapRegions_cons (m : ℕ → Option (ℕ × ℕ)) (r : MmuMapRegion) (rest : List MmuMapRegion)
    (va : ℕ) : mapRegions (mapRange m r.base_va r.base_pa r.size r.attrs) rest va =
      mapRegions m (r :: rest) va := by
  rw [mapRegions, mapRegions, decidingRegion_cons]
  cases decidingRegion rest va with
  | some r' => rfl
  | none =>
    change mapRange m r.base_va r.base_pa r.size r.attrs va = _
    rw [Option.none_or]
    by_cases h : r.Covers va
    · rw [if_pos h]
      exact if_pos h
    · rw [if_neg h]
      exact if_neg h

/-- What `InitXlatTables` does about a region on page boundaries. -/
theorem initXlatTables_of_page (s : Xlat) {r : MmuMapRegion} (hva : r.base_va % PAGE_SIZE = 0)
    (hsize : r.size % PAGE_SIZE = 0) : s.initXlatTables X r =
      initXlatLoop X (initXlatFuel r.size) s r.base_va r.base_pa r.size r.attrs
        PAGE_TABLE_BASE_LEVEL := by
  have hand : ∀ a : ℕ, a % PAGE_SIZE = 0 → ¬(a &&& (PAGE_SIZE - 1)) ≠ 0 := fun a ha =>
    not_not_intro ((Nat.and_two_pow_sub_one_eq_mod a 12).trans ha)
  rw [initXlatTables, if_neg (hand _ hva), if_neg (hand _ hsize)]

/-- **A region is mapped**, whatever there was before. -/
theorem initXlatTables_maps (h : Inv X s) {r : MmuMapRegion} (hr : r.Legal) :
    Maps X (mapRange (X.translate s.mem) r.base_va r.base_pa r.size r.attrs)
      (s.initXlatTables X r) := by
  rw [initXlatTables_of_page s hr.va_page hr.size_page]
  exact initXlatLoop_maps h ⟨hr.va_page, hr.size_page, hr.va_end, hr.pa_end, hr.congr⟩
    (Nat.zero_le 2) tableAt_nil le_rfl fun _ => rfl

/-- **Regions are mapped**, the last one on top. -/
theorem initRegions_maps {regions : List MmuMapRegion} (h : Inv X s)
    (hr : ∀ r ∈ regions, r.Legal) :
    Maps X (mapRegions (X.translate s.mem) regions) (s.initRegions X regions) := by
  induction regions generalizing s with
  | nil => exact ⟨h, fun _ _ => rfl⟩
  | cons r rest ih =>
    have hone := initXlatTables_maps h (hr r List.mem_cons_self)
    rw [initRegions]
    cases hs : s.initXlatTables X r with
    | error e =>
      rw [hs] at hone
      exact hone
    | ok s₁ =>
      rw [hs] at hone
      refine (ih hone.1 fun r hr' => hr r (List.mem_cons_of_mem _ hr')).congr fun va hva => ?_
      rw [← mapRegions_cons, mapRegions, mapRegions, hone.2 va hva]

/-- The two lists of regions are gone through as one. -/
theorem createPageTables_eq (s : Xlat) (guest kernel : List MmuMapRegion) :
    s.createPageTables X guest kernel = s.initRegions X (guest ++ kernel) := by
  rw [createPageTables]
  induction guest generalizing s with
  | nil => rfl
  | cons r rest ih =>
    rw [List.cons_append, initRegions, initRegions]
    cases s.initXlatTables X r with
    | error e => rfl
    | ok s₁ => exact ih s₁

/-- **Tables that have not been used**: no word is set, and no table has been taken. -/
structure Zeroed (X : XlatTables) (s : Xlat) : Prop where
  idx : s.idx = 0
  base : ∀ i < NUM_BASE_LEVEL_ENTRIES, s.mem (X.base + 8 * i) = 0
  pool : ∀ k < CONFIG_MMU_MAX_XLAT_TABLES, ∀ i < XLAT_TABLE_ENTRIES,
    s.mem (X.pool + 4096 * k + 8 * i) = 0

/-- The first table leads nowhere. -/
theorem Zeroed.child (h : Zeroed X s) (i : Fin 512) : child X s.mem X.base i = none := by
  rw [Xlat.child]
  by_cases hb : X.base = X.base ∧ NUM_BASE_LEVEL_ENTRIES ≤ i.val
  · rw [if_pos hb]
  · rw [if_neg hb, h.base i (Nat.lt_of_not_le fun hi => hb ⟨rfl, hi⟩), if_neg (by decide)]

theorem Zeroed.tableAt (h : Zeroed X s) {p : List (Fin 512)} {t : ℕ}
    (ht : tableAt X s.mem p = some t) : p = [] ∧ t = X.base := by
  cases p with
  | nil => exact ⟨rfl, (Option.some.inj (tableAt_nil.symm.trans ht)).symm⟩
  | cons i p =>
    rw [Xlat.tableAt, Lib.reach, Option.bind_some, Lib.follow_cons, h.child, Option.bind_none] at ht
    cases ht

theorem Zeroed.inv (h : Zeroed X s) : Inv X s where
  separated := ⟨fun _ _ ht ht' => ⟨rfl, (h.tableAt ht).1.trans (h.tableAt ht').1.symm⟩⟩
  taken _ ht := .inl (h.tableAt ht).2
  idx_le := h.idx ▸ Nat.zero_le _
  fresh k _ hk i := h.pool k hk i i.isLt
  entry {va n t} hva hn ht := by
    obtain ⟨hp, rfl⟩ := h.tableAt ht
    obtain rfl : n = 0 := by rw [← pathOf_length va n, hp, List.length_nil]
    exact .inl (h.base _ (index_zero_lt hva))

/-- Nothing is mapped to begin with. -/
theorem Zeroed.translate (h : Zeroed X s) {va : ℕ} (hva : va < 2 ^ 36) :
    X.translate s.mem va = none := by
  rw [h.inv.translate hva ⟨Nat.zero_le 2, tableAt_nil, fun _ => h.child _⟩,
    h.base _ (index_zero_lt hva)]
  rfl

/-- **The map that regions ask for**: each address is translated by the last region that
has it, and an address that no region has is not translated. The one thing that keeps
`CreatePageTables` from returning is a table to be taken beyond the fourteen there are. -/
inductive HasMap (X : XlatTables) (regions : List MmuMapRegion) : Except Fault Xlat → Prop
  | mapped {s : Xlat} (h : ∀ va < 2 ^ 36, X.translate s.mem va =
      (decidingRegion regions va).map fun r =>
        (r.base_pa + (va - r.base_va), blockAttrs r.attrs)) : HasMap X regions (.ok s)
  | outOfTables :
      HasMap X regions (.error (.panic "don't have enough xlat tables anymore"))

/-- **The address map is the one asked for**, by the regions of the guest and then those of
the kernel. -/
theorem createPageTables_last_region {guest kernel : List MmuMapRegion} (hs : Zeroed X s)
    (hr : ∀ r ∈ guest ++ kernel, r.Legal) :
    HasMap X (guest ++ kernel) (s.createPageTables X guest kernel) := by
  have hmaps := initRegions_maps hs.inv hr
  rw [createPageTables_eq]
  cases hres : s.initRegions X (guest ++ kernel) with
  | error e =>
    rw [hres] at hmaps
    obtain rfl : e = outOfTables := hmaps
    exact .outOfTables
  | ok s' =>
    rw [hres] at hmaps
    refine .mapped fun va hva => ?_
    rw [hmaps.2 va hva, mapRegions, hs.translate hva, Option.or_none]
    rfl

/-- Tables at the start of memory. -/
def lowTables : XlatTables where
  base := 0
  pool := 4096
  pool_aligned := by decide
  pool_end := by decide
  apart := by decide

/-- Memory before anything is written. -/
def cleared : Xlat := ⟨fun _ => 0, 0⟩

theorem cleared_zeroed (X : XlatTables) : Zeroed X cleared :=
  ⟨rfl, fun _ _ => rfl, fun _ _ _ _ => rfl⟩

/-- A GiB of devices. -/
def deviceRegion : MmuMapRegion := ⟨0, 0, 2 ^ 30, 0x2⟩

/-- A page of normal memory in it. -/
def pageRegion : MmuMapRegion := ⟨2 ^ 21, 2 ^ 21, 4096, 0xc⟩

theorem deviceRegion_legal : deviceRegion.Legal := by constructor <;> decide

theorem pageRegion_legal : pageRegion.Legal := by constructor <;> decide

/-- A block is split twice for a page of the kernel. -/
theorem createPageTables_last_region_page :
    (cleared.createPageTables lowTables [deviceRegion] [pageRegion]).isOk ∧
    HasMap lowTables ([deviceRegion] ++ [pageRegion])
      (cleared.createPageTables lowTables [deviceRegion] [pageRegion]) := by
  have hr : ∀ r ∈ [deviceRegion] ++ [pageRegion], r.Legal := by
    rintro r hr
    rcases List.mem_cons.mp hr with rfl | hr
    · exact deviceRegion_legal
    · obtain rfl := List.mem_singleton.mp hr
      exact pageRegion_legal
  have hmap := createPageTables_last_region (cleared_zeroed lowTables) hr
  exact ⟨by decide +kernel, hmap⟩

/-- A GiB beyond the 48 bits of an output address. -/
def farRegion : MmuMapRegion := ⟨2 ^ 48, 0, 2 ^ 30, 0⟩

/-- **An output address has 48 bits**: what is to be mapped beyond them is mapped to the
start of memory. -/
theorem createPageTables_far_output :
    Zeroed lowTables cleared ∧ farRegion.base_va % PAGE_SIZE = 0 ∧
    farRegion.base_pa % PAGE_SIZE = 0 ∧ farRegion.size % PAGE_SIZE = 0 ∧
    farRegion.base_va + farRegion.size ≤ 2 ^ 36 ∧
    farRegion.base_pa % 2 ^ 30 = farRegion.base_va % 2 ^ 30 ∧
    decidingRegion [farRegion] 0 = some farRegion ∧
    (cleared.createPageTables lowTables [farRegion] []).toOption.bind
      (fun s' => (lowTables.translate s'.mem 0).map Prod.fst) = some 0 ∧
    0 ≠ farRegion.base_pa + (0 - farRegion.base_va) :=
  ⟨cleared_zeroed _, rfl, rfl, rfl, by decide, rfl, List.find?_cons_of_pos rfl, by decide +kernel,
    by decide⟩

/-! ### Execute never -/

end Xlat

/-- `kDevicenGnRnE`, `kDevicenGnRE` or `kDeviceGRE`. -/
def DeviceMemory (attrs : ℕ) : Prop := memType attrs ≤ 2

/-- `kNormalNC`, `kNormal` or `kNormalWT`. -/
def NormalMemory (attrs : ℕ) : Prop := 3 ≤ memType attrs ∧ memType attrs ≤ 5

/-- `kRW`. -/
def ReadWrite (attrs : ℕ) : Prop := attrs &&& (1 <<< 3) ≠ 0

/-- `kExecuteNever`. -/
def ExecuteNever (attrs : ℕ) : Prop := attrs &&& (1 <<< 5) ≠ 0

/-- Memory with these attributes is not to be executed. -/
def MustNotExecute (attrs : ℕ) : Prop :=
  DeviceMemory attrs ∨ ExecuteNever attrs ∨ ReadWrite attrs ∧ NormalMemory attrs

instance (attrs : ℕ) : Decidable (DeviceMemory attrs) := inferInstanceAs (Decidable (_ ≤ _))

instance (attrs : ℕ) : Decidable (NormalMemory attrs) := inferInstanceAs (Decidable (_ ∧ _))

instance (attrs : ℕ) : Decidable (ReadWrite attrs) := inferInstanceAs (Decidable (_ ≠ _))

instance (attrs : ℕ) : Decidable (ExecuteNever attrs) := inferInstanceAs (Decidable (_ ≠ _))

instance (attrs : ℕ) : Decidable (MustNotExecute attrs) := inferInstanceAs (Decidable (_ ∨ _))

/-- The address is translated by a descriptor with bit 54 set, which at EL2 is XN. -/
def XlatTables.IsXn (X : XlatTables) (mem : ℕ → ℕ) (va : ℕ) : Prop :=
  ∃ pa attrs, X.translate mem va = some (pa, attrs) ∧ attrs.testBit 54

/-- **Bit 54 is set for devices**, and for nothing else. -/
theorem blockAttrs_xn (attrs : ℕ) : (blockAttrs attrs).testBit 54 ↔ DeviceMemory attrs := by
  have hall : ∀ a < 64, (blockAttrs a).testBit 54 ↔ DeviceMemory a := by decide
  have hmem : memType (attrs % 64) = memType attrs :=
    Lib.mod_and_eq (n := 6) (m := 0x7) (by decide) attrs
  rw [← blockAttrs_mod, hall _ (Nat.mod_lt _ (by decide)), DeviceMemory, DeviceMemory, hmem]

namespace Xlat

variable {X : XlatTables} {s s' : Xlat}

/-- **What is not to be executed is execute never** at an address exactly when the region
that settles it is one of devices, or is neither to be execute never nor normal memory
that can be written. -/
theorem execute_never_iff {guest kernel : List MmuMapRegion} (hs : Zeroed X s)
    (hr : ∀ r ∈ guest ++ kernel, r.Legal) (hok : s.createPageTables X guest kernel = .ok s')
    {va : ℕ} {r : MmuMapRegion} (hdec : decidingRegion (guest ++ kernel) va = some r) :
    (MustNotExecute r.attrs → X.IsXn s'.mem va) ↔
      DeviceMemory r.attrs ∨
        ¬ExecuteNever r.attrs ∧ ¬(ReadWrite r.attrs ∧ NormalMemory r.attrs) := by
  have hva : va < 2 ^ 36 := by
    obtain ⟨hmem, hcov⟩ := decidingRegion_mem hdec
    exact hcov.2.trans_le (hr r hmem).va_end
  have hxn : X.IsXn s'.mem va ↔ DeviceMemory r.attrs := by
    have hmaps := initRegions_maps hs.inv hr
    rw [← createPageTables_eq, hok] at hmaps
    have hleaf : X.translate s'.mem va = some (r.leaf va) := by
      rw [hmaps.2 va hva, mapRegions, hdec]
      rfl
    rw [XlatTables.IsXn, hleaf]
    constructor
    · rintro ⟨pa, attrs, heq, hbit⟩
      obtain ⟨-, rfl⟩ := Prod.ext_iff.mp (Option.some.inj heq)
      exact (blockAttrs_xn _).mp hbit
    · intro hdev
      exact ⟨_, _, rfl, (blockAttrs_xn _).mpr hdev⟩
  rw [hxn, MustNotExecute]
  constructor
  · intro h
    by_contra hnot
    rw [not_or] at hnot
    refine hnot.2 ⟨fun hx => hnot.1 (h (.inr (.inl hx))), fun hw => hnot.1 (h (.inr (.inr hw)))⟩
  · rintro (hdev | ⟨hx, hw⟩) (hd | hd | hd)
    · exact hdev
    · exact hdev
    · exact hdev
    · exact hd
    · exact absurd hd hx
    · exact absurd hd hw

/-- A page of the kernel that can be written, in a GiB of devices. -/
theorem execute_never_iff_page : ∃ s',
    cleared.createPageTables lowTables [deviceRegion] [pageRegion] = .ok s' ∧
    ((MustNotExecute pageRegion.attrs → lowTables.IsXn s'.mem (2 ^ 21)) ↔
      DeviceMemory pageRegion.attrs ∨ ¬ExecuteNever pageRegion.attrs ∧
        ¬(ReadWrite pageRegion.attrs ∧ NormalMemory pageRegion.attrs)) := by
  have hr : ∀ r ∈ [deviceRegion] ++ [pageRegion], r.Legal := by
    rintro r hr
    rcases List.mem_cons.mp hr with rfl | hr
    · exact deviceRegion_legal
    · obtain rfl := List.mem_singleton.mp hr
      exact pageRegion_legal
  obtain ⟨s', hok⟩ := Lib.exists_ok_of_isOk
    (by decide +kernel : (cleared.createPageTables lowTables [deviceRegion] [pageRegion]).isOk)
  have hdec : decidingRegion ([deviceRegion] ++ [pageRegion]) (2 ^ 21) = some pageRegion :=
    List.find?_cons_of_pos rfl
  exact ⟨s', hok, execute_never_iff (cleared_zeroed lowTables) hr hok hdec⟩

/-- **Memory of the kernel that can be written can be executed.** -/
theorem kernel_data_executable :
    Zeroed lowTables cleared ∧ deviceRegion.Legal ∧ pageRegion.Legal ∧
    MustNotExecute pageRegion.attrs ∧
    decidingRegion ([deviceRegion] ++ [pageRegion]) (2 ^ 21) = some pageRegion ∧
    ((cleared.createPageTables lowTables [deviceRegion] [pageRegion]).toOption.bind
      fun s' => lowTables.translate s'.mem (2 ^ 21)).map (fun leaf => leaf.2.testBit 54) =
        some false :=
  ⟨cleared_zeroed _, deviceRegion_legal, pageRegion_legal, by decide,
    List.find?_cons_of_pos rfl, by decide +kernel⟩

end Xlat

end Evisor
