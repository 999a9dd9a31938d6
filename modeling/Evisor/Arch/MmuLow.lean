import Evisor.Arch.MmuPasses

/-!
# What addresses are made of descriptors

The output address of a region may have more bits than a descriptor has room for. What is beyond
them gets into the attributes, and is not seen by a walk that looks for addresses: tables with the
same low bits (`Evisor.Xlat.Low`) are gone through in the same way. So there are tables such as the
ones of `Evisor.Xlat.Inv` beside those that are built, which translate to the same addresses, and
every pass over a region keeps it so (`Evisor.Xlat.Pass.Stands`). In the end the region is mapped,
to what its output addresses are in 48 bits: `Evisor.Xlat.Pass.Stands.maps`.
-/

namespace Evisor

namespace Xlat

variable {X : XlatTables} {s g : Xlat} {va va' : ℕ}

/-! ### Descriptors with the same low bits -/

/-- **Tables that are walked in the same way**: their descriptors have the same 48 low bits. -/
structure Low (s g : Xlat) : Prop where
  idx : s.idx = g.idx
  mem : ∀ a, s.mem a % 2 ^ 48 = g.mem a % 2 ^ 48

theorem Low.refl (s : Xlat) : Low s s := ⟨rfl, fun _ => rfl⟩

theorem pteDescType_congr {x y : ℕ} (h : x % 2 ^ 48 = y % 2 ^ 48) :
    pteDescType x = pteDescType y := by
  rw [pteDescType_eq, pteDescType_eq]
  omega

theorem and_address_congr {x y : ℕ} (h : x % 2 ^ 48 = y % 2 ^ 48) :
    x &&& 0x0000fffffffff000 = y &&& 0x0000fffffffff000 := by
  rw [and_address, and_address, h]

/-- Writing words that agree in their low bits. -/
theorem store_mod {k : ℕ} (h : ∀ a, s.mem a % 2 ^ k = g.mem a % 2 ^ k) (a : ℕ) {v w : ℕ}
    (hvw : v % 2 ^ k = w % 2 ^ k) (b : ℕ) :
    (s.store a v).mem b % 2 ^ k = (g.store a w).mem b % 2 ^ k := by
  change Function.update s.mem a v b % 2 ^ k = Function.update g.mem a w b % 2 ^ k
  rcases eq_or_ne b a with rfl | hb
  · rw [Function.update_self, Function.update_self, hvw]
  · rw [Function.update_of_ne hb, Function.update_of_ne hb, h]

theorem splitDesc_congr {k x y : ℕ} (h : x % 2 ^ k = y % 2 ^ k) (level i : ℕ) :
    splitDesc x level i % 2 ^ k = splitDesc y level i % 2 ^ k := by
  rw [splitDesc, splitDesc]
  by_cases hlevel : level = 2
  · rw [if_pos hlevel, if_pos hlevel]
    simp only [Nat.or_mod_two_pow, h]
  · rw [if_neg hlevel, if_neg hlevel]
    simp only [Nat.or_mod_two_pow, h]

theorem splitLoop_mod {k : ℕ} (h : ∀ a, s.mem a % 2 ^ k = g.mem a % 2 ^ k) (table level left : ℕ)
    {x y : ℕ} (hxy : x % 2 ^ k = y % 2 ^ k) (b : ℕ) :
    (s.splitLoop table x level left).mem b % 2 ^ k =
      (g.splitLoop table y level left).mem b % 2 ^ k := by
  induction left generalizing b with
  | zero => exact h b
  | succ left ih => exact store_mod ih _ (splitDesc_congr hxy level left) b

theorem Low.store (h : Low s g) (a : ℕ) {v w : ℕ} (hvw : v % 2 ^ 48 = w % 2 ^ 48) :
    Low (s.store a v) (g.store a w) := ⟨h.idx, store_mod h.mem a hvw⟩

theorem Low.splitLoop (h : Low s g) (table level left : ℕ) {x y : ℕ}
    (hxy : x % 2 ^ 48 = y % 2 ^ 48) :
    Low (s.splitLoop table x level left) (g.splitLoop table y level left) := by
  refine ⟨?_, splitLoop_mod h.mem table level left hxy⟩
  rw [splitLoop_idx, splitLoop_idx, h.idx]

/-- Bits beyond 48 of an output address are not among those of a descriptor. -/
theorem setPteBlockDesc_mod (pa attrs level : ℕ) :
    setPteBlockDesc (pa % 2 ^ 48) attrs level % 2 ^ 48 =
      setPteBlockDesc pa attrs level % 2 ^ 48 := by
  simp only [setPteBlockDesc, Nat.or_mod_two_pow, Nat.mod_mod]

/-- **Going down** is the same. -/
theorem Low.descends (h : Low s g) {pte level : ℕ} {s' : Xlat}
    (hs : Pass.Descends X s pte level s') : ∃ g', Pass.Descends X g pte level g' ∧ Low s' g' := by
  have hmem := h.mem pte
  have htype : pteDescType (g.mem pte) = pteDescType (s.mem pte) := (pteDescType_congr hmem).symm
  have hnext : nextTable X s = nextTable X g := by rw [nextTable, nextTable, h.idx]
  have hnew : Low { s with idx := s.idx + 1 } { g with idx := g.idx + 1 } :=
    ⟨congrArg (· + 1) h.idx, h.mem⟩
  cases hs with
  | empty h0 hidx =>
    refine ⟨_, .empty (htype.trans h0) (h.idx ▸ hidx), ?_⟩
    rw [hnext]
    exact hnew.store _ rfl
  | split h1 hidx =>
    refine ⟨_, .split (htype.trans h1) (h.idx ▸ hidx), ?_⟩
    rw [hnext]
    exact (hnew.splitLoop _ _ _ hmem).store _ rfl
  | link h3 => exact ⟨g, .link (htype.trans h3), h⟩

/-! ### Walks through them -/

/-- An index is one of the low bits of an address. -/
theorem getVaIndex_congr (h : va % 2 ^ 39 = va' % 2 ^ 39) {left : ℕ} (hleft : left < 3) :
    getVaIndex va (CONFIG_MMU_TABLE_LEVEL_MAX - left) =
      getVaIndex va' (CONFIG_MMU_TABLE_LEVEL_MAX - left) := by
  have h12 : levelShift (CONFIG_MMU_TABLE_LEVEL_MAX - 0) = 12 := rfl
  have h21 : levelShift (CONFIG_MMU_TABLE_LEVEL_MAX - 1) = 21 := rfl
  have h30 : levelShift (CONFIG_MMU_TABLE_LEVEL_MAX - 2) = 30 := rfl
  rw [getVaIndex_eq, getVaIndex_eq]
  interval_cases left
  · rw [h12]
    omega
  · rw [h21]
    omega
  · rw [h30]
    omega

theorem findPteIndexLoop_congr (h : Low s g) (hva : va % 2 ^ 39 = va' % 2 ^ 39) (level : ℕ)
    {left table : ℕ} (hleft : left ≤ 3) : findPteIndexLoop s.mem va level left table =
      findPteIndexLoop g.mem va' level left table := by
  induction left generalizing table with
  | zero => rfl
  | succ left ih =>
    rw [findPteIndexLoop, findPteIndexLoop]
    simp only [getVaIndex_congr hva hleft, pteDescType_congr (h.mem _),
      and_address_congr (h.mem _), ih (Nat.le_of_succ_le hleft)]

/-- The same entry is found. -/
theorem Low.findPteIndex (h : Low s g) (hva : va % 2 ^ 39 = va' % 2 ^ 39) (level : ℕ) :
    s.findPteIndex X va level = g.findPteIndex X va' level :=
  findPteIndexLoop_congr h hva level le_rfl

theorem accessesLoop_congr (h : Low s g) (hva : va % 2 ^ 39 = va' % 2 ^ 39) (level : ℕ)
    {left table : ℕ} (hleft : left ≤ 3) : accessesLoop s.mem va level left table =
      accessesLoop g.mem va' level left table := by
  induction left generalizing table with
  | zero => rfl
  | succ left ih =>
    rw [accessesLoop, accessesLoop]
    simp only [getVaIndex_congr hva hleft, pteDescType_congr (h.mem _),
      and_address_congr (h.mem _), ih (Nat.le_of_succ_le hleft)]

end Xlat

/-- The address is in the descriptor as it was put there. -/
theorem IsLeaf.address {n desc pa attrs : ℕ} (h : IsLeaf n desc pa attrs) (hn : n ≤ 2) :
    desc &&& 0x0000fffffffff000 = pa := by
  obtain ⟨hpage, hlt, hdesc⟩ := h.page hn
  obtain ⟨h4, hlow⟩ := blockAttrs_apart attrs
  have ht := leafType_lt (n + 1)
  rw [Xlat.and_address]
  omega

/-- What an address is translated to, whatever its attributes. -/
def XlatTables.address (X : XlatTables) (mem : ℕ → ℕ) (va : ℕ) : Option ℕ :=
  (X.translate mem va).map Prod.fst

namespace Xlat

variable {X : XlatTables} {s g : Xlat} {va : ℕ}

theorem walk_congr (h : Low s g) (va left table : ℕ) :
    (walk s.mem va left table).map Prod.fst = (walk g.mem va left table).map Prod.fst := by
  have htype : ∀ a, s.mem a % 4 = g.mem a % 4 := by
    intro a
    have := h.mem a
    omega
  induction left generalizing table with
  | zero =>
    simp only [walk, htype]
    split
    · simp only [Option.map_some, leafOf, h.mem]
    · rfl
  | succ left ih =>
    simp only [walk, htype, h.mem]
    split
    · exact ih _
    · split
      · simp only [Option.map_some, leafOf, h.mem]
      · rfl

/-- **They translate to the same addresses.** -/
theorem Low.address (h : Low s g) (va : ℕ) : X.address s.mem va = X.address g.mem va :=
  walk_congr h va 2 X.base

/-! ### A pass, beside tables in order -/

/-- **FindPteIndex goes into entries that there are.** -/
theorem Inv.accesses (h : Inv X g) (hva : va < 2 ^ 36) {level left k u : ℕ} (hk : k + left = 3)
    (hu : tableAt X g.mem (pathOf va k) = some u) :
    ∀ a ∈ accessesLoop g.mem va level left u, InTable X a := by
  induction left generalizing k u with
  | zero =>
    rintro a ha
    cases ha
  | succ left ih =>
    have hk2 : k ≤ 2 := by omega
    have hlevel : CONFIG_MMU_TABLE_LEVEL_MAX - left = k + 1 := by
      rw [CONFIG_MMU_TABLE_LEVEL_MAX]
      omega
    have hindex : getVaIndex va (k + 1) = (index va k).val := getVaIndex_eq va (k + 1)
    have hlt := h.index_lt hva hk2 hu
    rw [accessesLoop]
    simp only [hlevel, hindex]
    rintro a ha
    rcases List.mem_cons.mp ha with rfl | ha
    · rcases h.isTable (by rwa [pathOf_length]) hu with hbase | ⟨j, hj, hpool⟩
      · exact .inl ⟨hbase, hlt hbase⟩
      · exact .inr ⟨j, hj, hpool, (index va k).isLt⟩
    · split_ifs at ha with hlast htype
      · cases ha
      · cases ha
      · rw [not_not, pteDescType_eq] at htype
        rw [and_address] at ha
        exact ih (k := k + 1) (by omega) (h.tableAt_link hva hk2 hu htype) a ha

/-- **Going one level down** is along a link, or puts a table in the place of an entry. -/
theorem Inv.descends_cases (h : Inv X g) (hva : va < 2 ^ 36) {n t : ℕ} (hn : n < 2)
    (ht : tableAt X g.mem (pathOf va n) = some t) {g' : Xlat}
    (hd : Pass.Descends X g (t + 8 * index va n) (n + 1) g') :
    g.mem (t + 8 * index va n) % 4 = 3 ∧ g' = g ∨
      g.mem (t + 8 * index va n) % 4 ≠ 3 ∧ g.idx < CONFIG_MMU_MAX_XLAT_TABLES ∧
        Grown X g g' (t + 8 * index va n) va n := by
  cases hd with
  | empty htype hidx =>
    have h0 : g.mem (t + 8 * index va n) % 4 = 0 := (pteDescType_eq _).symm.trans htype
    exact .inr ⟨by omega, hidx, h.grown_empty hva hn ht hidx h0⟩
  | split htype hidx =>
    have h1 : g.mem (t + 8 * index va n) % 4 = 1 := (pteDescType_eq _).symm.trans htype
    rcases h.entry hva hn.le ht with hzero | ⟨pa, attrs, hleaf⟩ | ⟨-, h3⟩
    · omega
    · exact .inr ⟨by omega, hidx, h.grown_split hva hn ht hidx hleaf⟩
    · omega
  | link htype => exact .inl ⟨(pteDescType_eq _).symm.trans htype, rfl⟩

/-- **Going one level down** changes no translation. -/
theorem Inv.descends (h : Inv X g) (hva : va < 2 ^ 36) {n t : ℕ} (hn : n < 2)
    (ht : tableAt X g.mem (pathOf va n) = some t) {g' : Xlat}
    (hd : Pass.Descends X g (t + 8 * index va n) (n + 1) g') :
    Inv X g' ∧ (∃ u, tableAt X g'.mem (pathOf va (n + 1)) = some u) ∧
      ∀ x < 2 ^ 36, X.translate g'.mem x = X.translate g.mem x := by
  rcases h.descends_cases hva hn ht hd with ⟨h3, rfl⟩ | ⟨h3, hidx, hg⟩
  · exact ⟨h, ⟨_, h.tableAt_link hva hn.le ht h3⟩, fun _ _ => rfl⟩
  · obtain ⟨hinv, htable, htrans⟩ := h.table hva hn ht (child_eq_none h3) hidx hg
    exact ⟨hinv, ⟨_, htable⟩, htrans⟩

/-- What is left of a region, in the bits of an address that the tables are for. -/
structure Lays (va pa size : ℕ) : Prop where
  va_page : va % 4096 = 0
  size_page : size % 4096 = 0
  va_end : va + size ≤ 2 ^ 36
  aligned : ∀ n ≤ 2, ∀ d, (va + d) % 2 ^ levelShift (n + 1) = 0 →
    d + 2 ^ levelShift (n + 1) ≤ size → (pa + d) % 2 ^ levelShift (n + 1) = 0

/-- What is left after a block. -/
theorem Lays.next {va pa size n : ℕ} (h : Lays va pa size) (hn : n ≤ 2)
    (hsize : 2 ^ levelShift (n + 1) ≤ size) :
    Lays (va + 2 ^ levelShift (n + 1)) ((pa + 2 ^ levelShift (n + 1)) % 2 ^ 64)
      (size - 2 ^ levelShift (n + 1)) := by
  obtain ⟨hva, hsz, hend, hal⟩ := h
  have hpage := page_dvd_block hn
  refine ⟨by omega, by omega, by omega, fun k hk d hd hle => ?_⟩
  have hrest := hal k hk (d + 2 ^ levelShift (n + 1)) (by rw [← hd]; congr 1; omega) (by omega)
  rw [Nat.add_mod, Nat.mod_mod_of_dvd _ (pow_dvd_pow 2 Pass.levelShift_le), ← Nat.add_mod,
    ← hrest]
  congr 1
  omega

/-- **Tables in order beside those that a pass starts from**, with the table that the address at
hand leads to. -/
structure Pass.Stands (X : XlatTables) (g : Xlat) (p : Pass) (n t : ℕ) : Prop where
  depth : n ≤ 2
  level : p.level = n + 1
  low : Low p.s g
  inv : Inv X g
  table : tableAt X g.mem (pathOf (p.va % 2 ^ 39) n) = some t
  lays : Lays (p.va % 2 ^ 39) p.pa p.size

/-- A map with a range mapped anew, to the output addresses that descriptors have room for. -/
def mapLow (m : ℕ → Option ℕ) (va pa size x : ℕ) : Option ℕ :=
  if va ≤ x ∧ x < va + size then some ((pa + (x - va)) % 2 ^ 48) else m x

/-- A block and what is left of its region make up the region. -/
theorem mapLow_block {m m' : ℕ → Option ℕ} {va pa size b x : ℕ} (hpos : 0 < b)
    (hsize : b ≤ size) (hal : va % b = 0) (hpa : pa % 2 ^ 48 + b ≤ 2 ^ 48)
    (hm : m' x = if x / b = va / b then some (pa % 2 ^ 48 + x % b) else m x) :
    mapLow m' (va + b) ((pa + b) % 2 ^ 64) (size - b) x = mapLow m va pa size x := by
  simp only [same_block_iff hpos hal] at hm
  rw [mapLow, mapLow, hm]
  by_cases hblock : va ≤ x ∧ x < va + b
  · rw [if_neg (by omega), if_pos hblock, if_pos (by omega), mod_block hal hblock.1 hblock.2]
    exact congrArg some (by omega)
  by_cases hrest : va + b ≤ x ∧ x < va + b + (size - b)
  · rw [if_pos hrest, if_pos (by omega)]
    exact congrArg some (by omega)
  · rw [if_neg hrest, if_neg hblock, if_neg (by omega)]

namespace Pass

variable {p q : Pass} {n t : ℕ}

/-- The first addresses of a region are below the end of the tables. -/
theorem Stands.va_lt (h : Stands X g p n t) (hsize : p.size ≠ 0) : p.va % 2 ^ 39 < 2 ^ 36 := by
  have := h.lays.va_end
  omega

/-- The entry that is found. -/
theorem Stands.entry (h : Stands X g p n t) : p.s.findPteIndex X p.va p.level =
    some (t + 8 * index (p.va % 2 ^ 39) n) := by
  rw [h.low.findPteIndex (Nat.mod_mod ..).symm, h.level, findPteIndex_eq g h.depth h.table]

/-- What a block stands for is as aligned there as here. -/
theorem Stands.fits (h : Stands X g p n t) (hfits : p.Fits) :
    2 ^ levelShift (n + 1) ≤ p.size ∧ p.va % 2 ^ 39 % 2 ^ levelShift (n + 1) = 0 ∧
      p.pa % 2 ^ levelShift (n + 1) = 0 := by
  obtain ⟨hle, hal⟩ := fits_iff.mp hfits
  rw [h.level] at hle hal
  have hva : p.va % 2 ^ 39 % 2 ^ levelShift (n + 1) = 0 := by
    rcases level_cases h.depth with ⟨-, hs⟩ | ⟨-, hs⟩ | ⟨-, hs⟩ <;> rw [hs] at hal ⊢ <;> omega
  exact ⟨hle, hva, h.lays.aligned n h.depth 0 hva (by omega)⟩

theorem Stands.depth_lt (h : Stands X g p n t) (hsize : p.size ≠ 0) (hfits : ¬p.Fits) :
    n < 2 := by
  have hva := h.lays.va_page
  exact depth_lt_of_not_fits h.depth h.level (by omega) h.lays.size_page hsize hfits

/-- **The pass keeps to the tables.** -/
theorem Stands.sound (h : Stands X g p n t) (hsize : p.size ≠ 0) : p.Sound X := by
  have hva := h.va_lt hsize
  constructor
  · intro a ha
    have hcongr : p.accesses X = accessesLoop g.mem (p.va % 2 ^ 39) p.level 3 X.base :=
      accessesLoop_congr h.low (Nat.mod_mod ..).symm p.level le_rfl
    rw [hcongr] at ha
    exact h.inv.accesses hva (k := 0) rfl tableAt_nil a ha
  · intro leaf hleaf
    rw [leaves, h.entry, Option.elim_some, leavesAt] at hleaf
    by_cases hfits : p.Fits
    · rw [if_pos hfits] at hleaf
      obtain rfl := List.mem_singleton.mp hleaf
      rw [h.level]
      exact (h.fits hfits).2.2
    rw [if_neg hfits] at hleaf
    have hn := h.depth_lt hsize hfits
    have hmem := h.low.mem (t + 8 * index (p.va % 2 ^ 39) n)
    split_ifs at hleaf with hblock
    · -- the parts of a block are on the boundaries of their level
      rw [pteDescType_congr hmem, pteDescType_eq, PTE_BLOCK_DESC] at hblock
      obtain ⟨i, hi, rfl⟩ := List.mem_map.mp hleaf
      rcases h.inv.entry hva hn.le h.table with hzero | ⟨pa, attrs, hold⟩ | ⟨-, hlink⟩
      · omega
      · have hpart := hold.split hn (List.mem_range.mp hi)
        rw [and_address_congr (splitDesc_congr hmem p.level i), h.level, hpart.address hn]
        exact hpart.aligned
      · omega
    · cases hleaf

/-- **The next pass stands as this one does**, and with the same map to come. -/
theorem Stands.next (h : Stands X g p n t) (hpq : Then X p q) :
    ∃ g' m u, Stands X g' q m u ∧ ∀ x < 2 ^ 36,
      mapLow (X.address g'.mem) (q.va % 2 ^ 39) q.pa q.size x =
        mapLow (X.address g.mem) (p.va % 2 ^ 39) p.pa p.size x := by
  obtain ⟨hsize, hnext⟩ := hpq
  have hva := h.va_lt hsize
  obtain ⟨-, pte, hpte, hcases⟩ := next_cases hnext
  obtain rfl := Option.some.inj (h.entry.symm.trans hpte)
  rcases hcases with ⟨hfits, rfl⟩ | ⟨hfits, s, hdesc, rfl⟩
  · -- the block beside is at the output address that there is room for
    obtain ⟨hle, hal, hpal⟩ := h.fits hfits
    have hend := h.lays.va_end
    have hlow : p.pa % 2 ^ 48 % 2 ^ levelShift (n + 1) = 0 ∧
        p.pa % 2 ^ 48 + 2 ^ levelShift (n + 1) ≤ 2 ^ 48 := by
      rcases level_cases h.depth with ⟨-, hs⟩ | ⟨-, hs⟩ | ⟨-, hs⟩ <;> rw [hs] at hpal ⊢ <;> omega
    have hleaf : IsLeaf n (setPteBlockDesc (p.pa % 2 ^ 48) p.attrs (n + 1)) (p.pa % 2 ^ 48)
        p.attrs := ⟨rfl, hlow.1, hlow.2⟩
    obtain ⟨hinv, htrans⟩ := h.inv.block hva h.depth h.table hleaf
    have hvaq : (p.block (t + 8 * index (p.va % 2 ^ 39) n)).va % 2 ^ 39 =
        p.va % 2 ^ 39 + 2 ^ levelShift (n + 1) := by
      rw [block, h.level]
      change (p.va + 2 ^ levelShift (n + 1)) % 2 ^ 64 % 2 ^ 39 = _
      omega
    refine ⟨_, 0, X.base, ⟨Nat.zero_le 2, rfl, ?_, hinv, tableAt_nil, ?_⟩, fun x hx => ?_⟩
    · rw [block, h.level]
      exact h.low.store _ (setPteBlockDesc_mod ..).symm
    · rw [hvaq, block, h.level]
      exact h.lays.next h.depth hle
    · rw [hvaq, block, h.level]
      refine mapLow_block (Nat.two_pow_pos _) hle hal hlow.2 ?_
      rw [XlatTables.address, htrans x hx, hleaf.decode h.depth, XlatTables.address]
      split <;> rfl
  · have hn := h.depth_lt hsize hfits
    rw [h.level] at hdesc
    obtain ⟨g', hdesc', hlow⟩ := h.low.descends hdesc
    obtain ⟨hinv, ⟨u, hu⟩, htrans⟩ := h.inv.descends hva hn h.table hdesc'
    refine ⟨g', n + 1, u, ⟨hn, congrArg (· + 1) h.level, hlow, hinv, hu, h.lays⟩, fun x hx => ?_⟩
    rw [mapLow, mapLow, XlatTables.address, XlatTables.address, htrans x hx]

/-- **Every pass over a region keeps to the tables.** -/
theorem Stands.every (h : Stands X g p n t) : Every X (Sound X) p := by
  refine Every.of_inv (I := fun p => ∃ g n t, Stands X g p n t) ?_ ?_ ⟨g, n, t, h⟩
  · rintro p q hpq ⟨g, n, t, h⟩
    obtain ⟨g', m, u, hq, -⟩ := h.next hpq
    exact ⟨g', m, u, hq⟩
  · rintro p ⟨g, n, t, h⟩ hsize
    exact h.sound hsize

/-- **A region is mapped** when it has been gone through. -/
theorem Stands.maps {fuel : ℕ} {s' : Xlat} (h : Stands X g p n t) (hrun : p.run X fuel = .ok s') :
    ∃ g', Low s' g' ∧ Inv X g' ∧ ∀ x < 2 ^ 36, X.address g'.mem x =
      mapLow (X.address g.mem) (p.va % 2 ^ 39) p.pa p.size x := by
  induction fuel generalizing p g n t with
  | zero => cases hrun
  | succ fuel ih =>
    rw [run_succ] at hrun
    by_cases hsize : p.size = 0
    · rw [if_pos hsize] at hrun
      obtain rfl := Except.ok.inj hrun
      exact ⟨g, h.low, h.inv, fun x _ => (if_neg (by omega)).symm⟩
    · rw [if_neg hsize] at hrun
      obtain ⟨q, hq, hrun⟩ := Lib.bind_eq_ok.mp hrun
      obtain ⟨g₁, m, u, hstands, hmap⟩ := h.next ⟨hsize, hq⟩
      obtain ⟨g', hlow, hinv, hmaps⟩ := ih hstands hrun
      exact ⟨g', hlow, hinv, fun x hx => (hmaps x hx).trans (hmap x hx)⟩

end Pass

end Xlat

end Evisor
