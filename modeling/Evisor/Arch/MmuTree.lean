import Mathlib.Tactic.IntervalCases
import Evisor.Arch.Mmu
import Evisor.Lib.Radix

/-!
# The tables of the hypervisor as a tree

What `CreatePageTables` keeps of its tables (`Evisor.Xlat.Inv`), and what the two things
it does to them do to translations: a descriptor that is written changes those of the
addresses it stands for (`Evisor.Xlat.Inv.block`), and a table that takes the place of an
entry, empty or split, changes none (`Evisor.Xlat.Inv.table`).
-/

namespace Evisor

/-! ### Descriptors -/

/-- Only the low bits of the attributes are read. -/
theorem blockAttrs_mod (attrs : ℕ) : blockAttrs (attrs % 64) = blockAttrs attrs := by
  have hand : ∀ m < 64, attrs % 64 % 2 ^ 32 &&& m = attrs % 2 ^ 32 &&& m := by
    intro m hm
    have h64 : attrs % 64 % 2 ^ 32 = attrs % 2 ^ 32 % 2 ^ 6 := by omega
    rw [h64, Lib.mod_and_eq (n := 6) hm]
  simp only [blockAttrs, memType, hand _ (show (1 <<< 4 : ℕ) < 64 by decide),
    hand _ (show (1 <<< 3 : ℕ) < 64 by decide), hand _ (show (1 <<< 5 : ℕ) < 64 by decide),
    hand _ (show (0x7 : ℕ) < 64 by decide)]

/-- The attributes are apart from the type of a descriptor and from its address. -/
theorem blockAttrs_apart (attrs : ℕ) :
    blockAttrs attrs % 4 = 0 ∧ blockAttrs attrs % 2 ^ 48 < 4096 := by
  have hall : ∀ a < 64, blockAttrs a % 4 = 0 ∧ blockAttrs a % 2 ^ 48 < 4096 := by decide
  rw [← blockAttrs_mod]
  exact hall _ (Nat.mod_lt _ (by decide))

/-- The type of a descriptor that is no link. -/
def leafType (level : ℕ) : ℕ := if level = 3 then PTE_PAGE_DESC else PTE_BLOCK_DESC

theorem leafType_lt (level : ℕ) : leafType level < 4 := by
  rw [leafType]
  split <;> decide

/-- The parts of a descriptor do not overlap. -/
theorem setPteBlockDesc_eq {pa : ℕ} (attrs level : ℕ) (hal : pa % 4096 = 0) (hpa : pa < 2 ^ 48) :
    setPteBlockDesc pa attrs level = pa + leafType level + blockAttrs attrs := by
  obtain ⟨h4, hlow⟩ := blockAttrs_apart attrs
  have ht := leafType_lt level
  set A := blockAttrs attrs with hA
  have hhigh : A = A / 2 ^ 48 * 2 ^ 48 ||| A % 2 ^ 48 := by
    rw [Lib.or_eq_add (k := 48) (Nat.mul_mod_left ..) (Nat.mod_lt _ (by decide))]
    omega
  have htype : leafType level ||| A % 2 ^ 48 = A % 2 ^ 48 + leafType level := by
    rw [Nat.or_comm, Lib.or_eq_add (k := 2) (by omega) ht]
  calc setPteBlockDesc pa attrs level = pa ||| leafType level ||| A := rfl
    _ = A / 2 ^ 48 * 2 ^ 48 ||| (pa ||| (leafType level ||| A % 2 ^ 48)) := by
        conv_lhs => rw [hhigh]
        rw [Nat.or_comm (A / 2 ^ 48 * 2 ^ 48), ← Nat.or_assoc, Nat.or_comm,
          Nat.or_assoc pa]
    _ = A / 2 ^ 48 * 2 ^ 48 + (pa + (A % 2 ^ 48 + leafType level)) := by
        rw [htype, Lib.or_eq_add (k := 12) hal (by omega),
          Lib.or_eq_add (k := 48) (Nat.mul_mod_left ..) (by omega)]
    _ = pa + leafType level + A := by omega

/-- **A descriptor of a block or a page**, in a table at depth `n`. -/
structure IsLeaf (n desc pa attrs : ℕ) : Prop where
  desc_eq : desc = setPteBlockDesc pa attrs (n + 1)
  aligned : pa % 2 ^ levelShift (n + 1) = 0
  fits : pa + 2 ^ levelShift (n + 1) ≤ 2 ^ 48

/-- What a descriptor that is no link gives, in a table at depth `n`. -/
def decode (n desc va : ℕ) : Option (ℕ × ℕ) :=
  if desc % 4 = leafType (n + 1) then some (leafOf desc va (levelShift (n + 1))) else none

/-- There are three levels. -/
theorem level_cases {n : ℕ} (hn : n ≤ 2) : n = 0 ∧ levelShift (n + 1) = 30 ∨
    n = 1 ∧ levelShift (n + 1) = 21 ∨ n = 2 ∧ levelShift (n + 1) = 12 := by
  interval_cases n
  · exact .inl ⟨rfl, rfl⟩
  · exact .inr (.inl ⟨rfl, rfl⟩)
  · exact .inr (.inr ⟨rfl, rfl⟩)

/-- A block is made up of pages. -/
theorem page_dvd_block {n : ℕ} (hn : n ≤ 2) : 2 ^ levelShift (n + 1) % 4096 = 0 := by
  rcases level_cases hn with ⟨-, hs⟩ | ⟨-, hs⟩ | ⟨-, hs⟩ <;> rw [hs] <;> rfl

/-- The address of a block is one of a page. -/
theorem IsLeaf.page {n desc pa attrs : ℕ} (h : IsLeaf n desc pa attrs) (hn : n ≤ 2) :
    pa % 4096 = 0 ∧ pa < 2 ^ 48 ∧ desc = pa + leafType (n + 1) + blockAttrs attrs := by
  have hal := h.aligned
  have hfits := h.fits
  have hpos : 0 < 2 ^ levelShift (n + 1) := Nat.two_pow_pos _
  have hpage : pa % 4096 = 0 := by
    rcases level_cases hn with ⟨-, hs⟩ | ⟨-, hs⟩ | ⟨-, hs⟩ <;> rw [hs] at hal <;> omega
  have hlt : pa < 2 ^ 48 := by omega
  exact ⟨hpage, hlt, h.desc_eq.trans (setPteBlockDesc_eq attrs _ hpage hlt)⟩

/-- **A descriptor is read as it was written.** -/
theorem IsLeaf.decode {n desc pa attrs : ℕ} (h : IsLeaf n desc pa attrs) (hn : n ≤ 2) (va : ℕ) :
    decode n desc va = some (pa + va % 2 ^ levelShift (n + 1), blockAttrs attrs) := by
  obtain ⟨hpage, hlt, hdesc⟩ := h.page hn
  obtain ⟨h4, hlow⟩ := blockAttrs_apart attrs
  have ht := leafType_lt (n + 1)
  have hal := h.aligned
  have htype : desc % 4 = leafType (n + 1) := by omega
  have haddr : desc % 2 ^ 48 = pa + (leafType (n + 1) + blockAttrs attrs % 2 ^ 48) := by omega
  have hattr : desc / 2 ^ 48 * 2 ^ 48 + desc % 4096 / 4 * 4 = blockAttrs attrs := by omega
  have hfield : leafType (n + 1) + blockAttrs attrs % 2 ^ 48 < 2 ^ levelShift (n + 1) := by
    rcases level_cases hn with ⟨-, hs⟩ | ⟨-, hs⟩ | ⟨-, hs⟩ <;> rw [hs] <;> omega
  rw [Evisor.decode, if_pos htype, leafOf, hattr, haddr, Lib.add_div_mul_of_aligned hal hfield]

theorem IsLeaf.type {n desc pa attrs : ℕ} (h : IsLeaf n desc pa attrs) (hn : n ≤ 2) :
    desc % 4 = leafType (n + 1) := by
  obtain ⟨hpage, hlt, hdesc⟩ := h.page hn
  obtain ⟨h4, -⟩ := blockAttrs_apart attrs
  have ht := leafType_lt (n + 1)
  omega

/-- A block becomes a page when its type is set. -/
theorem or_page {x : ℕ} (hx : x % 4 = 1) : x ||| PTE_PAGE_DESC = x + 2 := by
  have hal : x / 4 * 4 % 2 ^ 2 = 0 := Nat.mul_mod_left ..
  have hblock : x = x / 4 * 4 ||| 1 := by
    rw [Lib.or_eq_add (k := 2) hal (by decide)]
    omega
  calc x ||| PTE_PAGE_DESC = x / 4 * 4 ||| 3 := by
        conv_lhs => rw [hblock]
        exact Nat.or_assoc ..
    _ = x + 2 := by
        rw [Lib.or_eq_add (k := 2) hal (by decide)]
        omega

/-- A block has nine clear bits for the entries it is split into. -/
theorem IsLeaf.field {n desc pa attrs : ℕ} (h : IsLeaf n desc pa attrs) (hn : n < 2) :
    desc / 2 ^ levelShift (n + 2) % 2 ^ 9 = 0 ∧
      2 ^ levelShift (n + 1) = 512 * 2 ^ levelShift (n + 2) := by
  obtain ⟨hpage, hlt, hdesc⟩ := h.page hn.le
  obtain ⟨h4, hlow⟩ := blockAttrs_apart attrs
  have hal := h.aligned
  have ht := leafType_lt (n + 1)
  have h30 : levelShift 1 = 30 := rfl
  have h21 : levelShift 2 = 21 := rfl
  have h12 : levelShift 3 = 12 := rfl
  interval_cases n
  · rw [h30] at hal
    rw [h30, h21]
    omega
  · rw [h21] at hal
    rw [h21, h12]
    omega

/-- **A block that is split** becomes the blocks, or the pages, it is made up of. -/
theorem IsLeaf.split {n desc pa attrs i : ℕ} (h : IsLeaf n desc pa attrs) (hn : n < 2)
    (hi : i < 512) : IsLeaf (n + 1) (Xlat.splitDesc desc (n + 1) i)
      (pa + i * 2 ^ levelShift (n + 2)) attrs := by
  obtain ⟨hpage, hlt, hdesc⟩ := h.page hn.le
  obtain ⟨hclear, hsize⟩ := h.field hn
  have htype := h.type hn.le
  have hal := h.aligned
  have hfits := h.fits
  have hdvd : 4096 ∣ 2 ^ levelShift (n + 2) := by
    interval_cases n <;> decide
  set b := 2 ^ levelShift (n + 2) with hb
  have hpos : 0 < b := Nat.two_pow_pos _
  have hib : i * b + b ≤ 512 * b := by
    rw [← Nat.succ_mul]
    exact Nat.mul_le_mul_right _ hi
  have halb : (pa + i * b) % b = 0 := by
    rw [Nat.add_mul_mod_self_right]
    rw [hsize] at hal
    exact Nat.mod_eq_zero_of_dvd ((Nat.dvd_mul_left ..).trans (Nat.dvd_of_mod_eq_zero hal))
  have hpage' : (pa + i * b) % 4096 = 0 :=
    Nat.mod_eq_zero_of_dvd (hdvd.trans (Nat.dvd_of_mod_eq_zero halb))
  have hib4 : i * b % 4 = 0 :=
    Nat.mod_eq_zero_of_dvd (((by decide : 4 ∣ 4096).trans hdvd).trans (Nat.dvd_mul_left ..))
  -- the number of the part is or-ed into bits that are clear, and so is added
  have hdesc' : Xlat.splitDesc desc (n + 1) i =
      if n + 1 = 2 then desc + i * b ||| PTE_PAGE_DESC else desc + i * b := by
    rw [Xlat.splitDesc, Lib.or_shiftLeft_eq_add hclear hi]
  generalize i * b = c at hib halb hpage' hib4 hdesc'
  have hfits' : pa + c + b ≤ 2 ^ 48 := by omega
  refine ⟨?_, halb, hfits'⟩
  rw [hdesc', setPteBlockDesc_eq attrs _ hpage' (by omega)]
  interval_cases n
  · have h1 : leafType (0 + 1) = 1 := rfl
    have h2 : leafType (0 + 1 + 1) = 1 := rfl
    rw [if_neg (by decide)]
    omega
  · have h2 : leafType (1 + 1) = 1 := rfl
    have h3 : leafType (1 + 1 + 1) = 3 := rfl
    rw [if_pos rfl, or_page (by omega)]
    omega

namespace Xlat

/-! ### Paths -/

/-- The index of an address in a table at depth `n`. -/
def index (va n : ℕ) : Fin 512 := ⟨va / 2 ^ levelShift (n + 1) % 512, Nat.mod_lt _ (by decide)⟩

/-- The path of an address to the table at depth `n`. -/
def pathOf (va : ℕ) : ℕ → List (Fin 512)
  | 0 => []
  | n + 1 => pathOf va n ++ [index va n]

@[simp] theorem pathOf_length (va n : ℕ) : (pathOf va n).length = n := by
  induction n with
  | zero => rfl
  | succ n ih => rw [pathOf, List.length_append, ih, List.length_singleton]

theorem pathOf_mono (va : ℕ) {n k : ℕ} (h : n ≤ k) : pathOf va n <+: pathOf va k := by
  induction h with
  | refl => exact List.prefix_rfl
  | step _ ih => exact ih.trans (List.prefix_append ..)

/-- Addresses that differ in what is left only take the same path. -/
theorem pathOf_congr {va va' n : ℕ} (hn : n ≤ CONFIG_MMU_TABLE_LEVEL_MAX)
    (h : va / 2 ^ levelShift n = va' / 2 ^ levelShift n) : pathOf va n = pathOf va' n := by
  induction n with
  | zero => rfl
  | succ n ih =>
    have hshift : levelShift n = levelShift (n + 1) + 9 := by
      rw [levelShift, levelShift]
      omega
    have hup : va / 2 ^ levelShift n = va' / 2 ^ levelShift n := by
      rw [hshift, pow_add, ← Nat.div_div_eq_div_mul, h, Nat.div_div_eq_div_mul]
    have hindex : index va n = index va' n := by rw [index, index, Fin.mk.injEq, h]
    rw [pathOf, pathOf, ih (Nat.le_of_succ_le hn) hup, hindex]

/-- **Two addresses take the same path** when they differ in what is left only. -/
theorem pathOf_eq_iff {va va' n : ℕ} (hn : n ≤ 2) (h : va < 2 ^ 36) (h' : va' < 2 ^ 36) :
    pathOf va (n + 1) = pathOf va' (n + 1) ↔
      va / 2 ^ levelShift (n + 1) = va' / 2 ^ levelShift (n + 1) := by
  refine ⟨fun hpath => ?_, pathOf_congr (Nat.succ_le_succ hn)⟩
  have h30 : levelShift 1 = 30 := rfl
  have h21 : levelShift 2 = 21 := rfl
  have h12 : levelShift 3 = 12 := rfl
  have hindex : ∀ k, index va k = index va' k ↔
      va / 2 ^ levelShift (k + 1) % 512 = va' / 2 ^ levelShift (k + 1) % 512 := fun _ => Fin.ext_iff
  interval_cases n
  · simp only [pathOf, List.nil_append, List.cons.injEq, and_true, hindex, h30] at hpath ⊢
    omega
  · simp only [pathOf, List.nil_append, List.cons_append, List.cons.injEq, and_true, hindex, h30,
      h21] at hpath ⊢
    omega
  · simp only [pathOf, List.nil_append, List.cons_append, List.cons.injEq, and_true, hindex, h30,
      h21, h12] at hpath ⊢
    omega

/-- A path goes on from another when the addresses take the same path up to there. -/
theorem prefix_iff {va va' n k : ℕ} (hn : n ≤ 2) (h : va < 2 ^ 36) (h' : va' < 2 ^ 36) :
    pathOf va n ++ [index va n] <+: pathOf va' k ↔
      n < k ∧ va' / 2 ^ levelShift (n + 1) = va / 2 ^ levelShift (n + 1) := by
  rw [eq_comm (b := va / 2 ^ levelShift (n + 1)), ← pathOf_eq_iff hn h h']
  constructor
  · intro hpre
    have hle : n + 1 ≤ k := by
      have := hpre.length_le
      rwa [List.length_append, pathOf_length, pathOf_length] at this
    refine ⟨hle, ?_⟩
    refine (List.prefix_of_prefix_length_le hpre (pathOf_mono va' hle) ?_).eq_of_length ?_
    · rw [pathOf_length, List.length_append, pathOf_length, List.length_singleton]
    · rw [pathOf_length, List.length_append, pathOf_length, List.length_singleton]
  · rintro ⟨hle, heq⟩
    change pathOf va (n + 1) <+: pathOf va' k
    rw [heq]
    exact pathOf_mono va' hle

/-! ### The tree -/

/-- The table that an entry leads to. The first table has 64 entries. -/
def child (X : XlatTables) (mem : ℕ → ℕ) (table : ℕ) (i : Fin 512) : Option ℕ :=
  if table = X.base ∧ NUM_BASE_LEVEL_ENTRIES ≤ i.val then none
  else if mem (table + 8 * i) % 4 = 3 then some (mem (table + 8 * i) % 2 ^ 48 / 4096 * 4096)
  else none

/-- The table at the end of a path. -/
abbrev tableAt (X : XlatTables) (mem : ℕ → ℕ) (p : List (Fin 512)) : Option ℕ :=
  Lib.reach (child X mem) (fun _ : Unit => some X.base) () p

/-- What an entry of a table at depth `n` may hold. -/
def EntryOk (n desc : ℕ) : Prop :=
  desc = 0 ∨ (∃ pa attrs, IsLeaf n desc pa attrs) ∨ n < 2 ∧ desc % 4 = 3

/-- **What building the tables keeps.** -/
structure Inv (X : XlatTables) (s : Xlat) : Prop where
  /-- No table is used twice. -/
  separated : Lib.Separated (child X s.mem) (fun _ : Unit => some X.base) 2
  /-- Tables other than the first have been taken. -/
  taken : ∀ {p t}, p.length ≤ 2 → tableAt X s.mem p = some t →
    t = X.base ∨ ∃ k < s.idx, t = X.pool + 4096 * k
  idx_le : s.idx ≤ CONFIG_MMU_MAX_XLAT_TABLES
  /-- Tables that have not been taken are empty. -/
  fresh : ∀ k, s.idx ≤ k → k < CONFIG_MMU_MAX_XLAT_TABLES →
    ∀ i : Fin 512, s.mem (X.pool + 4096 * k + 8 * i) = 0
  entry : ∀ {va n t}, va < 2 ^ 36 → n ≤ 2 → tableAt X s.mem (pathOf va n) = some t →
    EntryOk n (s.mem (t + 8 * index va n))

/-- **The table at which a walk ends.** -/
structure Ends (X : XlatTables) (mem : ℕ → ℕ) (va n t : ℕ) : Prop where
  le : n ≤ 2
  table : tableAt X mem (pathOf va n) = some t
  last : n < 2 → child X mem t (index va n) = none

variable {X : XlatTables} {s s' : Xlat} {mem mem' : ℕ → ℕ} {va va' n k t u : ℕ}

theorem tableAt_nil : tableAt X mem [] = some X.base := Lib.reach_nil ()

theorem tableAt_succ : tableAt X mem (pathOf va (n + 1)) =
    (tableAt X mem (pathOf va n)).bind fun t => child X mem t (index va n) := Lib.reach_concat ..

/-- Every walk ends. -/
theorem exists_ends (X : XlatTables) (mem : ℕ → ℕ) (va : ℕ) : ∃ n t, Ends X mem va n t := by
  have h0 : tableAt X mem (pathOf va 0) = some X.base := tableAt_nil
  cases h1 : child X mem X.base (index va 0) with
  | none => exact ⟨0, X.base, Nat.zero_le _, h0, fun _ => h1⟩
  | some t₁ =>
    have ht₁ : tableAt X mem (pathOf va 1) = some t₁ := by
      rw [tableAt_succ, h0, Option.bind_some, h1]
    cases h2 : child X mem t₁ (index va 1) with
    | none => exact ⟨1, t₁, by decide, ht₁, fun _ => h2⟩
    | some t₂ =>
      have ht₂ : tableAt X mem (pathOf va 2) = some t₂ := by
        rw [tableAt_succ, ht₁, Option.bind_some, h2]
      exact ⟨2, t₂, le_rfl, ht₂, fun h => absurd h (by decide)⟩

/-- The index of an address in the first table. -/
theorem index_zero_lt (hva : va < 2 ^ 36) : (index va 0).val < NUM_BASE_LEVEL_ENTRIES := by
  have h30 : levelShift 1 = 30 := rfl
  change va / 2 ^ levelShift 1 % 512 < 64
  rw [h30]
  omega

/-- The first table is at the end of one path. -/
theorem Inv.index_lt (h : Inv X s) (hva : va < 2 ^ 36) (hn : n ≤ 2)
    (ht : tableAt X s.mem (pathOf va n) = some t) (hbase : t = X.base) :
    (index va n).val < NUM_BASE_LEVEL_ENTRIES := by
  subst hbase
  have hpath : pathOf va n = [] :=
    (h.separated.inj (by rwa [pathOf_length]) (Nat.zero_le _) ht tableAt_nil).2
  have hn0 : n = 0 := by rw [← pathOf_length va n, hpath, List.length_nil]
  subst hn0
  exact index_zero_lt hva

/-- An entry that is no link leads nowhere. -/
theorem child_eq_none {i : Fin 512} (h3 : mem (t + 8 * i) % 4 ≠ 3) : child X mem t i = none := by
  rw [child, if_neg h3, ite_self]

/-- A link leads to a table. -/
theorem Inv.tableAt_link (h : Inv X s) (hva : va < 2 ^ 36) (hn : n ≤ 2)
    (ht : tableAt X s.mem (pathOf va n) = some t) (h3 : s.mem (t + 8 * index va n) % 4 = 3) :
    tableAt X s.mem (pathOf va (n + 1)) =
      some (s.mem (t + 8 * index va n) % 2 ^ 48 / 4096 * 4096) := by
  have hlt := h.index_lt hva hn ht
  rw [tableAt_succ, ht, Option.bind_some, child,
    if_neg fun hb => absurd (hlt hb.1) (Nat.not_lt.mpr hb.2), if_pos h3]

/-- A walk goes on at a link. -/
theorem walk_link (hn : n < 2) (hc : child X mem t (index va n) = some u) :
    walk mem va (2 - n) t = walk mem va (1 - n) u := by
  rw [child] at hc
  split at hc
  · cases hc
  split at hc
  swap
  · cases hc
  rename_i h3
  obtain rfl := Option.some.inj hc
  interval_cases n
  · exact if_pos h3
  · exact if_pos h3

/-- A walk ends at an entry that is no link. -/
theorem walk_last (hn : n ≤ 2) (hlast : n < 2 → child X mem t (index va n) = none)
    (hlt : t = X.base → (index va n).val < NUM_BASE_LEVEL_ENTRIES) :
    walk mem va (2 - n) t = decode n (mem (t + 8 * index va n)) va := by
  have h3 : n < 2 → ¬mem (t + 8 * index va n) % 4 = 3 := by
    intro hn' h3
    have hc := hlast hn'
    rw [child, if_neg fun hb => absurd (hlt hb.1) (Nat.not_lt.mpr hb.2), if_pos h3] at hc
    cases hc
  interval_cases n
  · exact if_neg (h3 (by decide))
  · exact if_neg (h3 (by decide))
  · rfl

/-- **A translation is settled by the entry at which its walk ends.** -/
theorem Inv.translate (h : Inv X s) (hva : va < 2 ^ 36) (he : Ends X s.mem va n t) :
    X.translate s.mem va = decode n (s.mem (t + 8 * index va n)) va := by
  obtain ⟨hn, ht, hlast⟩ := he
  have hlt := h.index_lt hva hn ht
  have hend := walk_last hn hlast hlt
  rw [XlatTables.translate, ← hend]
  interval_cases n
  · obtain rfl := Option.some.inj (tableAt_nil.symm.trans ht)
    rfl
  · obtain ⟨t₀, ht₀, hc⟩ := Lib.reach_concat_eq_some.mp ht
    obtain rfl := Option.some.inj (tableAt_nil.symm.trans ht₀)
    exact walk_link (n := 0) (by decide) hc
  · obtain ⟨t₁, ht₁, hc₁⟩ := Lib.reach_concat_eq_some.mp ht
    obtain ⟨t₀, ht₀, hc₀⟩ := Lib.reach_concat_eq_some.mp ht₁
    obtain rfl := Option.some.inj (tableAt_nil.symm.trans ht₀)
    exact (walk_link (n := 0) (by decide) hc₀).trans (walk_link (n := 1) (by decide) hc₁)

/-- **No word is an entry of two tables.** -/
theorem entry_inj {i j : Fin 512}
    (ht : t = X.base ∨ ∃ k < CONFIG_MMU_MAX_XLAT_TABLES, t = X.pool + 4096 * k)
    (hu : u = X.base ∨ ∃ k < CONFIG_MMU_MAX_XLAT_TABLES, u = X.pool + 4096 * k)
    (hi : t = X.base → i.val < NUM_BASE_LEVEL_ENTRIES)
    (hj : u = X.base → j.val < NUM_BASE_LEVEL_ENTRIES) (h : t + 8 * i.val = u + 8 * j.val) :
    t = u ∧ i = j := by
  have hapart := X.apart
  have hilt := i.isLt
  have hjlt := j.isLt
  simp only [CONFIG_MMU_MAX_XLAT_TABLES, NUM_BASE_LEVEL_ENTRIES] at *
  rcases ht with rfl | ⟨k, hk, rfl⟩ <;> rcases hu with rfl | ⟨l, hl, rfl⟩
  · exact ⟨rfl, Fin.ext (by omega)⟩
  · have := hi rfl
    omega
  · have := hj rfl
    omega
  · exact ⟨by omega, Fin.ext (by omega)⟩

theorem Inv.isTable (h : Inv X s) {p : List (Fin 512)} (hp : p.length ≤ 2)
    (ht : tableAt X s.mem p = some t) :
    t = X.base ∨ ∃ k < CONFIG_MMU_MAX_XLAT_TABLES, t = X.pool + 4096 * k :=
  (h.taken hp ht).imp_right fun ⟨k, hk, heq⟩ => ⟨k, hk.trans_le h.idx_le, heq⟩

/-- A table of the tree has the index of an address it is at the path of. -/
theorem Inv.entry_eq_iff (h : Inv X s) (hva : va < 2 ^ 36) (hn : n ≤ 2)
    (ht : tableAt X s.mem (pathOf va n) = some t) {p : List (Fin 512)} (hp : p.length ≤ 2)
    (hu : tableAt X s.mem p = some u) {j : Fin 512}
    (hj : u = X.base → j.val < NUM_BASE_LEVEL_ENTRIES) :
    u + 8 * j.val = t + 8 * (index va n).val ↔ u = t ∧ j = index va n := by
  have hlen : (pathOf va n).length ≤ 2 := by rwa [pathOf_length]
  refine ⟨entry_inj (h.isTable hp hu) (h.isTable hlen ht) hj (h.index_lt hva hn ht), ?_⟩
  rintro ⟨rfl, rfl⟩
  rfl

/-- Any other entry of the tree is another word. -/
theorem Inv.entry_ne (h : Inv X s) (hva : va < 2 ^ 36) (hn : n ≤ 2)
    (ht : tableAt X s.mem (pathOf va n) = some t) {p : List (Fin 512)} (hp : p.length ≤ 2)
    (hu : tableAt X s.mem p = some u) {j : Fin 512}
    (hj : u = X.base → j.val < NUM_BASE_LEVEL_ENTRIES) (hne : u = t → j ≠ index va n) :
    u + 8 * j.val ≠ t + 8 * (index va n).val := by
  rw [Ne, h.entry_eq_iff hva hn ht hp hu hj]
  rintro ⟨rfl, rfl⟩
  exact hne rfl rfl

/-- An entry that has not been written leads to where it did. -/
theorem child_congr {j : Fin 512} (h : (u = X.base → j.val < NUM_BASE_LEVEL_ENTRIES) →
    mem' (u + 8 * j) = mem (u + 8 * j)) : child X mem' u j = child X mem u j := by
  rw [child, child]
  by_cases hb : u = X.base ∧ NUM_BASE_LEVEL_ENTRIES ≤ j.val
  · rw [if_pos hb, if_pos hb]
  · rw [if_neg hb, if_neg hb, h fun hu => Nat.lt_of_not_le fun hj => hb ⟨hu, hj⟩]

/-- Where two addresses have an entry in common, they take the same path. -/
theorem Inv.same_path (h : Inv X s) (hva : va < 2 ^ 36) (hva' : va' < 2 ^ 36) (hn : n ≤ 2)
    (hk : k ≤ 2) (ht : tableAt X s.mem (pathOf va n) = some t)
    (hu : tableAt X s.mem (pathOf va' k) = some t) (hi : index va' k = index va n) :
    k = n ∧ va' / 2 ^ levelShift (n + 1) = va / 2 ^ levelShift (n + 1) := by
  have hpath : pathOf va' k = pathOf va n :=
    (h.separated.inj (by rwa [pathOf_length]) (by rwa [pathOf_length]) hu ht).2
  have hkn : k = n := by rw [← pathOf_length va' k, hpath, pathOf_length]
  subst hkn
  refine ⟨rfl, (pathOf_eq_iff hk hva' hva).mp ?_⟩
  rw [pathOf, pathOf, hpath, hi]

/-- An entry of a table of the tree is not one of a table that is still to be taken. -/
theorem Inv.entry_not_fresh (h : Inv X s) (hva : va < 2 ^ 36) (hn : n ≤ 2)
    (ht : tableAt X s.mem (pathOf va n) = some t) (hk : s.idx ≤ k)
    (hmax : k < CONFIG_MMU_MAX_XLAT_TABLES) (i : Fin 512) :
    X.pool + 4096 * k + 8 * i.val ≠ t + 8 * (index va n).val := by
  intro heq
  have hlt := h.index_lt hva hn ht
  have hapart := X.apart
  have hi := i.isLt
  have hj := (index va n).isLt
  simp only [CONFIG_MMU_MAX_XLAT_TABLES, NUM_BASE_LEVEL_ENTRIES] at *
  rcases h.taken (by rwa [pathOf_length]) ht with hbase | ⟨l, hl, rfl⟩
  · have := hlt hbase
    omega
  · omega

/-- A walk that ends still ends where it did if the tables it goes through are the same. -/
theorem Ends.congr (he : Ends X mem va n t)
    (htable : tableAt X mem' (pathOf va n) = tableAt X mem (pathOf va n))
    (hchild : n < 2 → child X mem' t (index va n) = child X mem t (index va n)) :
    Ends X mem' va n t :=
  ⟨he.le, htable.trans he.table, fun hn => (hchild hn).trans (he.last hn)⟩

/-! ### Writing a descriptor -/

section Block

variable {desc pa attrs : ℕ} {p : List (Fin 512)}

/-- The other entries lead to where they did. -/
theorem Inv.block_child (h : Inv X s) (hva : va < 2 ^ 36) (hn : n ≤ 2)
    (ht : tableAt X s.mem (pathOf va n) = some t) (desc : ℕ) (hp : p.length ≤ 2)
    (hu : tableAt X s.mem p = some u) {j : Fin 512} (hne : u = t → j ≠ index va n) :
    child X (s.store (t + 8 * index va n) desc).mem u j = child X s.mem u j :=
  child_congr fun hj => Function.update_of_ne (h.entry_ne hva hn ht hp hu hj hne) ..

/-- The entry leads nowhere. -/
theorem block_last (s : Xlat) (hleaf : IsLeaf n desc pa attrs) (hn : n < 2) :
    child X (s.store (t + 8 * index va n) desc).mem t (index va n) = none := by
  have hself : (s.store (t + 8 * index va n) desc).mem (t + 8 * index va n) = desc :=
    Function.update_self ..
  have htype := hleaf.type hn.le
  have h1 : leafType (n + 1) = 1 := if_neg (by omega)
  rw [child, hself]
  split
  · rfl
  · rw [if_neg (by omega)]

/-- The paths through it are cut off. -/
theorem Inv.block_reach (h : Inv X s) (hva : va < 2 ^ 36) (hn : n ≤ 2)
    (ht : tableAt X s.mem (pathOf va n) = some t) (hleaf : IsLeaf n desc pa attrs)
    (hp : p.length ≤ 2) : tableAt X (s.store (t + 8 * index va n) desc).mem p =
      if pathOf va n ++ [index va n] <+: p then none else tableAt X s.mem p := by
  have hcut : tableAt X (s.store (t + 8 * index va n) desc).mem p =
      if () = () ∧ pathOf va n ++ [index va n] <+: p then none else tableAt X s.mem p :=
    Lib.reach_cut h.separated rfl (by rwa [pathOf_length]) ht
      (fun hlen => block_last s hleaf (by rwa [pathOf_length] at hlen))
      (fun hq hu _ => h.block_child hva hn ht desc hq.le hu) () hp
  exact hcut.trans (if_congr (and_iff_right rfl) rfl rfl)

theorem Inv.block_sub (h : Inv X s) (hva : va < 2 ^ 36) (hn : n ≤ 2)
    (ht : tableAt X s.mem (pathOf va n) = some t) (hleaf : IsLeaf n desc pa attrs)
    (hp : p.length ≤ 2) (hu : tableAt X (s.store (t + 8 * index va n) desc).mem p = some u) :
    tableAt X s.mem p = some u := by
  rw [h.block_reach hva hn ht hleaf hp] at hu
  split at hu
  · cases hu
  · exact hu

theorem Inv.block_inv (h : Inv X s) (hva : va < 2 ^ 36) (hn : n ≤ 2)
    (ht : tableAt X s.mem (pathOf va n) = some t) (hleaf : IsLeaf n desc pa attrs) :
    Inv X (s.store (t + 8 * index va n) desc) where
  separated := h.separated.cut fun hp hu => h.block_sub hva hn ht hleaf hp hu
  taken hp hu := h.taken hp (h.block_sub hva hn ht hleaf hp hu)
  idx_le := h.idx_le
  fresh k hk hmax i := by
    have hold : (s.store (t + 8 * index va n) desc).mem (X.pool + 4096 * k + 8 * i) = _ :=
      Function.update_of_ne (h.entry_not_fresh hva hn ht hk hmax i) ..
    rw [hold]
    exact h.fresh k hk hmax i
  entry {va' k u} hva' hk hu := by
    have hu' := h.block_sub hva hn ht hleaf (by rwa [pathOf_length]) hu
    by_cases heq : u = t ∧ index va' k = index va n
    · -- it is the entry written, and at the depth of that
      obtain ⟨rfl, hi⟩ := heq
      obtain ⟨rfl, -⟩ := h.same_path hva hva' hn hk ht hu' hi
      have hself : (s.store (u + 8 * index va k) desc).mem (u + 8 * index va k) = desc :=
        Function.update_self ..
      rw [hi, hself]
      exact .inr (.inl ⟨pa, attrs, hleaf⟩)
    · have hold : (s.store (t + 8 * index va n) desc).mem (u + 8 * index va' k) = _ :=
        Function.update_of_ne (h.entry_ne hva hn ht (by rwa [pathOf_length]) hu'
          (h.index_lt hva' hk hu') fun hut hi => heq ⟨hut, hi⟩) ..
      rw [hold]
      exact h.entry hva' hk hu'

/-- **Writing a block or a page.** -/
theorem Inv.block (h : Inv X s) (hva : va < 2 ^ 36) (hn : n ≤ 2)
    (ht : tableAt X s.mem (pathOf va n) = some t) (hleaf : IsLeaf n desc pa attrs) :
    Inv X (s.store (t + 8 * index va n) desc) ∧ ∀ va' < 2 ^ 36,
      X.translate (s.store (t + 8 * index va n) desc).mem va' =
        if va' / 2 ^ levelShift (n + 1) = va / 2 ^ levelShift (n + 1) then decode n desc va'
        else X.translate s.mem va' := by
  have hlen : (pathOf va n).length ≤ 2 := by rwa [pathOf_length]
  have hinv := h.block_inv hva hn ht hleaf
  refine ⟨hinv, fun va' hva' => ?_⟩
  split
  case isTrue hsame =>
    -- the walk ends at the entry written
    have hpath : pathOf va' n = pathOf va n ∧ index va' n = index va n := by
      have := List.append_inj' ((pathOf_eq_iff hn hva' hva).mpr hsame) rfl
      exact ⟨this.1, List.singleton_inj.mp this.2⟩
    have htable : tableAt X (s.store (t + 8 * index va n) desc).mem (pathOf va' n) = some t := by
      rw [hpath.1, h.block_reach hva hn ht hleaf hlen, if_neg, ht]
      intro hpre
      have := ((prefix_iff hn hva hva).mp hpre).1
      omega
    have hself : (s.store (t + 8 * index va n) desc).mem (t + 8 * index va n) = desc :=
      Function.update_self ..
    have he : Ends X (s.store (t + 8 * index va n) desc).mem va' n t :=
      ⟨hn, htable, fun hn' => hpath.2 ▸ block_last s hleaf hn'⟩
    rw [hinv.translate hva' he, hpath.2, hself]
  case isFalse hnot =>
    -- it ends at another one, as before
    obtain ⟨k, u, he⟩ := exists_ends X s.mem va'
    have hlen' : (pathOf va' k).length ≤ 2 := by
      rw [pathOf_length]
      exact he.le
    have hne : u = t → index va' k ≠ index va n := by
      rintro rfl hi
      exact hnot (h.same_path hva hva' hn he.le ht he.table hi).2
    have he' : Ends X (s.store (t + 8 * index va n) desc).mem va' k u := by
      refine he.congr ?_ fun _ => h.block_child hva hn ht desc hlen' he.table hne
      rw [h.block_reach hva hn ht hleaf hlen', if_neg]
      exact fun hpre => hnot ((prefix_iff hn hva hva').mp hpre).2
    have hold : (s.store (t + 8 * index va n) desc).mem (u + 8 * index va' k) = _ :=
      Function.update_of_ne
        (h.entry_ne hva hn ht hlen' he.table (h.index_lt hva' he.le he.table) hne) ..
    rw [hinv.translate hva' he', h.translate hva' he, hold]

end Block

/-! ### Putting a table in the place of an entry -/

/-- The table to be taken next. -/
def nextTable (X : XlatTables) (s : Xlat) : ℕ := X.pool + 4096 * s.idx

/-- **A table is put in the place of an entry**: it is linked from there, and its entries
stand together for what the entry did. -/
structure Grown (X : XlatTables) (s s' : Xlat) (pte va n : ℕ) : Prop where
  idx : s'.idx = s.idx + 1
  link : s'.mem pte = nextTable X s + 3
  other : ∀ a, a ≠ pte → (∀ j : Fin 512, a ≠ nextTable X s + 8 * j) → s'.mem a = s.mem a
  ok : ∀ j : Fin 512, EntryOk (n + 1) (s'.mem (nextTable X s + 8 * j))
  no_link : n + 1 < 2 → ∀ j : Fin 512, s'.mem (nextTable X s + 8 * j) % 4 ≠ 3
  same : ∀ va' < 2 ^ 36, va' / 2 ^ levelShift (n + 1) = va / 2 ^ levelShift (n + 1) →
    decode (n + 1) (s'.mem (nextTable X s + 8 * index va' (n + 1))) va' =
      decode n (s.mem pte) va'

section Table

variable {p : List (Fin 512)}

/-- The table to be taken next is not in the tree. -/
theorem Inv.nextTable_ne (h : Inv X s) (hidx : s.idx < CONFIG_MMU_MAX_XLAT_TABLES)
    (hp : p.length ≤ 2) : tableAt X s.mem p ≠ some (nextTable X s) := by
  intro hu
  have hapart := X.apart
  rw [nextTable] at hu
  simp only [CONFIG_MMU_MAX_XLAT_TABLES, NUM_BASE_LEVEL_ENTRIES] at *
  rcases h.taken hp hu with hb | ⟨l, hl, heq⟩
  · omega
  · omega

/-- An entry of a table of the tree is not one of the next table. -/
theorem Inv.entry_not_next (h : Inv X s) (hidx : s.idx < CONFIG_MMU_MAX_XLAT_TABLES)
    (hp : p.length ≤ 2) (hu : tableAt X s.mem p = some u) {i : Fin 512}
    (hi : u = X.base → i.val < NUM_BASE_LEVEL_ENTRIES) (j : Fin 512) :
    u + 8 * i.val ≠ nextTable X s + 8 * j := by
  intro heq
  refine h.nextTable_ne hidx hp (hu.trans (congrArg some ?_))
  refine (entry_inj (h.isTable hp hu) (.inr ⟨s.idx, hidx, rfl⟩) hi ?_ heq).1
  intro hb
  have hapart := X.apart
  simp only [CONFIG_MMU_MAX_XLAT_TABLES, NUM_BASE_LEVEL_ENTRIES] at *
  omega

/-- The other entries of the tree are as before. -/
theorem Inv.grown_read (h : Inv X s) (hva : va < 2 ^ 36) (hn : n ≤ 2)
    (ht : tableAt X s.mem (pathOf va n) = some t) (hidx : s.idx < CONFIG_MMU_MAX_XLAT_TABLES)
    (hg : Grown X s s' (t + 8 * index va n) va n) (hp : p.length ≤ 2)
    (hu : tableAt X s.mem p = some u) {i : Fin 512}
    (hi : u = X.base → i.val < NUM_BASE_LEVEL_ENTRIES) (hne : u = t → i ≠ index va n) :
    s'.mem (u + 8 * i) = s.mem (u + 8 * i) :=
  hg.other _ (h.entry_ne hva hn ht hp hu hi hne) (h.entry_not_next hidx hp hu hi)

theorem Inv.grown_child (h : Inv X s) (hva : va < 2 ^ 36) (hn : n ≤ 2)
    (ht : tableAt X s.mem (pathOf va n) = some t) (hidx : s.idx < CONFIG_MMU_MAX_XLAT_TABLES)
    (hg : Grown X s s' (t + 8 * index va n) va n) (hp : p.length ≤ 2)
    (hu : tableAt X s.mem p = some u) {j : Fin 512} (hne : u = t → j ≠ index va n) :
    child X s'.mem u j = child X s.mem u j :=
  child_congr fun hj => h.grown_read hva hn ht hidx hg hp hu hj hne

/-- The entry leads to the table. -/
theorem Inv.grown_link (h : Inv X s) (hva : va < 2 ^ 36) (hn : n ≤ 2)
    (ht : tableAt X s.mem (pathOf va n) = some t) (hidx : s.idx < CONFIG_MMU_MAX_XLAT_TABLES)
    (hg : Grown X s s' (t + 8 * index va n) va n) :
    child X s'.mem t (index va n) = some (nextTable X s) := by
  have hlt := h.index_lt hva hn ht
  have hpal := X.pool_aligned
  have hpend := X.pool_end
  simp only [CONFIG_MMU_MAX_XLAT_TABLES] at *
  rw [child, if_neg fun hb => absurd (hlt hb.1) (Nat.not_lt.mpr hb.2), hg.link, nextTable,
    if_pos (by omega)]
  exact congrArg some (by omega)

/-- The table leads nowhere. -/
theorem Grown.child_next {pte : ℕ} (hg : Grown X s s' pte va n) (hn : n + 1 < 2) (j : Fin 512) :
    child X s'.mem (nextTable X s) j = none := by
  rw [child]
  split
  · rfl
  · rw [if_neg (hg.no_link hn j)]

/-- There is one more path. -/
theorem Inv.grown_reach (h : Inv X s) (hva : va < 2 ^ 36) (hn : n < 2)
    (ht : tableAt X s.mem (pathOf va n) = some t) (hnone : child X s.mem t (index va n) = none)
    (hidx : s.idx < CONFIG_MMU_MAX_XLAT_TABLES) (hg : Grown X s s' (t + 8 * index va n) va n)
    (hp : p.length ≤ 2) : tableAt X s'.mem p =
      if p = pathOf va (n + 1) then some (nextTable X s) else tableAt X s.mem p := by
  have hgrow : tableAt X s'.mem p = if () = () ∧ p = pathOf va n ++ [index va n]
      then some (nextTable X s) else tableAt X s.mem p :=
    Lib.reach_link h.separated rfl (by rwa [pathOf_length]) ht hnone
      (h.grown_link hva hn.le ht hidx hg)
      (fun hlen => hg.child_next (by rwa [pathOf_length] at hlen))
      (fun hp => h.nextTable_ne hidx hp)
      (fun hq hu _ => h.grown_child hva hn.le ht hidx hg hq.le hu) () hp
  exact hgrow.trans (if_congr (and_iff_right rfl) rfl rfl)

theorem Inv.grown_inv (h : Inv X s) (hva : va < 2 ^ 36) (hn : n < 2)
    (ht : tableAt X s.mem (pathOf va n) = some t) (hnone : child X s.mem t (index va n) = none)
    (hidx : s.idx < CONFIG_MMU_MAX_XLAT_TABLES) (hg : Grown X s s' (t + 8 * index va n) va n) :
    Inv X s' where
  separated := by
    have hpaths : ∀ (r : Unit) (p : List (Fin 512)), p.length ≤ 2 →
        Lib.reach (child X s'.mem) (fun _ => some X.base) r p =
          if r = () ∧ p = pathOf va (n + 1) then some (nextTable X s)
          else Lib.reach (child X s.mem) (fun _ => some X.base) r p := by
      rintro ⟨⟩ p hp
      exact (h.grown_reach hva hn ht hnone hidx hg hp).trans
        (if_congr (and_iff_right rfl).symm rfl rfl)
    exact h.separated.grow (fun hp => h.nextTable_ne hidx hp) hpaths
  taken {p u} hp hu := by
    rw [h.grown_reach hva hn ht hnone hidx hg hp] at hu
    split at hu
    · exact .inr ⟨s.idx, by rw [hg.idx]; exact Nat.lt_succ_self _, (Option.some.inj hu).symm⟩
    · exact (h.taken hp hu).imp_right fun ⟨l, hl, heq⟩ => ⟨l, by rw [hg.idx]; omega, heq⟩
  idx_le := by
    rw [hg.idx]
    exact hidx
  fresh l hl hmax i := by
    rw [hg.idx] at hl
    rw [hg.other]
    · exact h.fresh l (by omega) hmax i
    · exact h.entry_not_fresh hva hn.le ht (by omega) hmax i
    · intro j
      have hi := i.isLt
      have hj := j.isLt
      rw [nextTable]
      omega
  entry {va' l u} hva' hl hu := by
    rw [h.grown_reach hva hn ht hnone hidx hg (by rwa [pathOf_length])] at hu
    split_ifs at hu with hpath
    · -- an entry of the new table
      have hln : l = n + 1 := by rw [← pathOf_length va' l, hpath, pathOf_length]
      obtain rfl := Option.some.inj hu
      rw [hln]
      exact hg.ok _
    · by_cases heq : u = t ∧ index va' l = index va n
      · -- the link to it
        obtain ⟨rfl, hi⟩ := heq
        obtain ⟨rfl, -⟩ := h.same_path hva hva' hn.le hl ht hu hi
        have hpal := X.pool_aligned
        rw [hi, hg.link, nextTable]
        exact .inr (.inr ⟨hn, by omega⟩)
      · rw [h.grown_read hva hn.le ht hidx hg (p := pathOf va' l) (by rwa [pathOf_length]) hu
          (h.index_lt hva' hl hu) fun hut hi => heq ⟨hut, hi⟩]
        exact h.entry hva' hl hu

/-- **A table in the place of an entry** changes no translation. -/
theorem Inv.table (h : Inv X s) (hva : va < 2 ^ 36) (hn : n < 2)
    (ht : tableAt X s.mem (pathOf va n) = some t) (hnone : child X s.mem t (index va n) = none)
    (hidx : s.idx < CONFIG_MMU_MAX_XLAT_TABLES)
    (hg : Grown X s s' (t + 8 * index va n) va n) :
    Inv X s' ∧ tableAt X s'.mem (pathOf va (n + 1)) = some (nextTable X s) ∧
      ∀ va' < 2 ^ 36, X.translate s'.mem va' = X.translate s.mem va' := by
  have hinv := h.grown_inv hva hn ht hnone hidx hg
  have hreach : ∀ {p : List (Fin 512)}, p.length ≤ 2 → tableAt X s'.mem p =
      if p = pathOf va (n + 1) then some (nextTable X s) else tableAt X s.mem p :=
    h.grown_reach hva hn ht hnone hidx hg
  refine ⟨hinv, by rw [hreach (by rw [pathOf_length]; omega), if_pos rfl], fun va' hva' => ?_⟩
  obtain ⟨k, u, he⟩ := exists_ends X s.mem va'
  have hlen' : (pathOf va' k).length ≤ 2 := by
    rw [pathOf_length]
    exact he.le
  rw [h.translate hva' he]
  by_cases heq : u = t ∧ index va' k = index va n
  · -- the walk goes on to the new table, and ends there
    obtain ⟨rfl, hi⟩ := heq
    obtain ⟨rfl, hsame⟩ := h.same_path hva hva' hn.le he.le ht he.table hi
    have hpath : pathOf va' (k + 1) = pathOf va (k + 1) := (pathOf_eq_iff hn.le hva' hva).mpr hsame
    have he' : Ends X s'.mem va' (k + 1) (nextTable X s) :=
      ⟨hn, by rw [hreach (by rwa [pathOf_length]), if_pos hpath], fun hk => hg.child_next hk _⟩
    rw [hinv.translate hva' he', hg.same va' hva' hsame, hi]
  · have hne : pathOf va' k ≠ pathOf va (n + 1) := by
      intro hpath
      have hdead : tableAt X s.mem (pathOf va (n + 1)) = none := by
        rw [tableAt_succ, ht, Option.bind_some, hnone]
      have := he.table
      rw [hpath, hdead] at this
      cases this
    have he' : Ends X s'.mem va' k u := by
      refine he.congr (by rw [hreach hlen', if_neg hne]) fun _ => ?_
      exact h.grown_child hva hn.le ht hidx hg hlen' he.table fun hu hi => heq ⟨hu, hi⟩
    rw [hinv.translate hva' he', h.grown_read hva hn.le ht hidx hg hlen' he.table
      (h.index_lt hva' he.le he.table) fun hu hi => heq ⟨hu, hi⟩]

end Table

end Xlat

end Evisor
