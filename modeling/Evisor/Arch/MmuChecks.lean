import Mathlib.Data.Nat.ModEq
import Evisor.Arch.MmuLow

/-!
# What the checks of the set-up leave open

`CheckMmuConfigs` looks at the ends of the regions of the guest, and `InitXlatTables` at the page
boundaries of each region. Neither looks at where the regions of the kernel end, and neither at the
boundaries of output addresses. Here is what the regions have to be like for the set-up to keep to
its tables and to map what it is given (`Evisor.Mappable`): exactly then it does
(`Evisor.Xlat.mmu_checks_iff`).
-/

namespace Evisor

/-! ### The checks -/

/-- `CONFIG_MMU_VA_BITS`. -/
def CONFIG_MMU_VA_BITS : ℕ := 36

/-- `CONFIG_MMU_PA_BITS`. -/
def CONFIG_MMU_PA_BITS : ℕ := 36

/-- `CheckMmuConfigs`. -/
def checkMmuConfigs (guest : List MmuMapRegion) : Except Fault Unit :=
  let max_pa := guest.foldl (fun m region => max m ((region.base_pa + region.size) % 2 ^ 64)) 0
  let max_va := guest.foldl (fun m region => max m ((region.base_va + region.size) % 2 ^ 64)) 0
  if ¬max_pa ≤ 1 <<< CONFIG_MMU_PA_BITS then
    .error (.panic "Maximum physical address is over a supported range")
  else if ¬max_va ≤ 1 <<< CONFIG_MMU_VA_BITS then
    .error (.panic "Maximum virtual address is over a supported range")
  else .ok ()

/-- **What an address is translated to** with the `TCR_EL2` of `GetTcr`: T0SZ leaves addresses of
`CONFIG_MMU_VA_BITS`, and PS output addresses of `CONFIG_MMU_PA_BITS`. -/
def XlatTables.output (X : XlatTables) (mem : ℕ → ℕ) (va : ℕ) : Option ℕ :=
  if va < 2 ^ CONFIG_MMU_VA_BITS then
    (X.address mem va).filter fun pa => pa < 2 ^ CONFIG_MMU_PA_BITS
  else none

/-- Two regions have an address in common. -/
def MmuMapRegion.Overlaps (r r' : MmuMapRegion) : Prop := ∃ va, r.Covers va ∧ r'.Covers va

namespace Xlat

variable (X : XlatTables)

/-- `Mmu::Init`, as far as the tables. -/
def init (s : Xlat) (guest kernel : List MmuMapRegion) : Except Fault Xlat := do
  checkMmuConfigs guest
  s.createPageTables X guest kernel

/-- The first pass over a region. -/
def firstPass (s : Xlat) (r : MmuMapRegion) : Pass :=
  ⟨s, r.base_va, r.base_pa, r.size, r.attrs, PAGE_TABLE_BASE_LEVEL⟩

/-- **A pass that is made** while regions are gone through. -/
def Made (s : Xlat) (regions : List MmuMapRegion) (q : Pass) : Prop :=
  ∃ before r after s₁, regions = before ++ r :: after ∧ s.initRegions X before = .ok s₁ ∧
    r.base_va &&& (PAGE_SIZE - 1) = 0 ∧ r.size &&& (PAGE_SIZE - 1) = 0 ∧
    Relation.ReflTransGen (Pass.Then X) (s₁.firstPass r) q ∧ q.size ≠ 0

/-- **The set-up is safe**: every pass keeps to the tables, and a region that overlaps no other is
mapped. -/
structure Safe (s : Xlat) (regions : List MmuMapRegion) : Prop where
  passes : ∀ q, Made X s regions q → q.Sound X
  maps : ∀ s', s.initRegions X regions = .ok s' →
    ∀ before r after, regions = before ++ r :: after → (∀ r' ∈ before ++ after, ¬r.Overlaps r') →
      ∀ va, r.Covers va → X.output s'.mem va = some (r.base_pa + (va - r.base_va))

end Xlat

/-! ### What the regions have to be like -/

namespace MmuMapRegion

/-- The region lies below the end of the first table, in the bits of an address that the tables
are for. -/
def Inside (r : MmuMapRegion) : Prop := r.base_va % 2 ^ 39 + r.size ≤ 2 ^ 36

/-- **The region is as far into a block there as here**, for each level of which it has a block on
a boundary. -/
def Congruent (r : MmuMapRegion) : Prop :=
  ∀ level, 1 ≤ level → level ≤ CONFIG_MMU_TABLE_LEVEL_MAX →
    ∀ va, r.base_va ≤ va → va % 2 ^ levelShift level = 0 →
      va + 2 ^ levelShift level ≤ r.base_va + r.size →
        r.base_pa % 2 ^ levelShift level = r.base_va % 2 ^ levelShift level

/-- The region, in the bits of an address that the tables are for. -/
def seen (r : MmuMapRegion) : MmuMapRegion := { r with base_va := r.base_va % 2 ^ 39 }

/-- **A region can be mapped among others**: it ends where addresses do, there as here, and the
tables do not take the addresses of another one for its own. -/
structure Fit (regions : List MmuMapRegion) (r : MmuMapRegion) : Prop where
  va_end : r.base_va + r.size ≤ 2 ^ CONFIG_MMU_VA_BITS
  pa_end : r.base_pa + r.size ≤ 2 ^ CONFIG_MMU_PA_BITS
  last : ∀ va, r.Covers va → ∀ q, decidingRegion (regions.map seen) va = some q →
    (q.base_pa + (va - q.base_va)) % 2 ^ 48 = r.base_pa + (va - r.base_va)

end MmuMapRegion

/-- **Regions that the set-up can map.** -/
structure Mappable (regions : List MmuMapRegion) : Prop where
  inside : ∀ r ∈ regions, r.size ≠ 0 → r.Inside
  congruent : ∀ r ∈ regions, r.Congruent
  alone : ∀ before r after, regions = before ++ r :: after → r.size ≠ 0 →
    (∀ r' ∈ before ++ after, ¬r.Overlaps r') → r.Fit regions

namespace Xlat

variable {X : XlatTables} {s s' g : Xlat} {m : ℕ → Option ℕ} {regions : List MmuMapRegion}
  {r : MmuMapRegion}

/-! ### Going through regions -/

theorem initXlatTables_eq_ok : s.initXlatTables X r = .ok s' ↔
    r.base_va &&& (PAGE_SIZE - 1) = 0 ∧ r.size &&& (PAGE_SIZE - 1) = 0 ∧
      (s.firstPass r).run X (initXlatFuel r.size) = .ok s' := by
  rw [initXlatTables]
  by_cases hva : r.base_va &&& (PAGE_SIZE - 1) = 0
  · by_cases hsize : r.size &&& (PAGE_SIZE - 1) = 0
    · rw [if_neg (not_not_intro hva), if_neg (not_not_intro hsize), and_iff_right hva,
        and_iff_right hsize]
      rfl
    · simp [hva, hsize]
  · simp [hva]

theorem initRegions_append (s : Xlat) (before after : List MmuMapRegion) :
    s.initRegions X (before ++ after) =
      (s.initRegions X before).bind fun s₁ => s₁.initRegions X after := by
  induction before generalizing s with
  | nil => rfl
  | cons r rest ih =>
    rw [List.cons_append, initRegions, initRegions]
    cases s.initXlatTables X r with
    | error e => rfl
    | ok s₁ => exact ih s₁

/-- **What is built**: beside it are tables in order, with a map to addresses. -/
def Built (X : XlatTables) (m : ℕ → Option ℕ) (s : Xlat) : Prop :=
  ∃ g, Low s g ∧ Inv X g ∧ ∀ x < 2 ^ 36, X.address g.mem x = m x

theorem and_page (a : ℕ) : a &&& (PAGE_SIZE - 1) = a % 4096 := Nat.and_two_pow_sub_one_eq_mod a 12

/-- The first pass over a region that lies inside the tables. -/
theorem firstPass_stands (hlow : Low s g) (hinv : Inv X g)
    (hva : r.base_va &&& (PAGE_SIZE - 1) = 0) (hsize : r.size &&& (PAGE_SIZE - 1) = 0)
    (hin : r.Inside) (hcong : r.Congruent) : (s.firstPass r).Stands X g 0 X.base := by
  rw [and_page] at hva hsize
  refine ⟨Nat.zero_le 2, rfl, hlow, hinv, tableAt_nil, ?_, hsize, hin, fun n hn d hal hd => ?_⟩
  · change r.base_va % 2 ^ 39 % 4096 = 0
    omega
  · -- a block on a boundary here is on one there
    have hmod : (r.base_va + d) % 2 ^ levelShift (n + 1) = 0 := by
      change (r.base_va % 2 ^ 39 + d) % 2 ^ levelShift (n + 1) = 0 at hal
      rcases level_cases hn with ⟨-, hs⟩ | ⟨-, hs⟩ | ⟨-, hs⟩ <;> rw [hs] at hal ⊢ <;> omega
    have hsame := hcong (n + 1) n.succ_pos (Nat.succ_le_succ hn) (r.base_va + d)
      (Nat.le_add_right ..) hmod (by rw [Nat.add_assoc]; exact Nat.add_le_add_left hd _)
    change (r.base_pa + d) % 2 ^ levelShift (n + 1) = 0
    rw [Nat.add_mod, hsame, ← Nat.add_mod, hmod]

theorem mapLow_congr {m m' : ℕ → Option ℕ} {va pa size x : ℕ} (h : m x = m' x) :
    mapLow m va pa size x = mapLow m' va pa size x := by
  rw [mapLow, mapLow, h]

/-- **A region is mapped.** -/
theorem Built.of_region (h : Built X m s) (hin : r.size ≠ 0 → r.Inside) (hcong : r.Congruent)
    (hok : s.initXlatTables X r = .ok s') :
    Built X (mapLow m (r.base_va % 2 ^ 39) r.base_pa r.size) s' := by
  obtain ⟨g, hlow, hinv, hmap⟩ := h
  obtain ⟨hva, hsize, hrun⟩ := initXlatTables_eq_ok.mp hok
  by_cases h0 : r.size = 0
  · rw [initXlatFuel, Pass.run_succ, if_pos (show (s.firstPass r).size = 0 from h0)] at hrun
    obtain rfl := Except.ok.inj hrun
    exact ⟨g, hlow, hinv, fun x hx => (hmap x hx).trans (if_neg (by omega)).symm⟩
  · obtain ⟨g', hlow', hinv', hmap'⟩ :=
      (firstPass_stands hlow hinv hva hsize (hin h0) hcong).maps hrun
    exact ⟨g', hlow', hinv', fun x hx => (hmap' x hx).trans (mapLow_congr (hmap x hx))⟩

/-- A map with regions mapped anew, one after the other. -/
def mapSeen (m : ℕ → Option ℕ) (regions : List MmuMapRegion) (va : ℕ) : Option ℕ :=
  ((decidingRegion (regions.map MmuMapRegion.seen) va).map fun q =>
    (q.base_pa + (va - q.base_va)) % 2 ^ 48).or (m va)

theorem mapSeen_cons (m : ℕ → Option ℕ) (r : MmuMapRegion) (rest : List MmuMapRegion) (va : ℕ) :
    mapSeen (mapLow m (r.base_va % 2 ^ 39) r.base_pa r.size) rest va =
      mapSeen m (r :: rest) va := by
  rw [mapSeen, mapSeen, List.map_cons, decidingRegion_cons]
  rcases decidingRegion (rest.map MmuMapRegion.seen) va with - | q
  · change mapLow m (r.base_va % 2 ^ 39) r.base_pa r.size va = _
    rw [Option.none_or]
    by_cases h : r.seen.Covers va
    · rw [if_pos h]
      exact if_pos h
    · rw [if_neg h]
      exact if_neg h
  · rfl

/-- **Regions are mapped**, the last one on top. -/
theorem Built.of_regions (h : Built X m s) (hin : ∀ r ∈ regions, r.size ≠ 0 → r.Inside)
    (hcong : ∀ r ∈ regions, r.Congruent) (hok : s.initRegions X regions = .ok s') :
    Built X (mapSeen m regions) s' := by
  induction regions generalizing s m with
  | nil =>
    obtain rfl := Except.ok.inj hok
    exact h
  | cons r rest ih =>
    rw [initRegions] at hok
    obtain ⟨s₁, hone, hok⟩ := Lib.bind_eq_ok.mp hok
    obtain ⟨hr, hrest⟩ := List.forall_mem_cons.mp hin
    obtain ⟨hr', hrest'⟩ := List.forall_mem_cons.mp hcong
    have hbuilt := ih (h.of_region hr hr' hone) hrest hrest' hok
    rwa [funext (mapSeen_cons m r rest)] at hbuilt

theorem Zeroed.built (h : Zeroed X s) : Built X (fun _ => none) s :=
  ⟨s, Low.refl s, h.inv, fun x hx => by rw [XlatTables.address, h.translate hx]; rfl⟩

/-! ### Safe exactly for what can be mapped -/

theorem output_eq_some {mem : ℕ → ℕ} {va pa : ℕ} : X.output mem va = some pa ↔
    va < 2 ^ CONFIG_MMU_VA_BITS ∧ X.address mem va = some pa ∧ pa < 2 ^ CONFIG_MMU_PA_BITS := by
  rw [XlatTables.output]
  by_cases hva : va < 2 ^ CONFIG_MMU_VA_BITS
  · rw [if_pos hva, Option.filter_eq_some_iff]
    simp [hva]
  · rw [if_neg hva]
    simp [hva]

/-- A region that has an address settles it, or a later one does. -/
theorem exists_decidingRegion {regions : List MmuMapRegion} {va : ℕ} (hr : r ∈ regions)
    (hcov : r.Covers va) : ∃ q, decidingRegion regions va = some q := by
  rw [← Option.isSome_iff_exists, decidingRegion, List.find?_isSome]
  exact ⟨r, List.mem_reverse.mpr hr, decide_eq_true hcov⟩

/-- **Regions that can be mapped are safe**, also in a run that stops for want of tables. -/
theorem safe_of_mappable (hs : Zeroed X s) (h : Mappable regions) : Safe X s regions := by
  constructor
  · rintro q ⟨before, r, after, s₁, rfl, hok, hva, hsize, hq, hq0⟩
    have hr : r ∈ before ++ r :: after := List.mem_append_right _ List.mem_cons_self
    have hr0 : r.size ≠ 0 := by
      rcases Relation.ReflTransGen.cases_head hq with rfl | ⟨p, hp, -⟩
      · exact hq0
      · exact hp.1
    obtain ⟨g, hlow, hinv, -⟩ := hs.built.of_regions
      (fun r' hr' => h.inside r' (List.mem_append_left _ hr'))
      (fun r' hr' => h.congruent r' (List.mem_append_left _ hr')) hok
    exact (firstPass_stands hlow hinv hva hsize (h.inside r hr hr0) (h.congruent r hr)).every q hq
      hq0
  · rintro s' hok before r after rfl halone va hcov
    have hr : r ∈ before ++ r :: after := List.mem_append_right _ List.mem_cons_self
    have hr0 : r.size ≠ 0 := by
      have := hcov.1.trans_lt hcov.2
      omega
    obtain ⟨hvend, hpend, hlast⟩ := h.alone before r after rfl hr0 halone
    obtain ⟨g, hlow, -, hmap⟩ := hs.built.of_regions h.inside h.congruent hok
    have hva : va < 2 ^ 36 := hcov.2.trans_le hvend
    have hseen : r.seen.Covers va := by
      have hsame : r.base_va % 2 ^ 39 = r.base_va := Nat.mod_eq_of_lt (by
        have := hcov.1
        omega)
      rw [MmuMapRegion.Covers, MmuMapRegion.seen, hsame]
      exact hcov
    obtain ⟨q, hq⟩ := exists_decidingRegion (List.mem_map_of_mem hr) hseen
    refine output_eq_some.mpr ⟨hva, ?_, ?_⟩
    · rw [hlow.address, hmap va hva, mapSeen, hq, Option.map_some, hlast va hcov q hq]
      rfl
    · have := hcov.2
      have := hcov.1
      omega

/-- A region of those that have been gone through. -/
theorem region_of_regions {before after : List MmuMapRegion}
    (hok : s.initRegions X (before ++ r :: after) = .ok s') :
    ∃ s₁ s₂, s.initRegions X before = .ok s₁ ∧ s₁.initXlatTables X r = .ok s₂ := by
  rw [initRegions_append] at hok
  obtain ⟨s₁, hbefore, hok⟩ := Lib.bind_eq_ok.mp hok
  rw [initRegions] at hok
  obtain ⟨s₂, hone, -⟩ := Lib.bind_eq_ok.mp hok
  exact ⟨s₁, s₂, hbefore, hone⟩

/-- **Regions that are safe can be mapped**, where no check stops the run. -/
theorem mappable_of_safe (hs : Zeroed X s) (hok : s.initRegions X regions = .ok s')
    (h : Safe X s regions) : Mappable regions := by
  -- the run over a region, with every pass of it
  have hrun : ∀ r ∈ regions, ∃ (s₁ s₂ : Xlat) (fuel : ℕ),
      (s₁.firstPass r).run X fuel = .ok s₂ ∧ Pass.Every X (Pass.Sound X) (s₁.firstPass r) := by
    rintro r hr
    obtain ⟨before, after, rfl⟩ := List.append_of_mem hr
    obtain ⟨s₁, s₂, hbefore, hone⟩ := region_of_regions hok
    obtain ⟨hva, hsize, hrun⟩ := initXlatTables_eq_ok.mp hone
    exact ⟨s₁, s₂, _, hrun, fun q hq hq0 =>
      h.passes q ⟨before, r, after, s₁, rfl, hbefore, hva, hsize, hq, hq0⟩⟩
  have hinside : ∀ r ∈ regions, r.size ≠ 0 → r.Inside := by
    intro r hr hr0
    obtain ⟨s₁, s₂, fuel, hrun, hevery⟩ := hrun r hr
    exact Pass.inside_of_run hrun hevery le_rfl hr0
  have hcongruent : ∀ r ∈ regions, r.Congruent := by
    intro r hr level hpos _ va hle hal hend
    obtain ⟨s₁, s₂, fuel, hrun, hevery⟩ := hrun r hr
    obtain ⟨d, rfl⟩ := Nat.exists_eq_add_of_le hle
    have hd : d + 2 ^ levelShift level ≤ r.size := by omega
    have hpa := Pass.congruent_of_run hrun hevery rfl hpos hal hd
    exact Nat.ModEq.add_right_cancel' d (hpa.trans hal.symm)
  refine ⟨hinside, hcongruent, ?_⟩
  rintro before r after rfl hr0 halone
  have hr : r ∈ before ++ r :: after := List.mem_append_right _ List.mem_cons_self
  have hmaps : ∀ va, r.Covers va → va < 2 ^ 36 ∧
      X.address s'.mem va = some (r.base_pa + (va - r.base_va)) ∧
        r.base_pa + (va - r.base_va) < 2 ^ 36 :=
    fun va hcov => output_eq_some.mp (h.maps s' hok before r after rfl halone va hcov)
  obtain ⟨hfirst, -, -⟩ := hmaps r.base_va ⟨le_rfl, by omega⟩
  obtain ⟨-, -, hend⟩ := hmaps (r.base_va + (r.size - 1)) ⟨Nat.le_add_right .., by omega⟩
  have hin : r.base_va % 2 ^ 39 + r.size ≤ 2 ^ 36 := hinside r hr hr0
  refine ⟨?_, ?_, fun va hcov q hq => ?_⟩
  · change r.base_va + r.size ≤ 2 ^ 36
    omega
  · change r.base_pa + r.size ≤ 2 ^ 36
    omega
  · obtain ⟨hva, haddr, -⟩ := hmaps va hcov
    obtain ⟨g, hlow, -, hmap⟩ := hs.built.of_regions hinside hcongruent hok
    rw [hlow.address, hmap va hva, mapSeen, hq] at haddr
    exact Option.some.inj haddr

/-- **The set-up is safe for the regions that can be mapped**, in every run; and for no others in a
run that no check stops. -/
theorem mmu_checks_iff (hs : Zeroed X s) (guest kernel : List MmuMapRegion) :
    (Mappable (guest ++ kernel) → Safe X s (guest ++ kernel)) ∧
      ∀ s', s.init X guest kernel = .ok s' →
        Safe X s (guest ++ kernel) → Mappable (guest ++ kernel) := by
  refine ⟨safe_of_mappable hs, fun s' hinit hsafe => ?_⟩
  obtain ⟨-, -, hok⟩ := Lib.bind_eq_ok.mp hinit
  rw [createPageTables_eq] at hok
  exact mappable_of_safe hs hok hsafe

end Xlat

/-! ### What is missing from the checks -/

theorem foldl_max_le_iff {α : Type*} (f : α → ℕ) (l : List α) (a b : ℕ) :
    l.foldl (fun m x => max m (f x)) a ≤ b ↔ a ≤ b ∧ ∀ x ∈ l, f x ≤ b := by
  induction l generalizing a with
  | nil => simp
  | cons x l ih => rw [List.foldl_cons, ih, max_le_iff, List.forall_mem_cons, and_assoc]

/-- **The check of the guest's regions** is on the sums, in 64 bits, of where they start and of
their sizes. -/
theorem checkMmuConfigs_eq_ok {guest : List MmuMapRegion} : checkMmuConfigs guest = .ok () ↔
    ∀ r ∈ guest, (r.base_pa + r.size) % 2 ^ 64 ≤ 2 ^ CONFIG_MMU_PA_BITS ∧
      (r.base_va + r.size) % 2 ^ 64 ≤ 2 ^ CONFIG_MMU_VA_BITS := by
  have hmax : ∀ (f : MmuMapRegion → ℕ) (b : ℕ),
      guest.foldl (fun m region => max m (f region)) 0 ≤ b ↔ ∀ r ∈ guest, f r ≤ b :=
    fun f b => (foldl_max_le_iff f guest 0 b).trans (and_iff_right b.zero_le)
  have hpa := hmax (fun r => (r.base_pa + r.size) % 2 ^ 64) (1 <<< CONFIG_MMU_PA_BITS)
  have hva := hmax (fun r => (r.base_va + r.size) % 2 ^ 64) (1 <<< CONFIG_MMU_VA_BITS)
  rw [Nat.one_shiftLeft] at hpa hva
  rw [checkMmuConfigs, Nat.one_shiftLeft, Nat.one_shiftLeft, forall₂_and, ← hpa, ← hva]
  split_ifs with h₁ h₂
  · exact iff_of_true rfl ⟨h₁, h₂⟩
  · exact iff_of_false (by simp) fun h => h₂ h.2
  · exact iff_of_false (by simp) fun h => h₁ h.1

/-- Regions that end where addresses do, and are as far into their blocks there as here. -/
theorem mappable_of_bounds {regions : List MmuMapRegion}
    (hend : ∀ r ∈ regions, r.base_va + r.size ≤ 2 ^ CONFIG_MMU_VA_BITS ∧
      r.base_pa + r.size ≤ 2 ^ CONFIG_MMU_PA_BITS)
    (hcong : ∀ r ∈ regions, r.Congruent) : Mappable regions := by
  have hmod : ∀ r ∈ regions, r.size ≠ 0 → r.base_va % 2 ^ 39 = r.base_va := by
    intro r hr hr0
    have hva : r.base_va + r.size ≤ 2 ^ 36 := (hend r hr).1
    exact Nat.mod_eq_of_lt (by omega)
  refine ⟨fun r hr hr0 => ?_, hcong, ?_⟩
  · rw [MmuMapRegion.Inside, hmod r hr hr0]
    exact (hend r hr).1
  · rintro before r after rfl hr0 halone
    have hr : r ∈ before ++ r :: after := List.mem_append_right _ List.mem_cons_self
    obtain ⟨hva, hpa⟩ := hend r hr
    refine ⟨hva, hpa, fun va hcov q hq => ?_⟩
    -- a region that has the address where the tables look has it, and so is the region itself
    obtain ⟨hmem, hqcov⟩ := decidingRegion_mem hq
    obtain ⟨r', hr', rfl⟩ := List.mem_map.mp hmem
    have hr0' : r'.size ≠ 0 := by
      have hlt : r'.base_va % 2 ^ 39 ≤ va ∧ va < r'.base_va % 2 ^ 39 + r'.size := hqcov
      omega
    have hsame := hmod r' hr' hr0'
    rw [MmuMapRegion.seen, hsame] at hqcov ⊢
    have hself : r' = r := by
      rcases List.mem_append.mp hr' with h | h
      · exact absurd ⟨va, hcov, hqcov⟩ (halone r' (List.mem_append_left _ h))
      · rcases List.mem_cons.mp h with rfl | h
        · rfl
        · exact absurd ⟨va, hcov, hqcov⟩ (halone r' (List.mem_append_right _ h))
    subst hself
    have hle := hcov.1
    have hlt := hcov.2
    have hpa' : r'.base_pa + r'.size ≤ 2 ^ 36 := hpa
    exact Nat.mod_eq_of_lt (by dsimp only; omega)

/-- **Three things are missing from the checks**: that the regions of the kernel are looked at as
well, that no sum wraps, and that output addresses are on the boundaries of blocks. -/
theorem mappable_of_checks {guest kernel : List MmuMapRegion}
    (hguest : checkMmuConfigs guest = .ok ()) (hkernel : checkMmuConfigs kernel = .ok ())
    (hwrap : ∀ r ∈ guest ++ kernel, r.base_va + r.size < 2 ^ 64 ∧ r.base_pa + r.size < 2 ^ 64)
    (hcong : ∀ r ∈ guest ++ kernel, r.Congruent) : Mappable (guest ++ kernel) := by
  refine mappable_of_bounds (fun r hr => ?_) hcong
  obtain ⟨hva, hpa⟩ := hwrap r hr
  have hchecked : (r.base_pa + r.size) % 2 ^ 64 ≤ 2 ^ CONFIG_MMU_PA_BITS ∧
      (r.base_va + r.size) % 2 ^ 64 ≤ 2 ^ CONFIG_MMU_VA_BITS := by
    rcases List.mem_append.mp hr with h | h
    · exact checkMmuConfigs_eq_ok.mp hguest r h
    · exact checkMmuConfigs_eq_ok.mp hkernel r h
  rw [Nat.mod_eq_of_lt hva, Nat.mod_eq_of_lt hpa] at hchecked
  exact hchecked.symm

namespace Xlat

/-- No region. -/
def emptyRegion : MmuMapRegion := ⟨0, 0, 0, 0⟩

/-- A page of the kernel just above the addresses there are. -/
def highRegion : MmuMapRegion := ⟨0, 2 ^ 36, 4096, 0xc⟩

/-- A GiB of devices for the guest, and a page of it for the kernel, are mapped; the page above the
addresses there are is not. -/
theorem mmu_checks_iff_page : Safe lowTables cleared ([deviceRegion] ++ [pageRegion]) ∧
    ¬Safe lowTables cleared ([emptyRegion, emptyRegion] ++
      (highRegion :: List.replicate 6 emptyRegion)) := by
  have hcong : ∀ r ∈ [deviceRegion] ++ [pageRegion], r.Congruent := by
    rintro r hr level - - va - - -
    rcases List.mem_cons.mp hr with rfl | hr
    · rfl
    · obtain rfl := List.mem_singleton.mp hr
      rfl
  refine ⟨(mmu_checks_iff (cleared_zeroed lowTables) _ _).1
    (mappable_of_checks rfl rfl (by decide) hcong), fun hsafe => ?_⟩
  obtain ⟨s', hok⟩ := Lib.exists_ok_of_isOk (by decide +kernel :
    (cleared.init lowTables [emptyRegion, emptyRegion]
      (highRegion :: List.replicate 6 emptyRegion)).isOk)
  have hmap := (mmu_checks_iff (cleared_zeroed lowTables) _ _).2 s' hok hsafe
  have hinside : highRegion.Inside := hmap.inside highRegion (by simp) (by decide)
  exact absurd hinside (by decide : ¬2 ^ 36 % 2 ^ 39 + 4096 ≤ 2 ^ 36)

/-- **The checks are not sufficient**: a page of the kernel is looked up behind the end of the first
table. -/
theorem mmu_checks_insufficient : ¬∀ (X : XlatTables) (s s' : Xlat)
    (guest kernel : List MmuMapRegion), Zeroed X s → s.init X guest kernel = .ok s' →
      Safe X s (guest ++ kernel) := by
  intro h
  obtain ⟨s', hok⟩ := Lib.exists_ok_of_isOk (by decide +kernel :
    (cleared.init lowTables [emptyRegion, emptyRegion]
      (highRegion :: List.replicate 6 emptyRegion)).isOk)
  have hsafe := h lowTables cleared s' _ _ (cleared_zeroed lowTables) hok
  have hsound := hsafe.passes (cleared.firstPass highRegion)
    ⟨[emptyRegion, emptyRegion], highRegion, List.replicate 6 emptyRegion, cleared, rfl, rfl, rfl,
      rfl, .refl, by decide⟩
  exact absurd hsound.index_lt (by decide)

end Xlat

end Evisor
