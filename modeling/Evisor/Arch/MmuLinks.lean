import Evisor.Arch.MmuChecks

/-!
# Where the links lead

The passes over a region look at the kinds of descriptors, and at the addresses in those that are
links; what a block translates to is nothing to them. So for output addresses that are on page
boundaries, and otherwise as they like, there are tables such as the ones of `Evisor.Xlat.Inv`
beside those that are built, with the same links (`Evisor.Xlat.Alike`): those in which the blocks
translate each address to itself.
-/

namespace Evisor

namespace Xlat

variable {X : XlatTables} {s s' g g' : Xlat} {va n t u : ℕ}

/-- **Tables with the same links**: the descriptors are of the same kinds, and those above the
last level that are links lead to the same tables. -/
structure Alike (X : XlatTables) (s g : Xlat) : Prop where
  idx : s.idx = g.idx
  kind : ∀ a, s.mem a % 2 ^ 2 = g.mem a % 2 ^ 2
  link : ∀ {p t}, p.length < 2 → tableAt X g.mem p = some t →
    ∀ i, child X s.mem t i = child X g.mem t i

theorem Alike.refl (s : Xlat) : Alike X s s := ⟨rfl, fun _ => rfl, fun _ _ _ => rfl⟩

/-- **The same tables** are at the end of paths. -/
theorem Alike.tableAt (h : Alike X s g) {p : List (Fin 512)} (hp : p.length ≤ 2) :
    Xlat.tableAt X s.mem p = Xlat.tableAt X g.mem p :=
  Lib.reach_congr rfl (fun hp ht i => h.link hp ht i) () hp

theorem Alike.pteDescType (h : Alike X s g) (a : ℕ) :
    pteDescType (s.mem a) = Evisor.pteDescType (g.mem a) := by
  rw [pteDescType_eq, pteDescType_eq]
  exact h.kind a

/-- An entry that is no link leads nowhere, and so does one of its kind. -/
theorem child_none_congr {mem mem' : ℕ → ℕ} {i : Fin 512}
    (hkind : mem' (t + 8 * i) % 2 ^ 2 = mem (t + 8 * i) % 2 ^ 2)
    (hnone : child X mem t i = none) : child X mem' t i = none := by
  rw [child] at hnone ⊢
  split_ifs at hnone ⊢ with hbase h3 h3'
  · rfl
  · omega
  · rfl

/-- The kind of a descriptor is apart from the address, if that is on a page boundary. -/
theorem setPteBlockDesc_kind {pa attrs level : ℕ} (hpa : pa % 4096 = 0) :
    setPteBlockDesc pa attrs level % 2 ^ 2 = leafType level := by
  have hattrs := (blockAttrs_apart attrs).1
  have htype := leafType_lt level
  have hzero : pa % 2 ^ 2 = 0 := by omega
  have hlow : blockAttrs attrs % 2 ^ 2 = 0 := hattrs
  rw [setPteBlockDesc, Nat.or_mod_two_pow, Nat.or_mod_two_pow, hzero, hlow, Nat.or_zero,
    Nat.zero_or]
  exact Nat.mod_eq_of_lt htype

/-- **Writing a block**, whatever it translates to. -/
theorem Alike.block (h : Alike X s g) (hinv : Inv X g) (hva : va < 2 ^ 36) (hn : n ≤ 2)
    (ht : Xlat.tableAt X g.mem (pathOf va n) = some t) {desc desc' pa attrs : ℕ}
    (hleaf : IsLeaf n desc pa attrs) (hkind : desc' % 2 ^ 2 = desc % 2 ^ 2) :
    Alike X (s.store (t + 8 * index va n) desc') (g.store (t + 8 * index va n) desc) := by
  have hkinds := store_mod h.kind (t + 8 * index va n) hkind
  refine ⟨h.idx, hkinds, fun {p u} hp hu i => ?_⟩
  have hu' := hinv.block_sub hva hn ht hleaf hp.le hu
  by_cases heq : u = t ∧ i = index va n
  · -- the entry that is written leads nowhere
    obtain ⟨rfl, rfl⟩ := heq
    have hpath := (hinv.separated.inj hp.le (by rwa [pathOf_length]) hu' ht).2
    have hdepth : n < 2 := by rwa [hpath, pathOf_length] at hp
    have hnone : child X (g.store (u + 8 * index va n) desc).mem u (index va n) = none :=
      block_last g hleaf hdepth
    rw [hnone]
    exact child_none_congr (hkinds _) hnone
  · have hne : u = t → i ≠ index va n := fun hut hi => heq ⟨hut, hi⟩
    rw [hinv.block_child hva hn ht desc hp.le hu' hne, ← h.link hp hu' i]
    exact child_congr fun hi =>
      Function.update_of_ne (hinv.entry_ne hva hn ht hp.le hu' hi hne) ..

/-- **A table in the place of an entry** that it is put into on both sides. -/
theorem Alike.grow (h : Alike X s g) (hinv : Inv X g) (hva : va < 2 ^ 36) (hn : n < 2)
    (ht : Xlat.tableAt X g.mem (pathOf va n) = some t)
    (h3 : g.mem (t + 8 * index va n) % 4 ≠ 3) (hidx : g.idx < CONFIG_MMU_MAX_XLAT_TABLES)
    (hg : Grown X g g' (t + 8 * index va n) va n) (hcount : s'.idx = s.idx + 1)
    (hkind : ∀ a, s'.mem a % 2 ^ 2 = g'.mem a % 2 ^ 2)
    (hlink : s'.mem (t + 8 * index va n) = nextTable X g + 3)
    (hother : ∀ a, a ≠ t + 8 * index va n → (∀ j : Fin 512, a ≠ nextTable X g + 8 * j) →
      s'.mem a = s.mem a) : Alike X s' g' := by
  refine ⟨by rw [hcount, hg.idx, h.idx], hkind, fun {p u} hp hu i => ?_⟩
  rw [hinv.grown_reach hva hn ht (child_eq_none h3) hidx hg hp.le] at hu
  split_ifs at hu with hpath
  · -- the new table leads nowhere
    obtain rfl := Option.some.inj hu
    have hdepth : n + 1 < 2 := by rwa [hpath, pathOf_length] at hp
    have hnone := hg.child_next hdepth i
    rw [hnone]
    exact child_none_congr (hkind _) hnone
  · by_cases heq : u = t ∧ i = index va n
    · obtain ⟨rfl, rfl⟩ := heq
      exact child_congr fun _ => hlink.trans hg.link.symm
    · have hne : u = t → i ≠ index va n := fun hut hi => heq ⟨hut, hi⟩
      rw [hinv.grown_child hva hn.le ht hidx hg hp.le hu hne, ← h.link hp hu i]
      exact child_congr fun hi => hother _ (hinv.entry_ne hva hn.le ht hp.le hu hi hne)
        (hinv.entry_not_next hidx hp.le hu hi)

theorem setPteTableDesc_idx (s : Xlat) (pte table : ℕ) :
    (s.setPteTableDesc pte table).idx = s.idx := rfl

/-- Going one level down takes a table, if there is no link. -/
theorem Pass.Descends.idx {pte level : ℕ} (hs : Pass.Descends X s pte level s') :
    pteDescType (s.mem pte) = PTE_TABLE_DESC ∧ s'.idx = s.idx ∨
      (pteDescType (s.mem pte) = PTE_INVALID_DESC ∨ pteDescType (s.mem pte) = PTE_BLOCK_DESC) ∧
        s'.idx = s.idx + 1 := by
  cases hs with
  | empty h0 hidx => exact .inr ⟨.inl h0, rfl⟩
  | split h1 hidx => exact .inr ⟨.inr h1, (setPteTableDesc_idx ..).trans (splitLoop_idx ..)⟩
  | link h3 => exact .inl ⟨h3, rfl⟩

/-- **Going one level down** is the same. -/
theorem Alike.descends (h : Alike X s g) (hinv : Inv X g) (hva : va < 2 ^ 36) (hn : n < 2)
    (ht : Xlat.tableAt X g.mem (pathOf va n) = some t)
    (hs : Pass.Descends X s (t + 8 * index va n) (n + 1) s') :
    ∃ g', Pass.Descends X g (t + 8 * index va n) (n + 1) g' ∧ Alike X s' g' := by
  have htype := h.pteDescType (t + 8 * index va n)
  have hnext : nextTable X s = nextTable X g := by rw [nextTable, nextTable, h.idx]
  have hkind : ∀ a, Xlat.mem { s with idx := s.idx + 1 } a % 2 ^ 2 =
      Xlat.mem { g with idx := g.idx + 1 } a % 2 ^ 2 := h.kind
  cases hs with
  | empty h0 hidx =>
    have hd : Pass.Descends X g (t + 8 * index va n) (n + 1) _ :=
      .empty (htype.symm.trans h0) (h.idx ▸ hidx)
    refine ⟨_, hd, ?_⟩
    -- an entry that is empty is no link, so that a table has been taken
    rcases hinv.descends_cases hva hn ht hd with ⟨h3, -⟩ | ⟨h3, hidx', hg⟩
    · rw [htype, pteDescType_eq, h3] at h0
      cases h0
    · rw [hnext]
      refine h.grow hinv hva hn ht h3 hidx' hg rfl (store_mod hkind _ rfl) ?_ ?_
      · exact setPteTableDesc_mem _ (nextTable_mod X g)
      · exact fun a ha _ => setPteTableDesc_mem_of_ne _ ha
  | split h1 hidx =>
    have hd : Pass.Descends X g (t + 8 * index va n) (n + 1) _ :=
      .split (htype.symm.trans h1) (h.idx ▸ hidx)
    refine ⟨_, hd, ?_⟩
    rcases hinv.descends_cases hva hn ht hd with ⟨h3, -⟩ | ⟨h3, hidx', hg⟩
    · rw [htype, pteDescType_eq, h3] at h1
      cases h1
    · rw [hnext]
      refine h.grow hinv hva hn ht h3 hidx' hg ?_ ?_ ?_ fun a ha hnew => ?_
      · exact (setPteTableDesc_idx ..).trans (splitLoop_idx ..)
      · exact store_mod (splitLoop_mod hkind _ _ _ (h.kind _)) _ rfl
      · exact setPteTableDesc_mem _ (nextTable_mod X g)
      · refine (setPteTableDesc_mem_of_ne _ ha).trans ?_
        exact splitLoop_mem_of_ne _ _ _ _ fun i hi => hnew ⟨i, hi⟩
  | link h3 => exact ⟨g, .link (htype.symm.trans h3), h⟩

/-! ### A pass, beside such tables -/

/-- **Tables in order beside those that a pass starts from**, whatever the output address is, with
the table that the address at hand leads to. Where a level has been passed by, what is left does
not cover an entry of it. -/
structure Pass.Held (X : XlatTables) (g : Xlat) (p : Pass) (n t : ℕ) : Prop where
  depth : n ≤ 2
  level : p.level = n + 1
  alike : Alike X p.s g
  inv : Inv X g
  table : tableAt X g.mem (pathOf p.va n) = some t
  va_page : p.va % 4096 = 0
  pa_page : p.pa % 4096 = 0
  size_page : p.size % 4096 = 0
  va_end : p.va + p.size ≤ 2 ^ 36
  passed : ∀ k, 1 ≤ k → k < p.level →
    ¬(2 ^ levelShift k ∣ p.va ∧ p.va + 2 ^ levelShift k ≤ p.va + p.size)

namespace Pass

variable {p q : Pass}

theorem Held.va_lt (h : Held X g p n t) (hsize : p.size ≠ 0) : p.va < 2 ^ 36 := by
  have := h.va_end
  omega

/-- The entry that is found. -/
theorem Held.entry (h : Held X g p n t) :
    p.s.findPteIndex X p.va p.level = some (t + 8 * index p.va n) := by
  have hlen : (pathOf p.va n).length ≤ 2 := by rw [pathOf_length]; exact h.depth
  rw [h.level]
  exact findPteIndex_eq p.s h.depth ((h.alike.tableAt hlen).trans h.table)

theorem Held.depth_lt (h : Held X g p n t) (hsize : p.size ≠ 0) (hfits : ¬p.Fits) : n < 2 :=
  depth_lt_of_not_fits h.depth h.level h.va_page h.size_page hsize hfits

/-- **The kind of the entry is one that is known.** -/
theorem Held.kind (h : Held X g p n t) (hsize : p.size ≠ 0) (hfits : ¬p.Fits) :
    pteDescType (p.s.mem (t + 8 * index p.va n)) = PTE_INVALID_DESC ∨
      pteDescType (p.s.mem (t + 8 * index p.va n)) = PTE_BLOCK_DESC ∨
        pteDescType (p.s.mem (t + 8 * index p.va n)) = PTE_TABLE_DESC := by
  have hn := h.depth_lt hsize hfits
  rw [h.alike.pteDescType, pteDescType_eq]
  rcases h.inv.entry (h.va_lt hsize) h.depth h.table with hzero | ⟨pa, attrs, hleaf⟩ | ⟨-, h3⟩
  · exact .inl (by rw [hzero]; rfl)
  · have hblock : leafType (n + 1) = PTE_BLOCK_DESC := if_neg (by omega)
    exact .inr (.inl ((hleaf.type h.depth).trans hblock))
  · exact .inr (.inr h3)

/-- **The block that a pass writes**, beside one that translates its addresses to themselves. -/
theorem Held.block (h : Held X g p n t) (hsize : p.size ≠ 0) (hfits : p.Fits) :
    ∃ desc pa, IsLeaf n desc pa p.attrs ∧
      Held X (g.store (t + 8 * index p.va n) desc) (p.block (t + 8 * index p.va n)) 0 X.base := by
  obtain ⟨hle, hal⟩ := fits_iff.mp hfits
  have hva := h.va_page
  have hpa := h.pa_page
  have hsz := h.size_page
  have hend := h.va_end
  have hlevel := h.level
  rw [hlevel] at hle hal
  have hleaf : IsLeaf n (setPteBlockDesc p.va p.attrs (n + 1)) p.va p.attrs :=
    ⟨rfl, hal, by omega⟩
  have hkind : setPteBlockDesc p.pa p.attrs p.level % 2 ^ 2 =
      setPteBlockDesc p.va p.attrs (n + 1) % 2 ^ 2 := by
    rw [setPteBlockDesc_kind hpa, setPteBlockDesc_kind hva, hlevel]
  have hpage := page_dvd_block h.depth
  refine ⟨_, p.va, hleaf, Nat.zero_le 2, rfl, ?_, ?_, tableAt_nil, ?_, ?_, ?_, ?_, ?_⟩
  · exact h.alike.block h.inv (h.va_lt hsize) h.depth h.table hleaf hkind
  · exact h.inv.block_inv (h.va_lt hsize) h.depth h.table hleaf
  · rw [Pass.block, hlevel]
    dsimp only
    omega
  · rw [Pass.block, hlevel]
    dsimp only
    omega
  · rw [Pass.block, hlevel]
    dsimp only
    omega
  · rw [Pass.block, hlevel]
    dsimp only
    omega
  · exact fun k hpos hk => absurd hk (Nat.not_lt.mpr hpos)

/-- **One level down** there are such tables as well. -/
theorem Held.descends (h : Held X g p n t) (hsize : p.size ≠ 0) (hfits : ¬p.Fits)
    (hs : Descends X p.s (t + 8 * index p.va n) p.level s') :
    ∃ g' u, Descends X g (t + 8 * index p.va n) (n + 1) g' ∧
      Held X g' { p with s := s', level := p.level + 1 } (n + 1) u := by
  have hn := h.depth_lt hsize hfits
  have hva := h.va_lt hsize
  have hlevel := h.level
  rw [hlevel] at hs
  obtain ⟨g', hd, halike⟩ := h.alike.descends h.inv hva hn h.table hs
  obtain ⟨hinv, ⟨u, hu⟩, -⟩ := h.inv.descends hva hn h.table hd
  refine ⟨g', u, hd, hn, congrArg (· + 1) hlevel, halike, hinv, hu, h.va_page, h.pa_page,
    h.size_page, h.va_end, fun k hpos hk => ?_⟩
  rcases Nat.lt_succ_iff_lt_or_eq.mp hk with hk | rfl
  · exact h.passed k hpos hk
  · rintro ⟨hdvd, hle⟩
    exact hfits (fits_iff.mpr ⟨Nat.add_le_add_iff_left.mp hle, Nat.mod_eq_zero_of_dvd hdvd⟩)

end Pass

end Xlat

end Evisor
