import Evisor.Lib.Blocks
import Evisor.Arch.MmuLinks

/-!
# The tables that a region takes

A pass of the loop of `InitXlatTables` takes a table for an entry that what is left of the region
does not cover. An entry that the region covers altogether is written before anything is taken for
it, and one for which a table has been taken leads there when it is come to again. So a region takes
tables for entries that it covers in part, and one for each: two for GiBs, and two for parts of
2 MiB in them, whatever has been there before (`Evisor.Xlat.initXlatTables_builds`).
-/

namespace Evisor

namespace MmuMapRegion

/-- **A region on page boundaries**, there as here, that ends where addresses do. -/
structure OnPages (r : MmuMapRegion) : Prop where
  va_page : r.base_va % PAGE_SIZE = 0
  pa_page : r.base_pa % PAGE_SIZE = 0
  size_page : r.size % PAGE_SIZE = 0
  va_end : r.base_va + r.size ≤ 2 ^ CONFIG_MMU_VA_BITS

/-- **The region covers in part** what an entry stands for, that is known by its level and by the
number of what it stands for. -/
def Partly (r : MmuMapRegion) (c : ℕ × ℕ) : Prop :=
  Lib.Partly (2 ^ levelShift c.1) r.base_va (r.base_va + r.size) c.2

end MmuMapRegion

namespace Xlat

variable (X : XlatTables)

/-! ### What is taken -/

namespace Pass

/-- **The tables that a pass takes** from `NewXlatTablesEntry` for the entry it has found, or would
if there were any left: each by the level of the entry, and the number of what it stands for. -/
def takenAt (p : Pass) (pte : ℕ) : List (ℕ × ℕ) :=
  if p.Fits then []
  else if pteDescType (p.s.mem pte) = PTE_INVALID_DESC ∨
    pteDescType (p.s.mem pte) = PTE_BLOCK_DESC then [(p.level, p.va / 2 ^ levelShift p.level)]
  else []

/-- The tables that a pass takes. -/
def taken (p : Pass) : List (ℕ × ℕ) := (p.s.findPteIndex X p.va p.level).elim [] p.takenAt

/-- The tables that the loop takes, from a pass on. -/
def takenFrom : ℕ → Pass → List (ℕ × ℕ)
  | 0, _ => []
  | fuel + 1, p =>
    if p.size = 0 then []
    else p.taken X ++ (p.next X).toOption.elim [] (takenFrom fuel)

/-- **A pass that goes on**: there is an entry, and it is of a kind that is known. -/
structure Proper (p : Pass) : Prop where
  level : p.level ≤ CONFIG_MMU_TABLE_LEVEL_MAX
  entry : ∃ pte, p.s.findPteIndex X p.va p.level = some pte ∧
    (p.Fits ∨ pteDescType (p.s.mem pte) = PTE_INVALID_DESC ∨
      pteDescType (p.s.mem pte) = PTE_BLOCK_DESC ∨ pteDescType (p.s.mem pte) = PTE_TABLE_DESC)

end Pass

/-- The tables that `InitXlatTables` takes for a region. -/
def newTables (s : Xlat) (r : MmuMapRegion) : List (ℕ × ℕ) :=
  (s.firstPass r).takenFrom X (initXlatFuel r.size)

/-- **A region is built**, with four tables at most. The only thing that can be reported is that no
table is left, and that not if there were four. -/
structure Builds (s : Xlat) (r : MmuMapRegion) : Prop where
  ends : ∀ e, s.initXlatTables X r = .error e → e = outOfTables
  returns : s.idx + 4 ≤ CONFIG_MMU_MAX_XLAT_TABLES → ∃ s', s.initXlatTables X r = .ok s'
  passes : Pass.Every X (Pass.Proper X) (s.firstPass r)
  count : ∀ s', s.initXlatTables X r = .ok s' → s'.idx = s.idx + (s.newTables X r).length
  once : (s.newTables X r).Nodup
  partly : ∀ c ∈ s.newTables X r, (c.1 = 1 ∨ c.1 = 2) ∧ r.Partly c
  gib : (s.newTables X r).countP (fun c => c.1 = 1) ≤ 2
  mib : (s.newTables X r).countP (fun c => c.1 = 2) ≤ 2
  four : (s.newTables X r).length ≤ 4

variable {X} {s s' g g' : Xlat} {n t : ℕ}

/-! ### One pass -/

/-- There is a table, or there are none left. -/
theorem newXlatTablesEntry_gives (X : XlatTables) (s : Xlat) :
    Lib.Gives (s.newXlatTablesEntry X) (fun r => r.2.idx = s.idx + 1)
      (fun e => e = outOfTables ∧ CONFIG_MMU_MAX_XLAT_TABLES ≤ s.idx) := by
  rw [newXlatTablesEntry]
  split_ifs with hidx
  · exact .of_ok rfl
  · exact .of_error ⟨rfl, Nat.le_of_not_lt hidx⟩

theorem splitPteBlockDesc_gives (X : XlatTables) (s : Xlat) (pte level : ℕ) :
    Lib.Gives (s.splitPteBlockDesc X pte level) (fun s' => s'.idx = s.idx + 1)
      (fun e => e = outOfTables ∧ CONFIG_MMU_MAX_XLAT_TABLES ≤ s.idx) := by
  refine (newXlatTablesEntry_gives X s).bind fun r hr => .of_ok ?_
  rw [setPteTableDesc_idx, splitLoop_idx, hr]

namespace Pass

variable {p q : Pass} {c : ℕ × ℕ}

theorem Held.proper (h : Held X g p n t) (hsize : p.size ≠ 0) : p.Proper X := by
  refine ⟨?_, _, h.entry, ?_⟩
  · rw [h.level]
    exact Nat.succ_le_succ h.depth
  · by_cases hfits : p.Fits
    · exact .inl hfits
    · exact .inr (h.kind hsize hfits)

/-- **A pass takes the tables it says**, or there are fewer left. -/
theorem Held.next_gives (h : Held X g p n t) (hsize : p.size ≠ 0) :
    Lib.Gives (p.next X) (fun q => q.s.idx = p.s.idx + (p.taken X).length)
      (fun e => e = outOfTables ∧ CONFIG_MMU_MAX_XLAT_TABLES < p.s.idx + (p.taken X).length) := by
  rw [next, if_neg (Nat.not_lt.mpr (h.proper hsize).level), taken, h.entry, Option.elim_some,
    Option.elim_some, write, takenAt]
  by_cases hfits : p.Fits
  · rw [if_pos hfits, if_pos hfits]
    exact .of_ok rfl
  rw [if_neg hfits, if_neg hfits]
  rcases h.kind hsize hfits with h0 | h1 | h3
  · rw [if_pos h0, if_pos (.inl h0)]
    have hnew := newXlatTablesEntry_gives X p.s
    rcases hr : p.s.newXlatTablesEntry X with e | r
    · obtain ⟨he, hidx⟩ := hnew.error e hr
      exact .of_error ⟨he, Nat.lt_succ_of_le hidx⟩
    · exact .of_ok (hnew.ok r hr)
  · have hne : ¬pteDescType (p.s.mem (t + 8 * index p.va n)) = PTE_INVALID_DESC := by
      rw [h1]
      decide
    rw [if_neg hne, if_pos h1, if_pos (.inr h1)]
    have hsplit := splitPteBlockDesc_gives X p.s (t + 8 * index p.va n) p.level
    rcases hr : p.s.splitPteBlockDesc X (t + 8 * index p.va n) p.level with e | s'
    · obtain ⟨he, hidx⟩ := hsplit.error e hr
      exact .of_error ⟨he, Nat.lt_succ_of_le hidx⟩
    · exact .of_ok (hsplit.ok s' hr)
  · rw [h3, if_neg (by decide), if_neg (by decide), if_pos rfl, if_neg (by decide)]
    exact .of_ok rfl

/-- **The next pass is held as this one is**, and there is less to do. -/
theorem Held.then (h : Held X g p n t) (hpq : Then X p q) : ∃ g' m u, Held X g' q m u ∧
    3 * (q.size / 4096) + 1 - m < 3 * (p.size / 4096) + 1 - n ∧ (q.size = 0 → m = 0) := by
  obtain ⟨hsize, hnext⟩ := hpq
  have hsz := h.size_page
  have hn := h.depth
  obtain ⟨-, pte, hpte, hcases⟩ := next_cases hnext
  obtain rfl := Option.some.inj (h.entry.symm.trans hpte)
  rcases hcases with ⟨hfits, rfl⟩ | ⟨hfits, s, hdesc, rfl⟩
  · obtain ⟨desc, pa, -, hq⟩ := h.block hsize hfits
    have hle := (fits_iff.mp hfits).1
    refine ⟨_, _, _, hq, ?_, fun _ => rfl⟩
    rw [h.level] at hle
    rw [Pass.block, h.level]
    dsimp only
    rcases level_cases hn with ⟨-, hs⟩ | ⟨-, hs⟩ | ⟨-, hs⟩ <;> rw [hs] at hle ⊢ <;> omega
  · obtain ⟨g', u, -, hq⟩ := h.descends hsize hfits hdesc
    refine ⟨g', _, u, hq, ?_, fun h0 => absurd h0 hsize⟩
    dsimp only
    omega

/-- **Every pass over a region goes on.** -/
theorem Held.every (h : Held X g p n t) : Every X (Proper X) p := by
  refine Every.of_inv (I := fun p => ∃ g n t, Held X g p n t) ?_ ?_ ⟨g, n, t, h⟩
  · rintro p q hpq ⟨g, n, t, h⟩
    obtain ⟨g', m, u, hq, -⟩ := h.then hpq
    exact ⟨g', m, u, hq⟩
  · rintro p ⟨g, n, t, h⟩ hsize
    exact h.proper hsize

/-- **The loop comes to its end**, or to where no table is left. -/
theorem Held.run_gives (h : Held X g p n t) {fuel : ℕ}
    (hfuel : 3 * (p.size / 4096) + 1 - n ≤ fuel) (hzero : p.size = 0 → n = 0) :
    Lib.Gives (p.run X fuel)
      (fun s' => s'.idx = p.s.idx + (p.takenFrom X fuel).length ∧ ∃ g', Alike X s' g' ∧ Inv X g')
      (fun e => e = outOfTables ∧
        CONFIG_MMU_MAX_XLAT_TABLES < p.s.idx + (p.takenFrom X fuel).length) := by
  induction fuel generalizing p g n t with
  | zero =>
    have hsz := h.size_page
    have hn := h.depth
    omega
  | succ fuel ih =>
    rw [run_succ, takenFrom]
    by_cases hsize : p.size = 0
    · rw [if_pos hsize, if_pos hsize]
      exact .of_ok ⟨rfl, g, h.alike, h.inv⟩
    rw [if_neg hsize, if_neg hsize, List.length_append]
    have hnext := h.next_gives hsize
    rcases hr : p.next X with e | q
    · obtain ⟨he, hidx⟩ := hnext.error e hr
      exact .of_error ⟨he, hidx.trans_le (by omega)⟩
    · have hidx := hnext.ok q hr
      obtain ⟨g', m, u, hq, hless, hdone⟩ := h.then ⟨hsize, hr⟩
      have hrest := ih hq (by omega) hdone
      rw [hidx, Nat.add_assoc] at hrest
      exact hrest

/-! ### What the tables are for -/

/-- **What is still ahead** of a pass: an entry that what is left of the region covers in part, and
that does not lead to a table if it is the one of the address at hand. -/
structure Ahead (X : XlatTables) (g : Xlat) (p : Pass) (c : ℕ × ℕ) : Prop where
  level : c.1 = 1 ∨ c.1 = 2
  partly : Lib.Partly (2 ^ levelShift c.1) p.va (p.va + p.size) c.2
  le : p.va / 2 ^ levelShift c.1 ≤ c.2
  ne : tableAt X g.mem (pathOf p.va c.1) ≠ none → p.va / 2 ^ levelShift c.1 ≠ c.2

/-- **A pass takes one table at most**, for an entry that is ahead. -/
theorem Held.taken_cases (h : Held X g p n t) (hsize : p.size ≠ 0) :
    p.taken X = [] ∨ ¬p.Fits ∧ p.taken X = [(n + 1, p.va / 2 ^ levelShift (n + 1))] ∧
      Ahead X g p (n + 1, p.va / 2 ^ levelShift (n + 1)) := by
  have hva := h.va_lt hsize
  rw [taken, h.entry, Option.elim_some, takenAt, h.level]
  split_ifs with hfits htype
  · exact .inl rfl
  · have hn := h.depth_lt hsize hfits
    refine .inr ⟨hfits, rfl, by dsimp only; omega, ?_, le_rfl, fun hsome => absurd ?_ hsome⟩
    · refine Lib.Partly.of_start (Nat.two_pow_pos _) (by omega) fun hcovered => ?_
      refine hfits (fits_iff.mpr ?_)
      rw [h.level]
      exact ⟨Nat.add_le_add_iff_left.mp hcovered.2, Nat.mod_eq_zero_of_dvd hcovered.1⟩
    · rw [tableAt_succ, h.table, Option.bind_some]
      refine child_eq_none ?_
      rw [h.alike.pteDescType, pteDescType_eq, PTE_INVALID_DESC, PTE_BLOCK_DESC] at htype
      omega
  · exact .inl rfl

/-- Entries of the levels up to one are as large as those of it, or larger. -/
theorem dvd_of_level_le {j k : ℕ} (h : j ≤ k) : 2 ^ levelShift k ∣ 2 ^ levelShift j := by
  refine pow_dvd_pow 2 ?_
  rw [levelShift, levelShift]
  omega

/-- **What is ahead behind a block** is ahead of it. -/
theorem Ahead.of_block (h : Held X g p n t) (hsize : p.size ≠ 0) (hfits : p.Fits)
    {desc pa attrs : ℕ} (hleaf : IsLeaf n desc pa attrs)
    (hc : Ahead X (g.store (t + 8 * index p.va n) desc) (p.block (t + 8 * index p.va n)) c) :
    Ahead X g p c := by
  obtain ⟨hle, hal⟩ := fits_iff.mp hfits
  have hva := h.va_lt hsize
  have hend := h.va_end
  have hnext : (p.block (t + 8 * index p.va n)).va = p.va + 2 ^ levelShift p.level := by
    rw [block]
    exact Nat.mod_eq_of_lt (by omega)
  have hrest : p.va + 2 ^ levelShift p.level + (p.block (t + 8 * index p.va n)).size =
      p.va + p.size := by
    rw [block]
    dsimp only
    omega
  obtain ⟨hlevel, hpartly, hfrom, hne⟩ := hc
  rw [hnext] at hpartly hfrom hne
  rw [hrest] at hpartly
  have hmono : p.va / 2 ^ levelShift c.1 ≤ (p.va + 2 ^ levelShift p.level) / 2 ^ levelShift c.1 :=
    Nat.div_le_div_right (Nat.le_add_right ..)
  have hstart : 2 ^ levelShift p.level ∣ p.va := Nat.dvd_of_mod_eq_zero hal
  refine ⟨hlevel, ?_, hmono.trans hfrom, fun hsome heq => ?_⟩
  · refine hpartly.of_add hstart ?_
    rcases Nat.lt_or_ge c.1 p.level with hlt | hge
    · exact .inr ⟨dvd_of_level_le hlt.le, h.passed c.1 (by omega) hlt⟩
    · exact .inl (dvd_of_level_le hge)
  · -- the block is within the entry, of a level that has been passed by
    have hsame : (p.va + 2 ^ levelShift p.level) / 2 ^ levelShift c.1 =
        p.va / 2 ^ levelShift c.1 := Nat.le_antisymm (heq ▸ hfrom) hmono
    have hlt : c.1 < p.level := by
      by_contra hge
      have hle := Nat.le_of_dvd (Nat.two_pow_pos _) (dvd_of_level_le (Nat.le_of_not_lt hge))
      have hdiv := Nat.div_le_div_right (c := 2 ^ levelShift c.1) (Nat.add_le_add_left hle p.va)
      rw [Nat.add_div_right _ (Nat.two_pow_pos _)] at hdiv
      omega
    refine hne ?_ (hsame.trans heq)
    have hdepth : c.1 ≤ CONFIG_MMU_TABLE_LEVEL_MAX := by
      rw [CONFIG_MMU_TABLE_LEVEL_MAX]
      omega
    have hlen : (pathOf p.va c.1).length ≤ 2 := by
      rw [pathOf_length]
      omega
    rw [pathOf_congr hdepth hsame, h.inv.block_reach hva h.depth h.table hleaf hlen, if_neg]
    · exact hsome
    · rw [h.level] at hlt
      exact fun hpre => absurd ((prefix_iff h.depth hva hva).mp hpre).1 (by omega)

/-- A table that is there is kept when another one is put in the place of an entry. -/
theorem Held.descends_tableAt (h : Held X g p n t) (hsize : p.size ≠ 0) (hfits : ¬p.Fits)
    (hd : Descends X g (t + 8 * index p.va n) (n + 1) g') {path : List (Fin 512)}
    (hp : path.length ≤ 2) (hsome : tableAt X g.mem path ≠ none) :
    tableAt X g'.mem path ≠ none := by
  have hn := h.depth_lt hsize hfits
  have hva := h.va_lt hsize
  rcases h.inv.descends_cases hva hn h.table hd with ⟨-, rfl⟩ | ⟨h3, hidx, hg⟩
  · exact hsome
  · rw [h.inv.grown_reach hva hn h.table (child_eq_none h3) hidx hg hp]
    split_ifs with hpath
    · exact Option.some_ne_none _
    · exact hsome

/-- **What is ahead one level down** is ahead. -/
theorem Ahead.of_descends (h : Held X g p n t) (hsize : p.size ≠ 0) (hfits : ¬p.Fits)
    (hd : Descends X g (t + 8 * index p.va n) (n + 1) g')
    (hc : Ahead X g' { p with s := s', level := p.level + 1 } c) : Ahead X g p c := by
  refine ⟨hc.level, hc.partly, hc.le, fun hsome => hc.ne ?_⟩
  refine h.descends_tableAt hsize hfits hd ?_ hsome
  have hlevel := hc.level
  rw [pathOf_length]
  omega

/-- **A region takes one table for an entry**, and all that it takes is for what is ahead. -/
theorem Held.takenFrom_ahead (h : Held X g p n t) (fuel : ℕ) :
    (p.takenFrom X fuel).Nodup ∧ ∀ c ∈ p.takenFrom X fuel, Ahead X g p c := by
  induction fuel generalizing p g n t with
  | zero => exact ⟨List.nodup_nil, fun c hc => (by cases hc)⟩
  | succ fuel ih =>
    rw [takenFrom]
    by_cases hsize : p.size = 0
    · rw [if_pos hsize]
      exact ⟨List.nodup_nil, fun c hc => (by cases hc)⟩
    rw [if_neg hsize]
    -- what is taken later is ahead here as well, and is not for the entry at hand
    have hrest : ((p.next X).toOption.elim [] (takenFrom X fuel)).Nodup ∧
        ∀ c ∈ (p.next X).toOption.elim [] (takenFrom X fuel), Ahead X g p c ∧
          (¬p.Fits → c ≠ (n + 1, p.va / 2 ^ levelShift (n + 1))) := by
      rcases hr : p.next X with e | q
      · exact ⟨List.nodup_nil, fun c hc => (by cases hc)⟩
      obtain ⟨-, pte, hpte, hcases⟩ := next_cases hr
      obtain rfl := Option.some.inj (h.entry.symm.trans hpte)
      rcases hcases with ⟨hfits, rfl⟩ | ⟨hfits, s, hdesc, rfl⟩
      · obtain ⟨desc, pa, hleaf, hq⟩ := h.block hsize hfits
        obtain ⟨hnodup, hahead⟩ := ih hq
        exact ⟨hnodup, fun c hc => ⟨(hahead c hc).of_block h hsize hfits hleaf,
          fun hnot => absurd hfits hnot⟩⟩
      · obtain ⟨g', u, hd, hq⟩ := h.descends hsize hfits hdesc
        obtain ⟨hnodup, hahead⟩ := ih hq
        refine ⟨hnodup, fun c hc => ⟨(hahead c hc).of_descends h hsize hfits hd, fun _ => ?_⟩⟩
        rintro rfl
        exact (hahead _ hc).ne (by rw [hq.table]; exact Option.some_ne_none u) rfl
    obtain ⟨hnodup, hahead⟩ := hrest
    rcases h.taken_cases hsize with hnone | ⟨hfits, hone, hfirst⟩
    · rw [hnone]
      exact ⟨hnodup, fun c hc => (hahead c hc).1⟩
    · rw [hone]
      refine ⟨List.nodup_cons.mpr ⟨fun hc => (hahead _ hc).2 hfits rfl, hnodup⟩, fun c hc => ?_⟩
      rcases List.mem_cons.mp hc with rfl | hc
      · exact hfirst
      · exact (hahead c hc).1

end Pass

/-! ### A region among others -/

variable {r : MmuMapRegion}

theorem firstPass_held (halike : Alike X s g) (hinv : Inv X g) (hr : r.OnPages) :
    (s.firstPass r).Held X g 0 X.base :=
  ⟨Nat.zero_le 2, rfl, halike, hinv, tableAt_nil, hr.va_page, hr.pa_page, hr.size_page, hr.va_end,
    fun _ hpos hk => absurd hk (Nat.not_lt.mpr hpos)⟩

theorem initXlatTables_eq_run (s : Xlat) (hr : r.OnPages) :
    s.initXlatTables X r = (s.firstPass r).run X (initXlatFuel r.size) :=
  initXlatTables_of_page s hr.va_page hr.size_page

/-- **What has been built of regions on page boundaries** has tables in order beside it. -/
theorem Alike.of_regions {regions : List MmuMapRegion} (halike : Alike X s g) (hinv : Inv X g)
    (hall : ∀ r ∈ regions, r.OnPages) (hok : s.initRegions X regions = .ok s') :
    ∃ g', Alike X s' g' ∧ Inv X g' := by
  induction regions generalizing s g with
  | nil =>
    obtain rfl := Except.ok.inj hok
    exact ⟨g, halike, hinv⟩
  | cons r rest ih =>
    rw [initRegions] at hok
    obtain ⟨s₁, hone, hok⟩ := Lib.bind_eq_ok.mp hok
    obtain ⟨hr, hrest⟩ := List.forall_mem_cons.mp hall
    rw [initXlatTables_eq_run s hr] at hone
    obtain ⟨-, g₁, halike₁, hinv₁⟩ :=
      ((firstPass_held halike hinv hr).run_gives le_rfl fun _ => rfl).ok s₁ hone
    exact ih halike₁ hinv₁ hrest hok

/-- **A region takes four tables at most**, after whatever regions, and however many blocks of
theirs it has to split: two for GiBs that it covers in part, and two for parts of 2 MiB. -/
theorem initXlatTables_builds (hs : Zeroed X s) {before : List MmuMapRegion}
    (hbefore : ∀ r ∈ before, r.OnPages) (hok : s.initRegions X before = .ok s')
    (hr : r.OnPages) : Builds X s' r := by
  obtain ⟨g, halike, hinv⟩ := (Alike.refl s).of_regions hs.inv hbefore hok
  have hheld := firstPass_held halike hinv hr
  -- the passes over the region, each with the tables it has still to take
  have hrun := hheld.run_gives (le_refl (initXlatFuel r.size)) fun _ => rfl
  obtain ⟨hnodup, hahead⟩ := hheld.takenFrom_ahead (initXlatFuel r.size)
  rw [← initXlatTables_eq_run s' hr] at hrun
  have hpartly : ∀ c ∈ s'.newTables X r, (c.1 = 1 ∨ c.1 = 2) ∧ r.Partly c :=
    fun c hc => ⟨(hahead c hc).level, (hahead c hc).partly⟩
  -- a block is taken apart only at an end of the region, and it has two ends
  have htwo : ∀ k, (s'.newTables X r).countP (fun c => c.1 = k) ≤ 2 := by
    intro k
    have hlevel : ∀ c ∈ s'.newTables X r, c.1 = k →
        Lib.Partly (2 ^ levelShift k) r.base_va (r.base_va + r.size) c.2 := by
      rintro c hc rfl
      exact (hpartly c hc).2
    exact Lib.Partly.countP_le hnodup hlevel
  have hfour : (s'.newTables X r).length ≤ 4 := by
    have hgib := htwo 1
    have hmib := htwo 2
    have hother : (s'.newTables X r).countP (fun c => ¬decide (c.1 = 1) = true) =
        (s'.newTables X r).countP (fun c => c.1 = 2) := by
      refine List.countP_congr fun c hc => ?_
      rcases (hpartly c hc).1 with h1 | h2
      · simp [h1]
      · simp [h2]
    rw [List.length_eq_countP_add_countP (fun c => decide (c.1 = 1))]
    omega
  refine ⟨fun e he => (hrun.error e he).1, fun hroom => ?_, hheld.every, fun s₂ hs₂ => ?_, hnodup,
    hpartly, htwo 1, htwo 2, hfour⟩
  · rcases hres : s'.initXlatTables X r with e | s₂
    · have hfew : CONFIG_MMU_MAX_XLAT_TABLES < s'.idx + (s'.newTables X r).length :=
        (hrun.error e hres).2
      omega
    · exact ⟨s₂, rfl⟩
  · exact (hrun.ok s₂ hs₂).1

theorem deviceRegion_onPages : deviceRegion.OnPages := by constructor <;> decide

theorem pageRegion_onPages : pageRegion.OnPages := by constructor <;> decide

/-- A block of a GiB is split twice for a page. -/
theorem initXlatTables_builds_page : ∃ s', cleared.initRegions lowTables [deviceRegion] = .ok s' ∧
    Builds lowTables s' pageRegion := by
  obtain ⟨s', hok⟩ := Lib.exists_ok_of_isOk
    (by decide +kernel : (cleared.initRegions lowTables [deviceRegion]).isOk)
  have hbefore : ∀ r ∈ [deviceRegion], r.OnPages := by
    rintro r hr
    obtain rfl := List.mem_singleton.mp hr
    exact deviceRegion_onPages
  exact ⟨s', hok, initXlatTables_builds (cleared_zeroed lowTables) hbefore hok pageRegion_onPages⟩

end Xlat

end Evisor
