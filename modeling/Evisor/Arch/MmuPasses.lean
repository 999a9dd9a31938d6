import Mathlib.Logic.Relation
import Evisor.Arch.MmuRun

/-!
# The passes over a region

The loop of `InitXlatTables` one pass at a time: what a pass finds (`Evisor.Xlat.Pass.accesses`),
which descriptors it writes (`Evisor.Xlat.Pass.leaves`), and where the next one starts
(`Evisor.Xlat.Pass.next`). A pass goes on to the next block, or one level down, whatever is in
the tables: `Evisor.Xlat.Pass.next_cases`. So a region that has been gone through to its end has
told where it lies (`Evisor.Xlat.Pass.inside_of_run`) and which blocks it has
(`Evisor.Xlat.Pass.congruent_of_run`).
-/

namespace Evisor

namespace Xlat

variable (X : XlatTables)

/-! ### One pass -/

/-- A pass of the loop of `InitXlatTables`, by what it starts from. -/
structure Pass where
  s : Xlat
  va : ℕ
  pa : ℕ
  size : ℕ
  attrs : ℕ
  level : ℕ

/-- The tables that the loop of `FindPteIndex` goes into, with the index in each. -/
def accessesLoop (mem : ℕ → ℕ) (va level : ℕ) : ℕ → ℕ → List (ℕ × ℕ)
  | 0, _ => []
  | left + 1, table =>
    let i := CONFIG_MMU_TABLE_LEVEL_MAX - left
    let pte := table + 8 * getVaIndex va i
    (table, getVaIndex va i) ::
      if i = level then []
      else if pteDescType (mem pte) ≠ PTE_TABLE_DESC then []
      else accessesLoop mem va level left (mem pte &&& 0x0000fffffffff000)

/-- An entry of a table: of the first one, which has 64, or of one of the others. -/
def InTable (a : ℕ × ℕ) : Prop :=
  a.1 = X.base ∧ a.2 < NUM_BASE_LEVEL_ENTRIES ∨
    ∃ k < CONFIG_MMU_MAX_XLAT_TABLES, a.1 = X.pool + 4096 * k ∧ a.2 < XLAT_TABLE_ENTRIES

namespace Pass

/-- What is left covers what an entry of the level stands for. -/
def Fits (p : Pass) : Prop :=
  p.size ≥ 1 <<< levelShift p.level ∧ p.va &&& (1 <<< levelShift p.level - 1) = 0

instance (p : Pass) : Decidable p.Fits := inferInstanceAs (Decidable (_ ∧ _))

/-- What a pass does with the entry it has found. -/
def write (p : Pass) (pte : ℕ) : Except Fault Pass :=
  let level_size := 1 <<< levelShift p.level
  if p.Fits then
    .ok ⟨p.s.store pte (setPteBlockDesc p.pa p.attrs p.level), (p.va + level_size) % 2 ^ 64,
      (p.pa + level_size) % 2 ^ 64, p.size - level_size, p.attrs, PAGE_TABLE_BASE_LEVEL⟩
  else if pteDescType (p.s.mem pte) = PTE_INVALID_DESC then
    (p.s.newXlatTablesEntry X).map fun r =>
      { p with s := r.2.setPteTableDesc pte r.1, level := p.level + 1 }
  else if pteDescType (p.s.mem pte) = PTE_BLOCK_DESC then
    (p.s.splitPteBlockDesc X pte p.level).map fun s => { p with s := s, level := p.level + 1 }
  else if pteDescType (p.s.mem pte) = PTE_TABLE_DESC then .ok { p with level := p.level + 1 }
  else .error (.panic "Never reach here!")

/-- The pass after a pass. -/
def next (p : Pass) : Except Fault Pass :=
  if CONFIG_MMU_TABLE_LEVEL_MAX < p.level then
    .error (.panic "max translation table level exceeded")
  else (p.s.findPteIndex X p.va p.level).elim (.error (.panic "Couln't find PTE")) (p.write X)

/-- The loop, from a pass on. -/
def run (fuel : ℕ) (p : Pass) : Except Fault Xlat :=
  initXlatLoop X fuel p.s p.va p.pa p.size p.attrs p.level

/-- The table accesses of `FindPteIndex` in a pass. -/
def accesses (p : Pass) : List (ℕ × ℕ) :=
  accessesLoop p.s.mem p.va p.level (CONFIG_MMU_TABLE_LEVEL_MAX + 1 - PAGE_TABLE_BASE_LEVEL) X.base

/-- **The blocks and pages that a pass writes** into the entry it has found: the output address
of each descriptor, and its level. -/
def leavesAt (p : Pass) (pte : ℕ) : List (ℕ × ℕ) :=
  if p.Fits then [(p.pa, p.level)]
  else if pteDescType (p.s.mem pte) = PTE_BLOCK_DESC then
    (List.range XLAT_TABLE_ENTRIES).map fun i =>
      (splitDesc (p.s.mem pte) p.level i &&& 0x0000fffffffff000, p.level + 1)
  else []

/-- The blocks and pages that a pass writes. -/
def leaves (p : Pass) : List (ℕ × ℕ) := (p.s.findPteIndex X p.va p.level).elim [] p.leavesAt

/-- **A pass that keeps to the tables**: it goes into entries that they have, and every block and
page it writes is on a boundary. -/
structure Sound (p : Pass) : Prop where
  accesses : ∀ a ∈ p.accesses X, InTable X a
  leaves : ∀ leaf ∈ p.leaves X, leaf.1 % 2 ^ levelShift leaf.2 = 0

variable {X} {p q : Pass} {s' : Xlat} {fuel : ℕ}

/-- **The loop goes on from pass to pass** until nothing is left. -/
theorem run_succ (p : Pass) (fuel : ℕ) : p.run X (fuel + 1) =
    if p.size = 0 then .ok p.s else (p.next X).bind fun q => q.run X fuel := by
  rw [run, initXlatLoop, next]
  by_cases hsize : p.size = 0
  · rw [if_pos hsize, if_pos hsize]
  rw [if_neg hsize, if_neg hsize]
  by_cases hlevel : CONFIG_MMU_TABLE_LEVEL_MAX < p.level
  · rw [if_pos hlevel, if_pos hlevel]
    rfl
  rw [if_neg hlevel, if_neg hlevel]
  cases p.s.findPteIndex X p.va p.level with
  | none => rfl
  | some pte =>
    rw [Option.elim_some, write]
    change (if p.Fits then _ else _) = _
    by_cases hfits : p.Fits
    · rw [if_pos hfits, if_pos hfits]
      rfl
    rw [if_neg hfits, if_neg hfits]
    by_cases hinvalid : pteDescType (p.s.mem pte) = PTE_INVALID_DESC
    · rw [if_pos hinvalid, if_pos hinvalid]
      cases p.s.newXlatTablesEntry X with
      | error e => rfl
      | ok r => rfl
    rw [if_neg hinvalid, if_neg hinvalid]
    by_cases hblock : pteDescType (p.s.mem pte) = PTE_BLOCK_DESC
    · rw [if_pos hblock, if_pos hblock]
      cases p.s.splitPteBlockDesc X pte p.level with
      | error e => rfl
      | ok s => rfl
    rw [if_neg hblock, if_neg hblock]
    by_cases htable : pteDescType (p.s.mem pte) = PTE_TABLE_DESC
    · rw [if_pos htable, if_pos htable]
      rfl
    · rw [if_neg htable, if_neg htable]
      rfl

theorem fits_iff : p.Fits ↔
    2 ^ levelShift p.level ≤ p.size ∧ p.va % 2 ^ levelShift p.level = 0 := by
  rw [Fits, Nat.one_shiftLeft, Nat.and_two_pow_sub_one_eq_mod]

/-- **A page always fits**: where what is left does not cover an entry, there is a level below. -/
theorem depth_lt_of_not_fits {n : ℕ} (hn : n ≤ 2) (hlevel : p.level = n + 1)
    (hva : p.va % 4096 = 0) (hpages : p.size % 4096 = 0) (hsize : p.size ≠ 0) (hfits : ¬p.Fits) :
    n < 2 := by
  rcases level_cases hn with ⟨rfl, -⟩ | ⟨rfl, -⟩ | ⟨rfl, hs⟩
  · decide
  · decide
  · refine absurd (fits_iff.mpr ?_) hfits
    rw [hlevel, hs]
    omega

/-- **Going one level down**: the entry leads to a table then. -/
inductive Descends (X : XlatTables) (s : Xlat) (pte level : ℕ) : Xlat → Prop
  | empty (htype : pteDescType (s.mem pte) = PTE_INVALID_DESC)
      (hidx : s.idx < CONFIG_MMU_MAX_XLAT_TABLES) : Descends X s pte level
        (setPteTableDesc { s with idx := s.idx + 1 } pte (nextTable X s))
  | split (htype : pteDescType (s.mem pte) = PTE_BLOCK_DESC)
      (hidx : s.idx < CONFIG_MMU_MAX_XLAT_TABLES) : Descends X s pte level
        (setPteTableDesc (splitLoop { s with idx := s.idx + 1 } (nextTable X s) (s.mem pte) level
          XLAT_TABLE_ENTRIES) pte (nextTable X s))
  | link (htype : pteDescType (s.mem pte) = PTE_TABLE_DESC) : Descends X s pte level s

/-- The pass after one that writes a block. -/
def block (p : Pass) (pte : ℕ) : Pass :=
  ⟨p.s.store pte (setPteBlockDesc p.pa p.attrs p.level), (p.va + 2 ^ levelShift p.level) % 2 ^ 64,
    (p.pa + 2 ^ levelShift p.level) % 2 ^ 64, p.size - 2 ^ levelShift p.level, p.attrs,
    PAGE_TABLE_BASE_LEVEL⟩

/-- **A pass goes on to the next block, or one level down.** -/
theorem next_cases (h : p.next X = .ok q) : p.level ≤ CONFIG_MMU_TABLE_LEVEL_MAX ∧
    ∃ pte, p.s.findPteIndex X p.va p.level = some pte ∧ (p.Fits ∧ q = p.block pte ∨
      ¬p.Fits ∧ ∃ s, Descends X p.s pte p.level s ∧
        q = { p with s := s, level := p.level + 1 }) := by
  rw [next] at h
  by_cases hlevel : CONFIG_MMU_TABLE_LEVEL_MAX < p.level
  · rw [if_pos hlevel] at h
    cases h
  rw [if_neg hlevel] at h
  refine ⟨Nat.le_of_not_lt hlevel, ?_⟩
  rcases hpte : p.s.findPteIndex X p.va p.level with - | pte
  · rw [hpte] at h
    cases h
  refine ⟨pte, rfl, ?_⟩
  rw [hpte, Option.elim_some, write] at h
  by_cases hfits : p.Fits
  · rw [if_pos hfits] at h
    obtain rfl := Except.ok.inj h
    rw [block, ← Nat.one_shiftLeft (levelShift p.level)]
    exact .inl ⟨hfits, rfl⟩
  rw [if_neg hfits] at h
  refine .inr ⟨hfits, ?_⟩
  -- the entry is empty, a block or a link, as in the branches of the loop
  split_ifs at h with hinvalid hblock htable
  · rcases newXlatTablesEntry_cases X p.s with ⟨hidx, hnew⟩ | hnew
    · rw [hnew] at h
      exact ⟨_, .empty hinvalid hidx, (Except.ok.inj h).symm⟩
    · rw [hnew] at h
      cases h
  · rw [splitPteBlockDesc] at h
    rcases newXlatTablesEntry_cases X p.s with ⟨hidx, hnew⟩ | hnew
    · rw [hnew] at h
      exact ⟨_, .split hblock hidx, (Except.ok.inj h).symm⟩
    · rw [hnew] at h
      cases h
  · exact ⟨p.s, .link htable, (Except.ok.inj h).symm⟩

/-! ### The passes that are made -/

/-- One pass comes after another. -/
def Then (X : XlatTables) (p q : Pass) : Prop := p.size ≠ 0 ∧ p.next X = .ok q

/-- **Every pass**, from one on, does something. -/
def Every (X : XlatTables) (P : Pass → Prop) (p : Pass) : Prop :=
  ∀ q, Relation.ReflTransGen (Then X) p q → q.size ≠ 0 → P q

theorem Every.head {P : Pass → Prop} (h : Every X P p) (hsize : p.size ≠ 0) : P p :=
  h p .refl hsize

theorem Every.tail {P : Pass → Prop} (h : Every X P p) (hpq : Then X p q) : Every X P q :=
  fun r hr => h r (.head hpq hr)

/-- **What each pass keeps, every pass keeps.** -/
theorem Every.of_inv {I P : Pass → Prop} (hI : ∀ p q, Then X p q → I p → I q)
    (hP : ∀ p, I p → p.size ≠ 0 → P p) (h : I p) : Every X P p := by
  intro q hpq hsize
  refine hP q ?_ hsize
  clear hsize
  induction hpq with
  | refl => exact h
  | tail _ hqr ih => exact hI _ _ hqr ih

/-- **A run that comes to its end**, from the last pass back to the first. -/
theorem run_induct {motive : Pass → Prop} (hdone : ∀ p : Pass, p.size = 0 → motive p)
    (hthen : ∀ p q, Then X p q → motive q → motive p) (h : p.run X fuel = .ok s') : motive p := by
  induction fuel generalizing p with
  | zero => cases h
  | succ fuel ih =>
    rw [run_succ] at h
    by_cases hsize : p.size = 0
    · exact hdone p hsize
    rw [if_neg hsize] at h
    obtain ⟨q, hq, hrun⟩ := Lib.bind_eq_ok.mp h
    exact hthen p q ⟨hsize, hq⟩ (ih hrun)

/-! ### What a run tells of its region -/

/-- A level is one of three. -/
theorem levelShift_cases {level : ℕ} (hpos : 1 ≤ level) (h : level ≤ CONFIG_MMU_TABLE_LEVEL_MAX) :
    level = 1 ∧ levelShift level = 30 ∨ level = 2 ∧ levelShift level = 21 ∨
      level = 3 ∧ levelShift level = 12 := by
  obtain ⟨n, rfl⟩ := Nat.exists_eq_add_of_le' hpos
  rcases level_cases (Nat.le_of_succ_le_succ h) with ⟨rfl, hs⟩ | ⟨rfl, hs⟩ | ⟨rfl, hs⟩
  · exact .inl ⟨rfl, hs⟩
  · exact .inr (.inl ⟨rfl, hs⟩)
  · exact .inr (.inr ⟨rfl, hs⟩)

/-- The first entry of a pass is in the first table. -/
theorem Sound.index_lt (h : p.Sound X) : p.va / 2 ^ 30 % 512 < NUM_BASE_LEVEL_ENTRIES := by
  have hindex : getVaIndex p.va 1 = p.va / 2 ^ 30 % 512 := getVaIndex_eq p.va 1
  have hapart := X.apart
  rw [← hindex]
  rcases h.accesses (X.base, getVaIndex p.va 1) List.mem_cons_self with
    ⟨-, hlt⟩ | ⟨k, hk, hpool, -⟩
  · exact hlt
  · simp only [CONFIG_MMU_MAX_XLAT_TABLES, NUM_BASE_LEVEL_ENTRIES] at *
    omega

/-- A block that is written is on a boundary. -/
theorem Sound.pa_mod (h : p.Sound X) {pte : ℕ} (hpte : p.s.findPteIndex X p.va p.level = some pte)
    (hfits : p.Fits) : p.pa % 2 ^ levelShift p.level = 0 := by
  refine h.leaves (p.pa, p.level) ?_
  rw [Pass.leaves, hpte, Option.elim_some, leavesAt, if_pos hfits]
  exact List.mem_singleton_self _

/-- **A region lies below the end of the first table**, in the bits of an address that the
tables are for, when every pass finds its entry there. -/
theorem inside_of_run (h : p.run X fuel = .ok s') (hevery : Every X (Sound X) p)
    (hpos : 1 ≤ p.level) (hsize : p.size ≠ 0) : p.va % 2 ^ 39 + p.size ≤ 2 ^ 36 := by
  refine run_induct (motive := fun p => Every X (Sound X) p → 1 ≤ p.level →
      p.size ≠ 0 → p.va % 2 ^ 39 + p.size ≤ 2 ^ 36) ?_ ?_ h hevery hpos hsize
  · intro p h0 _ _ hsize
    exact absurd h0 hsize
  · intro p q hpq ih hevery hpos hsize
    have hhere : p.va / 2 ^ 30 % 512 < 64 := (hevery.head hsize).index_lt
    obtain ⟨hmax, pte, -, ⟨hfits, rfl⟩ | ⟨-, s, -, rfl⟩⟩ := next_cases hpq.2
    · obtain ⟨hle, hal⟩ := fits_iff.mp hfits
      have hrest : p.size - 2 ^ levelShift p.level ≠ 0 →
          (p.va + 2 ^ levelShift p.level) % 2 ^ 64 % 2 ^ 39 + (p.size - 2 ^ levelShift p.level) ≤
            2 ^ 36 := ih (hevery.tail hpq) le_rfl
      rcases levelShift_cases hpos hmax with ⟨-, hs⟩ | ⟨-, hs⟩ | ⟨-, hs⟩ <;>
        rw [hs] at hle hal hrest <;> omega
    · exact ih (hevery.tail hpq) (Nat.le_succ_of_le hpos) hsize

/-- Going on by a block, in addresses of 64 bits. -/
theorem add_mod_rest {k x b d : ℕ} (hk : k ≤ 64) (hbd : b ≤ d) :
    ((x + b) % 2 ^ 64 + (d - b)) % 2 ^ k = (x + d) % 2 ^ k := by
  rw [Nat.add_mod, Nat.mod_mod_of_dvd _ (pow_dvd_pow 2 hk), ← Nat.add_mod]
  exact congrArg (· % 2 ^ k) (by omega)

/-- A level further down has smaller blocks. -/
theorem levelShift_lt {j k : ℕ} (h : levelShift j < levelShift k) : k < j := by
  rw [levelShift, levelShift] at h
  omega

theorem levelShift_le {level : ℕ} : levelShift level ≤ 64 := by
  rw [levelShift, CONFIG_MMU_TABLE_LEVEL_MAX]
  omega

/-- A block that starts within another one is on a boundary there as here. -/
theorem aligned_of_lt {j k va pa d : ℕ} (hva : va % 2 ^ j = 0) (hpa : pa % 2 ^ j = 0)
    (hal : (va + d) % 2 ^ k = 0) (hd : d < 2 ^ j) (hpast : j < k → va % 2 ^ k ≠ 0) :
    (pa + d) % 2 ^ k = 0 := by
  rw [← Nat.dvd_iff_mod_eq_zero] at *
  rcases Nat.lt_or_ge j k with hjk | hkj
  · have hdj : 2 ^ j ∣ d := (Nat.dvd_add_right hva).mp ((pow_dvd_pow 2 hjk.le).trans hal)
    obtain rfl := Nat.eq_zero_of_dvd_of_lt hdj hd
    exact absurd (Nat.mod_eq_zero_of_dvd hal) (hpast hjk)
  · have hkd : 2 ^ k ∣ d := (Nat.dvd_add_right ((pow_dvd_pow 2 hkj).trans hva)).mp hal
    exact Nat.dvd_add ((pow_dvd_pow 2 hkj).trans hpa) hkd

/-- **A region is as far into each of its blocks there as here**, when every block that is
written is on a boundary. -/
theorem congruent_of_run (h : p.run X fuel = .ok s') (hevery : Every X (Sound X) p)
    (hlevel : p.level = PAGE_TABLE_BASE_LEVEL) {level d : ℕ} (hpos : 1 ≤ level)
    (hal : (p.va + d) % 2 ^ levelShift level = 0) (hd : d + 2 ^ levelShift level ≤ p.size) :
    (p.pa + d) % 2 ^ levelShift level = 0 := by
  have hbase : ∀ {q : Pass}, q.level = PAGE_TABLE_BASE_LEVEL → ¬level < q.level := by
    intro q hq hlt
    rw [hq] at hlt
    exact absurd hpos (Nat.not_le.mpr hlt)
  -- a level that is passed by has not fitted
  refine run_induct (motive := fun p => Every X (Sound X) p →
      (level < p.level → ¬(2 ^ levelShift level ≤ p.size ∧ p.va % 2 ^ levelShift level = 0)) →
      ∀ d, (p.va + d) % 2 ^ levelShift level = 0 → d + 2 ^ levelShift level ≤ p.size →
        (p.pa + d) % 2 ^ levelShift level = 0) ?_ ?_ h hevery
    (fun hlt => absurd hlt (hbase hlevel)) d hal hd
  · intro p h0 _ _ d _ hd
    have := Nat.two_pow_pos (levelShift level)
    omega
  · intro p q hpq ih hevery hpast d hal hd
    obtain ⟨-, pte, hpte, ⟨hfits, rfl⟩ | ⟨hfits, s, -, rfl⟩⟩ := next_cases hpq.2
    · have hpa := (hevery.head hpq.1).pa_mod hpte hfits
      obtain ⟨hle, hpal⟩ := fits_iff.mp hfits
      rcases Nat.lt_or_ge d (2 ^ levelShift p.level) with hlt | hge
      · refine aligned_of_lt hpal hpa hal hlt fun hshift hva => ?_
        exact hpast (levelShift_lt hshift) ⟨by omega, hva⟩
      · have hrest := ih (hevery.tail hpq) (fun hlt => absurd hlt (hbase rfl))
          (d - 2 ^ levelShift p.level)
        rw [block, add_mod_rest levelShift_le hge, add_mod_rest levelShift_le hge] at hrest
        refine hrest hal ?_
        change _ ≤ p.size - 2 ^ levelShift p.level
        omega
    · refine ih (hevery.tail hpq) (fun hlt hboth => ?_) d hal hd
      rcases Nat.lt_or_eq_of_le (Nat.le_of_lt_succ hlt) with hlt | rfl
      · exact hpast hlt hboth
      · exact hfits (fits_iff.mpr hboth)

end Pass

end Xlat

end Evisor
