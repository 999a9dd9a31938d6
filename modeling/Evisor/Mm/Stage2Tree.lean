import Evisor.Lib.Radix
import Evisor.Mm.PgTableStage2

/-!
# The stage 2 tables as trees

The tables of all tasks together are a family of trees, one for each task, with links
read out of memory (`Evisor.Mm.child`). What every mapping keeps is
`Evisor.Mm.Inv`: the trees share no table, every table is a page of the heap that is
handed out, and the entries above the last level are links or nothing.

It is enough to know what each of the three things `MapPage` does to memory adds to
the trees: the first table of a task (`Evisor.Mm.Inv.createFirstTable`), a table
missing on the way down (`Evisor.Mm.Inv.createPageTable`), and the entry at the
bottom (`Evisor.Mm.Inv.setPageTableEntry`). The first two change no entry at the
bottom, the third changes one. `Evisor.Mm.Inv.mapPage` puts them together.
-/

namespace Evisor

namespace Mm

/-- The table an entry of a table leads to. -/
def child (m : Mem) (table : ℕ) (i : Fin PTRS_PER_TABLE) : Option ℕ :=
  if m (table + 8 * i) = 0 then none else some (m (table + 8 * i) &&& PAGE_MASK)

/-- The first table of a task. -/
def root (ctx : TaskId → MmContext) (t : TaskId) : Option ℕ :=
  if (ctx t).page_table = 0 then none else some (ctx t).page_table

/-- The table of a task at the end of a path of indices. -/
abbrev tableAt (s : Mm) (t : TaskId) (p : List (Fin PTRS_PER_TABLE)) : Option ℕ :=
  Lib.reach (child s.mem) (root s.ctx) t p

/-- The entry of a task at the end of a path of indices, and nothing when the table
it would be in is missing. -/
def entryAt (s : Mm) (t : TaskId) (p : List (Fin PTRS_PER_TABLE)) (i : Fin PTRS_PER_TABLE) : ℕ :=
  (s.tableAt t p).elim 0 fun table => s.mem (table + 8 * i)

/-- **What mapping keeps.** -/
structure Inv (L : Layout) (s : Mm) : Prop where
  /-- No table is used twice. -/
  separated : Lib.Separated (child s.mem) (root s.ctx) 2
  /-- Tables are pages handed out by the heap. -/
  allocated : ∀ {t p table}, p.length ≤ 2 → s.tableAt t p = some table →
    Allocated L s.heap table
  /-- Above the last level there are only links. -/
  link : ∀ {t p table}, p.length < 2 → s.tableAt t p = some table →
    ∀ i : Fin PTRS_PER_TABLE, s.mem (table + 8 * i) = 0 ∨
      ∃ next, L.InHeap next ∧ s.mem (table + 8 * i) = next + 3

variable {L : Layout} {s : Mm}

/-! ### Entries of tables on page boundaries -/

/-- Two tables have no entry in common. -/
theorem entry_inj {a b : ℕ} (ha : a % 4096 = 0) (hb : b % 4096 = 0) {i j : Fin PTRS_PER_TABLE}
    (h : a + 8 * i.val = b + 8 * j.val) : a = b ∧ i = j := by
  have hi := i.isLt
  have hj := j.isLt
  simp only [PTRS_PER_TABLE] at hi hj
  refine ⟨by omega, Fin.ext (by omega)⟩

/-- A cleared page reads zero, and no other page has changed. -/
theorem memzero_entry (m : Mem) {a n : ℕ} (ha : a % 4096 = 0) (hn : n % 4096 = 0)
    (i : Fin PTRS_PER_TABLE) :
    m.memzero n PAGE_SIZE (a + 8 * i) = if a = n then 0 else m (a + 8 * i) := by
  have hi := i.isLt
  simp only [PTRS_PER_TABLE] at hi
  rw [Mem.memzero, PAGE_SIZE]
  by_cases h : a = n
  · rw [if_pos h, if_pos (by omega)]
  · rw [if_neg h, if_neg (by omega)]

/-- Writing an entry leaves all others. -/
theorem store_entry (s : Mm) {a b : ℕ} (ha : a % 4096 = 0) (hb : b % 4096 = 0)
    (i j : Fin PTRS_PER_TABLE) (v : ℕ) :
    (s.store (b + 8 * j) v).mem (a + 8 * i) = if a = b ∧ i = j then v else s.mem (a + 8 * i) := by
  rw [store]
  dsimp only
  rw [Function.update_apply]
  refine if_congr ⟨entry_inj ha hb, ?_⟩ rfl rfl
  rintro ⟨rfl, rfl⟩
  rfl

/-- `PAGE_MASK` clears the offset in a page. -/
theorem and_pageMask {x : ℕ} (h : x < 2 ^ 64) : x &&& PAGE_MASK = x / 4096 * 4096 := by
  have hmask : PAGE_MASK = (2 ^ 52 - 1) <<< 12 := by decide
  rw [hmask, Lib.and_mask_eq (by omega)]
  rfl

/-- The address of a page is left as it is. -/
theorem and_pageMask_of_aligned {x : ℕ} (h : x < 2 ^ 64) (hal : x % PAGE_SIZE = 0) :
    x &&& PAGE_MASK = x := by
  rw [PAGE_SIZE] at hal
  rw [and_pageMask h]
  omega

/-- Clearing the offset of an address leaves its path. -/
theorem mask_frame {ipa : ℕ} (h : ipa < 2 ^ 64) : (ipa &&& PAGE_MASK) / 4096 = ipa / 4096 := by
  rw [and_pageMask h]
  exact Nat.mul_div_cancel _ (by decide)

/-- A link is followed to the table it was made from. -/
theorem child_of_link {m : Mem} {table next : ℕ} {i : Fin PTRS_PER_TABLE} (hn : L.InHeap next)
    (h : m (table + 8 * i) = next + 3) : child m table i = some next := by
  obtain ⟨hal, -, hlt⟩ := hn.bounds
  rw [child, if_neg (by omega), h, and_pageMask (by omega)]
  exact congrArg some (Lib.add_div_mul_of_aligned hal (by decide))

theorem child_of_zero {m : Mem} {table : ℕ} {i : Fin PTRS_PER_TABLE}
    (h : m (table + 8 * i) = 0) : child m table i = none := if_pos h

theorem child_congr {m m' : Mem} {table : ℕ} {i : Fin PTRS_PER_TABLE}
    (h : m' (table + 8 * i) = m (table + 8 * i)) : child m' table i = child m table i := by
  rw [child, child, h]

/-- An entry that leads nowhere is empty. -/
theorem child_eq_none {m : Mem} {table : ℕ} {i : Fin PTRS_PER_TABLE} :
    child m table i = none ↔ m (table + 8 * i) = 0 := by
  rw [child]
  split <;> simp_all

theorem Inv.aligned (h : Inv L s) {t : TaskId} {p : List (Fin PTRS_PER_TABLE)} {table : ℕ}
    (hp : p.length ≤ 2) (ht : s.tableAt t p = some table) : table % 4096 = 0 :=
  (h.allocated hp ht).inHeap.bounds.1

/-- The entries at the bottom are those of another state. -/
abbrev SameEntries (s s' : Mm) : Prop := ∀ t p i, p.length = 2 → s'.entryAt t p i = s.entryAt t p i

/-- **The frame rule.** What leaves the words of the tables, the roots, and the pages
handed out leaves the trees. -/
theorem Inv.frame (h : Inv L s) {m : Mm} (hroot : root m.ctx = root s.ctx)
    (hmono : ∀ {page}, Allocated L s.heap page → Allocated L m.heap page)
    (hkeep : ∀ {t p table}, p.length ≤ 2 → s.tableAt t p = some table →
      ∀ i : Fin PTRS_PER_TABLE, m.mem (table + 8 * i) = s.mem (table + 8 * i)) :
    Inv L m ∧ SameEntries s m := by
  have hreach : ∀ t p, p.length ≤ 2 → m.tableAt t p = s.tableAt t p := fun t p hp =>
    Lib.reach_congr hroot (fun hlt hu i => child_congr (hkeep (Nat.le_of_lt hlt) hu i)) t hp
  refine ⟨⟨h.separated.congr hreach, ?_, ?_⟩, ?_⟩
  · exact fun {t p _} hp ht => hmono (h.allocated hp (hreach t p hp ▸ ht))
  · intro t p table hp ht i
    rw [hreach t p hp.le] at ht
    rw [hkeep hp.le ht i]
    exact h.link hp ht i
  · intro t p i hp
    rw [entryAt, entryAt, hreach t p hp.le]
    cases ht : s.tableAt t p with
    | none => rfl
    | some table => exact hkeep hp.le ht i

/-! ### A new table -/

/-- What a cleared page of the heap is good for. -/
structure Fresh (L : Layout) (s : Mm) (n : ℕ) (s₁ : Mm) : Prop where
  ctx : s₁.ctx = s.ctx
  inHeap : L.InHeap n
  allocated : Allocated L s₁.heap n
  not_allocated : ¬Allocated L s.heap n
  mono : ∀ {page}, Allocated L s.heap page → Allocated L s₁.heap page
  mem : s₁.mem = s.mem.memzero n PAGE_SIZE

theorem fresh_of_zalloc {n : ℕ} {s₁ : Mm} (h : s.zalloc L = .ok (n, s₁)) : Fresh L s n s₁ := by
  obtain ⟨⟨page, mem, heap⟩, hz, h⟩ := Lib.bind_eq_ok.mp h
  obtain ⟨i, hi, hfree, rfl, rfl, rfl⟩ := kmmZalloc_ok hz
  obtain ⟨rfl, rfl⟩ := Prod.mk.inj (Except.ok.inj h)
  exact ⟨rfl, inHeap_heapPage L hi, allocated_update_self hi, not_allocated_of_free hfree,
    fun ha => ha.update i, rfl⟩

theorem zalloc_error {f : Fault} (h : s.zalloc L = .error f) : f.OutOfMemory := by
  rcases Lib.bind_eq_error.mp h with h | ⟨_, -, h⟩
  · exact kmmZalloc_error h
  · cases h

theorem Fresh.zero {n : ℕ} {s₁ : Mm} (hf : Fresh L s n s₁) (i : Fin PTRS_PER_TABLE) :
    s₁.mem (n + 8 * i) = 0 := by
  obtain ⟨hal, -, -⟩ := hf.inHeap.bounds
  rw [hf.mem, memzero_entry _ hal hal, if_pos rfl]

theorem Fresh.other {n a : ℕ} {s₁ : Mm} (hf : Fresh L s n s₁) (ha : a % 4096 = 0) (hne : a ≠ n)
    (i : Fin PTRS_PER_TABLE) : s₁.mem (a + 8 * i) = s.mem (a + 8 * i) := by
  rw [hf.mem, memzero_entry _ ha hf.inHeap.bounds.1, if_neg hne]

/-- A page that was not handed out is no table. -/
theorem Inv.ne_fresh (h : Inv L s) {n : ℕ} {s₁ : Mm} (hf : Fresh L s n s₁) {t : TaskId}
    {p : List (Fin PTRS_PER_TABLE)} (hp : p.length ≤ 2) : s.tableAt t p ≠ some n :=
  fun ht => hf.not_allocated (h.allocated hp ht)

/-- A page cleared for something else than a table leaves the trees. -/
theorem Inv.fresh (h : Inv L s) {n : ℕ} {s₁ : Mm} (hf : Fresh L s n s₁) :
    Inv L s₁ ∧ SameEntries s s₁ :=
  h.frame (by rw [hf.ctx]) hf.mono fun hp ht i =>
    hf.other (h.aligned hp ht) (fun htn => h.ne_fresh hf hp (htn ▸ ht)) i

/-- **A tree that gains one table**, whose entries are empty, by one path that led
nowhere: what was kept is kept, and no entry at the bottom has changed. -/
theorem Inv.grow (h : Inv L s) {m : Mm} {n : ℕ} {t₀ : TaskId} {p₀ : List (Fin PTRS_PER_TABLE)}
    (hn : Allocated L m.heap n) (hnew : ¬Allocated L s.heap n)
    (hmono : ∀ {page}, Allocated L s.heap page → Allocated L m.heap page)
    (hzero : ∀ i : Fin PTRS_PER_TABLE, m.mem (n + 8 * i) = 0)
    (hnone : s.tableAt t₀ p₀ = none)
    (hreach : ∀ t p, p.length ≤ 2 →
      m.tableAt t p = if t = t₀ ∧ p = p₀ then some n else s.tableAt t p)
    (hkeep : ∀ {t p table}, p.length ≤ 2 → s.tableAt t p = some table →
      ∀ i : Fin PTRS_PER_TABLE, m.mem (table + 8 * i) = s.mem (table + 8 * i) ∨
        p.length < 2 ∧ ∃ next, L.InHeap next ∧ m.mem (table + 8 * i) = next + 3) :
    Inv L m ∧ ∀ t p i, p.length = 2 → m.entryAt t p i = s.entryAt t p i := by
  refine ⟨⟨h.separated.grow (fun hp ht => hnew (h.allocated hp ht)) hreach, ?_, ?_⟩, ?_⟩
  · intro t p table hp ht
    rw [hreach t p hp] at ht
    split at ht
    · obtain rfl := Option.some.inj ht
      exact hn
    · exact hmono (h.allocated hp ht)
  · intro t p table hp ht i
    rw [hreach t p hp.le] at ht
    split at ht
    · obtain rfl := Option.some.inj ht
      exact .inl (hzero i)
    · -- a table that was there keeps its entry, or has it made a link above the last level
      rcases hkeep hp.le ht i with heq | ⟨-, hlink⟩
      · rw [heq]
        exact h.link hp ht i
      · exact .inr hlink
  · intro t p i hp
    rw [entryAt, entryAt, hreach t p hp.le]
    split_ifs with hpath
    · obtain ⟨rfl, rfl⟩ := hpath
      -- the new table is all zeros, which is what a missing one reads as
      rw [hnone]
      exact hzero i
    · cases ht : s.tableAt t p with
      | none => rfl
      | some table =>
        rcases hkeep hp.le ht i with heq | ⟨hlt, -⟩
        · exact heq
        · exact absurd hp hlt.ne

theorem root_of_zero {ctx : TaskId → MmContext} {t : TaskId} (h : (ctx t).page_table = 0) :
    root ctx t = none := if_pos h

theorem root_of_ne {ctx : TaskId → MmContext} {t : TaskId} (h : (ctx t).page_table ≠ 0) :
    root ctx t = some (ctx t).page_table := if_neg h

/-- Only the first table of a task is read from its `MmContext`. -/
theorem root_setContext (s : Mm) (t t' : TaskId) (c : MmContext) :
    root (s.setContext t c).ctx t' =
      if t' = t then if c.page_table = 0 then none else some c.page_table else root s.ctx t' := by
  by_cases htt : t' = t
  · subst htt
    simp only [root, setContext, Function.update_self, if_true]
  · simp only [root, setContext, Function.update_of_ne htt, if_neg htt]

theorem tableAt_nil (s : Mm) (t : TaskId) : s.tableAt t [] = root s.ctx t := Lib.reach_nil t

theorem tableAt_concat (s : Mm) (t : TaskId) (p : List (Fin PTRS_PER_TABLE))
    (i : Fin PTRS_PER_TABLE) :
    s.tableAt t (p ++ [i]) = (s.tableAt t p).bind fun table => child s.mem table i :=
  Lib.reach_concat t p i

/-- **The first table of a task** is there after it has been asked for. -/
theorem Inv.createFirstTable (h : Inv L s) {t : TaskId} {table : ℕ} {s' : Mm}
    (hc : createFirstTable L s t = .ok (table, s')) :
    Inv L s' ∧ s'.tableAt t [] = some table ∧ SameEntries s s' := by
  rw [Evisor.createFirstTable] at hc
  split at hc
  case isTrue hzero =>
    obtain ⟨⟨n, s₁⟩, hz, hc⟩ := Lib.bind_eq_ok.mp hc
    obtain ⟨rfl, rfl⟩ := Prod.mk.inj (Except.ok.inj hc)
    have hf : Fresh L s n s₁ := fresh_of_zalloc hz
    obtain ⟨-, hpos, -⟩ := hf.inHeap.bounds
    have hnone : root s.ctx t = none := root_of_zero hzero
    have hroots : ∀ t', root (s₁.setContext t { s₁.ctx t with page_table := n }).ctx t' =
        if t' = t then some n else root s.ctx t' := by
      intro t'
      rw [root_setContext, if_neg hpos.ne', hf.ctx]
    have hkeep : ∀ {t' p u}, p.length ≤ 2 → s.tableAt t' p = some u → ∀ i : Fin PTRS_PER_TABLE,
        s₁.mem (u + 8 * i) = s.mem (u + 8 * i) := fun hp hu i =>
      hf.other (h.aligned hp hu) (fun hun => h.ne_fresh hf hp (hun ▸ hu)) i
    have hreach : ∀ t' {p}, p.length ≤ 2 →
        (s₁.setContext t { s₁.ctx t with page_table := n }).tableAt t' p =
          if t' = t ∧ p = [] then some n else s.tableAt t' p := fun t' _ hp =>
      Lib.reach_root hnone hroots (fun j => child_of_zero (hf.zero j))
        (fun hp hu j => child_congr (hkeep (Nat.le_of_lt hp) hu j)) t' hp
    obtain ⟨hinv, hsame⟩ := h.grow (m := s₁.setContext t { s₁.ctx t with page_table := n })
      hf.allocated hf.not_allocated hf.mono hf.zero (by rw [tableAt_nil]; exact hnone)
      (fun t' p hp => hreach t' hp) (fun hp hu i => .inl (hkeep hp hu i))
    refine ⟨hinv, ?_, hsame⟩
    rw [tableAt_nil, hroots, if_pos rfl]
  case isFalse hne =>
    obtain ⟨rfl, rfl⟩ := Prod.mk.inj (Except.ok.inj hc)
    exact ⟨h, by rw [tableAt_nil, root_of_ne hne], fun _ _ _ _ => rfl⟩

/-- **The next table on the way down** is there after it has been asked for. -/
theorem Inv.createPageTable (h : Inv L s) {t : TaskId} {p : List (Fin PTRS_PER_TABLE)}
    {table next shift ipa : ℕ} {i : Fin PTRS_PER_TABLE} {s' : Mm} (hp : p.length < 2)
    (ht : s.tableAt t p = some table) (hi : tableIndex ipa shift = i)
    (hc : createPageTable L s table shift ipa = .ok (next, s')) :
    Inv L s' ∧ s'.tableAt t (p ++ [i]) = some next ∧ SameEntries s s' := by
  have hal : table % 4096 = 0 := h.aligned hp.le ht
  simp only [Evisor.createPageTable, hi] at hc
  split at hc
  case isTrue hzero =>
    obtain ⟨⟨n, s₁⟩, hz, hc⟩ := Lib.bind_eq_ok.mp hc
    obtain ⟨rfl, rfl⟩ := Prod.mk.inj (Except.ok.inj hc)
    have hf : Fresh L s n s₁ := fresh_of_zalloc hz
    obtain ⟨hnal, -, -⟩ := hf.inHeap.bounds
    have hor : n ||| kStage2PteTypePageTable = n + 3 :=
      Lib.or_eq_add (k := 12) hnal (by decide)
    have hne : table ≠ n := fun htn => h.ne_fresh hf hp.le (htn ▸ ht)
    -- the entry at hand holds the link, all others of the tables there were are as before
    have hmem : ∀ {u}, u % 4096 = 0 → ∀ j : Fin PTRS_PER_TABLE,
        (s₁.store (table + 8 * i) (n ||| kStage2PteTypePageTable)).mem (u + 8 * j) =
          if u = table ∧ j = i then n + 3 else s₁.mem (u + 8 * j) := by
      intro u hu j
      rw [store_entry _ hu hal, hor]
    have hold : ∀ {t' q u}, q.length ≤ 2 → s.tableAt t' q = some u → ∀ j : Fin PTRS_PER_TABLE,
        s₁.mem (u + 8 * j) = s.mem (u + 8 * j) := fun hq hu j =>
      hf.other (h.aligned hq hu) (fun hun => h.ne_fresh hf hq (hun ▸ hu)) j
    have hzero' : ∀ j : Fin PTRS_PER_TABLE,
        (s₁.store (table + 8 * i) (n ||| kStage2PteTypePageTable)).mem (n + 8 * j) = 0 := by
      intro j
      rw [hmem hnal, if_neg (fun hnt => hne hnt.1.symm), hf.zero]
    have hreach : ∀ t' {q}, q.length ≤ 2 →
        (s₁.store (table + 8 * i) (n ||| kStage2PteTypePageTable)).tableAt t' q =
          if t' = t ∧ q = p ++ [i] then some n else s.tableAt t' q := fun t' _ hq =>
      Lib.reach_link h.separated (by rw [← hf.ctx]; rfl) hp ht (child_of_zero hzero)
        (child_of_link hf.inHeap (by rw [hmem hal, if_pos ⟨rfl, rfl⟩]))
        (fun _ j => child_of_zero (hzero' j)) (fun hq => h.ne_fresh hf hq)
        (fun {_ _ u} hq hu j hj => child_congr (by
          rw [hmem (h.aligned (Nat.le_of_lt hq) hu), if_neg (fun huj => hj huj.1 huj.2),
            hold (Nat.le_of_lt hq) hu])) t' hq
    have hnone : s.tableAt t (p ++ [i]) = none := by
      rw [tableAt_concat, ht, Option.bind_some, child_of_zero hzero]
    obtain ⟨hinv, hsame⟩ := h.grow
      (m := s₁.store (table + 8 * i) (n ||| kStage2PteTypePageTable)) hf.allocated
      hf.not_allocated hf.mono hzero' hnone (fun t' q hq => hreach t' hq) (by
        intro t' q u hq hu j
        rw [hmem (h.aligned hq hu)]
        split_ifs with hut
        · obtain ⟨rfl, -⟩ := hut
          obtain ⟨-, rfl⟩ := h.separated.inj hq hp.le hu ht
          exact .inr ⟨hp, n, hf.inHeap, rfl⟩
        · exact .inl (hold hq hu j))
    refine ⟨hinv, ?_, hsame⟩
    exact (hreach t (by simpa using Nat.succ_le_of_lt hp)).trans (if_pos ⟨rfl, rfl⟩)
  case isFalse hne =>
    obtain ⟨rfl, rfl⟩ := Prod.mk.inj (Except.ok.inj hc)
    refine ⟨h, ?_, fun _ _ _ _ => rfl⟩
    rw [tableAt_concat, ht, Option.bind_some, child, if_neg hne]

/-- **The entry at the bottom** is the only one written. -/
theorem Inv.setPageTableEntry (h : Inv L s) {t : TaskId} {p : List (Fin PTRS_PER_TABLE)}
    {table ipa page flags : ℕ} {i : Fin PTRS_PER_TABLE} (hp : p.length = 2)
    (ht : s.tableAt t p = some table) (hi : tableIndex ipa PAGE_SHIFT = i) :
    Inv L (setPageTableEntry s table ipa page flags).2 ∧
      ∀ t' q j, q.length = 2 → (setPageTableEntry s table ipa page flags).2.entryAt t' q j =
        if t' = t ∧ q = p ∧ j = i then page ||| flags else s.entryAt t' q j := by
  have hal : table % 4096 = 0 := h.aligned hp.le ht
  set s' := (Evisor.setPageTableEntry s table ipa page flags).2 with hs'
  have hmem : ∀ {u}, u % 4096 = 0 → ∀ j : Fin PTRS_PER_TABLE,
      s'.mem (u + 8 * j) = if u = table ∧ j = i then page ||| flags else s.mem (u + 8 * j) := by
    intro u hu j
    rw [hs', Evisor.setPageTableEntry, hi, store_entry _ hu hal]
  -- a table above the last level is another one
  have habove : ∀ {t' q u}, q.length < 2 → s.tableAt t' q = some u → ∀ j : Fin PTRS_PER_TABLE,
      s'.mem (u + 8 * j) = s.mem (u + 8 * j) := by
    intro t' q u hq hu j
    rw [hmem (h.aligned hq.le hu), if_neg]
    rintro ⟨rfl, -⟩
    obtain ⟨-, rfl⟩ := h.separated.inj hq.le hp.le hu ht
    exact hq.ne hp
  have hreach : ∀ t' q, q.length ≤ 2 → s'.tableAt t' q = s.tableAt t' q := fun t' q hq =>
    Lib.reach_congr rfl (fun hq hu j => child_congr (habove hq hu j)) t' hq
  refine ⟨⟨h.separated.congr hreach, ?_, ?_⟩, ?_⟩
  · intro t' q u hq hu
    exact h.allocated hq (hreach t' q hq ▸ hu)
  · intro t' q u hq hu j
    rw [hreach t' q hq.le] at hu
    rw [habove hq hu]
    exact h.link hq hu j
  · intro t' q j hq
    rw [entryAt, entryAt, hreach t' q hq.le]
    cases hu : s.tableAt t' q with
    | none =>
      rw [if_neg]
      · rfl
      · rintro ⟨rfl, rfl, -⟩
        cases hu.symm.trans ht
    | some u =>
      rw [Option.elim_some, Option.elim_some, hmem (h.aligned hq.le hu)]
      refine if_congr ⟨?_, ?_⟩ rfl rfl
      · rintro ⟨rfl, rfl⟩
        obtain ⟨rfl, rfl⟩ := h.separated.inj hq.le hp.le hu ht
        exact ⟨rfl, rfl, rfl⟩
      · rintro ⟨rfl, rfl, rfl⟩
        exact ⟨Option.some.inj (hu.symm.trans ht), rfl⟩

/-! ### Addresses and paths -/

theorem tableIndex_eq (ipa shift : ℕ) : tableIndex ipa shift = ipa / 2 ^ shift % 512 :=
  Lib.shiftRight_and_mask ipa shift 9

/-- The entry an address uses in a table. -/
def indexOf (ipa shift : ℕ) : Fin PTRS_PER_TABLE :=
  ⟨tableIndex ipa shift, by rw [tableIndex_eq]; exact Nat.mod_lt _ (by decide)⟩

/-- The path an address takes to the last level. -/
def pathOf (ipa : ℕ) : List (Fin PTRS_PER_TABLE) := [indexOf ipa LV1_SHIFT, indexOf ipa LV2_SHIFT]

/-- The entry of an address in the last level. -/
abbrev lastOf (ipa : ℕ) : Fin PTRS_PER_TABLE := indexOf ipa PAGE_SHIFT

/-- The entry of an address. -/
def entryOf (s : Mm) (t : TaskId) (ipa : ℕ) : ℕ := s.entryAt t (pathOf ipa) (lastOf ipa)

/-- **Two addresses use the same entry** when the 27 bits above their offsets agree. -/
theorem path_eq_iff {ipa ipa' : ℕ} :
    pathOf ipa = pathOf ipa' ∧ lastOf ipa = lastOf ipa' ↔
      ipa / 4096 % 2 ^ 27 = ipa' / 4096 % 2 ^ 27 := by
  simp only [pathOf, indexOf, List.cons.injEq, and_true, Fin.mk.injEq, tableIndex_eq, LV1_SHIFT,
    LV2_SHIFT, PAGE_SHIFT]
  omega

/-! ### Mapping a page -/

/-- **Mapping a page** writes the entry of the address, and no other entry of any
task. -/
theorem Inv.mapPage (h : Inv L s) {task : TaskId} {ipa page flags pte : ℕ} {s' : Mm}
    (hm : mapPage L s task ipa page flags = .ok (pte, s')) :
    Inv L s' ∧ ∀ t ipa', s'.entryOf t ipa' =
      if t = task ∧ ipa' / 4096 % 2 ^ 27 = ipa / 4096 % 2 ^ 27 then page ||| flags
      else s.entryOf t ipa' := by
  obtain ⟨⟨lv1_table, s₁⟩, h₁, hm⟩ := Lib.bind_eq_ok.mp hm
  obtain ⟨⟨lv2_table, s₂⟩, h₂, hm⟩ := Lib.bind_eq_ok.mp hm
  obtain ⟨⟨lv3_table, s₃⟩, h₃, hm⟩ := Lib.bind_eq_ok.mp hm
  obtain ⟨hinv₁, ht₁, hsame₁⟩ := h.createFirstTable h₁
  obtain ⟨hinv₂, ht₂, hsame₂⟩ := hinv₁.createPageTable (i := indexOf ipa LV1_SHIFT) two_pos
    ht₁ rfl h₂
  obtain ⟨hinv₃, ht₃, hsame₃⟩ := hinv₂.createPageTable (i := indexOf ipa LV2_SHIFT) one_lt_two
    ht₂ rfl h₃
  -- counting the page leaves the tables
  set s₄ := s₃.setContext task { s₃.ctx task with pages := (s₃.ctx task).pages + 1 } with hs₄
  have hroot : root s₄.ctx = root s₃.ctx := by
    funext t
    rw [hs₄, root_setContext]
    split
    case isTrue htt =>
      subst htt
      rfl
    · rfl
  obtain ⟨hinv₄, hsame₄⟩ := hinv₃.frame (m := s₄) hroot (fun ha => ha) (fun _ _ _ => rfl)
  have ht₄ : s₄.tableAt task (pathOf ipa) = some lv3_table := by
    rw [tableAt, hroot]
    exact ht₃
  obtain ⟨hinv₅, hset⟩ := @Inv.setPageTableEntry L s₄ hinv₄ task (pathOf ipa) lv3_table ipa page
    flags (lastOf ipa) rfl ht₄ rfl
  have heq : s' = (Evisor.setPageTableEntry s₄ lv3_table ipa page flags).2 :=
    (congrArg Prod.snd (Except.ok.inj hm)).symm
  rw [heq]
  refine ⟨hinv₅, fun t ipa' => ?_⟩
  rw [entryOf, hset t _ _ rfl]
  refine if_congr (and_congr_right fun _ => path_eq_iff) rfl ?_
  calc s₄.entryAt t (pathOf ipa') (lastOf ipa')
      = s₃.entryAt t (pathOf ipa') (lastOf ipa') := hsame₄ t _ _ rfl
    _ = s₂.entryAt t (pathOf ipa') (lastOf ipa') := hsame₃ t _ _ rfl
    _ = s₁.entryAt t (pathOf ipa') (lastOf ipa') := hsame₂ t _ _ rfl
    _ = s.entryOf t ipa' := hsame₁ t _ _ rfl

theorem createPageTable_ctx {table next shift ipa : ℕ} {s' : Mm}
    (hc : createPageTable L s table shift ipa = .ok (next, s')) : s'.ctx = s.ctx := by
  rw [createPageTable] at hc
  dsimp only at hc
  split at hc
  · obtain ⟨⟨n, s₁⟩, hz, hc⟩ := Lib.bind_eq_ok.mp hc
    obtain ⟨rfl, rfl⟩ := Prod.mk.inj (Except.ok.inj hc)
    exact (fresh_of_zalloc hz).ctx
  · obtain ⟨rfl, rfl⟩ := Prod.mk.inj (Except.ok.inj hc)
    rfl

/-- Mapping a page of one task leaves the contexts of the others. -/
theorem mapPage_ctx {task : TaskId} {ipa page flags pte : ℕ} {s' : Mm}
    (hm : Evisor.mapPage L s task ipa page flags = .ok (pte, s')) {t : TaskId} (ht : t ≠ task) :
    s'.ctx t = s.ctx t := by
  obtain ⟨⟨lv1_table, s₁⟩, h₁, hm⟩ := Lib.bind_eq_ok.mp hm
  obtain ⟨⟨lv2_table, s₂⟩, h₂, hm⟩ := Lib.bind_eq_ok.mp hm
  obtain ⟨⟨lv3_table, s₃⟩, h₃, hm⟩ := Lib.bind_eq_ok.mp hm
  have hs' : s'.ctx t = s₃.ctx t := by
    obtain rfl := congrArg Prod.snd (Except.ok.inj hm)
    exact Function.update_of_ne ht ..
  rw [hs', createPageTable_ctx h₃, createPageTable_ctx h₂]
  rw [createFirstTable] at h₁
  split at h₁
  · obtain ⟨⟨n, s₀⟩, hz, h₁⟩ := Lib.bind_eq_ok.mp h₁
    obtain ⟨rfl, rfl⟩ := Prod.mk.inj (Except.ok.inj h₁)
    exact (Function.update_of_ne ht ..).trans (congrFun (fresh_of_zalloc hz).ctx t)
  · obtain ⟨rfl, rfl⟩ := Prod.mk.inj (Except.ok.inj h₁)
    rfl

/-- An entry of a table is a word of the heap. -/
theorem entry_in_heap {table : ℕ} (h : L.InHeap table) (i : Fin PTRS_PER_TABLE) :
    L.kHeapStart ≤ table + 8 * i ∧ table + 8 * i < L.kHeapStart + kHeapSize := by
  have hi := i.isLt
  obtain ⟨-, hlo, hhi⟩ := h
  simp only [PTRS_PER_TABLE, PAGE_SIZE] at hi hhi
  omega

theorem Fresh.outside {n : ℕ} {s₁ : Mm} (hf : Fresh L s n s₁) {a : ℕ}
    (ha : ¬(L.kHeapStart ≤ a ∧ a < L.kHeapStart + kHeapSize)) : s₁.mem a = s.mem a := by
  obtain ⟨-, hlo, hhi⟩ := hf.inHeap
  rw [hf.mem, Mem.memzero, if_neg]
  omega

theorem store_outside {table : ℕ} (h : L.InHeap table) (s : Mm) (i : Fin PTRS_PER_TABLE) (v : ℕ)
    {a : ℕ} (ha : ¬(L.kHeapStart ≤ a ∧ a < L.kHeapStart + kHeapSize)) :
    (s.store (table + 8 * i) v).mem a = s.mem a := by
  refine Function.update_of_ne (fun heq => ha ?_) ..
  rw [heq]
  exact entry_in_heap h i

theorem createFirstTable_outside {t : TaskId} {table : ℕ} {s' : Mm}
    (hc : Evisor.createFirstTable L s t = .ok (table, s')) {a : ℕ}
    (ha : ¬(L.kHeapStart ≤ a ∧ a < L.kHeapStart + kHeapSize)) : s'.mem a = s.mem a := by
  rw [Evisor.createFirstTable] at hc
  split at hc
  · obtain ⟨⟨n, s₁⟩, hz, hc⟩ := Lib.bind_eq_ok.mp hc
    obtain ⟨rfl, rfl⟩ := Prod.mk.inj (Except.ok.inj hc)
    exact (fresh_of_zalloc hz).outside ha
  · obtain ⟨rfl, rfl⟩ := Prod.mk.inj (Except.ok.inj hc)
    rfl

theorem createPageTable_outside {table next shift ipa : ℕ} {s' : Mm} (ht : L.InHeap table)
    {i : Fin PTRS_PER_TABLE} (hi : tableIndex ipa shift = i)
    (hc : Evisor.createPageTable L s table shift ipa = .ok (next, s')) {a : ℕ}
    (ha : ¬(L.kHeapStart ≤ a ∧ a < L.kHeapStart + kHeapSize)) : s'.mem a = s.mem a := by
  simp only [Evisor.createPageTable, hi] at hc
  split at hc
  · obtain ⟨⟨n, s₁⟩, hz, hc⟩ := Lib.bind_eq_ok.mp hc
    obtain ⟨rfl, rfl⟩ := Prod.mk.inj (Except.ok.inj hc)
    rw [store_outside ht _ _ _ ha, (fresh_of_zalloc hz).outside ha]
  · obtain ⟨rfl, rfl⟩ := Prod.mk.inj (Except.ok.inj hc)
    rfl

/-- **Mapping a page writes to the heap** and nowhere else. -/
theorem Inv.mapPage_outside (h : Inv L s) {task : TaskId} {ipa page flags pte : ℕ} {s' : Mm}
    (hm : Evisor.mapPage L s task ipa page flags = .ok (pte, s')) {a : ℕ}
    (ha : ¬(L.kHeapStart ≤ a ∧ a < L.kHeapStart + kHeapSize)) : s'.mem a = s.mem a := by
  obtain ⟨⟨lv1_table, s₁⟩, h₁, hm⟩ := Lib.bind_eq_ok.mp hm
  obtain ⟨⟨lv2_table, s₂⟩, h₂, hm⟩ := Lib.bind_eq_ok.mp hm
  obtain ⟨⟨lv3_table, s₃⟩, h₃, hm⟩ := Lib.bind_eq_ok.mp hm
  obtain ⟨hinv₁, ht₁, -⟩ := h.createFirstTable h₁
  obtain ⟨hinv₂, ht₂, -⟩ := hinv₁.createPageTable (i := indexOf ipa LV1_SHIFT) two_pos ht₁ rfl h₂
  obtain ⟨hinv₃, ht₃, -⟩ := hinv₂.createPageTable (i := indexOf ipa LV2_SHIFT) one_lt_two
    ht₂ rfl h₃
  have hlv1 := (hinv₁.allocated (by simp) ht₁).inHeap
  have hlv2 := (hinv₂.allocated (by simp) ht₂).inHeap
  have hlv3 := (hinv₃.allocated (by simp) ht₃).inHeap
  obtain rfl := congrArg Prod.snd (Except.ok.inj hm)
  calc (Evisor.setPageTableEntry (s₃.setContext task
          { s₃.ctx task with pages := (s₃.ctx task).pages + 1 }) lv3_table ipa page flags).2.mem a
      = s₃.mem a := store_outside hlv3 _ (indexOf ipa PAGE_SHIFT) _ ha
    _ = s₂.mem a := createPageTable_outside hlv2 (i := indexOf ipa LV2_SHIFT) rfl h₃ ha
    _ = s₁.mem a := createPageTable_outside hlv1 (i := indexOf ipa LV1_SHIFT) rfl h₂ ha
    _ = s.mem a := createFirstTable_outside h₁ ha

/-- The only way mapping a page fails is to stop for lack of memory. -/
theorem mapPage_error {task : TaskId} {ipa page flags : ℕ} {f : Fault}
    (hm : Evisor.mapPage L s task ipa page flags = .error f) : f.OutOfMemory := by
  have htable : ∀ {s : Mm} {table shift}, createPageTable L s table shift ipa = .error f →
      f.OutOfMemory := by
    intro s table shift h
    rw [createPageTable] at h
    dsimp only at h
    split at h
    · rcases Lib.bind_eq_error.mp h with h | ⟨_, -, h⟩
      · exact zalloc_error h
      · cases h
    · cases h
  rcases Lib.bind_eq_error.mp hm with h | ⟨_, -, hm⟩
  · rw [createFirstTable] at h
    split at h
    · rcases Lib.bind_eq_error.mp h with h | ⟨_, -, h⟩
      · exact zalloc_error h
      · cases h
    · cases h
  rcases Lib.bind_eq_error.mp hm with h | ⟨_, -, hm⟩
  · exact htable h
  rcases Lib.bind_eq_error.mp hm with h | ⟨_, -, h⟩
  · exact htable h
  · cases h

/-! ### What the processor finds -/

/-- What an entry at the bottom says. -/
def translationOf (entry : ℕ) : Translation := if entry % 4 = 3 then .page entry else .invalid

/-- A link leads the processor to the table it was made from. -/
theorem descAddr_link {next : ℕ} (hn : L.InHeap next) : descAddr (next + 3) = next := by
  obtain ⟨hal, -, hlt⟩ := hn.bounds
  have hmask : (0x0000fffffffff000 : ℕ) = (2 ^ 36 - 1) <<< 12 := by decide
  rw [descAddr, hmask, Lib.and_mask_eq (by omega)]
  exact Lib.add_div_mul_of_aligned hal (by decide)

/-- A link is recognised. -/
theorem link_mod {next : ℕ} (hn : L.InHeap next) : (next + 3) % 4 = 3 := by
  obtain ⟨hal, -, -⟩ := hn.bounds
  omega

/-- **The walk ends at the entry of the address.** -/
theorem Inv.translate_eq (h : Inv L s) (t : TaskId) (ipa : ℕ) :
    s.translate t ipa = translationOf (s.entryOf t ipa) := by
  -- below a table that is missing nothing is reached
  have hdead : ∀ {p : List (Fin PTRS_PER_TABLE)} (q), s.tableAt t p = none →
      s.tableAt t (p ++ q) = none := fun q => Lib.reach_append_of_none q
  rw [translate, entryOf, entryAt]
  by_cases hroot : (s.ctx t).page_table = 0
  · have hnone : s.tableAt t (pathOf ipa) = none :=
      hdead (p := []) _ (by rw [tableAt_nil, root_of_zero hroot])
    rw [if_pos hroot, hnone]
    rfl
  have ht₁ : s.tableAt t [] = some (s.ctx t).page_table := by rw [tableAt_nil, root_of_ne hroot]
  rw [if_neg hroot, stage2Walk]
  -- the walk and the tree go down one level at a time, and stop at the same entry
  rcases h.link two_pos ht₁ (indexOf ipa LV1_SHIFT) with hd₁ | ⟨lv2_table, hlv2, hd₁⟩
  · have hnone : s.tableAt t (pathOf ipa) = none := by
      refine hdead [indexOf ipa LV2_SHIFT] (p := [] ++ [indexOf ipa LV1_SHIFT]) ?_
      rw [tableAt_concat, ht₁, Option.bind_some, child_of_zero hd₁]
    rw [hnone]
    simp only [indexOf] at hd₁
    simp only [hd₁, Nat.zero_mod, zero_ne_one, if_false, ne_eq, OfNat.zero_ne_ofNat,
      not_false_eq_true, if_true]
    rfl
  have ht₂ : s.tableAt t [indexOf ipa LV1_SHIFT] = some lv2_table :=
    (tableAt_concat s t [] _).trans (by rw [ht₁, Option.bind_some, child_of_link hlv2 hd₁])
  simp only [indexOf] at hd₁
  simp only [hd₁, link_mod hlv2, descAddr_link hlv2]
  rcases h.link one_lt_two ht₂ (indexOf ipa LV2_SHIFT) with hd₂ | ⟨lv3_table, hlv3, hd₂⟩
  · have hnone : s.tableAt t (pathOf ipa) = none := by
      refine (tableAt_concat s t [indexOf ipa LV1_SHIFT] (indexOf ipa LV2_SHIFT)).trans ?_
      rw [ht₂, Option.bind_some, child_of_zero hd₂]
    rw [hnone]
    simp only [indexOf] at hd₂
    simp only [hd₂]
    rfl
  have ht₃ : s.tableAt t (pathOf ipa) = some lv3_table :=
    (tableAt_concat s t [indexOf ipa LV1_SHIFT] (indexOf ipa LV2_SHIFT)).trans
      (by rw [ht₂, Option.bind_some, child_of_link hlv3 hd₂])
  rw [ht₃]
  simp only [indexOf] at hd₂
  simp only [hd₂, link_mod hlv3, descAddr_link hlv3]
  rfl

end Mm

end Evisor
