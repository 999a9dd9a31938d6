import Evisor.Drivers.VirtioBlk
import Evisor.Platforms.Isolation

/-!
# Loading an image from a disk

`LoaderLoadFile` of `fs/loader.cc`, for the QEMU board: the image of a guest is the whole
disk. Its sectors are read one after the other into pages of the user region, eight to a
page, and each page is mapped before it is filled.

`Evisor.Loaded` is what has been done after a number of pages, and it is also what is left
at the end: the pages, in the order in which they were given, hold the disk
(`Evisor.loaderLoadFile_spec`).
-/

namespace Evisor

/-- **The disk**, as the driver shows it once `VirtioBlk::Init` is through. -/
structure Disk where
  /-- The register with the number of sectors. -/
  DEVICE_CONFIG_SPACE0 : ℕ
  /-- The bytes of all sectors, one after the other. -/
  byte : ℕ → ℕ
  /-- Whether a sector can be read. -/
  readable : ℕ → Bool
  config_lt : DEVICE_CONFIG_SPACE0 < 2 ^ 32
  byte_lt : ∀ k, byte k < 256

/-- The bytes of the disk, as the driver counts them. -/
def Disk.capacity (d : Disk) : ℕ := getDiskCapacity d.DEVICE_CONFIG_SPACE0

/-- `VirtioBlk::ReadDisk`: the contents of the sector are copied to the buffer, or the
sector cannot be read. -/
def readDisk (d : Disk) (m : Mem) (buf sector_idx : ℕ) : Bool × Mem :=
  if d.readable sector_idx then
    (true, m.memcpy buf (fun i => d.byte (sector_idx * kDiskSectorSize + i)) kDiskSectorSize)
  else (false, m)

/-- The variables of the loops. -/
structure Loading where
  mem : Mem
  buf : ℕ
  sector_remains : ℕ
  sector_offset : ℕ

/-- The inner loop, with the passes left: whether all reads have succeeded. -/
def loadSectors (d : Disk) : ℕ → Loading → Bool × Loading
  | 0, v => (true, v)
  | left + 1, v =>
    if v.sector_remains = 0 then (true, v)
    else
      let r := readDisk d v.mem v.buf v.sector_offset
      if r.1 then
        loadSectors d left ⟨r.2, v.buf + kDiskSectorSize, v.sector_remains - 1,
          (v.sector_offset + 1) % 2 ^ 32⟩
      else (false, { v with mem := r.2 })

/-- The outer loop, with the passes it may still make. -/
def loadPages (L : Layout) (d : Disk) (tsk : TaskId) :
    ℕ → Memory → (cur sector_remains sector_offset : ℕ) → Except Fault (Bool × Memory)
  | 0, s, _, sector_remains, _ =>
    if sector_remains = 0 then .ok (true, s) else .error .outOfFuel
  | fuel + 1, s, cur, sector_remains, sector_offset =>
    if sector_remains = 0 then .ok (true, s)
    else do
      let (buf, s) ← pageMap L s tsk cur
      let r := loadSectors d (PAGE_SIZE / kDiskSectorSize)
        ⟨s.mm.mem, buf, sector_remains, sector_offset⟩
      let s := { s with mm := { s.mm with mem := r.2.mem } }
      if r.1 then
        loadPages L d tsk fuel s ((cur + PAGE_SIZE) % 2 ^ 64) r.2.sector_remains r.2.sector_offset
      else return (false, s)

/-- `LoaderLoadFile`. -/
def loaderLoadFile (L : Layout) (d : Disk) (s : Memory) (tsk : TaskId) (va : ℕ) :
    Except Fault (Bool × Memory) :=
  let sector_remains := d.capacity / kDiskSectorSize
  loadPages L d tsk sector_remains s (va &&& PAGE_MASK) sector_remains 0

/-! ### What there is to read -/

/-- The sectors that are read. -/
def Disk.sectors (d : Disk) : ℕ := d.capacity / kDiskSectorSize

/-- The pages they take. -/
def Disk.pages (d : Disk) : ℕ := (d.sectors + 7) / 8

/-- The byte of the image at an offset: that of the disk, or zero behind it. -/
def Disk.image (d : Disk) (k : ℕ) : ℕ := if k < d.capacity then d.byte k else 0

/-- The capacity is a number of sectors. -/
theorem Disk.capacity_eq (d : Disk) : d.capacity = d.sectors * kDiskSectorSize := by
  simp only [Disk.sectors, Disk.capacity, getDiskCapacity, kDiskSectorSize]
  omega

theorem Disk.sectors_lt (d : Disk) : d.sectors < 2 ^ 23 := by
  simp only [Disk.sectors, Disk.capacity, getDiskCapacity, kDiskSectorSize]
  omega

/-! ### Filling a page -/

/-- **What reading `n` sectors makes of a buffer.** -/
structure Filled (d : Disk) (n : ℕ) (v v' : Loading) : Prop where
  offset : v'.sector_offset = v.sector_offset + n
  remains : v'.sector_remains + n = v.sector_remains
  readable : ∀ k < n, d.readable (v.sector_offset + k) = true
  bytes : ∀ k < n * kDiskSectorSize,
    v'.mem.byte (v.buf + k) = d.byte (v.sector_offset * kDiskSectorSize + k)
  outside : ∀ a, ¬(v.buf ≤ a ∧ a < v.buf + n * kDiskSectorSize) → v'.mem a = v.mem a

variable {d : Disk} {v v' : Loading}

/-- The loop over no sectors. -/
theorem Filled.refl (d : Disk) (v : Loading) : Filled d 0 v v where
  offset := rfl
  remains := rfl
  readable k hk := absurd hk (Nat.not_lt_zero k)
  bytes k hk := by omega
  outside _ _ := rfl

/-- One sector, and then those behind it. -/
theorem Filled.cons {n : ℕ} (hbuf : v.buf % 8 = 0) (hremains : v.sector_remains ≠ 0)
    (hread : d.readable v.sector_offset = true)
    (h : Filled d n ⟨v.mem.memcpy v.buf
      (fun i => d.byte (v.sector_offset * kDiskSectorSize + i)) kDiskSectorSize,
      v.buf + kDiskSectorSize, v.sector_remains - 1, v.sector_offset + 1⟩ v') :
    Filled d (n + 1) v v' := by
  obtain ⟨hoff, hrem, hreadable, hbytes, hout⟩ := h
  dsimp only [kDiskSectorSize] at *
  refine ⟨by omega, by omega, fun k hk => ?_, fun k hk => ?_, fun a ha => ?_⟩
  · cases k with
    | zero => exact hread
    | succ k =>
      have hk := hreadable k (by omega)
      rwa [Nat.add_assoc, Nat.add_comm 1 k] at hk
  · dsimp only [kDiskSectorSize] at hk ⊢
    by_cases hfirst : k < 512
    · -- the sector itself, which the others leave
      rw [Mem.byte_congr (hout ((v.buf + k) / 8 * 8) (by omega)),
        Mem.memcpy_byte _ hbuf rfl (fun _ => d.byte_lt _), if_pos (by omega)]
      congr 1
      omega
    · have hrest := hbytes (k - 512) (by omega)
      rw [show v.buf + 512 + (k - 512) = v.buf + k by omega] at hrest
      exact hrest.trans (congrArg d.byte (by omega))
  · dsimp only [kDiskSectorSize] at ha
    rw [hout a (by omega), Mem.memcpy, if_neg (by omega)]

/-- **The inner loop** reads as many sectors as there are passes and sectors left, or
stops at one that cannot be read. -/
theorem loadSectors_spec (left : ℕ) (hbuf : v.buf % 8 = 0)
    (hlt : v.sector_offset + v.sector_remains < 2 ^ 32) :
    ((loadSectors d left v).1 = true →
      Filled d (min left v.sector_remains) v (loadSectors d left v).2) ∧
    ((loadSectors d left v).1 = false → ∃ i < min left v.sector_remains,
      d.readable (v.sector_offset + i) = false ∧
        ∀ j < i, d.readable (v.sector_offset + j) = true) := by
  induction left generalizing v with
  | zero =>
    rw [loadSectors, Nat.zero_min]
    exact ⟨fun _ => .refl d v, fun h => (by cases h)⟩
  | succ left ih =>
    rw [loadSectors]
    by_cases hremains : v.sector_remains = 0
    · rw [if_pos hremains, hremains, Nat.min_zero]
      exact ⟨fun _ => .refl d v, fun h => (by cases h)⟩
    rw [if_neg hremains]
    dsimp only
    cases hread : d.readable v.sector_offset with
    | false =>
      simp only [readDisk, hread, Bool.false_eq_true, if_false]
      exact ⟨fun h => (by cases h), fun _ =>
        ⟨0, by omega, hread, fun j hj => absurd hj (Nat.not_lt_zero j)⟩⟩
    | true =>
      simp only [readDisk, hread, if_true]
      rw [Nat.mod_eq_of_lt (show v.sector_offset + 1 < 2 ^ 32 by omega)]
      obtain ⟨hok, hfail⟩ := ih (v := ⟨v.mem.memcpy v.buf
        (fun i => d.byte (v.sector_offset * kDiskSectorSize + i)) kDiskSectorSize,
        v.buf + kDiskSectorSize, v.sector_remains - 1, v.sector_offset + 1⟩)
        (by simp only [kDiskSectorSize]; omega) (by dsimp only; omega)
      refine ⟨fun h => ?_, fun h => ?_⟩
      · rw [show min (left + 1) v.sector_remains = min left (v.sector_remains - 1) + 1 by omega]
        exact .cons hbuf hremains hread (hok h)
      · obtain ⟨i, hi, hbad, hbefore⟩ := hfail h
        dsimp only at hi hbad hbefore
        refine ⟨i + 1, by omega, ?_, fun j hj => ?_⟩
        · rwa [Nat.add_comm i, ← Nat.add_assoc]
        · cases j with
          | zero => exact hread
          | succ j =>
            rw [Nat.add_comm j, ← Nat.add_assoc]
            exact hbefore j (by omega)

/-! ### How far a load comes -/

/-- **Memory between two pages**: the first `n` are mapped and filled, if there are pages for
them. -/
def pagesLoaded (L : Layout) (d : Disk) (s : Memory) (tsk : TaskId) (va : ℕ) :
    ℕ → Except Fault Memory
  | 0 => .ok s
  | n + 1 => do
    let s ← pagesLoaded L d s tsk va n
    let (buf, s) ← pageMap L s tsk (va + n * PAGE_SIZE)
    let r := loadSectors d (PAGE_SIZE / kDiskSectorSize)
      ⟨s.mm.mem, buf, d.sectors - 8 * n, 8 * n⟩
    return { s with mm := { s.mm with mem := r.2.mem } }

/-- **The load comes to sector `k`**: those before it can be read, and there are pages for them
and for it. -/
def Reaches (L : Layout) (d : Disk) (s : Memory) (tsk : TaskId) (va k : ℕ) : Prop :=
  (∀ j < k, d.readable j = true) ∧ ∃ s' x, pagesLoaded L d s tsk va (k / 8) = .ok s' ∧
    pageMap L s' tsk (va + k / 8 * PAGE_SIZE) = .ok x

/-- **The load stops at a page that is not there**, having read all that belongs into the pages
before it. -/
def OutOfPages (L : Layout) (d : Disk) (s : Memory) (tsk : TaskId) (va : ℕ) (f : Fault) : Prop :=
  f.OutOfMemory ∧ ∃ n < d.pages, (∀ j < 8 * n, d.readable j = true) ∧
    ∃ s', pagesLoaded L d s tsk va n = .ok s' ∧ pageMap L s' tsk (va + n * PAGE_SIZE) = .error f

/-- Where some pages are loaded, the ones before them are too. -/
theorem exists_pageMap_of_pagesLoaded {L : Layout} {s t : Memory} {tsk : TaskId} {va m n : ℕ}
    (h : pagesLoaded L d s tsk va n = .ok t) (hmn : m < n) :
    ∃ s' x, pagesLoaded L d s tsk va m = .ok s' ∧
      pageMap L s' tsk (va + m * PAGE_SIZE) = .ok x := by
  induction n generalizing t with
  | zero => exact absurd hmn (Nat.not_lt_zero m)
  | succ n ih =>
    obtain ⟨u, hu, h⟩ := Lib.bind_eq_ok.mp h
    obtain ⟨x, hx, -⟩ := Lib.bind_eq_ok.mp h
    rcases Nat.lt_succ_iff_lt_or_eq.mp hmn with hlt | rfl
    · exact ih hu hlt
    · exact ⟨u, x, hu, hx⟩

/-- A load that comes to a sector that cannot be read has found the pages before it. -/
theorem Reaches.not_outOfPages {L : Layout} {s : Memory} {tsk : TaskId} {va k : ℕ} {f : Fault}
    (h : Reaches L d s tsk va k) (hbad : d.readable k = false) :
    ¬OutOfPages L d s tsk va f := by
  rintro ⟨-, n, -, hread, s', hs', hnone⟩
  obtain ⟨-, t, x, ht, hx⟩ := h
  rcases Nat.lt_trichotomy n (k / 8) with hlt | rfl | hgt
  · obtain ⟨u, y, hu, hy⟩ := exists_pageMap_of_pagesLoaded ht hlt
    obtain rfl := Except.ok.inj (hs'.symm.trans hu)
    cases hnone.symm.trans hy
  · obtain rfl := Except.ok.inj (hs'.symm.trans ht)
    cases hnone.symm.trans hx
  · rw [hread k (by omega)] at hbad
    cases hbad

/-! ### Giving the pages -/

/-- **What loading `n` pages does**: the pages `pg` of the user region are given, in this
order, to the addresses from `va` on, and hold the image. -/
structure Loaded (L : Layout) (d : Disk) (s : Memory) (tsk : TaskId) (va n : ℕ) (pg : ℕ → ℕ)
    (s' : Memory) : Prop where
  inv : s'.mm.Inv L
  /-- The pages are of the user region, and were not out. -/
  free : ∀ j < n, pg j < kPagingPages ∧ ¬s.user.Out (pg j)
  /-- No page is given twice. -/
  inj : ∀ j < n, ∀ j' < n, pg j = pg j' → j = j'
  /-- They are the only ones that are out now and were not. -/
  out : ∀ i, s'.user.Out i ↔ s.user.Out i ∨ ∃ j < n, pg j = i
  entry : ∀ k < n * PAGE_SIZE,
    s'.mm.entryOf tsk (va + k) = L.userPage (pg (k / PAGE_SIZE)) ||| kStage2PteDram
  other : ∀ t ipa, ipa < 2 ^ 36 → ¬(t = tsk ∧ va ≤ ipa ∧ ipa < va + n * PAGE_SIZE) →
    s'.mm.entryOf t ipa = s.mm.entryOf t ipa
  bytes : ∀ k < n * PAGE_SIZE,
    s'.mm.mem.byte (L.userPage (pg (k / PAGE_SIZE)) + k % PAGE_SIZE) = d.image k

variable {L : Layout} {s s' : Memory} {tsk : TaskId} {va n : ℕ} {pg : ℕ → ℕ}

theorem Loaded.refl (h : s.mm.Inv L) (d : Disk) (tsk : TaskId) (va : ℕ) (pg : ℕ → ℕ) :
    Loaded L d s tsk va 0 pg s where
  inv := h
  free j hj := absurd hj (Nat.not_lt_zero j)
  inj j hj := absurd hj (Nat.not_lt_zero j)
  out i := by simp
  entry k hk := by omega
  other _ _ _ _ := rfl
  bytes k hk := by omega

/-- Bytes of different pages of the user region are in different words. -/
theorem userPage_word_ne {i j : ℕ} (hij : i ≠ j) {o : ℕ} (ho : o < PAGE_SIZE) :
    ¬(L.userPage i ≤ (L.userPage j + o) / 8 * 8 ∧
      (L.userPage j + o) / 8 * 8 < L.userPage i + PAGE_SIZE) := by
  have := L.user_aligned
  simp only [Layout.userPage, PAGE_SIZE] at *
  omega

theorem userPage_word_apart (i o : ℕ) :
    ¬(L.kHeapStart ≤ (L.userPage i + o) / 8 * 8 ∧
      (L.userPage i + o) / 8 * 8 < L.kHeapStart + kHeapSize) := by
  have := L.heap_end
  have := L.uncached_end
  have := L.user_aligned
  simp only [Layout.userPage, PAGE_SIZE] at *
  omega

/-- A byte before the page `n` that is not in it is before it. -/
theorem lt_of_page_ne {k n : ℕ} (hk : k < (n + 1) * 4096) (hne : k / 4096 ≠ n) :
    k < n * 4096 := by
  have hpos : 0 < 4096 := by decide
  rw [← Nat.div_lt_iff_lt_mul hpos] at hk ⊢
  exact lt_of_le_of_ne (Nat.lt_succ_iff.mp hk) hne

/-- **One page**: given to the address behind those loaded, and filled. -/
theorem Loaded.step (h : Loaded L d s tsk va n pg s') {i : ℕ} {s₁ : Memory}
    (hva : va % PAGE_SIZE = 0) (hfit : va + (n + 1) * PAGE_SIZE ≤ 2 ^ 36)
    (hp : pageMap L s' tsk (va + n * PAGE_SIZE) = .ok (L.userPage i, s₁))
    (hi : Paged L s' tsk (va + n * PAGE_SIZE) i s₁) {m : Mem}
    (hout : ∀ a, ¬(L.userPage i ≤ a ∧ a < L.userPage i + PAGE_SIZE) → m a = s₁.mm.mem a)
    (hbytes : ∀ k < PAGE_SIZE, m.byte (L.userPage i + k) = d.image (n * PAGE_SIZE + k)) :
    Loaded L d s tsk va (n + 1) (Function.update pg n i)
      { s₁ with mm := { s₁.mm with mem := m } } := by
  obtain ⟨hmem, hnew, hmark⟩ := pageMap_outside h.inv hp
  have huser := inUser_userPage L hi.index
  obtain ⟨hinv, hsame⟩ := hi.inv.congr_mem (m := m) (by
    intro page hpage j
    have hlt := huser.apart hpage j
    exact hout _ (by omega))
  -- what was given before is another page
  have hold : ∀ j < n, Function.update pg n i j = pg j := fun j hj =>
    Function.update_of_ne hj.ne ..
  have hself : Function.update pg n i n = i := Function.update_self ..
  have hne : ∀ j < n, i ≠ pg j := fun j hj heq =>
    hnew ((h.out i).mpr (.inr ⟨j, hj, heq.symm⟩))
  have hpage : ∀ k, k / PAGE_SIZE = k / 4096 := fun _ => rfl
  have hentry := h.entry
  have hother := h.other
  have hkept := h.bytes
  have hsize : ∀ k, k * PAGE_SIZE = k * 4096 := fun _ => by rw [PAGE_SIZE]
  have hoff : va % 4096 = 0 := hva
  rw [hsize] at hfit
  have hgiven := hi.entry
  simp only [hsize] at hentry hother hkept hgiven
  simp only [hpage] at hentry hkept
  refine ⟨hinv, fun j hj => ?_, fun j hj j' hj' heq => ?_, fun k => ?_, fun k hk => ?_,
    fun t ipa hlt hnot => ?_, fun k hk => ?_⟩
  · rcases Nat.lt_succ_iff_lt_or_eq.mp hj with hj | rfl
    · rw [hold j hj]
      exact h.free j hj
    · rw [hself]
      exact ⟨hi.index, fun hs => hnew ((h.out i).mpr (.inl hs))⟩
  · rcases Nat.lt_succ_iff_lt_or_eq.mp hj with hj | rfl <;>
      rcases Nat.lt_succ_iff_lt_or_eq.mp hj' with hj' | rfl
    · rw [hold j hj, hold j' hj'] at heq
      exact h.inj j hj j' hj' heq
    · rw [hold j hj, hself] at heq
      exact absurd heq.symm (hne j hj)
    · rw [hold j' hj', hself] at heq
      exact absurd heq (hne j' hj')
    · rfl
  · rw [hmark, h.out, or_assoc]
    refine or_congr_right ⟨?_, ?_⟩
    · rintro (⟨j, hj, rfl⟩ | rfl)
      · exact ⟨j, Nat.lt_succ_of_lt hj, hold j hj⟩
      · exact ⟨n, Nat.lt_succ_self n, hself⟩
    · rintro ⟨j, hj, rfl⟩
      rcases Nat.lt_succ_iff_lt_or_eq.mp hj with hj | rfl
      · exact .inl ⟨j, hj, (hold j hj).symm⟩
      · exact .inr hself
  · rw [hsame, hgiven]
    rw [hsize] at hk
    by_cases hlast : k / 4096 = n
    · rw [if_pos ⟨rfl, by omega⟩, hpage, hlast, hself]
    · have hlt := lt_of_page_ne hk hlast
      rw [if_neg (by omega), hpage, hold _ (by omega), hentry k hlt]
  · rw [hsame, hgiven, if_neg]
    · exact hother t ipa hlt (fun hin => hnot ⟨hin.1, hin.2.1, by rw [hsize]; omega⟩)
    · rintro ⟨rfl, hframe⟩
      exact hnot ⟨rfl, by omega, by rw [hsize]; omega⟩
  · change m.byte _ = _
    rw [hsize] at hk
    rw [hpage]
    by_cases hlast : k / 4096 = n
    · rw [hlast, hself, hbytes _ (Nat.mod_lt k (by decide))]
      refine congrArg d.image ?_
      rw [hsize]
      exact (congrArg (· + k % 4096) (by rw [hlast])).trans (Nat.div_add_mod' k 4096)
    · have hj : k / 4096 < n := by omega
      have hbefore := lt_of_page_ne hk hlast
      rw [hold _ hj]
      have hlt : k % PAGE_SIZE < PAGE_SIZE := Nat.mod_lt k (by decide)
      have hapart := userPage_word_ne (L := L) (hne _ hj) hlt
      have hheap := userPage_word_apart (L := L) (pg (k / 4096)) (k % PAGE_SIZE)
      rw [Mem.byte_congr (m := s'.mm.mem)]
      · exact hkept k hbefore
      · rw [hout _ hapart, hmem _ hheap, Mem.memzero, if_neg hapart]

/-- **What the outer loop keeps of its variables**, once `n` pages are loaded. -/
structure Progress (d : Disk) (va n cur sector_remains sector_offset : ℕ) : Prop where
  cur : cur = va + n * PAGE_SIZE
  total : sector_offset + sector_remains = d.sectors
  page : sector_remains ≠ 0 → sector_offset = 8 * n
  last : sector_remains = 0 → n = d.pages
  readable : ∀ k < sector_offset, d.readable k = true

variable {cur sector_remains sector_offset : ℕ}

theorem Progress.lt_pages (h : Progress d va n cur sector_remains sector_offset)
    (hremains : sector_remains ≠ 0) : n < d.pages := by
  have := h.total
  have := h.page hremains
  simp only [Disk.pages]
  omega

/-- The sectors of one more page. -/
theorem Progress.step (h : Progress d va n cur sector_remains sector_offset)
    (hremains : sector_remains ≠ 0) (hfit : va + d.pages * PAGE_SIZE ≤ 2 ^ 36) {m : Mem} {buf : ℕ}
    (hv : Filled d (min 8 sector_remains) ⟨m, buf, sector_remains, sector_offset⟩ v') :
    Progress d va (n + 1) ((cur + PAGE_SIZE) % 2 ^ 64) v'.sector_remains v'.sector_offset := by
  have hlt := h.lt_pages hremains
  have htotal := h.total
  have hpage := h.page hremains
  have hoffset : v'.sector_offset = sector_offset + min 8 sector_remains := hv.offset
  have hrest : v'.sector_remains + min 8 sector_remains = sector_remains := hv.remains
  refine ⟨?_, by omega, fun _ => by omega, fun _ => ?_, fun k hk => ?_⟩
  · have hle : (n + 1) * PAGE_SIZE ≤ d.pages * PAGE_SIZE := Nat.mul_le_mul_right _ hlt
    rw [h.cur, Nat.add_assoc, ← Nat.add_one_mul]
    exact Nat.mod_eq_of_lt (by omega)
  · simp only [Disk.pages]
    omega
  · by_cases hold : k < sector_offset
    · exact h.readable k hold
    · have hread := hv.readable (k - sector_offset) (by omega)
      rwa [show sector_offset + (k - sector_offset) = k by omega] at hread

/-- The page that has been filled holds the image. -/
theorem Filled.image (hremains : sector_remains ≠ 0)
    (h : Progress d va n cur sector_remains sector_offset) {m : Mem} {buf : ℕ}
    (hbuf : buf % 8 = 0) (hzero : ∀ k < PAGE_SIZE, m.byte (buf + k) = 0)
    (hv : Filled d (min 8 sector_remains) ⟨m, buf, sector_remains, sector_offset⟩ v')
    {k : ℕ} (hk : k < PAGE_SIZE) : v'.mem.byte (buf + k) = d.image (n * PAGE_SIZE + k) := by
  have htotal := h.total
  have hpage := h.page hremains
  have hcap := d.capacity_eq
  simp only [kDiskSectorSize, PAGE_SIZE] at hcap hk hzero ⊢
  rw [Disk.image]
  by_cases hread : k < min 8 sector_remains * 512
  · rw [if_pos (by omega)]
    refine (hv.bytes k hread).trans (congrArg d.byte ?_)
    simp only [kDiskSectorSize]
    omega
  · rw [if_neg (by omega)]
    refine (Mem.byte_congr (hv.outside _ ?_)).trans (hzero k hk)
    simp only [kDiskSectorSize]
    omega

/-- **One pass** of the outer loop. -/
theorem Loaded.pass (h : Loaded L d s tsk va n pg s')
    (hprog : Progress d va n cur sector_remains sector_offset) (hremains : sector_remains ≠ 0)
    (hva : va % PAGE_SIZE = 0) (hfit : va + d.pages * PAGE_SIZE ≤ 2 ^ 36) {buf : ℕ}
    {s₁ : Memory} (hp : pageMap L s' tsk cur = .ok (buf, s₁))
    (hv : Filled d (min 8 sector_remains) ⟨s₁.mm.mem, buf, sector_remains, sector_offset⟩ v') :
    ∃ pg', Loaded L d s tsk va (n + 1) pg' { s₁ with mm := { s₁.mm with mem := v'.mem } } := by
  obtain ⟨i, rfl, hi⟩ := pageMap_ok h.inv hp
  obtain ⟨hal, -, -⟩ := (inUser_userPage L hi.index).bounds
  have hle : (n + 1) * PAGE_SIZE ≤ d.pages * PAGE_SIZE :=
    Nat.mul_le_mul_right _ (hprog.lt_pages hremains)
  rw [hprog.cur] at hp hi
  obtain ⟨hmem, -, -⟩ := pageMap_outside h.inv hp
  have hzero : ∀ k < PAGE_SIZE, s₁.mm.mem.byte (L.userPage i + k) = 0 := by
    intro k hk
    rw [Mem.byte_congr (hmem _ (userPage_word_apart i k)),
      Mem.memzero_byte _ (by omega) rfl, if_pos ⟨Nat.le_add_right _ k, Nat.add_lt_add_left hk _⟩]
  refine ⟨_, h.step hva (by omega) hp hi (fun a ha => hv.outside a fun hin => ha ?_)
    fun k hk => hv.image hremains hprog (by omega) hzero hk⟩
  have hsize : min 8 sector_remains * kDiskSectorSize ≤ PAGE_SIZE := by
    simp only [kDiskSectorSize, PAGE_SIZE]
    omega
  exact ⟨hin.1, hin.2.trans_le (Nat.add_le_add_left hsize _)⟩

/-- When no sector remains all pages are loaded. -/
theorem Loaded.done (h : Loaded L d s tsk va n pg s')
    (hprog : Progress d va n cur sector_remains sector_offset) (hzero : sector_remains = 0) :
    (∃ pg', Loaded L d s tsk va d.pages pg' s') ∧ ∀ k < d.sectors, d.readable k = true := by
  have htotal := hprog.total
  exact ⟨⟨pg, hprog.last hzero ▸ h⟩, fun k hk => hprog.readable k (by omega)⟩

/-- **The outer loop** loads all pages, or comes to a sector that cannot be read, or stops at a
page that is not there. -/
theorem loadPages_spec {fuel : ℕ} (h : Loaded L d s tsk va n pg s')
    (hbefore : pagesLoaded L d s tsk va n = .ok s')
    (hprog : Progress d va n cur sector_remains sector_offset) (hfuel : sector_remains ≤ fuel)
    (hva : va % PAGE_SIZE = 0) (hfit : va + d.pages * PAGE_SIZE ≤ 2 ^ 36) :
    (∀ t, loadPages L d tsk fuel s' cur sector_remains sector_offset = .ok (true, t) →
      (∃ pg', Loaded L d s tsk va d.pages pg' t) ∧ ∀ k < d.sectors, d.readable k = true) ∧
    (∀ t, loadPages L d tsk fuel s' cur sector_remains sector_offset = .ok (false, t) →
      ∃ k < d.sectors, d.readable k = false) ∧
    ∀ f, loadPages L d tsk fuel s' cur sector_remains sector_offset = .error f →
      OutOfPages L d s tsk va f := by
  induction fuel generalizing n pg s' cur sector_remains sector_offset with
  | zero =>
    rw [loadPages, if_pos (Nat.le_zero.mp hfuel)]
    refine ⟨fun t ht => ?_, fun t ht => (by cases ht), fun f hf => (by cases hf)⟩
    obtain rfl := congrArg Prod.snd (Except.ok.inj ht)
    exact h.done hprog (Nat.le_zero.mp hfuel)
  | succ fuel ih =>
    rw [loadPages]
    by_cases hremains : sector_remains = 0
    · rw [if_pos hremains]
      refine ⟨fun t ht => ?_, fun t ht => (by cases ht), fun f hf => (by cases hf)⟩
      obtain rfl := congrArg Prod.snd (Except.ok.inj ht)
      exact h.done hprog hremains
    rw [if_neg hremains]
    have hpage := hprog.page hremains
    have htotal := hprog.total
    cases hp : pageMap L s' tsk cur with
    | error f =>
      refine ⟨fun t ht => (by cases ht), fun t ht => (by cases ht), fun g hg => ?_⟩
      obtain rfl := Except.error.inj hg
      exact ⟨pageMap_error hp, n, hprog.lt_pages hremains,
        fun j hj => hprog.readable j (hpage ▸ hj), s', hbefore, hprog.cur ▸ hp⟩
    | ok r =>
      -- a page has been taken, and is filled up to a sector that cannot be read
      obtain ⟨buf, s₁⟩ := r
      rw [Lib.ok_bind]
      dsimp only
      obtain ⟨i, hbuf, hi⟩ := pageMap_ok h.inv hp
      obtain ⟨hal, -, -⟩ := (inUser_userPage L hi.index).bounds
      obtain ⟨hok, hfail⟩ := loadSectors_spec (d := d) (PAGE_SIZE / kDiskSectorSize)
        (v := ⟨s₁.mm.mem, buf, sector_remains, sector_offset⟩) (by dsimp only; omega)
        (by rw [htotal]; exact d.sectors_lt.trans (by decide))
      have hnext : pagesLoaded L d s tsk va (n + 1) = .ok { s₁ with mm := { s₁.mm with
          mem := (loadSectors d (PAGE_SIZE / kDiskSectorSize)
            ⟨s₁.mm.mem, buf, sector_remains, sector_offset⟩).2.mem } } := by
        rw [pagesLoaded, hbefore, Lib.ok_bind, ← hprog.cur, hp, Lib.ok_bind, ← hpage, ← htotal,
          Nat.add_sub_cancel_left]
        rfl
      generalize loadSectors d (PAGE_SIZE / kDiskSectorSize)
        ⟨s₁.mm.mem, buf, sector_remains, sector_offset⟩ = r at hok hfail hnext ⊢
      obtain ⟨ok, v'⟩ := r
      cases ok with
      | false =>
        refine ⟨fun t ht => (by cases ht), fun t _ => ?_, fun f hf => (by cases hf)⟩
        obtain ⟨k, hk, hbad, -⟩ := hfail rfl
        dsimp only at hk hbad
        exact ⟨_, by omega, hbad⟩
      | true =>
        have hv : Filled d (min 8 sector_remains)
          ⟨s₁.mm.mem, buf, sector_remains, sector_offset⟩ v' := hok rfl
        obtain ⟨pg', hl⟩ := h.pass hprog hremains hva hfit hp hv
        have hstep := hprog.step hremains hfit hv
        have hrest : v'.sector_remains + min 8 sector_remains = sector_remains := hv.remains
        rw [if_pos rfl]
        exact ih hl hnext hstep (show v'.sector_remains ≤ fuel by omega)

/-- **The image is in place**: the pages `pg` of the user region, given to the addresses
from `va` on, are behind those addresses and hold the disk, and nothing else has
changed. -/
structure ImageAt (L : Layout) (d : Disk) (s : Memory) (tsk : TaskId) (va : ℕ) (pg : ℕ → ℕ)
    (s' : Memory) : Prop where
  /-- As many pages are given as the sectors take: they were not out, none is given twice,
  and they are the only ones that are out now and were not. -/
  free : ∀ j < d.pages, pg j < kPagingPages ∧ ¬s.user.Out (pg j)
  inj : ∀ j < d.pages, ∀ j' < d.pages, pg j = pg j' → j = j'
  out : ∀ i, s'.user.Out i ↔ s.user.Out i ∨ ∃ j < d.pages, pg j = i
  /-- Each address is translated to a page, where the byte of the image is. -/
  translate : ∀ k < d.pages * PAGE_SIZE, ∃ desc, s'.mm.translate tsk (va + k) = .page desc ∧
    descAddr desc = L.userPage (pg (k / PAGE_SIZE)) ∧ desc % PAGE_SIZE = kStage2PteDram ∧
    s'.mm.mem.byte (descAddr desc + (va + k) % PAGE_SIZE) = d.image k
  /-- No other address of any task is translated in another way than before. -/
  other : ∀ t ipa, ipa < 2 ^ 36 → ¬(t = tsk ∧ va ≤ ipa ∧ ipa < va + d.pages * PAGE_SIZE) →
    s'.mm.translate t ipa = s.mm.translate t ipa

/-- Each address is translated to the page it was given, where the byte of the image is. -/
theorem Loaded.translate (h : Loaded L d s tsk va n pg s') (hva : va % PAGE_SIZE = 0) {k : ℕ}
    (hk : k < n * PAGE_SIZE) : ∃ desc, s'.mm.translate tsk (va + k) = .page desc ∧
      descAddr desc = L.userPage (pg (k / PAGE_SIZE)) ∧ desc % PAGE_SIZE = kStage2PteDram ∧
      s'.mm.mem.byte (descAddr desc + (va + k) % PAGE_SIZE) = d.image k := by
  have hj : k / PAGE_SIZE < n := Nat.div_lt_of_lt_mul (Nat.mul_comm _ _ ▸ hk)
  obtain ⟨hflags, haddr⟩ := Isolation.userEntry (L := L) (h.free _ hj).1
  have hoffset : (va + k) % PAGE_SIZE = k % PAGE_SIZE := by
    rw [Nat.add_mod, hva, Nat.zero_add, Nat.mod_mod]
  refine ⟨_, ?_, haddr, hflags, ?_⟩
  · rw [h.inv.translate_eq, h.entry k hk]
    have hdram : kStage2PteDram % 4 = 3 := by decide
    exact if_pos (by omega)
  · rw [haddr, hoffset]
    exact h.bytes k hk

/-- Loading all pages puts the image in place. -/
theorem Loaded.imageAt (h : Loaded L d s tsk va d.pages pg s') (hs : s.mm.Inv L)
    (hva : va % PAGE_SIZE = 0) : ImageAt L d s tsk va pg s' where
  free := h.free
  inj := h.inj
  out := h.out
  translate _ hk := h.translate hva hk
  other t ipa hlt hnot := by
    rw [h.inv.translate_eq, hs.translate_eq, h.other t ipa hlt hnot]

/-- **What the loader does**, wherever it is called: it succeeds with the image in place, or
fails because a sector cannot be read, or stops because memory is exhausted. -/
theorem loaderLoadFile_of_inv (h : s.mm.Inv L) (d : Disk) (tsk : TaskId) {va : ℕ}
    (hva : va % PAGE_SIZE = 0) (hfit : va + d.capacity < 2 ^ 36) :
    (∀ t, loaderLoadFile L d s tsk va = .ok (true, t) →
      (∃ pg, ImageAt L d s tsk va pg t) ∧ ∀ k < d.sectors, d.readable k = true) ∧
    (∀ t, loaderLoadFile L d s tsk va = .ok (false, t) →
      ∃ k < d.sectors, d.readable k = false) ∧
    ∀ f, loaderLoadFile L d s tsk va = .error f → OutOfPages L d s tsk va f := by
  have hcap := d.capacity_eq
  have hmask : va &&& PAGE_MASK = va := Mm.and_pageMask_of_aligned (by omega) hva
  have hroom : va + d.pages * PAGE_SIZE ≤ 2 ^ 36 := by
    simp only [Disk.pages, PAGE_SIZE, kDiskSectorSize] at hva hcap ⊢
    omega
  have hstart : Progress d va 0 va d.sectors 0 :=
    ⟨by rw [Nat.zero_mul, Nat.add_zero], Nat.zero_add _, fun _ => rfl,
      fun hzero => by rw [Disk.pages, hzero], fun k hk => absurd hk (Nat.not_lt_zero k)⟩
  obtain ⟨hok, hfail, hpanic⟩ := loadPages_spec (.refl h d tsk va id) rfl hstart le_rfl hva hroom
  rw [loaderLoadFile, hmask]
  refine ⟨fun t ht => ?_, hfail, hpanic⟩
  obtain ⟨⟨pg, hl⟩, hread⟩ := hok t ht
  exact ⟨⟨pg, hl.imageAt h hva⟩, hread⟩

/-- **The loader gives the guest the disk image.** In every state the system reaches, for
every disk and every page aligned address that leaves room for its image: when the loader
succeeds then the image is in place and every sector has been read; when it comes to a sector
that cannot be read it fails; and it fails for no other reason, and stops only where memory is
exhausted, at a page for sectors that it has not come to. -/
theorem loaderLoadFile_spec (L : BoardLayout .qemu) {events : List Isolation.Event}
    (hlegal : Lib.Each (Isolation.step .qemu L.toLayout) Isolation.Legal .boot events)
    {s : Isolation.System}
    (hs : Lib.runFrom (Isolation.step .qemu L.toLayout) .boot events = .ok s) (d : Disk)
    (tsk : TaskId) {va : ℕ} (hva : va % PAGE_SIZE = 0) (hfit : va + d.capacity < 2 ^ 36) :
    (∀ t, loaderLoadFile L.toLayout d s.memory tsk va = .ok (true, t) →
      ∃ pg, ImageAt L.toLayout d s.memory tsk va pg t) ∧
    (∀ ok t, loaderLoadFile L.toLayout d s.memory tsk va = .ok (ok, t) →
      (ok = false ↔ ∃ k < d.sectors, d.readable k = false)) ∧
    (∀ k < d.sectors, d.readable k = false → Reaches L.toLayout d s.memory tsk va k →
      ∃ t, loaderLoadFile L.toLayout d s.memory tsk va = .ok (false, t)) ∧
    ∀ f, loaderLoadFile L.toLayout d s.memory tsk va = .error f →
      OutOfPages L.toLayout d s.memory tsk va f := by
  have htree := (Isolation.inv_of_run hlegal hs).tree
  obtain ⟨hok, hfail, hstop⟩ := loaderLoadFile_of_inv htree d tsk hva hfit
  refine ⟨fun t ht => (hok t ht).1, fun ok t ht => ?_, fun k hk hbad hreach => ?_, hstop⟩
  · cases ok with
    | false => exact iff_of_true rfl (hfail t ht)
    | true =>
      refine iff_of_false Bool.noConfusion ?_
      rintro ⟨k, hk, hbad⟩
      rw [(hok t ht).2 k hk] at hbad
      cases hbad
  · cases hload : loaderLoadFile L.toLayout d s.memory tsk va with
    | error f => exact absurd (hstop f hload) (hreach.not_outOfPages hbad)
    | ok r =>
      obtain ⟨ok, t⟩ := r
      cases ok with
      | false => exact ⟨t, rfl⟩
      | true =>
        rw [(hok t hload).2 k hk] at hbad
        cases hbad

/-- A disk of nine sectors, each byte of which is the lowest of its offset. -/
def Disk.nine : Disk where
  DEVICE_CONFIG_SPACE0 := 9
  byte k := k % 256
  readable _ := true
  config_lt := by decide
  byte_lt k := Nat.mod_lt k (by decide)

/-- The same disk, when its last sector cannot be read. -/
def Disk.eightOfNine : Disk := { Disk.nine with readable := fun k => decide (k < 8) }

/-- What becomes of an image for the first task of the QEMU board. -/
def loadsFirst (d : Disk) (va : ℕ) : Option (Bool × Bool) :=
  match Lib.runFrom (Isolation.step .qemu BoardLayout.qemu.toLayout) .boot [.createTask] with
  | .ok s =>
    match loaderLoadFile BoardLayout.qemu.toLayout d s.memory 1 va with
    | .ok r => some (r.1, (pagesLoaded BoardLayout.qemu.toLayout d s.memory 1 va 2).isOk)
    | .error _ => none
  | .error _ => none

theorem loadsFirst_spec {d : Disk} {va : ℕ} {ok : Bool} (h : loadsFirst d va = some (ok, true)) :
    ∃ s t, Lib.runFrom (Isolation.step .qemu BoardLayout.qemu.toLayout) .boot [.createTask] =
        .ok s ∧ loaderLoadFile BoardLayout.qemu.toLayout d s.memory 1 va = .ok (ok, t) ∧
      (pagesLoaded BoardLayout.qemu.toLayout d s.memory 1 va 2).isOk = true := by
  rw [loadsFirst] at h
  split at h
  · rename_i s hs
    split at h
    · rename_i r hr
      obtain ⟨rfl, hpages⟩ := Prod.mk.inj (Option.some.inj h)
      exact ⟨s, r.2, hs, hr, hpages⟩
    · cases h
  · cases h

/-- The first task of the QEMU board is given the image of two pages, and none when the last sector
cannot be read. -/
theorem loaderLoadFile_spec_nine :
    (∃ (s : Isolation.System) (t : Memory) (pg : ℕ → ℕ),
      loaderLoadFile BoardLayout.qemu.toLayout .nine s.memory 1 0x40000000 = .ok (true, t) ∧
      ImageAt BoardLayout.qemu.toLayout .nine s.memory 1 0x40000000 pg t) ∧
    ∃ (s : Isolation.System) (t : Memory),
      Reaches BoardLayout.qemu.toLayout .eightOfNine s.memory 1 0x40000000 8 ∧
      loaderLoadFile BoardLayout.qemu.toLayout .eightOfNine s.memory 1 0x40000000 =
        .ok (false, t) := by
  constructor
  · obtain ⟨s, t, hs, ht, -⟩ := loadsFirst_spec (by decide +kernel :
      loadsFirst .nine 0x40000000 = some (true, true))
    obtain ⟨pg, himage⟩ := (loaderLoadFile_spec .qemu (by decide +kernel) hs .nine 1
      (by decide) (by decide)).1 t ht
    exact ⟨s, t, pg, ht, himage⟩
  · obtain ⟨s, -, hs, -, hpages⟩ := loadsFirst_spec (by decide +kernel :
      loadsFirst .eightOfNine 0x40000000 = some (false, true))
    obtain ⟨u, hu⟩ := Lib.exists_ok_of_isOk hpages
    have hreach : Reaches BoardLayout.qemu.toLayout .eightOfNine s.memory 1 0x40000000 8 :=
      ⟨fun j hj => decide_eq_true hj, exists_pageMap_of_pagesLoaded hu (by decide)⟩
    obtain ⟨t, ht⟩ := (loaderLoadFile_spec .qemu (by decide +kernel) hs .eightOfNine 1
      (by decide) (by decide)).2.2.1 8 (by decide) (by decide) hreach
    exact ⟨s, t, hreach, ht⟩

end Evisor
