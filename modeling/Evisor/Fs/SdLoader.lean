import Evisor.Fs.Loader

/-!
# Loading a file from a card

`LoaderLoadFile` of `fs/loader.cc`, for the other boards: the image of a guest is a file.
It is read a page at a time into pages of the user region, each of which is mapped before it
is filled.

The file system is a parameter (`Evisor.FileSystem`). It keeps what it knows in pages of the
heap, which it takes one after the other and which nobody else writes, so that all there is to
say of them is that they are taken; and `Read` stores bytes where it is told to.

The size of the file, a word of 32 bits, becomes a signed one: a file of 2 GiB or more is taken
for an empty one, and loaded with success (`Evisor.sdLoad_right_iff`).
-/

namespace Evisor

/-- Pages of the heap are taken, and none is given back. -/
def HeapMap.Grows (heap heap' : HeapMap) : Prop := ∀ i, heap i = true → heap' i = true

/-- What `Fat32Fs::Read` does: what it returns, and the bytes that it has stored. -/
structure ReadResult (σ : Type) where
  reads : ℤ
  bytes : List ℕ
  fs : σ
  heap : HeapMap

/-- **A file system**, with what it knows as a state. -/
structure FileSystem (σ : Type) where
  /-- `new Fat32Fs()`. -/
  create : HeapMap → Except Fault (σ × HeapMap)
  /-- `Fat32Fs::Init`. -/
  init : σ → HeapMap → Except Fault (Bool × σ × HeapMap)
  /-- `Fat32Fs::Open`, and the size of the file if it could be opened. -/
  openFile : σ → HeapMap → Except Fault (Option ℕ × σ × HeapMap)
  /-- `Fat32Fs::Read`, of `len` bytes from `offset` on. -/
  read : σ → HeapMap → (offset len : ℕ) → Except Fault (ReadResult σ)
  create_grows : ∀ {heap r}, create heap = .ok r → heap.Grows r.2
  init_grows : ∀ {fs heap r}, init fs heap = .ok r → heap.Grows r.2.2
  open_grows : ∀ {fs heap r}, openFile fs heap = .ok r → heap.Grows r.2.2
  read_grows : ∀ {fs heap offset len r}, read fs heap offset len = .ok r → heap.Grows r.heap
  size_lt : ∀ {fs heap r size}, openFile fs heap = .ok r → r.1 = some size → size < 2 ^ 32
  byte_lt : ∀ {fs heap offset len r}, read fs heap offset len = .ok r → ∀ c ∈ r.bytes, c < 256

/-- **`Read` reads a file**: it returns the requested count only after storing exactly the bytes
that are asked for. -/
def FileSystem.Reads {σ : Type} (F : FileSystem σ) (file : ℕ → ℕ) (size : ℕ) : Prop :=
  ∀ fs heap offset len r, offset + len ≤ size → F.read fs heap offset len = .ok r →
    r.reads = len → r.bytes = (List.range len).map fun k => file (offset + k)

/-! ### The code -/

/-- What the loader leaves: whether it has succeeded, memory, and each length it has requested
with what `Read` has returned. -/
structure SdLoaded (σ : Type) where
  ok : Bool
  memory : Memory
  fs : σ
  requests : List (ℕ × ℤ)

/-- The heap of a state of memory. -/
def Memory.withHeap (s : Memory) (heap : HeapMap) : Memory := { s with mm := { s.mm with heap } }

section Code

variable {σ : Type} (L : Layout) (F : FileSystem σ) (tsk : TaskId)

/-- One pass of the loop: a page is mapped, and read. What is returned has `ok` if the read was
not short. -/
def sdPass (s : Memory) (fs : σ) (remains offset : ℤ) (cur : ℕ) : Except Fault (SdLoaded σ) := do
  let (buf, s) ← pageMap L s tsk cur
  let req_len := min (PAGE_SIZE : ℤ) remains
  let r ← F.read fs s.mm.heap (offset % 2 ^ 32).toNat req_len.toNat
  let mm := { s.mm with mem := s.mm.mem.storeBytes buf r.bytes, heap := r.heap }
  return ⟨req_len = r.reads, { s with mm }, r.fs, [(req_len.toNat, r.reads)]⟩

/-- The loop, with the passes it may still make. -/
def sdLoop : ℕ → Memory → σ → (remains offset : ℤ) → (cur : ℕ) → Except Fault (SdLoaded σ)
  | 0, s, fs, remains, _, _ => if 0 < remains then .error .outOfFuel else .ok ⟨true, s, fs, []⟩
  | fuel + 1, s, fs, remains, offset, cur =>
    if 0 < remains then do
      let r ← sdPass L F tsk s fs remains offset cur
      if r.ok then do
        let reads := min (PAGE_SIZE : ℤ) remains
        let t ← sdLoop fuel r.memory r.fs (remains - reads) (offset + reads)
          ((cur + PAGE_SIZE) % 2 ^ 64)
        return { t with requests := r.requests ++ t.requests }
      else return r
    else .ok ⟨true, s, fs, []⟩

/-- `LoaderLoadFile`. -/
def sdLoadFile (s : Memory) (va : ℕ) : Except Fault (SdLoaded σ) := do
  let (fs, heap) ← F.create s.mm.heap
  let (ok, fs, heap) ← F.init fs heap
  if ok then do
    let (size, fs, heap) ← F.openFile fs heap
    match size with
    | none => return ⟨false, s.withHeap heap, fs, []⟩
    | some size =>
      let remains := Int.bmod size (2 ^ 32)
      sdLoop L F tsk size (s.withHeap heap) fs remains 0 (va &&& PAGE_MASK)
  else return ⟨false, s.withHeap heap, fs, []⟩

end Code

/-! ### What it should do -/

/-- **The file is in place**: each address from `va` on is one that a guest can have, and is
translated to a page, where the byte of the file is. -/
def FileAt (s : Memory) (tsk : TaskId) (va size : ℕ) (file : ℕ → ℕ) : Prop :=
  ∀ k < size, va + k < 2 ^ 36 ∧ ∃ desc, s.mm.translate tsk (va + k) = .page desc ∧
    s.mm.mem.byte (descAddr desc + (va + k) % PAGE_SIZE) = file k

/-- **A short read is the last**, and the loader fails. -/
def StopsAtShort {σ : Type} (r : SdLoaded σ) : Prop :=
  (∀ q ∈ r.requests.dropLast, q.2 = q.1) ∧ ∀ q ∈ r.requests, q.2 ≠ q.1 → r.ok = false

/-- **The loop comes to a read that is short**, with `r` when it has been made: each of the passes
before is given a page and all that it asks for. -/
inductive ComesShort {σ : Type} (L : Layout) (F : FileSystem σ) (tsk : TaskId) :
    Memory → σ → ℤ → ℤ → ℕ → SdLoaded σ → Prop
  | short {s : Memory} {fs : σ} {remains offset : ℤ} {cur : ℕ} {r : SdLoaded σ}
    (hremains : 0 < remains) (hpass : sdPass L F tsk s fs remains offset cur = .ok r)
    (hshort : r.ok = false) : ComesShort L F tsk s fs remains offset cur r
  | next {s : Memory} {fs : σ} {remains offset : ℤ} {cur : ℕ} {r t : SdLoaded σ}
    (hremains : 0 < remains) (hpass : sdPass L F tsk s fs remains offset cur = .ok r)
    (hfull : r.ok = true)
    (hrest : ComesShort L F tsk r.memory r.fs (remains - min (PAGE_SIZE : ℤ) remains)
      (offset + min (PAGE_SIZE : ℤ) remains) ((cur + PAGE_SIZE) % 2 ^ 64) t) :
    ComesShort L F tsk s fs remains offset cur { t with requests := r.requests ++ t.requests }

/-- **The file is open**, with its size, and the file system as it is then. -/
def FileSystem.Opens {σ : Type} (F : FileSystem σ) (heap : HeapMap) (size : ℕ) (fs : σ)
    (heap' : HeapMap) : Prop :=
  ∃ r₁ r₂, F.create heap = .ok r₁ ∧ F.init r₁.1 r₁.2 = .ok (true, r₂) ∧
    F.openFile r₂.1 r₂.2 = .ok (some size, fs, heap')

/-- A fault of the file system. -/
def FileSystem.Fails {σ : Type} (F : FileSystem σ) (f : Fault) : Prop :=
  (∃ heap, F.create heap = .error f) ∨ (∃ fs heap, F.init fs heap = .error f) ∨
    (∃ fs heap, F.openFile fs heap = .error f) ∨
    ∃ fs heap offset len, F.read fs heap offset len = .error f

/-- A file system that has this file. -/
structure FileSystem.Holds {σ : Type} (F : FileSystem σ) (file : ℕ → ℕ) (size : ℕ) : Prop where
  reported : ∀ {fs heap r n}, F.openFile fs heap = .ok r → r.1 = some n → n = size
  reads : F.Reads file size
  byte_lt : ∀ k, file k < 256

/-! ### Short reads -/

section Loading

variable {σ : Type} {L : Layout} {F : FileSystem σ} {tsk : TaskId} {s s' : Memory} {fs : σ}
  {remains offset : ℤ} {cur : ℕ} {r : SdLoaded σ}

/-- What a pass has requested, and whether it got it. -/
theorem sdPass_requests (hpos : 0 < remains) (h : sdPass L F tsk s fs remains offset cur = .ok r) :
    ∃ q, r.requests = [q] ∧ (r.ok = true ↔ q.2 = q.1) := by
  obtain ⟨⟨buf, s₁⟩, -, h⟩ := Lib.bind_eq_ok.mp h
  obtain ⟨t, -, h⟩ := Lib.bind_eq_ok.mp h
  obtain rfl := Except.ok.inj h
  refine ⟨_, rfl, ?_⟩
  have hlen : ((min (PAGE_SIZE : ℤ) remains).toNat : ℤ) = min (PAGE_SIZE : ℤ) remains :=
    Int.toNat_of_nonneg (by rw [PAGE_SIZE]; omega)
  rw [hlen, decide_eq_true_eq]
  exact eq_comm

/-- The loop stops at a short read. -/
theorem sdLoop_short {fuel : ℕ} (h : sdLoop L F tsk fuel s fs remains offset cur = .ok r) :
    StopsAtShort r := by
  have hnone : ∀ s fs, StopsAtShort (⟨true, s, fs, []⟩ : SdLoaded σ) := fun s fs =>
    ⟨fun q hq => (by cases hq), fun q hq => (by cases hq)⟩
  induction fuel generalizing s fs remains offset cur r with
  | zero =>
    rw [sdLoop] at h
    split at h
    · cases h
    · obtain rfl := Except.ok.inj h
      exact hnone s fs
  | succ fuel ih =>
    rw [sdLoop] at h
    by_cases hpos : 0 < remains
    · rw [if_pos hpos] at h
      obtain ⟨t, ht, h⟩ := Lib.bind_eq_ok.mp h
      obtain ⟨q, hq, hok⟩ := sdPass_requests hpos ht
      -- the request of this pass comes before those of the rest of the loop
      by_cases hfull : t.ok = true
      · rw [if_pos hfull] at h
        obtain ⟨u, hu, h⟩ := Lib.bind_eq_ok.mp h
        obtain rfl := Except.ok.inj h
        obtain ⟨hbefore, hshort⟩ := ih hu
        rw [StopsAtShort, hq]
        dsimp only
        refine ⟨fun x hx => ?_, fun x hx hne => ?_⟩
        · cases hrest : u.requests with
          | nil => rw [hrest] at hx; cases hx
          | cons y l =>
            rw [hrest, List.singleton_append, List.dropLast_cons_of_ne_nil (List.cons_ne_nil _ _),
              ← hrest] at hx
            rcases List.mem_cons.mp hx with rfl | hx
            · exact hok.mp hfull
            · exact hbefore x hx
        · rcases List.mem_append.mp hx with hx | hx
          · obtain rfl := List.mem_singleton.mp hx
            exact absurd (hok.mp hfull) hne
          · exact hshort x hx hne
      · rw [if_neg hfull] at h
        obtain rfl := Except.ok.inj h
        rw [StopsAtShort, hq]
        exact ⟨fun x hx => (by cases hx), fun _ _ _ => Bool.not_eq_true _ ▸ hfull⟩
    · rw [if_neg hpos] at h
      obtain rfl := Except.ok.inj h
      exact hnone s fs

/-- **A short read** ends the loop, which fails, and is the last one. -/
theorem ComesShort.sdLoop (h : ComesShort L F tsk s fs remains offset cur r) {fuel : ℕ}
    (hfuel : remains ≤ fuel) : Evisor.sdLoop L F tsk fuel s fs remains offset cur = .ok r ∧
      r.ok = false ∧ ∃ q ∈ r.requests.getLast?, q.2 ≠ q.1 := by
  induction h generalizing fuel with
  | short hremains hpass hshort =>
    obtain ⟨fuel, rfl⟩ := Nat.exists_eq_succ_of_ne_zero (by omega : fuel ≠ 0)
    obtain ⟨q, hq, hok⟩ := sdPass_requests hremains hpass
    have hnot : ¬_ = true := Bool.eq_false_iff.mp hshort
    rw [Evisor.sdLoop, if_pos hremains, hpass, Lib.ok_bind, if_neg hnot]
    exact ⟨rfl, hshort, q, by rw [hq]; rfl, fun heq => hnot (hok.mpr heq)⟩
  | @next s fs remains offset cur r t hremains hpass hfull hrest ih =>
    obtain ⟨fuel, rfl⟩ := Nat.exists_eq_succ_of_ne_zero (by omega : fuel ≠ 0)
    have hpage : (PAGE_SIZE : ℤ) = 4096 := rfl
    obtain ⟨hloop, hfail, q, hq, hne⟩ := @ih fuel (by omega)
    rw [Evisor.sdLoop, if_pos hremains, hpass, Lib.ok_bind, if_pos hfull]
    dsimp only
    rw [hloop]
    refine ⟨rfl, hfail, q, ?_, hne⟩
    rw [Option.mem_def] at hq ⊢
    rw [List.getLast?_append, hq, Option.some_or]

/-- **The loop stops** for a fault of the file system, or because there is no page. -/
theorem sdLoop_error {fuel : ℕ} {f : Fault} (hfuel : remains ≤ fuel)
    (h : sdLoop L F tsk fuel s fs remains offset cur = .error f) : F.Fails f ∨ f.OutOfMemory := by
  induction fuel generalizing s fs remains offset cur with
  | zero =>
    rw [sdLoop, if_neg (by omega)] at h
    cases h
  | succ fuel ih =>
    have hpage : (PAGE_SIZE : ℤ) = 4096 := rfl
    rw [sdLoop] at h
    split_ifs at h with hpos
    rcases Lib.bind_eq_error.mp h with hpass | ⟨r, -, h⟩
    · rcases Lib.bind_eq_error.mp hpass with hmap | ⟨x, -, hpass⟩
      · exact .inr (pageMap_error hmap)
      · rcases Lib.bind_eq_error.mp hpass with hread | ⟨y, -, hpass⟩
        · exact .inl (.inr (.inr (.inr ⟨_, _, _, _, hread⟩)))
        · cases hpass
    · split_ifs at h
      · rcases Lib.bind_eq_error.mp h with hrest | ⟨t, -, h⟩
        · exact ih (by omega) hrest
        · cases h
      · cases h

/-! ### Loading a small file -/

/-- A file as the image of a disk of its own, which ends with zeros. -/
def Disk.ofFile (file : ℕ → ℕ) (size : ℕ) (hfile : ∀ k, file k < 256) : Disk where
  DEVICE_CONFIG_SPACE0 := (size + 511) / 512 % 2 ^ 32
  byte k := if k < size then file k else 0
  readable _ := true
  config_lt := Nat.mod_lt _ (Nat.two_pow_pos 32)
  byte_lt k := by
    split
    · exact hfile k
    · exact Nat.zero_lt_succ 255

theorem Disk.ofFile_image {file : ℕ → ℕ} {size : ℕ} (hfile : ∀ k, file k < 256)
    (hsize : size < 2 ^ 31) (k : ℕ) :
    (Disk.ofFile file size hfile).image k = if k < size then file k else 0 := by
  have hcap : size ≤ (Disk.ofFile file size hfile).capacity := by
    simp only [Disk.capacity, getDiskCapacity, Disk.ofFile, kDiskSectorSize]
    omega
  rw [Disk.image]
  by_cases hk : k < size
  · exact if_pos (hk.trans_le hcap)
  · have hzero : (Disk.ofFile file size hfile).byte k = 0 := if_neg hk
    rw [hzero, if_neg hk, ite_self]

theorem HeapMap.Grows.allocated {heap heap' : HeapMap} (h : heap.Grows heap') {page : ℕ}
    (hp : Allocated L heap page) : Allocated L heap' page := by
  obtain ⟨i, hi, hi', rfl⟩ := hp
  exact ⟨i, hi, h i hi', rfl⟩

/-- Taking pages of the heap changes no table. -/
theorem Mm.Inv.withHeap (h : s.mm.Inv L) {heap : HeapMap} (hg : s.mm.heap.Grows heap) :
    (s.withHeap heap).mm.Inv L ∧
      ∀ t ipa, (s.withHeap heap).mm.entryOf t ipa = s.mm.entryOf t ipa := by
  obtain ⟨hinv, hsame⟩ := h.frame (m := (s.withHeap heap).mm) rfl hg.allocated
    fun _ _ _ => rfl
  exact ⟨hinv, fun t ipa => hsame t _ _ rfl⟩

variable {d : Disk} {va n : ℕ} {pg : ℕ → ℕ}

theorem Loaded.grow (h : Loaded L d s tsk va n pg s') {heap : HeapMap}
    (hg : s'.mm.heap.Grows heap) : Loaded L d s tsk va n pg (s'.withHeap heap) := by
  obtain ⟨hinv, hsame⟩ := h.inv.withHeap hg
  exact ⟨hinv, h.free, h.inj, h.out, fun k hk => (hsame _ _).trans (h.entry k hk),
    fun t ipa hlt hnot => (hsame _ _).trans (h.other t ipa hlt hnot), h.bytes⟩

variable {file : ℕ → ℕ} {size : ℕ}

/-- **One pass** loads a page of the file, unless the read is short. -/
theorem Loaded.sdPass (hF : F.Holds file size) (hsize : size < 2 ^ 31)
    (h : Loaded L (.ofFile file size hF.byte_lt) s tsk va n pg s') (hva : va % PAGE_SIZE = 0)
    (hfit : va + size ≤ 2 ^ 36) (hn : n * PAGE_SIZE < size)
    (hr : sdPass L F tsk s' fs ((size - n * PAGE_SIZE : ℕ) : ℤ) ((n * PAGE_SIZE : ℕ) : ℤ)
      (va + n * PAGE_SIZE) = .ok r) (hok : r.ok = true) :
    ∃ pg', Loaded L (.ofFile file size hF.byte_lt) s tsk va (n + 1) pg' r.memory := by
  obtain ⟨⟨buf, s₁⟩, hp, hr⟩ := Lib.bind_eq_ok.mp hr
  obtain ⟨t, ht, hr⟩ := Lib.bind_eq_ok.mp hr
  obtain rfl := Except.ok.inj hr
  obtain ⟨i, rfl, hi⟩ := pageMap_ok h.inv hp
  obtain ⟨hal, -, -⟩ := (inUser_userPage L hi.index).bounds
  obtain ⟨hmem, -, -⟩ := pageMap_outside h.inv hp
  -- what is requested, without the conversions
  obtain ⟨len, hlen⟩ : ∃ len, len = min PAGE_SIZE (size - n * PAGE_SIZE) := ⟨_, rfl⟩
  have hreq : min (PAGE_SIZE : ℤ) ((size - n * PAGE_SIZE : ℕ) : ℤ) = len := by
    rw [hlen]
    exact (Nat.cast_min _ _).symm
  have hoffset : (((n * PAGE_SIZE : ℕ) : ℤ) % 2 ^ 32).toNat = n * PAGE_SIZE := by omega
  rw [hreq, hoffset, Int.toNat_natCast] at ht
  rw [hreq, decide_eq_true_eq] at hok
  have hbytes := hF.reads _ _ _ _ _ (by omega) ht hok.symm
  have hcount : t.bytes.length = len := by rw [hbytes, List.length_map, List.length_range]
  have hpage : len ≤ PAGE_SIZE := hlen ▸ Nat.min_le_left _ _
  have hround : va + (n + 1) * PAGE_SIZE ≤ 2 ^ 36 := by
    rw [PAGE_SIZE] at *
    omega
  -- the bytes that were read, and behind them what the page was cleared to
  refine ⟨_, (h.step hva hround hp hi (m := s₁.mm.mem.storeBytes (L.userPage i) t.bytes)
    (fun a ha => if_neg ?_) fun k hk => ?_).grow (F.read_grows ht)⟩
  · rw [hcount]
    omega
  · rw [Mem.storeBytes_byte _ (F.byte_lt ht), hcount, Disk.ofFile_image hF.byte_lt hsize]
    by_cases hread : k < len
    · rw [if_pos (by omega), if_pos (by omega), Nat.add_sub_cancel_left, hbytes]
      simp [hread]
    · rw [if_neg (by omega), if_neg (by omega), Mem.byte_congr (hmem _ (userPage_word_apart i k)),
        Mem.memzero_byte _ (by omega) rfl,
        if_pos ⟨Nat.le_add_right _ k, Nat.add_lt_add_left hk _⟩]

/-- **The loop** loads all pages of the file, unless a read is short. -/
theorem Loaded.sdLoop (hF : F.Holds file size) (hsize : size < 2 ^ 31)
    (hva : va % PAGE_SIZE = 0) (hfit : va + size ≤ 2 ^ 36) {fuel : ℕ}
    (h : Loaded L (.ofFile file size hF.byte_lt) s tsk va n pg s')
    (hr : sdLoop L F tsk fuel s' fs ((size - n * PAGE_SIZE : ℕ) : ℤ)
      ((min (n * PAGE_SIZE) size : ℕ) : ℤ) (va + n * PAGE_SIZE) = .ok r) (hok : r.ok = true) :
    ∃ n' pg', size ≤ n' * PAGE_SIZE ∧
      Loaded L (.ofFile file size hF.byte_lt) s tsk va n' pg' r.memory := by
  induction fuel generalizing n pg s' fs r with
  | zero =>
    rw [Evisor.sdLoop] at hr
    split at hr
    · cases hr
    · obtain rfl := Except.ok.inj hr
      exact ⟨n, pg, by omega, h⟩
  | succ fuel ih =>
    rw [Evisor.sdLoop] at hr
    by_cases hn : n * PAGE_SIZE < size
    · rw [if_pos (by omega), Nat.min_eq_left hn.le] at hr
      obtain ⟨t, ht, hr⟩ := Lib.bind_eq_ok.mp hr
      by_cases hfull : t.ok = true
      · rw [if_pos hfull] at hr
        obtain ⟨u, hu, hr⟩ := Lib.bind_eq_ok.mp hr
        obtain rfl := Except.ok.inj hr
        obtain ⟨pg', hl⟩ := h.sdPass hF hsize hva hfit hn ht hfull
        -- the variables of the next pass, which are of type `int`, have not wrapped
        have hremains : ((size - n * PAGE_SIZE : ℕ) : ℤ) -
            min (PAGE_SIZE : ℤ) ((size - n * PAGE_SIZE : ℕ) : ℤ) =
              ((size - (n + 1) * PAGE_SIZE : ℕ) : ℤ) := by
          rw [Nat.add_one_mul]
          omega
        have hoffset : ((n * PAGE_SIZE : ℕ) : ℤ) +
            min (PAGE_SIZE : ℤ) ((size - n * PAGE_SIZE : ℕ) : ℤ) =
              ((min ((n + 1) * PAGE_SIZE) size : ℕ) : ℤ) := by
          rw [Nat.add_one_mul]
          omega
        have hcur : (va + n * PAGE_SIZE + PAGE_SIZE) % 2 ^ 64 = va + (n + 1) * PAGE_SIZE := by
          have hpage : PAGE_SIZE = 4096 := rfl
          rw [Nat.add_one_mul, Nat.mod_eq_of_lt (by omega), Nat.add_assoc]
        rw [hremains, hoffset, hcur] at hu
        obtain ⟨n', pg'', hle, hload⟩ := ih (r := u) hl hu hok
        exact ⟨n', pg'', hle, hload⟩
      · rw [if_neg hfull] at hr
        obtain rfl := Except.ok.inj hr
        exact absurd hok hfull
    · rw [if_neg (by omega)] at hr
      obtain rfl := Except.ok.inj hr
      exact ⟨n, pg, by omega, h⟩

/-- Where all pages are loaded the file is in place. -/
theorem Loaded.fileAt {hfile : ∀ k, file k < 256} (hsize : size < 2 ^ 31)
    (h : Loaded L (.ofFile file size hfile) s tsk va n pg s') (hva : va % PAGE_SIZE = 0)
    (hfit : va + size ≤ 2 ^ 36) (hn : size ≤ n * PAGE_SIZE) : FileAt s' tsk va size file := by
  intro k hk
  obtain ⟨desc, htr, -, -, hbyte⟩ := h.translate hva (hk.trans_le hn)
  refine ⟨by omega, desc, htr, ?_⟩
  rw [hbyte, Disk.ofFile_image hfile hsize, if_pos hk]

/-- **Loading a file of less than 2 GiB** puts it in place, if there is room. -/
theorem sdLoop_fileAt (hF : F.Holds file size) (hs : s.mm.Inv L) (hsize : size < 2 ^ 31)
    (hva : va % PAGE_SIZE = 0) (hfit : va + size ≤ 2 ^ 36) {fuel : ℕ}
    (hr : sdLoop L F tsk fuel s fs size 0 va = .ok r) (hok : r.ok = true) :
    FileAt r.memory tsk va size file := by
  have hstart : Loaded L (.ofFile file size hF.byte_lt) s tsk va 0 id s := .refl hs _ tsk va id
  obtain ⟨n, pg, hn, hload⟩ := hstart.sdLoop hF hsize hva hfit
    (by simpa only [Nat.zero_mul, Nat.sub_zero, Nat.zero_min, Nat.cast_zero, Nat.add_zero] using hr)
    hok
  exact hload.fileAt hsize hva hfit hn

/-- A file that is in place has room. -/
theorem FileAt.fits (h : FileAt s tsk va size file) (hpos : 0 < size) : va + size ≤ 2 ^ 36 := by
  have := (h (size - 1) (by omega)).1
  omega

/-- **What a load that succeeds has done**, once the file is open. -/
theorem sdLoop_iff (hF : F.Holds file size) (hs : s.mm.Inv L) (h32 : size < 2 ^ 32)
    (hva : va % PAGE_SIZE = 0)
    (hr : sdLoop L F tsk size s fs (Int.bmod size (2 ^ 32)) 0 va = .ok r) (hok : r.ok = true) :
    FileAt r.memory tsk va size file ↔
      size = 0 ∨ va + size ≤ 2 ^ 36 ∧ (size < 2 ^ 31 ∨ FileAt s tsk va size file) := by
  rcases Nat.eq_zero_or_pos size with rfl | hpos
  · exact iff_of_true (fun k hk => absurd hk (Nat.not_lt_zero k)) (.inl rfl)
  rw [or_iff_right hpos.ne']
  rcases Nat.lt_or_ge size (2 ^ 31) with hlt | hge
  · have hsigned : Int.bmod size (2 ^ 32) = size := Int.bmod_eq_of_le (by omega) (by omega)
    rw [hsigned] at hr
    exact ⟨fun h => ⟨h.fits hpos, .inl hlt⟩, fun h => sdLoop_fileAt hF hs hlt hva h.1 hr hok⟩
  · -- the size is negative, so that nothing is read
    have hsigned : ¬0 < Int.bmod (size : ℤ) (2 ^ 32) := by
      rw [Int.bmod_def]
      omega
    have hsame : r.memory = s := by
      obtain ⟨fuel, rfl⟩ := Nat.exists_eq_succ_of_ne_zero hpos.ne'
      rw [sdLoop, if_neg hsigned] at hr
      obtain rfl := Except.ok.inj hr
      rfl
    rw [hsame]
    exact ⟨fun h => ⟨h.fits hpos, .inr h⟩, fun h => h.2.resolve_left (by omega)⟩

end Loading

theorem HeapMap.Grows.trans {a b c : HeapMap} (hab : a.Grows b) (hbc : b.Grows c) : a.Grows c :=
  fun i hi => hbc i (hab i hi)

/-- The signed size is no more than the size. -/
theorem bmod_le_self {size : ℕ} (h : size < 2 ^ 32) : Int.bmod size (2 ^ 32) ≤ size := by
  rw [Int.bmod_def]
  omega

/-- **The loader puts the file in place exactly if** the guest has addresses for all of it and
it has less than 2 GiB; a larger file is taken for loaded, and is in place only if it was
before. A read that is short is the last, and the loader fails as soon as it comes to one; it
stops only for a fault of the file system, or because there is no page. So it is in every state
that the system reaches, at every page aligned address, if `Read` returns the requested count
only after storing the bytes that were asked for. -/
theorem sdLoad_right_iff {b : BoardKind} (L : BoardLayout b) {events : List Isolation.Event}
    (hlegal : Lib.Each (Isolation.step b L.toLayout) Isolation.Legal .boot events)
    {s : Isolation.System}
    (hs : Lib.runFrom (Isolation.step b L.toLayout) .boot events = .ok s) {σ : Type}
    (F : FileSystem σ) {file : ℕ → ℕ} {size : ℕ} (hF : F.Holds file size) (tsk : TaskId) {va : ℕ}
    (hva : va % PAGE_SIZE = 0) (hva64 : va < 2 ^ 64) :
    (∀ r, sdLoadFile L.toLayout F tsk s.memory va = .ok r →
      (r.ok = true → (FileAt r.memory tsk va size file ↔ size = 0 ∨
        va + size ≤ 2 ^ 36 ∧ (size < 2 ^ 31 ∨ FileAt s.memory tsk va size file))) ∧
      StopsAtShort r) ∧
    (∀ fs heap, F.Opens s.memory.mm.heap size fs heap → ∀ r,
      ComesShort L.toLayout F tsk (s.memory.withHeap heap) fs (Int.bmod size (2 ^ 32)) 0 va r →
      sdLoadFile L.toLayout F tsk s.memory va = .ok r ∧ r.ok = false ∧
        ∃ q ∈ r.requests.getLast?, q.2 ≠ q.1) ∧
    ∀ f, sdLoadFile L.toLayout F tsk s.memory va = .error f → F.Fails f ∨ f.OutOfMemory := by
  have htree := (Isolation.inv_of_run hlegal hs).tree
  have hmask : va &&& PAGE_MASK = va := Mm.and_pageMask_of_aligned hva64 hva
  -- where the file system fails nothing has been loaded
  have hfailed : ∀ (t : Memory) (fs : σ), StopsAtShort (⟨false, t, fs, []⟩ : SdLoaded σ) :=
    fun t fs => ⟨fun q hq => (by cases hq), fun q hq => (by cases hq)⟩
  refine ⟨fun r h => ?_, ?_, fun f h => ?_⟩
  · obtain ⟨⟨fs₁, heap₁⟩, hcreate, h⟩ := Lib.bind_eq_ok.mp h
    obtain ⟨⟨ok, fs₂, heap₂⟩, hinit, h⟩ := Lib.bind_eq_ok.mp h
    dsimp only at h
    cases ok with
    | false =>
      obtain rfl := Except.ok.inj h
      exact ⟨fun hok => (by cases hok), hfailed _ _⟩
    | true =>
      rw [if_pos rfl] at h
      obtain ⟨⟨found, fs₃, heap₃⟩, hopen, h⟩ := Lib.bind_eq_ok.mp h
      cases found with
      | none =>
        obtain rfl := Except.ok.inj h
        exact ⟨fun hok => (by cases hok), hfailed _ _⟩
      | some n =>
        obtain rfl := hF.reported hopen rfl
        -- opening the file takes memory from the heap and touches no page of a task
        have hgrows : s.memory.mm.heap.Grows heap₃ :=
          ((F.create_grows hcreate).trans (F.init_grows hinit)).trans (F.open_grows hopen)
        dsimp only at h
        rw [hmask] at h
        have hiff : r.ok = true → (FileAt r.memory tsk va n file ↔ n = 0 ∨ va + n ≤ 2 ^ 36 ∧
            (n < 2 ^ 31 ∨ FileAt (s.memory.withHeap heap₃) tsk va n file)) :=
          sdLoop_iff hF (htree.withHeap hgrows).1 (F.size_lt hopen rfl) hva h
        exact ⟨hiff, sdLoop_short h⟩
  · rintro fs heap ⟨⟨fs₁, heap₁⟩, ⟨fs₂, heap₂⟩, hcreate, hinit, hopen⟩ r hshort
    have hloop := hshort.sdLoop (bmod_le_self (F.size_lt hopen rfl))
    rw [sdLoadFile, hcreate, Lib.ok_bind]
    dsimp only at hinit hopen ⊢
    rw [hinit, Lib.ok_bind]
    dsimp only
    rw [if_pos rfl, hopen, Lib.ok_bind, hmask]
    exact hloop
  · rcases Lib.bind_eq_error.mp h with hcreate | ⟨⟨fs₁, heap₁⟩, -, h⟩
    · exact .inl (.inl ⟨_, hcreate⟩)
    rcases Lib.bind_eq_error.mp h with hinit | ⟨⟨ok, fs₂, heap₂⟩, -, h⟩
    · exact .inl (.inr (.inl ⟨_, _, hinit⟩))
    dsimp only at h
    split_ifs at h
    · rcases Lib.bind_eq_error.mp h with hopen | ⟨⟨found, fs₃, heap₃⟩, hopen, h⟩
      · exact .inl (.inr (.inr (.inl ⟨_, _, hopen⟩)))
      · cases found with
        | none => cases h
        | some n => exact sdLoop_error (bmod_le_self (F.size_lt hopen rfl)) h
    · cases h

/-! ### Two files -/

/-- A file system that has one file, and reads all that is asked for, or nothing where it cannot. -/
def FileSystem.ofFile (file : ℕ → ℕ) (size : ℕ) (bad : ℕ → Bool) (hfile : ∀ k, file k < 256)
    (hsize : size < 2 ^ 32) : FileSystem Unit where
  create heap := .ok ((), heap)
  init _ heap := .ok (true, (), heap)
  openFile _ heap := .ok (some size, (), heap)
  read _ heap offset len := .ok
    (if bad offset then ⟨0, [], (), heap⟩
    else ⟨len, (List.range len).map fun k => file (offset + k), (), heap⟩)
  create_grows h := Except.ok.inj h ▸ fun _ hi => hi
  init_grows h := Except.ok.inj h ▸ fun _ hi => hi
  open_grows h := Except.ok.inj h ▸ fun _ hi => hi
  read_grows h := by
    obtain rfl := Except.ok.inj h
    split <;> exact fun _ hi => hi
  size_lt h hn := by
    obtain rfl := Except.ok.inj h
    exact Option.some.inj hn ▸ hsize
  byte_lt h c hc := by
    obtain rfl := Except.ok.inj h
    split at hc
    · cases hc
    · obtain ⟨k, -, rfl⟩ := List.mem_map.mp hc
      exact hfile _

theorem FileSystem.ofFile_holds {file : ℕ → ℕ} {size : ℕ} (bad : ℕ → Bool)
    (hfile : ∀ k, file k < 256) (hsize : size < 2 ^ 32) :
    (FileSystem.ofFile file size bad hfile hsize).Holds file size where
  reported h hn := by
    obtain rfl := Except.ok.inj h
    exact (Option.some.inj hn).symm
  reads fs heap offset len r _ h hreads := by
    obtain rfl := Except.ok.inj h
    split at hreads
    · obtain rfl := Nat.cast_eq_zero.mp hreads.symm
      split <;> rfl
    · rw [if_neg ‹_›]
  byte_lt := hfile

/-- A file system with a file of so many ones. -/
def FileSystem.ones (size : ℕ) (hsize : size < 2 ^ 32) (bad : ℕ → Bool) : FileSystem Unit :=
  .ofFile (fun _ => 1) size bad (fun _ => Nat.lt_of_sub_eq_succ rfl) hsize

theorem FileSystem.ones_holds (size : ℕ) (hsize : size < 2 ^ 32) (bad : ℕ → Bool) :
    (FileSystem.ones size hsize bad).Holds (fun _ => 1) size := ofFile_holds bad _ hsize

/-- The layout of a board with a card, for a kernel image that ends at `0x400000`. -/
def BoardLayout.bcm2711 : BoardLayout .bcm2711 where
  kHeapStart := 0x400000
  kUncachedStart := 0x4400000
  kUserStart := 0x4500000
  heap_pos := by decide
  heap_aligned := by decide
  heap_end := by decide
  uncached_end := by decide
  user_aligned := by decide
  user_end := by decide
  devices_apart := by decide

theorem pages_lt : 5000 < 2 ^ 32 := by decide

theorem large_lt : 2 ^ 31 < 2 ^ 32 := by decide

/-- A file of 5000 bytes, of which the second page can be read or not. -/
def FileSystem.pages (bad : ℕ → Bool) : FileSystem Unit := .ones 5000 pages_lt bad

/-- A file of 2 GiB. -/
def FileSystem.large : FileSystem Unit := .ones (2 ^ 31) large_lt fun _ => false

/-- The passes for the two pages of the small file. -/
def bothPages (F : FileSystem Unit) (s : Memory) :
    Except Fault (SdLoaded Unit × SdLoaded Unit) := do
  let r ← sdPass BoardLayout.bcm2711.toLayout F 1 s () 5000 0 0x40000000
  let t ← sdPass BoardLayout.bcm2711.toLayout F 1 r.memory r.fs (5000 - min (PAGE_SIZE : ℤ) 5000)
    (0 + min (PAGE_SIZE : ℤ) 5000) ((0x40000000 + PAGE_SIZE) % 2 ^ 64)
  return (r, t)

/-- The first task of the board. -/
theorem exists_firstTask : ∃ s, Lib.runFrom
    (Isolation.step .bcm2711 BoardLayout.bcm2711.toLayout) .boot [.createTask] = .ok s ∧
    s.memory.mm.translate 1 0x40000000 = .invalid ∧
    ((sdLoadFile BoardLayout.bcm2711.toLayout (.pages fun _ => false) 1 s.memory
      0x40000000).toOption.any fun r => decide (r.ok = true)) = true ∧
    ((bothPages (.pages (· == 4096)) (s.memory.withHeap s.memory.mm.heap)).toOption.any fun x =>
      decide (x.1.ok = true ∧ x.2.ok = false)) = true ∧
    ((sdLoadFile BoardLayout.bcm2711.toLayout .large 1 s.memory
      0x40000000).toOption.any fun r => decide (r.ok = true ∧
        r.memory.mm.translate 1 0x40000000 = .invalid)) = true :=
  Lib.exists_ok_of_any (by decide +kernel)

/-- A file of two pages is loaded, and is not when the second page cannot be read. -/
theorem sdLoad_right_iff_pages :
    (∃ s r, sdLoadFile BoardLayout.bcm2711.toLayout (.pages fun _ => false) 1 s 0x40000000 =
        .ok r ∧ r.ok = true ∧ FileAt r.memory 1 0x40000000 5000 fun _ => 1) ∧
    ∃ s r, sdLoadFile BoardLayout.bcm2711.toLayout (.pages (· == 4096)) 1 s 0x40000000 = .ok r ∧
      r.ok = false ∧ StopsAtShort r ∧ ∃ q ∈ r.requests.getLast?, q.2 ≠ q.1 := by
  obtain ⟨s, hs, -, hload, hpages, -⟩ := exists_firstTask
  constructor
  · obtain ⟨r, hr, hok⟩ := Lib.exists_ok_of_any hload
    exact ⟨_, r, hr, hok, (((sdLoad_right_iff .bcm2711 (by decide +kernel) hs _
      (FileSystem.ones_holds 5000 (by decide) _) 1 (by decide) (by decide)).1 r hr).1 hok).mpr
      (.inr ⟨by decide, .inl (by decide)⟩)⟩
  · obtain ⟨x, hx, hfull, hshort⟩ := Lib.exists_ok_of_any hpages
    obtain ⟨r, hr, hx⟩ := Lib.bind_eq_ok.mp hx
    obtain ⟨t, ht, hx⟩ := Lib.bind_eq_ok.mp hx
    obtain rfl := Except.ok.inj hx
    obtain ⟨hright, hcomes, -⟩ := sdLoad_right_iff .bcm2711 (by decide +kernel) hs _
      (FileSystem.ones_holds 5000 (by decide) (· == 4096)) 1
      (by decide : 0x40000000 % PAGE_SIZE = 0) (by decide)
    obtain ⟨hrun, hfail, hlast⟩ := hcomes () s.memory.mm.heap
      ⟨((), _), ((), _), rfl, rfl, rfl⟩ _
      (.next (by decide) hr hfull (.short (by decide) ht hshort))
    exact ⟨_, _, hrun, hfail, (hright _ hrun).2, hlast⟩

/-- **A file of 2 GiB is taken for loaded**, though not one byte of it has been asked for. -/
theorem large_file_skipped : ∃ s r, Lib.runFrom
      (Isolation.step .bcm2711 BoardLayout.bcm2711.toLayout) .boot [.createTask] = .ok s ∧
    sdLoadFile BoardLayout.bcm2711.toLayout .large 1 s.memory 0x40000000 = .ok r ∧
    r.ok = true ∧ ¬FileAt r.memory 1 0x40000000 (2 ^ 31) fun _ => 1 := by
  obtain ⟨s, hs, -, -, -, hload⟩ := exists_firstTask
  obtain ⟨r, hr, hok, hinvalid⟩ := Lib.exists_ok_of_any hload
  refine ⟨s, r, hs, hr, hok, fun hfile => ?_⟩
  obtain ⟨-, desc, htr, -⟩ := hfile 0 (by decide)
  rw [Nat.add_zero, hinvalid] at htr
  cases htr

end Evisor
