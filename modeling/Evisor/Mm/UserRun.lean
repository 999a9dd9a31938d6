import Evisor.Lib.Run
import Evisor.Mm.UserHeap

/-!
# Blocks of the user region

Calls of `umm_malloc`, `umm_zalloc` and `umm_free`, one after the other. A request marks
one page, the first clear one from `nextFreeSpaceIndex` on, whatever its size, and the
next search starts at the page after it. So nothing above `nextFreeSpaceIndex` is ever
marked (`Evisor.UserHeap.Inv`), a request is answered with the page at
`nextFreeSpaceIndex`, and two things follow. A block of more than a page reaches into the
pages of the blocks after it, as long as it is live; and a page that is released is never
handed out again.
-/

namespace Evisor

namespace UserHeap

/-- A block that was returned: where it starts, and the bytes asked for. -/
structure Block where
  va : ℕ
  size : ℕ
  deriving DecidableEq

/-- A byte of the block. -/
def Block.Has (b : Block) (a : ℕ) : Prop := b.va ≤ a ∧ a < b.va + b.size

/-- Two blocks share no byte. -/
def Block.Apart (b c : Block) : Prop := b.va + b.size ≤ c.va ∨ c.va + c.size ≤ b.va

/-- The allocator, memory, and the blocks that were returned and not released since, the
last one first. -/
structure State where
  map : UserMap
  mem : Mem
  live : List Block

/-- The start, with any contents of memory. -/
def State.boot (mem : Mem) : State := ⟨.boot, mem, []⟩

/-- A call. -/
inductive Op where
  | malloc (size : ℕ)
  | zalloc (size : ℕ)
  | free (b : Block)

/-- The bytes that a call asks for, if it is a request. -/
def Op.asks : Op → Option ℕ
  | .malloc size => some size
  | .zalloc size => some size
  | .free _ => none

/-- One call. -/
def step (L : Layout) (s : State) : Op → Except Fault State
  | .malloc size => do
    let r ← ummMalloc L s.map size
    return { s with map := r.2, live := ⟨r.1, size⟩ :: s.live }
  | .zalloc size => do
    let r ← ummZalloc L s.mem s.map size
    return ⟨r.2.2, r.2.1, ⟨r.1, size⟩ :: s.live⟩
  | .free b => do
    let map ← ummFree L s.map b.va
    return { s with map := map, live := s.live.erase b }

/-- A size that `umm_malloc` accepts. -/
def Accepted (size : ℕ) : Prop := PAGE_SIZE ≤ size ∧ size % PAGE_SIZE = 0 ∧ size < 2 ^ 64

/-- A call that may be made: a request is of a size that is accepted, and only a live block
is released. -/
def Legal (s : State) : Op → Prop
  | .malloc size => Accepted size
  | .zalloc size => Accepted size
  | .free b => b ∈ s.live

instance (size : ℕ) : Decidable (Accepted size) := inferInstanceAs (Decidable (_ ∧ _ ∧ _))

instance (s : State) : ∀ op, Decidable (Legal s op)
  | .malloc size => inferInstanceAs (Decidable (Accepted size))
  | .zalloc size => inferInstanceAs (Decidable (Accepted size))
  | .free b => inferInstanceAs (Decidable (b ∈ s.live))

/-- **What a call should do**: a block that it returns lies in the user region and apart
from the live ones, and nothing that is live, and nothing outside the region, is
written. -/
structure Right (L : Layout) (s t : State) : Prop where
  inside : ∀ b, t.live = b :: s.live →
    L.kUserStart ≤ b.va ∧ b.va + b.size ≤ L.kUserStart + kUserSize
  apart : ∀ b, t.live = b :: s.live → ∀ c ∈ s.live, b.Apart c
  kept : ∀ a, (∃ c ∈ s.live, c.Has a) ∨ a < L.kUserStart ∨ L.kUserStart + kUserSize ≤ a →
    t.mem a = s.mem a

/-- **A call that does no harm**: if there is a page left, then a request is made while
every live block is a page, and what it asks for fits from there on. -/
def Harmless (s : State) (op : Op) : Prop :=
  ∀ size, op.asks = some size → s.map.nextFreeSpaceIndex < kPagingPages →
    (∀ c ∈ s.live, c.size = PAGE_SIZE) ∧
      s.map.nextFreeSpaceIndex * PAGE_SIZE + size ≤ kUserSize

instance (s : State) (op : Op) : Decidable (Harmless s op) :=
  inferInstanceAs (Decidable (∀ size ∈ op.asks, s.map.nextFreeSpaceIndex < kPagingPages →
    (∀ c ∈ s.live, c.size = PAGE_SIZE) ∧
      s.map.nextFreeSpaceIndex * PAGE_SIZE + size ≤ kUserSize))

/-! ### One request -/

/-- Marking the page `i`, where the next search starts after it. -/
def mark (u : UserMap) (i : ℕ) : UserMap :=
  ⟨Function.update u.userMemoryRegionMap (i / 8)
    (u.userMemoryRegionMap (i / 8) ||| 1 <<< (i % 8)), i + 1⟩

/-- Nothing is marked from where the search starts. -/
def ClearAbove (u : UserMap) : Prop := ∀ j, u.nextFreeSpaceIndex ≤ j → ¬u.Out j

theorem clearAbove_boot : ClearAbove .boot := by
  intro j _ hout
  rw [UserMap.Out, UserMap.boot, Nat.zero_testBit] at hout
  cases hout

theorem ClearAbove.mark {u : UserMap} (h : ClearAbove u) :
    ClearAbove (mark u u.nextFreeSpaceIndex) := by
  intro j hj hout
  have hj : u.nextFreeSpaceIndex + 1 ≤ j := hj
  rcases (UserMap.out_mark u _ _ j).mp hout with hout | rfl
  · exact h j (by omega) hout
  · omega

/-- **A request is answered with the page at `nextFreeSpaceIndex`**, whatever its size. -/
theorem ummMalloc_next (L : Layout) {u : UserMap} (h : ClearAbove u) {size : ℕ}
    (hsize : Accepted size) (hnext : u.nextFreeSpaceIndex < kPagingPages) :
    ummMalloc L u size = .ok (L.userPage u.nextFreeSpaceIndex, mark u u.nextFreeSpaceIndex) := by
  obtain ⟨left, hleft⟩ : ∃ left, kPagingPages - u.nextFreeSpaceIndex = left + 1 :=
    ⟨kPagingPages - u.nextFreeSpaceIndex - 1, by omega⟩
  have hi : kPagingPages - (left + 1) = u.nextFreeSpaceIndex := by omega
  have hclear := h _ le_rfl
  rw [UserMap.Out, Bool.not_eq_true] at hclear
  rw [ummMalloc, if_neg (Nat.not_lt.mpr hsize.1), if_neg (not_not.mpr hsize.2.1), hleft,
    ummMallocScan]
  simp only [hi]
  rw [if_pos (by rw [Nat.one_shiftLeft, Nat.and_two_pow, hclear, Bool.toNat_false, Nat.zero_mul])]
  rfl

/-- When there is none, the request is the last thing that happens. -/
theorem ummMalloc_none (L : Layout) {u : UserMap} {size : ℕ} (hsize : Accepted size)
    (hnext : kPagingPages ≤ u.nextFreeSpaceIndex) :
    ummMalloc L u size = .error (.panic "No free pages in user memory region!") := by
  rw [ummMalloc, if_neg (Nat.not_lt.mpr hsize.1), if_neg (not_not.mpr hsize.2.1),
    Nat.sub_eq_zero_of_le hnext, ummMallocScan]

/-- Releasing the page `i` clears its bit and no other. -/
theorem ummFree_page (L : Layout) (u : UserMap) {i : ℕ} (hi : i < kPagingPages) :
    ∃ u', ummFree L u (L.userPage i) = .ok u' ∧
      u'.nextFreeSpaceIndex = u.nextFreeSpaceIndex ∧ ∀ j, u'.Out j → u.Out j := by
  have hpage : (L.userPage i + 2 ^ 64 - L.kUserStart) % 2 ^ 64 / PAGE_SIZE % 2 ^ 32 = i := by
    simp only [Layout.userPage, kPagingPages, PAGE_SIZE] at *
    omega
  rw [ummFree]
  simp only [hpage]
  rw [if_neg (by omega)]
  refine ⟨_, rfl, rfl, fun j hj => ?_⟩
  rw [UserMap.Out] at hj ⊢
  dsimp only at hj
  by_cases hdiv : j / 8 = i / 8
  · rw [hdiv, Function.update_self, Nat.testBit_and, Bool.and_eq_true] at hj
    rw [hdiv]
    exact hj.1
  · rwa [Function.update_of_ne hdiv] at hj

/-! ### What every call keeps -/

/-- **The invariant**: nothing is marked from `nextFreeSpaceIndex` on, and a live block
starts with a page below it. -/
structure Inv (L : Layout) (s : State) : Prop where
  clear : ClearAbove s.map
  next_le : s.map.nextFreeSpaceIndex ≤ kPagingPages
  live : ∀ b ∈ s.live, ∃ i < s.map.nextFreeSpaceIndex, b.va = L.userPage i

variable {L : Layout} {s t : State} {mem : Mem}

theorem inv_boot : Inv L (.boot mem) := ⟨clearAbove_boot, Nat.zero_le _, by simp [State.boot]⟩

/-- **A request that is made with a page left.** -/
theorem step_asks (h : Inv L s) (op : Op) {size : ℕ} (hop : op.asks = some size)
    (hsize : Accepted size) (hnext : s.map.nextFreeSpaceIndex < kPagingPages) :
    ∃ t, step L s op = .ok t ∧ t.map = mark s.map s.map.nextFreeSpaceIndex ∧
      t.live = ⟨L.userPage s.map.nextFreeSpaceIndex, size⟩ :: s.live ∧
      ∀ a, t.mem a ≠ s.mem a →
        (Block.mk (L.userPage s.map.nextFreeSpaceIndex) size).Has a := by
  have hm := ummMalloc_next L h.clear hsize hnext
  obtain ⟨-, hpos, -⟩ := (inUser_userPage L hnext).bounds
  cases op with
  | malloc n =>
    obtain rfl := Option.some.inj hop
    refine ⟨{ s with map := _, live := _ :: s.live }, ?_, rfl, rfl, fun a ha => absurd rfl ha⟩
    rw [step, hm]
    rfl
  | zalloc n =>
    obtain rfl := Option.some.inj hop
    refine ⟨⟨_, s.mem.memzero (L.userPage s.map.nextFreeSpaceIndex) n, _ :: s.live⟩, ?_, rfl, rfl,
      fun a ha => ?_⟩
    · rw [step, ummZalloc, hm]
      simp only [Lib.ok_bind, Lib.pure_eq_ok, if_neg hpos.ne']
      rfl
    · by_contra hout
      exact ha (if_neg hout)
  | free b => cases hop

/-- A request that is made with none left. -/
theorem step_asks_none (op : Op) {size : ℕ} (hop : op.asks = some size) (hsize : Accepted size)
    (hnext : kPagingPages ≤ s.map.nextFreeSpaceIndex) :
    ∃ f, step L s op = .error f ∧ f.IsPanic := by
  have hm := ummMalloc_none L hsize hnext
  cases op with
  | malloc n =>
    obtain rfl := Option.some.inj hop
    exact ⟨.panic _, by rw [step, hm, Lib.error_bind], trivial⟩
  | zalloc n =>
    obtain rfl := Option.some.inj hop
    exact ⟨.panic _, by rw [step, ummZalloc, hm, Lib.error_bind, Lib.error_bind], trivial⟩
  | free b => cases hop

theorem Legal.accepted {op : Op} {size : ℕ} (h : Legal s op) (hop : op.asks = some size) :
    Accepted size := by
  cases op with
  | malloc n => exact Option.some.inj hop ▸ h
  | zalloc n => exact Option.some.inj hop ▸ h
  | free b => cases hop

/-- Releasing a live block. -/
theorem step_free (h : Inv L s) {b : Block} (hb : b ∈ s.live) :
    ∃ t, step L s (.free b) = .ok t ∧ t.live = s.live.erase b ∧ t.mem = s.mem ∧
      t.map.nextFreeSpaceIndex = s.map.nextFreeSpaceIndex ∧ ∀ j, t.map.Out j → s.map.Out j := by
  obtain ⟨i, hi, hva⟩ := h.live b hb
  obtain ⟨u, hu, hnext, hout⟩ := ummFree_page L s.map (hi.trans_le h.next_le)
  refine ⟨{ s with map := u, live := s.live.erase b }, ?_, rfl, rfl, hnext, hout⟩
  rw [step, hva, hu]
  rfl

/-- **One legal call keeps the invariant**, and moves `nextFreeSpaceIndex` on by one if it
is a request. -/
theorem Inv.step (h : Inv L s) (op : Op) (hop : Legal s op) (ht : step L s op = .ok t) :
    Inv L t ∧ t.map.nextFreeSpaceIndex =
      s.map.nextFreeSpaceIndex + if op.asks.isSome then 1 else 0 := by
  cases hasks : op.asks with
  | some size =>
    have hsize := hop.accepted hasks
    rcases Nat.lt_or_ge s.map.nextFreeSpaceIndex kPagingPages with hnext | hnext
    · obtain ⟨u, hu, hmap, hlive, -⟩ := step_asks h op hasks hsize hnext
      obtain rfl := Except.ok.inj (hu.symm.trans ht)
      have hidx : u.map.nextFreeSpaceIndex = s.map.nextFreeSpaceIndex + 1 := by rw [hmap]; rfl
      refine ⟨⟨hmap ▸ h.clear.mark, by omega, ?_⟩, hidx⟩
      rw [hlive]
      rintro b hb
      rcases List.mem_cons.mp hb with rfl | hb
      · exact ⟨s.map.nextFreeSpaceIndex, by omega, rfl⟩
      · obtain ⟨i, hi, hva⟩ := h.live b hb
        exact ⟨i, by omega, hva⟩
    · obtain ⟨f, hf, -⟩ := step_asks_none (L := L) op hasks hsize hnext
      cases hf.symm.trans ht
  | none =>
    cases op with
    | malloc n => cases hasks
    | zalloc n => cases hasks
    | free b =>
      obtain ⟨u, hu, hlive, -, hnext, hout⟩ := step_free h hop
      obtain rfl := Except.ok.inj (hu.symm.trans ht)
      refine ⟨⟨fun j hj hj' => h.clear j (hnext ▸ hj) (hout j hj'), hnext ▸ h.next_le, ?_⟩, hnext⟩
      rw [hlive, hnext]
      exact fun c hc => h.live c (List.mem_of_mem_erase hc)

/-! ### Blocks that overlap -/

/-- What a run without harmful calls keeps besides: a live block that is not a page is the
last one handed out. -/
structure Tidy (L : Layout) (s : State) : Prop extends Inv L s where
  last : ∀ b ∈ s.live, b.size = PAGE_SIZE ∨
    PAGE_SIZE < b.size ∧ b.va + PAGE_SIZE = L.userPage s.map.nextFreeSpaceIndex

theorem tidy_boot : Tidy L (.boot mem) := ⟨inv_boot, by simp [State.boot]⟩

theorem Tidy.step (h : Tidy L s) {op : Op} (hop : Legal s op) (hharm : Harmless s op)
    (ht : step L s op = .ok t) : Tidy L t := by
  obtain ⟨hinv, hidx⟩ := h.toInv.step op hop ht
  refine ⟨hinv, fun b hb => ?_⟩
  cases hasks : op.asks with
  | some size =>
    have hsize := hop.accepted hasks
    rcases Nat.lt_or_ge s.map.nextFreeSpaceIndex kPagingPages with hnext | hnext
    · obtain ⟨u, hu, -, hlive, -⟩ := step_asks h.toInv op hasks hsize hnext
      obtain rfl := Except.ok.inj (hu.symm.trans ht)
      rw [hasks] at hidx
      rcases List.mem_cons.mp (hlive ▸ hb) with rfl | hb
      · refine hsize.1.eq_or_lt.imp Eq.symm fun hlt => ⟨hlt, ?_⟩
        rw [hidx, Option.isSome_some, if_pos rfl, Layout.userPage, Layout.userPage,
          Nat.add_one_mul, Nat.add_assoc]
      · exact .inl ((hharm size hasks hnext).1 b hb)
    · obtain ⟨f, hf, -⟩ := step_asks_none (L := L) op hasks hsize hnext
      cases hf.symm.trans ht
  | none =>
    cases op with
    | malloc n => cases hasks
    | zalloc n => cases hasks
    | free c =>
      obtain ⟨u, hu, hlive, -, hnext, -⟩ := step_free h.toInv hop
      obtain rfl := Except.ok.inj (hu.symm.trans ht)
      rw [hnext]
      exact h.last b (List.mem_of_mem_erase (hlive ▸ hb))

/-- A page handed out before lies below the one that comes next. -/
theorem Inv.page_le (h : Inv L s) {b : Block} (hb : b ∈ s.live) :
    b.va + PAGE_SIZE ≤ L.userPage s.map.nextFreeSpaceIndex := by
  obtain ⟨i, hi, hva⟩ := h.live b hb
  rw [hva]
  simp only [Layout.userPage, PAGE_SIZE]
  omega

/-- **A request does what it should exactly when it is harmless.** -/
theorem Tidy.right_iff (h : Tidy L s) {op : Op} (hop : Legal s op) :
    Lib.Gives (UserHeap.step L s op) (Right L s) Fault.IsPanic ↔ Harmless s op := by
  cases hasks : op.asks with
  | some size =>
    have hsize := hop.accepted hasks
    rcases Nat.lt_or_ge s.map.nextFreeSpaceIndex kPagingPages with hnext | hnext
    · obtain ⟨t, ht, -, hlive, hmem⟩ := step_asks h.toInv op hasks hsize hnext
      constructor
      -- the block starts with a page, so a block before it may not go on into that
      · rintro hright n hn -
        obtain rfl := Option.some.inj (hasks.symm.trans hn)
        have hr := hright.ok t ht
        refine ⟨fun c hc => ?_, ?_⟩
        · have hle := h.page_le hc
          have hpos := hsize.1
          rcases h.last c hc with hpage | ⟨hlt, hlast⟩
          · exact hpage
          · rcases hr.apart _ hlive c hc with happ | happ
            · dsimp only at happ
              simp only [PAGE_SIZE] at *
              omega
            · dsimp only at happ
              omega
        · have hin := (hr.inside _ hlive).2
          simp only [Layout.userPage] at hin
          omega
      · intro hharm
        obtain ⟨hpages, hfits⟩ := hharm size hasks hnext
        have happ : ∀ c ∈ s.live, c.va + c.size ≤ L.userPage s.map.nextFreeSpaceIndex := by
          intro c hc
          rw [hpages c hc]
          exact h.page_le hc
        have hstart : L.kUserStart ≤ L.userPage s.map.nextFreeSpaceIndex := Nat.le_add_right _ _
        have hend : L.userPage s.map.nextFreeSpaceIndex + size ≤ L.kUserStart + kUserSize := by
          rw [Layout.userPage]
          omega
        rw [ht]
        refine .of_ok ⟨fun b hb => ?_, fun b hb c hc => ?_, fun a ha => ?_⟩
        · obtain rfl := (List.cons.inj (hlive.symm.trans hb)).1
          exact ⟨hstart, hend⟩
        · obtain rfl := (List.cons.inj (hlive.symm.trans hb)).1
          exact .inr (happ c hc)
        · -- a byte that is written is in the block that is returned, and in no other
          by_contra hne
          obtain ⟨hlo, hhi⟩ := hmem a hne
          dsimp only at hlo hhi
          rcases ha with ⟨c, hc, -, hca⟩ | ha
          · have := happ c hc
            omega
          · omega
    · obtain ⟨f, hf, hpanic⟩ := step_asks_none (L := L) op hasks hsize hnext
      rw [hf]
      exact iff_of_true (.of_error hpanic) fun _ _ hlt => absurd hlt (by omega)
  | none =>
    refine iff_of_true ?_ fun n hn => by cases hasks.symm.trans hn
    cases op with
    | malloc n => cases hasks
    | zalloc n => cases hasks
    -- a request to free a block returns none
    | free c =>
      obtain ⟨t, ht, hlive, hmem, -, -⟩ := step_free h.toInv hop
      have hno : ∀ b, t.live ≠ b :: s.live := by
        intro b hb
        have hlen := congrArg List.length (hlive.symm.trans hb)
        have := List.length_erase_le (a := c) (l := s.live)
        simp only [List.length_cons] at hlen
        omega
      rw [ht]
      exact .of_ok ⟨fun b hb => absurd hb (hno b), fun b hb => absurd hb (hno b),
        fun a _ => by rw [hmem]⟩

/-- **Blocks of the user region are apart** exactly as long as every request is harmless:
made while each live block is a page, and with room for all of it. -/
theorem blocks_apart_iff (L : Layout) (mem : Mem) {ops : List Op}
    (hops : Lib.Each (step L) Legal (.boot mem) ops) :
    Lib.Each (step L) (fun s op => Lib.Gives (step L s op) (Right L s) Fault.IsPanic)
      (.boot mem) ops ↔ Lib.Each (step L) Harmless (.boot mem) ops :=
  Lib.each_congr (I := Tidy L) (fun _ _ _ h hop hharm ht => h.step hop hharm ht)
    (fun _ _ h hop => h.right_iff hop) tidy_boot hops

/-- Two pages, of which one is released, and a block of two pages behind them. -/
theorem blocks_apart_iff_one :
    Lib.Each (step .qemu) Legal (.boot fun _ => 0)
      [.malloc 4096, .zalloc 4096, .free ⟨0x44500000, 4096⟩, .zalloc 8192] ∧
    Lib.Each (step .qemu) (fun s op => Lib.Gives (step .qemu s op) (Right .qemu s) Fault.IsPanic)
      (.boot fun _ => 0)
      [.malloc 4096, .zalloc 4096, .free ⟨0x44500000, 4096⟩, .zalloc 8192] := by
  have hops : Lib.Each (step .qemu) Legal (.boot fun _ => 0)
      [.malloc 4096, .zalloc 4096, .free ⟨0x44500000, 4096⟩, .zalloc 8192] := by decide +kernel
  exact ⟨hops, (blocks_apart_iff .qemu _ hops).mpr (by decide +kernel)⟩

/-- **The second page of a block** is handed out again by the next request. -/
theorem block_overlaps_next :
    Lib.Each (step .qemu) Legal (.boot fun _ => 0) [.malloc 8192, .zalloc 4096] ∧
    ¬Lib.Each (step .qemu) (fun s op => Lib.Gives (step .qemu s op) (Right .qemu s) Fault.IsPanic)
      (.boot fun _ => 0) [.malloc 8192, .zalloc 4096] := by
  have hfirst : Accepted 8192 := ⟨by decide, by decide, by decide⟩
  have hsecond : Accepted 4096 := ⟨by decide, by decide, by decide⟩
  obtain ⟨t, ht, hmap, hlive, -⟩ := step_asks
    (inv_boot : Inv .qemu (.boot fun _ => 0)) (.malloc 8192) rfl hfirst (by decide)
  have hnext : t.map.nextFreeSpaceIndex = 1 := by rw [hmap]; rfl
  have hinv : Inv .qemu t := (inv_boot.step (.malloc 8192) hfirst ht).1
  refine ⟨⟨hfirst, fun _ _ => ⟨hsecond, fun _ _ => trivial⟩⟩, fun hright => ?_⟩
  obtain ⟨u, hu, -, hlive', -⟩ := step_asks hinv (.zalloc 4096) rfl hsecond
    (by rw [hnext]; decide)
  have happ := ((hright.2 t ht).1.ok u hu).apart _ hlive' _ (hlive ▸ List.mem_cons_self ..)
  rw [hnext] at happ
  exact absurd happ (by decide : ¬(Layout.qemu.userPage 1 + 4096 ≤ Layout.qemu.userPage 0 ∨
    Layout.qemu.userPage 0 + 8192 ≤ Layout.qemu.userPage 1))

/-! ### Pages that are released -/

/-- The requests of a run. -/
def requests (ops : List Op) : ℕ := ops.countP fun op => op.asks.isSome

/-- A call of a run in which only pages are asked for. -/
def PageLegal (s : State) (op : Op) : Prop :=
  Legal s op ∧ ∀ size, op.asks = some size → size = PAGE_SIZE

instance (s : State) (op : Op) : Decidable (PageLegal s op) :=
  inferInstanceAs (Decidable (Legal s op ∧ ∀ size ∈ op.asks, size = PAGE_SIZE))

/-- **`nextFreeSpaceIndex` counts the requests**, whatever has been released. -/
theorem next_eq_requests {ops : List Op} (h : Inv L s) (hops : Lib.Each (step L) Legal s ops)
    (hrun : Lib.runFrom (step L) s ops = .ok t) :
    Inv L t ∧ t.map.nextFreeSpaceIndex = s.map.nextFreeSpaceIndex + requests ops := by
  induction ops generalizing s with
  | nil =>
    obtain rfl := Except.ok.inj hrun
    exact ⟨h, rfl⟩
  | cons op ops ih =>
    obtain ⟨u, hst, hrun⟩ := Lib.runFrom_cons_eq_ok.mp hrun
    obtain ⟨hu, hnext⟩ := h.step op hops.1 hst
    obtain ⟨ht, hidx⟩ := ih hu (hops.2 u hst) hrun
    refine ⟨ht, ?_⟩
    rw [hidx, hnext, requests, requests, List.countP_cons]
    omega

/-- **A page is found exactly when** fewer have been asked for since the start than there
are, live or released. -/
theorem page_found_iff (L : Layout) (mem : Mem) {ops : List Op}
    (hops : Lib.Each (step L) PageLegal (.boot mem) ops)
    (hrun : Lib.runFrom (step L) (.boot mem) ops = .ok s) :
    (s.live.length < kPagingPages → ∃ t, step L s (.malloc PAGE_SIZE) = .ok t) ↔
      (s.live.length < kPagingPages → requests ops < kPagingPages) := by
  obtain ⟨hinv, hnext⟩ := next_eq_requests inv_boot (hops.mono fun _ _ h => h.1) hrun
  have hnext : s.map.nextFreeSpaceIndex = requests ops := hnext.trans (Nat.zero_add _)
  have hsize : Accepted PAGE_SIZE := ⟨by decide, by decide, by decide⟩
  refine forall_congr' fun _ => ?_
  rw [← hnext]
  constructor
  · rintro ⟨t, ht⟩
    by_contra hge
    obtain ⟨f, hf, -⟩ := step_asks_none (L := L) (.malloc PAGE_SIZE) rfl hsize
      (Nat.not_lt.mp hge)
    cases hf.symm.trans ht
  · intro hlt
    obtain ⟨t, ht, -⟩ := step_asks hinv (.malloc PAGE_SIZE) rfl hsize hlt
    exact ⟨t, ht⟩

/-- A page is found after others have been asked for and released. -/
theorem page_found_iff_one : ∃ s,
    Lib.runFrom (step .qemu) (.boot fun _ => 0) [.malloc 4096, .zalloc 4096,
      .free ⟨0x44500000, 4096⟩, .malloc 4096, .free ⟨0x44501000, 4096⟩] = .ok s ∧
    s.live.length = 1 ∧ ∃ t, step .qemu s (.malloc PAGE_SIZE) = .ok t := by
  have hops : Lib.Each (step .qemu) PageLegal (.boot fun _ => 0) [.malloc 4096, .zalloc 4096,
      .free ⟨0x44500000, 4096⟩, .malloc 4096, .free ⟨0x44501000, 4096⟩] := by decide +kernel
  obtain ⟨s, hrun, hlive⟩ : ∃ s, Lib.runFrom (step .qemu) (.boot fun _ => 0) [.malloc 4096,
      .zalloc 4096, .free ⟨0x44500000, 4096⟩, .malloc 4096, .free ⟨0x44501000, 4096⟩] = .ok s ∧
      s.live.length = 1 := Lib.exists_ok_of_any (by decide +kernel)
  have hfew : s.live.length < kPagingPages := by rw [hlive]; decide
  exact ⟨s, hrun, hlive, (page_found_iff .qemu _ hops hrun).mpr (fun _ => by decide) hfew⟩

/-- As many pages as there are can be asked for. -/
theorem run_requests (L : Layout) (mem : Mem) {n : ℕ} (hn : n ≤ kPagingPages) :
    ∃ s, Lib.runFrom (step L) (.boot mem) (List.replicate n (.malloc PAGE_SIZE)) = .ok s ∧
      Lib.Each (step L) PageLegal (.boot mem) (List.replicate n (.malloc PAGE_SIZE)) ∧
      Inv L s ∧ s.map.nextFreeSpaceIndex = n ∧ s.live.length = n ∧
      (0 < n → ⟨L.userPage 0, PAGE_SIZE⟩ ∈ s.live) := by
  have hsize : Accepted PAGE_SIZE := ⟨by decide, by decide, by decide⟩
  have hlegal : ∀ s, PageLegal s (.malloc PAGE_SIZE) := fun s =>
    ⟨hsize, fun _ h => (Option.some.inj h).symm⟩
  induction n with
  | zero => exact ⟨_, rfl, trivial, inv_boot, rfl, rfl, fun h => absurd h (Nat.lt_irrefl 0)⟩
  | succ n ih =>
    obtain ⟨s, hrun, heach, hinv, hnext, hlen, hmem⟩ := ih (Nat.le_of_succ_le hn)
    obtain ⟨t, ht, -, hlive, -⟩ := step_asks hinv (.malloc PAGE_SIZE) rfl hsize (by omega)
    obtain ⟨hinv', hnext'⟩ := hinv.step (.malloc PAGE_SIZE) hsize ht
    rw [List.replicate_succ']
    refine ⟨t, (Lib.runFrom_concat hrun).trans ht, heach.concat hrun (hlegal s), hinv', ?_, ?_,
      fun _ => ?_⟩
    · rw [hnext', hnext]
      rfl
    · rw [hlive, List.length_cons, hlen]
    · rw [hlive, List.mem_cons, hnext]
      rcases Nat.eq_zero_or_pos n with rfl | hpos
      · exact .inl rfl
      · exact .inr (hmem hpos)

/-- Every page is asked for, and the first is released. -/
def spent : List Op :=
  List.replicate kPagingPages (.malloc PAGE_SIZE) ++ [.free ⟨Layout.qemu.userPage 0, PAGE_SIZE⟩]

/-- **A page that is released is lost**: when every page has been asked for, there is none
to be had, though one is free. -/
theorem page_lost :
    Lib.Each (step .qemu) PageLegal (.boot fun _ => 0) spent ∧
    ∃ s, Lib.runFrom (step .qemu) (.boot fun _ => 0) spent = .ok s ∧
      s.live.length < kPagingPages ∧ ¬∃ t, step .qemu s (.malloc PAGE_SIZE) = .ok t := by
  obtain ⟨s, hrun, heach, hinv, hnext, hlen, hmem⟩ :=
    run_requests .qemu (fun _ => 0) (le_refl kPagingPages)
  have hfirst := hmem (by decide)
  obtain ⟨t, ht, hlive, -, hnext', -⟩ := step_free hinv hfirst
  refine ⟨heach.concat hrun ⟨hfirst, fun _ h => (by cases h)⟩, t,
    (Lib.runFrom_concat hrun).trans ht, ?_, ?_⟩
  · rw [hlive, List.length_erase_of_mem hfirst, hlen]
    decide
  · rintro ⟨u, hu⟩
    obtain ⟨f, hf, -⟩ := step_asks_none (L := .qemu) (s := t) (.malloc PAGE_SIZE) rfl
      ⟨by decide, by decide, by decide⟩ (by omega)
    cases hf.symm.trans hu

end UserHeap

end Evisor
