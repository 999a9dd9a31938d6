import Evisor.Lib.Bits
import Evisor.Lib.Exchange
import Evisor.Mm.UncachedSafe

/-!
# The mailbox

`drivers/mailbox/mailbox_bcm2711.cc`, and `GetClockRate` of `drivers/clkrst/clkrst_bcm2711.cc`,
which asks VideoCore for the rate of a clock. The question is a message in uncached memory. Its
address goes into one mailbox, and when the address comes back in the other one the answer is in its
place. There may be messages on other channels in between; they are read, and dropped.

VideoCore works at its own pace, so that anything may happen before each access to a register. Where
it answers as it should, a call that returns has the rate of the clock it has asked for; and it does
return if VideoCore gets round to the question, and the other messages find room beside the answer
(`Evisor.MailboxBcm2711.clock_rates`). The message has a buffer of two pages, which are lost with
each call, until there are none left to ask with (`Evisor.MailboxBcm2711.getClockRate_full`).
-/

namespace Evisor

namespace MailboxBcm2711

open Lib.Exchange (Boxes Traffic Party Idle Pending Answered Waiting Room others)

abbrev Word := BitVec 32

/-- Memory, as far as messages have to do with it: the word at each address. -/
abbrev Words := ℕ → Word

/-! ### VideoCore -/

/-- `kStatus0MessageEmpty` and `kStatus0MessageFull`. -/
def kStatus0MessageEmpty : Word := 0x40000000
def kStatus0MessageFull : Word := 0x80000000

/-- `kChannelTags`. -/
def kChannelTags : Word := 8

/-- A value and a channel, as they are in a register. -/
def message (channel data : Word) : Word := (data &&& 0xfffffff0) ||| (channel &&& 0xf)

/-- The bits of a value and those of a channel. -/
theorem getLsbD_value : ∀ i, i < 32 → (0xfffffff0 : Word).getLsbD i = !(0xf : Word).getLsbD i := by
  decide

theorem message_channel (channel data : Word) : message channel data &&& 0xf = channel &&& 0xf := by
  refine BitVec.eq_of_getLsbD_eq fun i hi => ?_
  simp only [message, BitVec.getLsbD_and, BitVec.getLsbD_or, getLsbD_value i hi]
  cases (0xf : Word).getLsbD i <;> simp

theorem message_value (channel data : Word) :
    message channel data &&& 0xfffffff0 = data &&& 0xfffffff0 := by
  refine BitVec.eq_of_getLsbD_eq fun i hi => ?_
  simp only [message, BitVec.getLsbD_and, BitVec.getLsbD_or, getLsbD_value i hi]
  cases (0xf : Word).getLsbD i <;> simp

/-- **VideoCore**: how many messages its mailbox has room for, and what it does with the message at
an address. -/
structure VideoCore where
  depth : ℕ
  process : ℕ → Words → Words

/-- It answers on the channel of tags, with the address that it was given. -/
def VideoCore.party (V : VideoCore) : Party Word Words where
  isAnswer w := w &&& 0xf == kChannelTags
  depth := V.depth
  reply w := message kChannelTags w
  serve w mem := V.process (w &&& 0xfffffff0).toNat mem
  isAnswer_reply w := by
    rw [message_channel]
    decide

/-- The two mailboxes and memory, and how many accesses to registers there have been. -/
structure Mailbox where
  boxes : Boxes Word Words
  accesses : ℕ

/-! ### The code -/

section Code

variable (V : VideoCore) (sched : ℕ → List (Traffic Word))

/-- What VideoCore does before the next access. -/
def tick (s : Mailbox) : Mailbox := ⟨V.party.traffics s.boxes (sched s.accesses), s.accesses + 1⟩

/-- `Status0`. -/
def status (s : Mailbox) : Word :=
  (if s.boxes.told = [] then kStatus0MessageEmpty else 0) |||
    if V.depth ≤ s.boxes.told.length then kStatus0MessageFull else 0

/-- `while (regs_->Status0 & bit)`, as long as it takes no more than `fuel` reads. -/
def waitClear (bit : Word) : ℕ → Mailbox → Option Mailbox
  | 0, _ => none
  | fuel + 1, s =>
    if status V (tick V sched s) &&& bit = 0 then some (tick V sched s)
    else waitClear bit fuel (tick V sched s)

/-- Storing to `Write1`. -/
def Mailbox.put (s : Mailbox) (w : Word) : Mailbox :=
  ⟨{ s.boxes with asked := s.boxes.asked ++ [w] }, s.accesses⟩

/-- Loading from `Read0` takes a message out. -/
def Mailbox.taken (s : Mailbox) : Mailbox :=
  ⟨{ s.boxes with told := s.boxes.told.tail }, s.accesses⟩

/-- `MailboxBcm2711::Write`. -/
def write (channel data : Word) (fuel : ℕ) (s : Mailbox) : Option Mailbox :=
  (waitClear V sched kStatus0MessageFull fuel s).map fun s =>
    (tick V sched s).put (message channel data)

/-- `MailboxBcm2711::Read`, as long as there are no more than `left` messages to read. -/
def read (channel : Word) (fuel : ℕ) : ℕ → Mailbox → Option (Word × Mailbox)
  | 0, _ => none
  | left + 1, s => (waitClear V sched kStatus0MessageEmpty fuel s).bind fun s =>
    let data := (tick V sched s).boxes.told.headD 0
    if data &&& 0xf = channel then some (data &&& 0xfffffff0, (tick V sched s).taken)
    else read channel fuel left (tick V sched s).taken

/-- `memcpy` of words. -/
def storeWords (a : ℕ) (l : List Word) (m : Words) : Words := fun b =>
  if a ≤ b ∧ b < a + 4 * l.length then l.getD ((b - a) / 4) 0 else m b

/-- `memzero`. -/
def zeroWords (a size : ℕ) (m : Words) : Words := fun b => if a ≤ b ∧ b < a + size then 0 else m b

/-- `kmm_uncached_zalloc`. `kmm_uncached_malloc` returns no null pointer. -/
def kmmUncachedZalloc (L : Layout) (map : RegionMap) (size : ℕ) (m : Words) :
    Except Fault (ℕ × RegionMap × Words) := do
  let (va, map) ← kmmUncachedMalloc L.kUncachedStart map size
  return (va, map, zeroWords va size m)

/-- The message that `Process` makes of a tag. -/
def putMessage (va : ℕ) (tag : List Word) (m : Words) : Words :=
  let m := storeWords (va + 8) tag m
  let buffer_size := 4 * tag.length + 12
  let m := storeWords va [BitVec.ofNat 32 buffer_size] m
  let m := storeWords (va + 4) [0] m
  storeWords (va + 4 * (buffer_size / 4 - 1)) [0] m

/-- The words of a tag. -/
def getTag (va length : ℕ) (m : Words) : List Word :=
  (List.range length).map fun k => m (va + 8 + 4 * k)

/-- What waits for ever does not come back. -/
def orWaits {α : Type} (x : Option α) : Except Fault α := x.elim (.error .outOfFuel) .ok

/-- `MailboxBcm2711::Process`. -/
def process (L : Layout) (fuel : ℕ) (tag : List Word) (s : Mailbox) (map : RegionMap) :
    Except Fault (List Word × Mailbox × RegionMap) := do
  let (va, map, mem) ← kmmUncachedZalloc L map (8 * 1024) s.boxes.mem
  let s := ⟨{ s.boxes with mem := putMessage va tag mem }, s.accesses⟩
  let s ← orWaits (write V sched kChannelTags (BitVec.ofNat 32 va) fuel s)
  let (_, s) ← orWaits (read V sched kChannelTags fuel fuel s)
  let map ← kmmUncachedFree L.kUncachedStart map va
  return (getTag va tag.length s.boxes.mem, s, map)

/-- `Clkrst::HwBlock`. -/
inductive HwBlock where
  | CPU | GPU | DRAM | EMMC
  deriving DecidableEq

/-- `MailboxBcm2711::ClockId`, of a block. -/
def clockId : HwBlock → Word
  | .CPU => 3
  | .DRAM => 8
  | .GPU => 5
  | .EMMC => 1

/-- `kTagIdGetClockRate`. -/
def kTagIdGetClockRate : Word := 0x00030002

/-- `ClkrstBcm2711::GetClockRate`. Nothing is stored to `d.rate` beforehand. -/
def getClockRate (L : Layout) (fuel : ℕ) (hw : HwBlock) (rate : Word) (s : Mailbox)
    (map : RegionMap) : Except Fault (Word × Mailbox × RegionMap) := do
  let (d, s, map) ← process V sched L fuel [kTagIdGetClockRate, 8, 0, clockId hw, rate] s map
  return (d.getD 4 0, s, map)

/-- One call after the other, each with what is on the stack in the place of `d.rate`. -/
def getClockRates (L : Layout) (fuel : ℕ) : List (HwBlock × Word) → Mailbox → RegionMap →
    Except Fault (List Word × Mailbox × RegionMap)
  | [], s, map => .ok ([], s, map)
  | (hw, rate) :: calls, s, map => do
    let (r, s, map) ← getClockRate V sched L fuel hw rate s map
    let (rs, s, map) ← getClockRates L fuel calls s map
    return (r :: rs, s, map)

end Code

variable {V : VideoCore} {sched : ℕ → List (Traffic Word)} {s s' : Mailbox} {fuel : ℕ}

/-! ### Waiting for a mailbox -/

theorem status_full : status V s &&& kStatus0MessageFull = 0 ↔ s.boxes.told.length < V.depth := by
  rw [status]
  split_ifs with hempty hfull hfull
  · exact iff_of_false (by decide) (not_lt.mpr hfull)
  · exact iff_of_true (by decide) (not_le.mp hfull)
  · exact iff_of_false (by decide) (not_lt.mpr hfull)
  · exact iff_of_true (by decide) (not_le.mp hfull)

theorem status_empty : status V s &&& kStatus0MessageEmpty = 0 ↔ s.boxes.told ≠ [] := by
  rw [status]
  split_ifs with hempty
  · exact iff_of_false (by decide) (not_not.mpr hempty)
  · exact iff_of_false (by decide) (not_not.mpr hempty)
  · exact iff_of_true (by decide) hempty
  · exact iff_of_true (by decide) hempty

/-- What VideoCore keeps is kept while a mailbox is waited for. -/
theorem waitClear_keeps {I : Boxes Word Words → Prop}
    (hI : ∀ b ts, I b → I (V.party.traffics b ts)) {bit : Word} (h : I s.boxes)
    (hs : waitClear V sched bit fuel s = some s') : I s'.boxes ∧ status V s' &&& bit = 0 := by
  induction fuel generalizing s with
  | zero => cases hs
  | succ fuel ih =>
    have ht : I (tick V sched s).boxes := hI _ _ h
    rw [waitClear] at hs
    split at hs
    case isTrue hclear =>
      obtain rfl := Option.some.inj hs
      exact ⟨ht, hclear⟩
    case isFalse => exact ih ht hs

/-! ### A question and its answer -/

/-- **Asking**: when `Write` returns there is a question under way. -/
theorem write_asks (h : Idle V.party s.boxes) {channel data : Word}
    (hs : write V sched channel data fuel s = some s') :
    Waiting V.party (message channel data) s.boxes.mem s'.boxes := by
  obtain ⟨u, hu, rfl⟩ := Option.map_eq_some_iff.mp hs
  obtain ⟨⟨hidle, hmem⟩, -⟩ := waitClear_keeps
    (I := fun b => Idle V.party b ∧ b.mem = s.boxes.mem)
    (fun b ts hb => ⟨(hb.1.traffics ts).1, (hb.1.traffics ts).2.1.trans hb.2⟩) ⟨h, rfl⟩ hu
  obtain ⟨htick, hmem', -⟩ := hidle.traffics (sched u.accesses)
  rw [← hmem, ← hmem']
  exact .inl (htick.ask _)

/-- There is a message to take once the mailbox has not been empty. -/
theorem told_tick (V : VideoCore) (sched : ℕ → List (Traffic Word)) (h : s.boxes.told ≠ []) :
    ∃ w rest, (tick V sched s).boxes.told = w :: rest := by
  obtain ⟨l, hl⟩ := V.party.told_prefix s.boxes (sched s.accesses)
  refine List.exists_cons_of_ne_nil ?_
  rw [tick, ← hl]
  exact List.append_ne_nil_of_left_ne_nil h l

theorem taken_boxes {w : Word} {rest : List Word} (htold : s.boxes.told = w :: rest) :
    s.taken.boxes = { s.boxes with told := rest } := by
  rw [Mailbox.taken, htold, List.tail_cons]

theorem isAnswer_iff {w : Word} : V.party.isAnswer w = true ↔ w &&& 0xf = kChannelTags := beq_iff_eq

/-- **Reading**: when `Read` returns, the question has been answered and none is under way. -/
theorem read_takes {m data : Word} {mem : Words} {left : ℕ}
    (h : Waiting V.party m mem s.boxes)
    (hs : read V sched kChannelTags fuel left s = some (data, s')) :
    Idle V.party s'.boxes ∧ s'.boxes.mem = V.party.serve m mem := by
  induction left generalizing s with
  | zero => cases hs
  | succ left ih =>
    rw [read] at hs
    obtain ⟨u, hu, hread⟩ := Option.bind_eq_some_iff.mp hs
    obtain ⟨hwait, hclear⟩ := waitClear_keeps (I := Waiting V.party m mem)
      (fun _ ts hb => hb.traffics ts) h hu
    obtain ⟨w, rest, htold⟩ := told_tick V sched (status_empty.mp hclear)
    have htaken := taken_boxes htold
    obtain ⟨hanswer, hother⟩ := (hwait.traffics (sched u.accesses)).take htold
    dsimp only at hread
    rw [htold, List.headD_cons] at hread
    split at hread
    case isTrue hchannel =>
      obtain ⟨hidle, hmem⟩ := hanswer (isAnswer_iff.mpr hchannel)
      obtain ⟨-, rfl⟩ := Prod.mk.inj (Option.some.inj hread)
      exact ⟨htaken ▸ hidle, (congrArg Boxes.mem htaken).trans hmem⟩
    case isFalse hchannel =>
      refine ih (htaken ▸ hother ?_) hread
      exact Bool.eq_false_iff.mpr fun hw => hchannel (isAnswer_iff.mp hw)

/-! ### VideoCore gets round to it -/

/-- **VideoCore gets round to a question** within `k` accesses. -/
def Prompt (sched : ℕ → List (Traffic Word)) (k : ℕ) : Prop :=
  ∀ a, ∃ i < k, Traffic.serve ∈ sched (a + i)

/-- There is room for the messages that come, but for the answer, and `c` is enough. -/
def HasRoom (sched : ℕ → List (Traffic Word)) (c : ℕ) (s : Mailbox) : Prop :=
  Room sched c s.boxes s.accesses

/-- **A question is under way**, and there are no more than `c` messages to be taken before its
answer. -/
def Underway (V : VideoCore) (sched : ℕ → List (Traffic Word)) (m : Word) (mem : Words) (c : ℕ)
    (s : Mailbox) : Prop :=
  (Pending V.party m mem s.boxes ∧ HasRoom sched c s) ∨
    ∃ n ≤ c, Answered V.party m mem n s.boxes ∧ HasRoom sched (c + 1) s

variable {m : Word} {mem : Words} {c k : ℕ}

theorem HasRoom.access {d : ℕ} (hroom : HasRoom sched c s)
    (hlength : (V.party.traffics s.boxes (sched s.accesses)).told.length ≤
      s.boxes.told.length + others (sched s.accesses) + d) :
    HasRoom sched (c + d) (tick V sched s) := Room.next hroom hlength

theorem HasRoom.access_idle (hroom : HasRoom sched c s) (h : Idle V.party s.boxes) :
    HasRoom sched c (tick V sched s) :=
  hroom.access (d := 0) (h.traffics (sched s.accesses)).2.2

/-- Taking a message makes room for one. -/
theorem HasRoom.taken {w : Word} {rest : List Word} (hroom : HasRoom sched (c + 1) s)
    (htold : s.boxes.told = w :: rest) : HasRoom sched c s.taken := by
  rw [HasRoom, taken_boxes htold]
  exact Room.take hroom htold

/-- An access while a question waits. It is answered if VideoCore gets round to it. -/
theorem pending_tick (hc : c < V.depth) (h : Pending V.party m mem s.boxes)
    (hroom : HasRoom sched c s) :
    (Pending V.party m mem (tick V sched s).boxes ∧ HasRoom sched c (tick V sched s) ∧
        .serve ∉ sched s.accesses) ∨
      ∃ n ≤ c, Answered V.party m mem n (tick V sched s).boxes ∧
        HasRoom sched (c + 1) (tick V sched s) := by
  have hlook := hroom.look
  rcases h.traffics (sched s.accesses) with ⟨hp, hserve, hlength⟩ | ⟨n, hn, ha, hlength⟩
  · refine .inl ⟨hp, hroom.access (d := 0) hlength, fun hs => ?_⟩
    exact absurd (hlook.trans_lt hc) (not_lt.mpr (hserve hs))
  · exact .inr ⟨n, hn.trans hlook, ha, hroom.access hlength⟩

theorem answered_tick {n d : ℕ} (h : Answered V.party m mem n s.boxes)
    (hroom : HasRoom sched d s) :
    Answered V.party m mem n (tick V sched s).boxes ∧ HasRoom sched d (tick V sched s) :=
  ⟨(h.traffics (sched s.accesses)).1, hroom.access (d := 0) (h.traffics (sched s.accesses)).2⟩

theorem Underway.access (hc : c < V.depth) (h : Underway V sched m mem c s) :
    Underway V sched m mem c (tick V sched s) := by
  rcases h with ⟨h, hroom⟩ | ⟨n, hn, h, hroom⟩
  · exact (pending_tick hc h hroom).imp_left fun ⟨hp, hroom', _⟩ => ⟨hp, hroom'⟩
  · exact .inr ⟨n, hn, answered_tick h hroom⟩

/-- While a question is under way the mailbox is not empty for ever. -/
theorem Underway.waits {d : ℕ} (hc : c < V.depth) (h : Underway V sched m mem c s)
    (hserve : ∃ i < d, .serve ∈ sched (s.accesses + i)) (hfuel : d ≤ fuel) :
    ∃ s', waitClear V sched kStatus0MessageEmpty fuel s = some s' ∧
      Underway V sched m mem c s' := by
  induction fuel generalizing s d with
  | zero =>
    obtain ⟨i, hi, -⟩ := hserve
    omega
  | succ fuel ih =>
    rw [waitClear]
    by_cases hclear : status V (tick V sched s) &&& kStatus0MessageEmpty = 0
    · exact ⟨_, if_pos hclear, h.access hc⟩
    rw [if_neg hclear]
    have hempty : ∀ n, ¬Answered V.party m mem n (tick V sched s).boxes :=
      fun n ha => hclear (status_empty.mpr ha.told_ne_nil)
    rcases h with ⟨h, hroom⟩ | ⟨n, -, h, hroom⟩
    · rcases pending_tick hc h hroom with ⟨hp, hroom', hnot⟩ | ⟨n, -, ha, -⟩
      · obtain ⟨i, hi, hmem⟩ := hserve
        cases i with
        | zero => exact absurd hmem hnot
        | succ i =>
          refine ih (d := d - 1) (.inl ⟨hp, hroom'⟩) ⟨i, by omega, ?_⟩ (by omega)
          rw [tick, Nat.add_right_comm]
          exact hmem
      · exact absurd ha (hempty n)
    · exact absurd (answered_tick h hroom).1 (hempty n)

/-- Each message that is taken before the answer leaves one less. -/
theorem Underway.taken {w : Word} {rest : List Word} (h : Underway V sched m mem c s)
    (htold : s.boxes.told = w :: rest) :
    (V.party.isAnswer w = true → HasRoom sched c s.taken) ∧
      (V.party.isAnswer w = false → ∃ c', c = c' + 1 ∧ Underway V sched m mem c' s.taken) := by
  have htaken := taken_boxes htold
  rcases h with ⟨h, hroom⟩ | ⟨n, hn, h, hroom⟩
  · obtain ⟨hw, hp⟩ := h.take htold
    have hlength := hroom.length_le
    rw [htold, List.length_cons] at hlength
    obtain ⟨c, rfl⟩ := Nat.exists_eq_add_of_le' (Nat.le_of_add_left_le hlength)
    refine ⟨fun hw' => absurd hw' (Bool.eq_false_iff.mp hw), fun _ => ⟨c, rfl, .inl ⟨?_, ?_⟩⟩⟩
    · exact htaken ▸ hp
    · exact hroom.taken htold
  · cases n with
    | zero =>
      obtain ⟨hw, -⟩ := h.take_zero htold
      exact ⟨fun _ => hroom.taken htold, fun hw' => absurd hw (Bool.eq_false_iff.mp hw')⟩
    | succ n =>
      obtain ⟨hw, ha⟩ := h.take_succ htold
      obtain ⟨c, rfl⟩ := Nat.exists_eq_add_of_le' (Nat.le_of_add_left_le hn)
      refine ⟨fun hw' => absurd hw' (Bool.eq_false_iff.mp hw),
        fun _ => ⟨c, rfl, .inr ⟨n, ?_, ?_⟩⟩⟩
      · exact Nat.le_of_succ_le_succ hn
      · exact ⟨htaken ▸ ha, hroom.taken htold⟩

/-- **`Read` returns**, and leaves as much room as there was. -/
theorem read_returns {left : ℕ} (hc : c < V.depth) (hprompt : Prompt sched k) (hfuel : k ≤ fuel)
    (h : Underway V sched m mem c s) (hleft : c < left) :
    ∃ r, read V sched kChannelTags fuel left s = some r ∧ HasRoom sched c r.2 := by
  induction left generalizing c s with
  | zero => omega
  | succ left ih =>
    obtain ⟨u, hu, hway⟩ := h.waits hc (hprompt s.accesses) hfuel
    have hclear := (waitClear_keeps (I := fun _ => True) (fun _ _ _ => trivial) trivial hu).2
    obtain ⟨w, rest, htold⟩ := told_tick V sched (status_empty.mp hclear)
    obtain ⟨hanswer, hother⟩ := (hway.access hc).taken htold
    rw [read, hu, Option.bind_some]
    dsimp only
    rw [htold, List.headD_cons]
    split
    case isTrue hchannel => exact ⟨_, rfl, hanswer (isAnswer_iff.mpr hchannel)⟩
    case isFalse hchannel =>
      obtain ⟨c', rfl, hway'⟩ := hother
        (Bool.eq_false_iff.mpr fun hw => hchannel (isAnswer_iff.mp hw))
      obtain ⟨r, hr, hroom⟩ := ih (by omega) hway' (by omega)
      exact ⟨r, hr, hroom.mono (Nat.le_succ c')⟩

/-- **`Write` returns.** -/
theorem write_returns (hc : c < V.depth) (h : Idle V.party s.boxes) (hroom : HasRoom sched c s)
    (hfuel : 0 < fuel) (channel data : Word) :
    ∃ s' mem, write V sched channel data fuel s = some s' ∧
      Underway V sched (message channel data) mem c s' := by
  obtain ⟨fuel, rfl⟩ := Nat.exists_eq_add_of_lt hfuel
  have htick := (h.traffics (sched s.accesses)).1
  have hroom' := hroom.access_idle h
  have hclear : status V (tick V sched s) &&& kStatus0MessageFull = 0 :=
    status_full.mpr (hroom'.length_le.trans_lt hc)
  refine ⟨(tick V sched (tick V sched s)).put (message channel data),
    (tick V sched (tick V sched s)).boxes.mem, ?_, .inl ⟨?_, ?_⟩⟩
  · rw [write, Nat.zero_add, waitClear, if_pos hclear, Option.map_some]
  · exact (htick.traffics (sched (tick V sched s).accesses)).1.ask _
  · exact hroom'.access_idle htick

/-! ### The buffer of a message -/

/-- **The first `n` pages** of the uncached region are taken, and no others. -/
def Taken (n : ℕ) (map : RegionMap) : Prop :=
  ∀ p : Fin kRegionPageNums, (map p).ref_count ≠ 0 ↔ p.val < n

/-- Where the next message is. -/
def messageAt (L : Layout) (n : ℕ) : ℕ := L.kUncachedStart + n * PAGE_SIZE

/-- **The addresses that a mailbox can carry**: they have 32 bits, and the lowest four of them are
the channel's. -/
structure Reachable (L : Layout) : Prop where
  aligned : L.kUncachedStart % PAGE_SIZE = 0
  low : L.kUncachedStart + kUncachedSize ≤ 2 ^ 32

variable {L : Layout} {n : ℕ} {map : RegionMap}

theorem Taken.zalloc (h : Taken n map) (hfit : n + 2 ≤ kRegionPageNums) (L : Layout) (m : Words) :
    kmmUncachedZalloc L map (8 * 1024) m =
      .ok (messageAt L n, Uncached.marked map n 2,
        zeroWords (messageAt L n) (8 * 1024) m) := by
  have hpages : numPages (8 * 1024) = 2 := by decide
  obtain ⟨hmalloc, -⟩ := Uncached.malloc_of_used (Uncached.region_end L) (8 * 1024) h
    (by rw [hpages]; decide) (by rwa [hpages])
  rw [kmmUncachedZalloc, hmalloc, hpages]
  rfl

/-- **The buffer is lost**: `kmm_uncached_free` gives one page back twice, so that its count is not
zero, and the other one not at all. -/
theorem Taken.free (h : Taken n map) (hfit : n + 2 ≤ kRegionPageNums) (L : Layout) :
    ∃ map', Taken (n + 2) map' ∧
      kmmUncachedFree L.kUncachedStart (Uncached.marked map n 2) (messageAt L n) = .ok map' := by
  have hn : n < kRegionPageNums := by omega
  have hfree : ∀ p : Fin kRegionPageNums, ¬p.val < n → (map p).ref_count = 0 := fun p hp =>
    not_not.mp fun hne => hp ((h p).mp hne)
  have hidx : pageIdx L.kUncachedStart (messageAt L n) = n := by
    have hend := Uncached.region_end L
    have hlt : messageAt L n < 2 ^ 64 := by
      simp only [messageAt, PAGE_SIZE, kRegionPageNums] at *
      omega
    rw [← Nat.mod_eq_of_lt hlt]
    exact Uncached.pageIdx_paddr L.kUncachedStart hn
  have hi : pageIdx L.kUncachedStart (messageAt L n) < kRegionPageNums := hidx.symm ▸ hn
  refine ⟨_, fun p => ?_, Uncached.free_eq L.kUncachedStart hi⟩
  have hpage : (⟨_, hi⟩ : Fin kRegionPageNums) = ⟨n, hn⟩ := Fin.ext hidx
  have hfirst : Uncached.marked map n 2 ⟨n, hn⟩ = ⟨2, (map ⟨n, hn⟩).ref_count + 1⟩ :=
    Uncached.marked_of_mem ⟨le_rfl, by dsimp only; omega⟩
  rw [hpage, hfirst, hfree ⟨n, hn⟩ (lt_irrefl n), hidx, if_neg (by decide), RegionMap.put]
  split
  case isTrue hp =>
    have hlost : (0 + 1 : UInt8) - UInt8.ofNat 2 ≠ 0 := by decide
    exact iff_of_true hlost (by omega)
  case isFalse hp =>
    by_cases hsecond : p.val = n + 1
    · rw [Uncached.marked_of_mem (by omega), hfree p (by omega)]
      have hone : (0 + 1 : UInt8) ≠ 0 := by decide
      exact iff_of_true hone (by omega)
    · rw [Uncached.marked_of_not_mem (by omega), h p]
      omega

/-- What comes back in the other mailbox is the address of the message. -/
theorem Reachable.address (h : Reachable L) (hfit : n + 2 ≤ kRegionPageNums) (channel : Word) :
    (message channel (BitVec.ofNat 32 (messageAt L n)) &&& 0xfffffff0).toNat = messageAt L n := by
  have halign := h.aligned
  have hlow := h.low
  have hlt : messageAt L n < 2 ^ 32 := by
    simp only [messageAt, PAGE_SIZE, kRegionPageNums, kUncachedSize] at *
    omega
  have hmod : messageAt L n / 2 ^ 4 * 2 ^ 4 = messageAt L n := by
    simp only [messageAt, PAGE_SIZE] at *
    omega
  rw [message_value, BitVec.toNat_and, BitVec.toNat_ofNat, Nat.mod_eq_of_lt hlt]
  exact (Lib.and_mask_eq (k := 4) (w := 28) hlt).trans hmod

/-! ### A call -/

/-- A message for `tag`, made in a clear buffer. -/
def Mailbox.withMessage (s : Mailbox) (va : ℕ) (tag : List Word) : Mailbox :=
  ⟨⟨s.boxes.asked, s.boxes.told, putMessage va tag (zeroWords va (8 * 1024) s.boxes.mem)⟩,
    s.accesses⟩

/-- `Process`, once it has a buffer. -/
theorem process_eq (h : Taken n map) (hfit : n + 2 ≤ kRegionPageNums) (L : Layout) (fuel : ℕ)
    (tag : List Word) (s : Mailbox) : ∃ map', Taken (n + 2) map' ∧
    process V sched L fuel tag s map = do
      let t ← orWaits (write V sched kChannelTags (BitVec.ofNat 32 (messageAt L n)) fuel
        (s.withMessage (messageAt L n) tag))
      let r ← orWaits (read V sched kChannelTags fuel fuel t)
      return (getTag (messageAt L n) tag.length r.2.boxes.mem, r.2, map') := by
  obtain ⟨map', htaken, hfree⟩ := h.free hfit L
  refine ⟨map', htaken, ?_⟩
  rw [process, h.zalloc hfit L, Lib.ok_bind]
  simp only [hfree, Lib.ok_bind]
  rfl

theorem orWaits_gives {α : Type} {x : Option α} {P : α → Prop} (h : ∀ a, x = some a → P a) :
    Lib.Gives (orWaits x) P (· = .outOfFuel) := by
  cases x with
  | none => exact .of_error rfl
  | some a => exact .of_ok (h a rfl)

/-- **What `Process` gives** is what VideoCore makes of the message. -/
theorem process_gives (hL : Reachable L) (h : Idle V.party s.boxes) (htaken : Taken n map)
    (hfit : n + 2 ≤ kRegionPageNums) (tag : List Word) :
    Lib.Gives (process V sched L fuel tag s map)
      (fun r => (∃ m, r.1 = getTag (messageAt L n) tag.length
          (V.process (messageAt L n) (putMessage (messageAt L n) tag m))) ∧
        Idle V.party r.2.1.boxes ∧ Taken (n + 2) r.2.2)
      (· = .outOfFuel) := by
  obtain ⟨map', htaken', hprocess⟩ := process_eq htaken hfit L fuel tag s
  rw [hprocess]
  have hidle : Idle V.party (s.withMessage (messageAt L n) tag).boxes := ⟨h.asked, h.told⟩
  refine (orWaits_gives fun t ht => write_asks hidle ht).bind fun t hwait =>
    (orWaits_gives fun r hr => read_takes hwait hr).bind fun r hr => ?_
  refine .of_ok ⟨⟨zeroWords (messageAt L n) (8 * 1024) s.boxes.mem, ?_⟩, hr.1, htaken'⟩
  dsimp only
  rw [hr.2, VideoCore.party]
  dsimp only
  rw [hL.address hfit]
  rfl

/-- **`Process` returns** if VideoCore gets round to it, and leaves as much room as there was. -/
theorem process_returns (hc : c < V.depth) (hprompt : Prompt sched k) (hk : k ≤ fuel)
    (hfuel : c < fuel) (h : Idle V.party s.boxes) (hroom : HasRoom sched c s)
    (htaken : Taken n map) (hfit : n + 2 ≤ kRegionPageNums) (L : Layout) (tag : List Word) :
    ∃ r, process V sched L fuel tag s map = .ok r ∧ HasRoom sched c r.2.1 := by
  obtain ⟨map', -, hprocess⟩ := process_eq htaken hfit L fuel tag s
  have hidle : Idle V.party (s.withMessage (messageAt L n) tag).boxes := ⟨h.asked, h.told⟩
  obtain ⟨t, mem, ht, hway⟩ := write_returns hc hidle hroom (Nat.zero_lt_of_lt hfuel)
    kChannelTags (BitVec.ofNat 32 (messageAt L n))
  obtain ⟨r, hr, hroom'⟩ := read_returns hc hprompt hk hway hfuel
  refine ⟨(getTag (messageAt L n) tag.length r.2.boxes.mem, r.2, map'), ?_, hroom'⟩
  rw [hprocess, ht, orWaits, Option.elim_some, Lib.ok_bind, hr, orWaits, Option.elim_some,
    Lib.ok_bind]
  rfl

/-! ### The rates of clocks -/

/-- The message at `a` asks for the rate of a clock. -/
structure AsksRate (a : ℕ) (id : Word) (m : Words) : Prop where
  size : m a = 32
  code : m (a + 4) = 0
  tag : m (a + 8) = kTagIdGetClockRate
  buff_size : m (a + 12) = 8
  value_len : m (a + 16) = 0
  tag_id : m (a + 20) = id
  last : m (a + 28) = 0

/-- **VideoCore tells the rate** of each clock that it is asked about. -/
def VideoCore.Tells (V : VideoCore) (rate : Word → Word) : Prop :=
  ∀ (a : ℕ) (id : Word) (m : Words), AsksRate a id m → V.process a m (a + 24) = rate id

theorem putMessage_asksRate (a : ℕ) (id r : Word) (m : Words) :
    AsksRate a id (putMessage a [kTagIdGetClockRate, 8, 0, id, r] m) := by
  constructor <;> simp [putMessage, storeWords, Nat.add_assoc, Nat.add_sub_add_left]

/-- **A call** that returns has the rate of the clock it has asked for. -/
theorem getClockRate_gives {rate : Word → Word} (hV : V.Tells rate) (hL : Reachable L)
    (h : Idle V.party s.boxes) (htaken : Taken n map) (hfit : n + 2 ≤ kRegionPageNums)
    (hw : HwBlock) (r : Word) :
    Lib.Gives (getClockRate V sched L fuel hw r s map)
      (fun x => x.1 = rate (clockId hw) ∧ Idle V.party x.2.1.boxes ∧ Taken (n + 2) x.2.2)
      (· = .outOfFuel) := by
  refine (process_gives hL h htaken hfit _).bind fun x hx => .of_ok ⟨?_, hx.2⟩
  obtain ⟨m, hm⟩ := hx.1
  dsimp only
  rw [hm]
  exact hV _ _ _ (putMessage_asksRate (messageAt L n) (clockId hw) r m)

theorem getClockRates_gives {rate : Word → Word} (hV : V.Tells rate) (hL : Reachable L)
    (calls : List (HwBlock × Word)) (h : Idle V.party s.boxes) (htaken : Taken n map)
    (hfit : n + 2 * calls.length ≤ kRegionPageNums) :
    Lib.Gives (getClockRates V sched L fuel calls s map)
      (fun x => x.1 = calls.map (fun call => rate (clockId call.1)) ∧ Idle V.party x.2.1.boxes ∧
        Taken (n + 2 * calls.length) x.2.2) (· = .outOfFuel) := by
  induction calls generalizing s n map with
  | nil => exact .of_ok ⟨rfl, h, htaken⟩
  | cons call calls ih =>
    rw [List.length_cons] at hfit
    refine (getClockRate_gives hV hL h htaken (by omega) call.1 call.2).bind fun x hx => ?_
    obtain ⟨hrate, hidle, hlost⟩ := hx
    refine (ih hidle hlost (by omega)).bind fun y hy => .of_ok ?_
    obtain ⟨hrates, hidle', hlost'⟩ := hy
    refine ⟨?_, hidle', ?_⟩
    · rw [List.map_cons, ← hrate, ← hrates]
    · rw [List.length_cons, Nat.mul_add_one, Nat.add_comm (2 * _), ← Nat.add_assoc]
      exact hlost'

theorem getClockRates_returns {rate : Word → Word} (hV : V.Tells rate) (hL : Reachable L)
    (calls : List (HwBlock × Word)) (h : Idle V.party s.boxes) (htaken : Taken n map)
    (hfit : n + 2 * calls.length ≤ kRegionPageNums) (hprompt : Prompt sched k)
    (hroom : HasRoom sched c s) (hc : c < V.depth) (hk : k ≤ fuel) (hfuel : c < fuel) :
    ∃ x, getClockRates V sched L fuel calls s map = .ok x := by
  induction calls generalizing s n map with
  | nil => exact ⟨_, rfl⟩
  | cons call calls ih =>
    rw [List.length_cons] at hfit
    obtain ⟨r, hr, hroom'⟩ := process_returns hc hprompt hk hfuel h hroom htaken (by omega) L
      [kTagIdGetClockRate, 8, 0, clockId call.1, call.2]
    have hcall : getClockRate V sched L fuel call.1 call.2 s map = .ok (r.1.getD 4 0, r.2) := by
      rw [getClockRate, hr, Lib.ok_bind]
      rfl
    obtain ⟨-, hidle, hlost⟩ :=
      (getClockRate_gives hV hL h htaken (by omega) call.1 call.2).ok _ hcall
    obtain ⟨x, hx⟩ := ih hidle hlost (by omega) hroom'
    refine ⟨(r.1.getD 4 0 :: x.1, x.2), ?_⟩
    dsimp only at hx
    rw [getClockRates, hcall, Lib.ok_bind]
    dsimp only
    rw [hx]
    rfl

/-- **The rates of clocks.** Whatever VideoCore does, and whenever, as long as it tells the rates it
is asked for: calls that return have the rates of their clocks, no answer is left over, and two
pages are lost with each of them. A call that does not return waits for ever; it does return if
VideoCore gets round to each question, and there is room for the answer next to the other messages
that come. -/
theorem clock_rates {rate : Word → Word} (hV : V.Tells rate) (hL : Reachable L)
    (calls : List (HwBlock × Word)) (h : Idle V.party s.boxes) (htaken : Taken n map)
    (hfit : n + 2 * calls.length ≤ kRegionPageNums) :
    (∀ x, getClockRates V sched L fuel calls s map = .ok x →
      x.1 = calls.map (fun call => rate (clockId call.1)) ∧ Idle V.party x.2.1.boxes ∧
        Taken (n + 2 * calls.length) x.2.2) ∧
    (∀ f, getClockRates V sched L fuel calls s map = .error f → f = .outOfFuel) ∧
    ∀ k c, Prompt sched k → HasRoom sched c s → c < V.depth → k ≤ fuel → c < fuel →
      ∃ x, getClockRates V sched L fuel calls s map = .ok x := by
  obtain ⟨hok, herror⟩ := getClockRates_gives hV hL calls h htaken hfit
  exact ⟨hok, herror, fun k c hprompt hroom hc hk hfuel =>
    getClockRates_returns hV hL calls h htaken hfit hprompt hroom hc hk hfuel⟩

/-- A layout for the Raspberry Pi 4, and a kernel image that ends at `0x100000`. -/
def raspberryPi : Layout where
  kHeapStart := 0x100000
  kUncachedStart := 0x4100000
  kUserStart := 0x4200000
  heap_pos := by decide
  heap_aligned := by decide
  heap_end := by decide
  uncached_end := by decide
  user_aligned := by decide
  user_end := by decide

/-- A VideoCore that runs clock `i` at `i` MHz. -/
def megahertz : VideoCore where
  depth := 8
  process a m := if m (a + 8) = kTagIdGetClockRate
    then Function.update m (a + 24) (1000000 * m (a + 20)) else m

/-- It has a message for somebody else first, and is not in a hurry. -/
def slowly (a : ℕ) : List (Traffic Word) :=
  if a = 0 then [.other 0x13] else if a % 3 = 0 then [.serve] else []

theorem clock_rates_two : ∃ x, getClockRates megahertz slowly raspberryPi 4
      [(.CPU, 7), (.EMMC, 0)] ⟨⟨[], [], fun _ => 0⟩, 0⟩ .zero = .ok x ∧
    x.1 = [3000000, 1000000] ∧ Taken 4 x.2.2 := by
  have hV : megahertz.Tells fun id => 1000000 * id := fun a id m h => by
    simp only [megahertz, h.tag, h.tag_id, if_true, Function.update_self]
  have hL : Reachable raspberryPi := ⟨by decide, by decide⟩
  have hprompt : Prompt slowly 4 := fun a => by
    refine ⟨3 - a % 3, by omega, ?_⟩
    rw [slowly, if_neg (by omega), if_pos (by omega)]
    exact List.mem_singleton.mpr rfl
  have hquiet : ∀ n a, Lib.Exchange.coming slowly (a + 1) n = 0 := fun n => by
    induction n with
    | zero => exact fun _ => rfl
    | succ n ih =>
      intro a
      rw [Lib.Exchange.coming, ih, slowly, if_neg (Nat.succ_ne_zero a)]
      split <;> rfl
  have hroom : HasRoom slowly 1 ⟨⟨[], [], fun _ => 0⟩, 0⟩ := fun n => by
    cases n with
    | zero => decide
    | succ n => rw [Lib.Exchange.coming, hquiet]; decide
  have htaken : Taken 0 .zero := fun _ => iff_of_false (not_not.mpr rfl) (Nat.not_lt_zero _)
  obtain ⟨hok, -, hreturns⟩ := @clock_rates megahertz slowly ⟨⟨[], [], fun _ => 0⟩, 0⟩ 4
    raspberryPi 0 .zero _ hV hL [(.CPU, 7), (.EMMC, 0)] ⟨rfl, nofun⟩ htaken (by decide)
  obtain ⟨x, hx⟩ := hreturns 4 1 hprompt hroom (by decide) le_rfl (by decide)
  obtain ⟨hrates, -, hlost⟩ := hok x hx
  exact ⟨x, hx, hrates.trans (by decide), hlost⟩

/-- **No more rates**: when the region has been used up by the buffers of messages, a call asks for
nothing. It stops in `PANIC`, or the scan leaves the map where one page is left. -/
theorem getClockRate_full (h : Taken n map) (hfull : kRegionPageNums < n + 2) (hw : HwBlock)
    (r : Word) (s : Mailbox) : getClockRate V sched L fuel hw r s map =
      .error (if n < kRegionPageNums then .outOfBounds else .panic "No free space!") := by
  have hpages : numPages (8 * 1024) = 2 := by decide
  have hno : ¬Uncached.Fits map (numPages (8 * 1024)) := by
    rintro ⟨i, -, hrun⟩
    rw [hpages] at hrun
    obtain ⟨hlt, hzero⟩ := hrun 0 (by decide)
    obtain ⟨hlt', -⟩ := hrun 1 (by decide)
    exact (h ⟨i + 0, hlt⟩).mpr (by dsimp only; omega) hzero
  have hlast : Uncached.Used map (kRegionPageNums - 1) ↔ ¬n < kRegionPageNums := by
    have hpos : kRegionPageNums - 1 < kRegionPageNums := by decide
    rw [Uncached.Used, exists_prop_of_true hpos, h]
    dsimp only
    omega
  obtain ⟨hpanic, hleaves⟩ := Uncached.malloc_of_not_fits L.kUncachedStart hno
  rw [getClockRate, process, kmmUncachedZalloc]
  split
  case isTrue hlt => rw [hleaves (fun hused => hlast.mp hused hlt)]; rfl
  case isFalse hge => rw [hpanic (hlast.mpr hge)]; rfl

end MailboxBcm2711

end Evisor
