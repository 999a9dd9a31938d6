import Mathlib.Data.List.GetD
import Evisor.Fs.Fat.Name

/-!
# Long names, written and read

How a long name is written in front of the entry of a file: thirteen characters a part, the
first part right before the entry (`Evisor.Fat32Fs.Written`). `GetLfn` reads it back from
two sectors, the one that the entry is in and the one before, into an array of 256 places.
A name of 255 characters takes 20 parts, for which there is neither always room in the
sectors nor ever room in the array (`Evisor.Fat32Fs.lfn_right_iff`).
-/

namespace Evisor

namespace Fat32Fs

/-! ### How a name is written -/

/-- The parts that a name takes. -/
def lfnParts (name : List ℕ) : ℕ := (name.length + 12) / 13

/-- The character `t` as it is written: a zero comes after the name, and what is left of the
last part is filled up. -/
def lfnUnit (name : List ℕ) (t : ℕ) : ℕ :=
  if t < name.length then name.getD t 0 else if t = name.length then 0 else 0xffff

/-- The byte `b` of a character of two bytes, the lower one first. -/
def unitByte (unit b : ℕ) : ℕ := if b = 0 then unit % 256 else unit / 256

/-- **Part `s` of a name**, in an entry. -/
def lfnEntry (name : List ℕ) (sum s b : ℕ) : ℕ :=
  let unit := fun c => lfnUnit name (13 * (s - 1) + c)
  if b = 0 then if s = lfnParts name then s + kLfnLastLongEntry else s
  else if b ≤ 10 then unitByte (unit ((b - 1) / 2)) ((b - 1) % 2)
  else if b = 11 then kAttrLongName
  else if b = 12 then 0
  else if b = 13 then sum
  else if b ≤ 25 then unitByte (unit (5 + (b - 14) / 2)) ((b - 14) % 2)
  else if b ≤ 27 then 0
  else unitByte (unit (11 + (b - 28) / 2)) ((b - 28) % 2)

/-- **Entry `k` of a directory has a name written before it.** -/
structure Written (E : Entries) (k : ℕ) (name : List ℕ) : Prop where
  pos : 1 ≤ name.length
  short : name.length ≤ 255
  ascii : ∀ c ∈ name, 0 < c ∧ c < 128
  room : lfnParts name ≤ k
  byte : ∀ i b, E i b < 256
  eq : ∀ s, 1 ≤ s → s ≤ lfnParts name → ∀ b < dirSize,
    E (k - s) b = lfnEntry name (createLfnSum (E k)) s b

/-- **Entry `k` as `Open` comes to it**: entry `j` of a sector, with the sector before at
hand unless it is the first. -/
structure Placed (E : Entries) (k : ℕ) (buf : ℕ → ℕ) (j : ℕ) (prev_buf : SectorBuf) : Prop where
  index : k % 16 = j
  cur : ∀ i < 16, ∀ b < dirSize, buf (dirSize * i + b) = E (k - j + i) b
  first : k < 16 → prev_buf = none
  prev : 16 ≤ k → ∃ byte, prev_buf = some byte ∧
    ∀ i < 16, ∀ b < dirSize, byte (dirSize * i + b) = E (k - j - 16 + i) b

variable {E : Entries} {k j s : ℕ} {name : List ℕ} {buf : ℕ → ℕ} {prev_buf : SectorBuf}

/-! ### A name that is written is one that can be read -/

theorem lfnUnit_lt (h : ∀ c ∈ name, c < 128) (t : ℕ) : lfnUnit name t < 65536 := by
  rw [lfnUnit]
  split
  case isTrue ht =>
    have := h _ (List.getElem_mem ht)
    rw [List.getD_eq_getElem _ _ ht]
    omega
  · split <;> decide

/-- The characters of a part are those written there. -/
theorem lfnUnits_lfnEntry (name : List ℕ) (sum s : ℕ) :
    lfnUnits (lfnEntry name sum s) =
      (List.range 13).map fun c => lfnUnit name (13 * (s - 1) + c) := by
  have hunit : ∀ u, unitByte u 0 + 256 * unitByte u 1 = u := fun u => Nat.mod_add_div u 256
  have hbytes : lfnUnits (lfnEntry name sum s) = (List.range 13).map fun c =>
      unitByte (lfnUnit name (13 * (s - 1) + c)) 0 +
        256 * unitByte (lfnUnit name (13 * (s - 1) + c)) 1 := rfl
  rw [hbytes]
  simp only [hunit]

/-- A string that is written is read back. -/
theorem cstr_units (hname : ∀ c ∈ name, c ≠ 0) {n : ℕ} (hn : name.length ≤ n) :
    cstr ((List.range n).map (lfnUnit name)) = name := by
  have hhead : (List.range name.length).map (lfnUnit name) = name := by
    refine List.ext_getElem (by simp) fun i hi hi' => ?_
    rw [List.getElem_map, List.getElem_range, lfnUnit, if_pos hi', List.getD_eq_getElem _ _ hi']
  obtain ⟨d, rfl⟩ := Nat.exists_eq_add_of_le hn
  rw [List.range_add, List.map_append, hhead]
  cases d with
  | zero => simpa [cstr] using hname
  | succ d =>
    rw [List.range_succ_eq_map, List.map_cons, List.map_cons, Nat.add_zero]
    have hzero : lfnUnit name name.length = 0 := by
      rw [lfnUnit, if_neg (Nat.lt_irrefl _), if_pos rfl]
    rw [hzero]
    exact cstr_append_zero hname

/-- All the characters of a name, part by part. -/
theorem flatMap_parts (f : ℕ → ℕ) (m : ℕ) :
    ((List.range m).flatMap fun s => (List.range 13).map fun c => f (13 * s + c)) =
      (List.range (13 * m)).map f := by
  induction m with
  | zero => rfl
  | succ m ih =>
    rw [List.range_succ (n := m), List.flatMap_append, ih, Nat.mul_succ, List.range_add,
      List.map_append,
      List.map_map]
    simp only [List.flatMap_singleton]
    rfl

variable (h : Written E k name)

include h

theorem Written.parts_pos : 1 ≤ lfnParts name := by
  have := h.pos
  rw [lfnParts]
  omega

theorem Written.parts_le : lfnParts name ≤ 20 := by
  have := h.short
  rw [lfnParts]
  omega

/-- **What is written is a long name**, in as many parts as it takes. -/
theorem Written.longParts : LongParts E k (lfnParts name) where
  pos := h.parts_pos
  le := h.room
  short := h.parts_le
  ord s h1 hs := h.eq s h1 hs 0 (by decide)
  attr s h1 hs := by
    have hattr : lfnEntry name (createLfnSum (E k)) s 11 = kAttrLongName := rfl
    rw [h.eq s h1 hs 11 (by decide), hattr]
    rfl
  sum s h1 hs := h.eq s h1 hs 13 (by decide)

/-- **It is the name.** -/
theorem Written.longName_eq : longName E k (lfnParts name) = name := by
  have hunits : ((List.range (lfnParts name)).flatMap fun s => lfnUnits (E (k - (s + 1)))) =
      (List.range (13 * lfnParts name)).map (lfnUnit name) := by
    rw [← flatMap_parts]
    refine List.flatMap_congr fun s hs => ?_
    have hpart := lfnUnits_lfnEntry name (createLfnSum (E k)) (s + 1)
    rw [Nat.add_sub_cancel] at hpart
    rw [← hpart]
    refine List.map_congr_left fun b hb => ?_
    have hlt : b + 1 < dirSize := by
      revert b
      decide
    have heq := h.eq (s + 1) (by omega) (List.mem_range.mp hs)
    rw [heq b (by omega), heq (b + 1) hlt]
  rw [longName, hunits]
  refine cstr_units (fun c hc => (h.ascii c hc).1.ne') ?_
  rw [lfnParts]
  omega

omit h

/-- An entry and those before it, as far as two sectors go. -/
theorem Placed.seen (hp : Placed E k buf j prev_buf) {t : ℕ} (h1 : 1 ≤ t) (ht : t ≤ k)
    (hvis : t ≤ j + 16) : Seen buf prev_buf j t (E (k - t)) := by
  have hindex := hp.index
  rcases Nat.lt_or_ge j t with hlt | hge
  · obtain ⟨byte, hsome, hprev⟩ := hp.prev (by omega)
    refine .prev byte hsome hlt hvis fun b hb => ?_
    rw [hprev (16 + j - t) (by omega) b hb, show k - j - 16 + (16 + j - t) = k - t by omega]
  · refine .cur hge fun b hb => ?_
    rw [hp.cur (j - t) (by omega) b hb, show k - j + (j - t) = k - t by omega]

/-- **`GetLfn` finds a name that takes up to 19 parts**, all of them in the two sectors. -/
theorem Written.found (h : Written E k name) (hp : Placed E k buf j prev_buf)
    (hlen : name.length ≤ 247) (hvis : lfnParts name ≤ j + 16) :
    ∃ result, getLfn buf (dirSize * j) prev_buf = .ok (some result) ∧ cstr result = name := by
  have hindex := hp.index
  have hm : lfnParts name ≤ 19 := by
    rw [lfnParts]
    omega
  refine ⟨_, getLfn_long h.longParts hm (fun b hb => ?_)
    (fun t h1 ht => hp.seen h1 (ht.trans h.room) (ht.trans hvis)), ?_⟩
  · rw [hp.cur j (by omega) b hb, show k - j + j = k by omega]
  · rw [cstr_lfnResult h.byte, h.longName_eq]
    intro c hc
    rw [h.longName_eq] at hc
    have := (h.ascii c hc).2
    omega

/-! ### Where `GetLfn` gets to -/

/-- What lies `s` places before entry `j`. -/
def lfnSeen (buf : ℕ → ℕ) (j : ℕ) (prev_buf : SectorBuf) (s b : ℕ) : ℕ :=
  if s ≤ j then buf (dirSize * (j - s) + b)
  else prev_buf.getD (fun _ => 0) (dirSize * (16 + j - s) + b)

/-- `GetLfn` takes it for part `s` of a name. -/
def IsPart (buf : ℕ → ℕ) (j : ℕ) (prev_buf : SectorBuf) (s : ℕ) : Prop :=
  lfnSeen buf j prev_buf s 13 = createLfnSum (fun b => buf (dirSize * j + b)) ∧
    lfnSeen buf j prev_buf s 11 &&& kAttrLongName = kAttrLongName ∧
    lfnSeen buf j prev_buf s 0 &&& 0x1f = s

/-- It takes it for the last part. -/
def IsLast (buf : ℕ → ℕ) (j : ℕ) (prev_buf : SectorBuf) (s : ℕ) : Prop :=
  lfnSeen buf j prev_buf s 0 &&& kLfnLastLongEntry ≠ 0

/-- **A name that does not end**: after `s` parts there are as many more as there can be in
two sectors, or as are too many for the array, and none is the last. -/
def Unending (buf : ℕ → ℕ) (j : ℕ) (prev_buf : SectorBuf) (s : ℕ) : Prop :=
  prev_buf.isSome ∧ ∀ t, s < t → t ≤ 20 → t ≤ j + 16 →
    IsPart buf j prev_buf t ∧ (t < 20 → ¬IsLast buf j prev_buf t)

/-- What is seen is what lies there. -/
theorem seen_lfnSeen (hs : s ≤ j + 16) (hprev : j < s → prev_buf.isSome = true) :
    Seen buf prev_buf j s (lfnSeen buf j prev_buf s) := by
  rcases Nat.lt_or_ge j s with hlt | hge
  · obtain ⟨byte, rfl⟩ := Option.isSome_iff_exists.mp (hprev hlt)
    exact .prev byte rfl hlt hs fun b _ => (if_neg (Nat.not_le.mpr hlt)).symm
  · exact .cur hge fun b _ => (if_pos hge).symm

/-- A step back from the first entry of a sector that is the first. -/
theorem lfnBack_first : lfnBack buf none (lfnAt j j) = .ok none := by
  rw [lfnAt, if_pos le_rfl, Nat.sub_self, Nat.mul_zero]
  rfl

/-- A step back from the first entry of the sector before. -/
theorem lfnBack_end : lfnBack buf prev_buf (lfnAt j (j + 16)) = .error .outOfBounds := by
  rw [lfnAt, if_neg (by omega), show 16 + j - (j + 16) = 0 by omega]
  rfl

/-- A part that is not the last leaves the question open. -/
theorem unending_succ (hpart : IsPart buf j prev_buf (s + 1))
    (hlast : s + 1 < 20 → ¬IsLast buf j prev_buf (s + 1)) :
    Unending buf j prev_buf s ↔ Unending buf j prev_buf (s + 1) := by
  refine and_congr_right fun _ => ⟨fun h t ht => h t (by omega), fun h t ht ht' ht'' => ?_⟩
  rcases Nat.eq_or_lt_of_le (Nat.succ_le_of_lt ht) with rfl | hlt
  · exact ⟨hpart, hlast⟩
  · exact h t hlt ht' ht''

/-- **How far the loop of `GetLfn` gets**: out of its buffers if the name does not end, and to
a result if it does. -/
theorem getLfnLoop_from {fuel : ℕ} {result : List ℕ} (hj : j < 16) (hs : s ≤ 19)
    (hvis : s ≤ j + 16) (hprev : j < s → prev_buf.isSome = true) (hlen : result.length = 13 * s)
    (hfuel : 20 ≤ s + fuel) :
    (Unending buf j prev_buf s →
      getLfnLoop buf prev_buf (createLfnSum fun b => buf (dirSize * j + b)) fuel (lfnAt j s) (s + 1)
        result = .error .outOfBounds) ∧
    (¬Unending buf j prev_buf s → ∃ r,
      getLfnLoop buf prev_buf (createLfnSum fun b => buf (dirSize * j + b)) fuel (lfnAt j s) (s + 1)
        result = .ok r) := by
  induction fuel generalizing s result with
  | zero => exact absurd hfuel (by omega)
  | succ fuel ih =>
    rw [getLfnLoop]
    -- the loop stops behind the two sectors, where the array is full, or at what is no part
    rcases Nat.eq_or_lt_of_le hvis with rfl | hlt
    · -- nothing is left of the two sectors
      rw [lfnBack_end]
      exact ⟨fun _ => rfl, fun h => absurd ⟨hprev (by omega), fun t _ _ _ => by omega⟩ h⟩
    by_cases hfirst : s = j ∧ prev_buf = none
    · obtain ⟨rfl, rfl⟩ := hfirst
      rw [lfnBack_first]
      exact ⟨fun h => absurd h.1 Bool.false_ne_true, fun _ => ⟨none, rfl⟩⟩
    have hprev' : j < s + 1 → prev_buf.isSome = true := by
      intro hj
      rcases Nat.lt_succ_iff_lt_or_eq.mp hj with hlt | rfl
      · exact hprev hlt
      · exact Option.isSome_iff_ne_none.mpr fun hnone => hfirst ⟨rfl, hnone⟩
    have hseen : Seen buf prev_buf j (s + 1) _ := seen_lfnSeen hlt hprev'
    obtain ⟨lfn, hback, hlfn⟩ := lfnBack_seen hseen
    rw [hback, Lib.ok_bind]
    dsimp only
    rw [hlfn 13 (by decide), hlfn 11 (by decide), hlfn 0 (by decide), hlen]
    by_cases hpart : IsPart buf j prev_buf (s + 1)
    · rw [if_neg (by rintro (h | h | h); exacts [h hpart.1, h hpart.2.1, h hpart.2.2])]
      rcases Nat.eq_or_lt_of_le hs with rfl | hlt19
      · -- the array is full
        rw [if_pos (by decide)]
        refine ⟨fun _ => rfl, fun h => absurd ?_ h⟩
        refine (unending_succ hpart fun h => absurd h (by decide)).mpr
          ⟨hprev (by omega), fun t _ _ _ => by omega⟩
      rw [if_neg (by omega)]
      by_cases hlast : IsLast buf j prev_buf (s + 1)
      · have hflag : lfnSeen buf j prev_buf (s + 1) 0 &&& kLfnLastLongEntry ≠ 0 := hlast
        rw [if_pos hflag]
        exact ⟨fun h => absurd hlast ((h.2 (s + 1) (by omega) (by omega) (by omega)).2 (by omega)),
          fun _ => ⟨_, rfl⟩⟩
      · have hflag : ¬(lfnSeen buf j prev_buf (s + 1) 0 &&& kLfnLastLongEntry ≠ 0) := hlast
        rw [if_neg hflag, unending_succ hpart fun _ => hlast]
        refine ih (by omega) (by omega) hprev' ?_ (by omega)
        rw [List.length_append, hlen, Nat.mul_succ]
        rfl
    · rw [if_pos]
      · exact ⟨fun h => absurd (h.2 (s + 1) (by omega) (by omega) (by omega)).1 hpart,
          fun _ => ⟨none, rfl⟩⟩
      · by_contra hall
        push Not at hall
        exact hpart hall

/-- **`GetLfn` leaves its buffers** if the name before the entry does not end, and has a result
if it does. -/
theorem getLfn_from (hj : j < 16) :
    (Unending buf j prev_buf 0 → getLfn buf (dirSize * j) prev_buf = .error .outOfBounds) ∧
      (¬Unending buf j prev_buf 0 → ∃ r, getLfn buf (dirSize * j) prev_buf = .ok r) := by
  have hat : lfnAt j 0 = .cur (dirSize * j) := if_pos (Nat.zero_le j)
  rw [getLfn, ← hat]
  exact getLfnLoop_from hj (Nat.zero_le _) (Nat.zero_le _)
    (fun h => absurd h (Nat.not_lt_zero j)) rfl (by decide)

theorem getLfn_ok_iff (hj : j < 16) :
    (∃ r, getLfn buf (dirSize * j) prev_buf = .ok r) ↔ ¬Unending buf j prev_buf 0 := by
  refine ⟨?_, (getLfn_from hj).2⟩
  rintro ⟨r, hr⟩ hun
  cases ((getLfn_from hj).1 hun).symm.trans hr

/-- What lies before the entry is what the directory has there. -/
theorem Placed.lfnSeen_eq (hp : Placed E k buf j prev_buf) {t : ℕ} (ht : t ≤ k)
    (hvis : t ≤ j + 16) {b : ℕ} (hb : b < dirSize) :
    lfnSeen buf j prev_buf t b = E (k - t) b := by
  have hindex := hp.index
  rw [lfnSeen]
  split
  · rw [hp.cur (j - t) (by omega) b hb, show k - j + (j - t) = k - t by omega]
  · obtain ⟨byte, rfl, hprev⟩ := hp.prev (by omega)
    rw [Option.getD_some, hprev (16 + j - t) (by omega) b hb,
      show k - j - 16 + (16 + j - t) = k - t by omega]

theorem Placed.sum_eq (hp : Placed E k buf j prev_buf) :
    createLfnSum (fun b => buf (dirSize * j + b)) = createLfnSum (E k) := by
  have hindex := hp.index
  refine createLfnSum_congr fun b hb => ?_
  rw [hp.cur j (by omega) b hb, show k - j + j = k by omega]

/-- **A name of 20 parts**, or of more than there are in the two sectors, does not end. -/
theorem Written.unending (h : Written E k name) (hp : Placed E k buf j prev_buf)
    (hbad : ¬(name.length ≤ 247 ∧ lfnParts name ≤ j + 16)) : Unending buf j prev_buf 0 := by
  have hindex := hp.index
  have hroom := h.room
  have hparts : lfnParts name = 20 ∨ j + 16 < lfnParts name := by
    have := h.short
    rw [lfnParts] at *
    omega
  obtain ⟨byte, hsome, -⟩ := hp.prev (by omega)
  have hprev : prev_buf.isSome = true := hsome ▸ rfl
  refine ⟨hprev, fun t ht ht20 hvis => ?_⟩
  obtain ⟨u, rfl⟩ : ∃ u, t = u + 1 := ⟨t - 1, by omega⟩
  obtain ⟨hsum, hattr, hseq, hlast⟩ := h.longParts.part (by omega : u < lfnParts name)
  have hseen := fun {b} => hp.lfnSeen_eq (t := u + 1) (by omega) hvis (b := b)
  refine ⟨⟨?_, ?_, ?_⟩, fun hlt hflag => ?_⟩
  · rw [hseen (by decide), hsum, hp.sum_eq]
  · rw [hseen (by decide), hattr]
  · rw [hseen (by decide), hseq]
  · rw [IsLast, hseen (by decide), hlast] at hflag
    omega

/-- **Long names, written and read.** A name that is written in front of an entry is found
exactly if it has at most 247 characters and its parts are all in the sector of the entry and
the one before. And whatever there is in the two sectors, `GetLfn` stays inside them and
inside its array exactly if what it takes for a name comes to an end in time. -/
theorem lfn_right_iff (hj : j < 16) :
    (∀ (E : Entries) (k : ℕ) (name : List ℕ), Written E k name → Placed E k buf j prev_buf →
      ((∃ result, getLfn buf (dirSize * j) prev_buf = .ok (some result) ∧ cstr result = name) ↔
        name.length ≤ 247 ∧ lfnParts name ≤ j + 16)) ∧
    ((∃ r, getLfn buf (dirSize * j) prev_buf = .ok r) ↔ ¬Unending buf j prev_buf 0) := by
  refine ⟨fun E k name h hp => ⟨?_, fun hgood => h.found hp hgood.1 hgood.2⟩, getLfn_ok_iff hj⟩
  rintro ⟨result, hresult, -⟩
  by_contra hbad
  exact (getLfn_ok_iff hj).mp ⟨some result, hresult⟩ (h.unending hp hbad)

/-! ### Directories with one name -/

/-- A directory with the entry `short` at `k`, and a name before it. -/
def dirOf (name : List ℕ) (short : ℕ → ℕ) (k : ℕ) : Entries := fun i b =>
  if i = k then short b
  else if i < k ∧ k ≤ i + lfnParts name then lfnEntry name (createLfnSum short) (k - i) b
  else 0

/-- The sector `q` of a directory. -/
def sectorOf (E : Entries) (q : ℕ) : ℕ → ℕ := fun o => E (16 * q + o / dirSize) (o % dirSize)

/-- The one before it. -/
def prevOf (E : Entries) (q : ℕ) : SectorBuf := if q = 0 then none else some (sectorOf E (q - 1))

theorem sectorOf_entry (E : Entries) (q i : ℕ) {b : ℕ} (hb : b < dirSize) :
    sectorOf E q (dirSize * i + b) = E (16 * q + i) b := by
  have hpos : 0 < dirSize := by decide
  rw [sectorOf, Nat.mul_add_div hpos, Nat.div_eq_of_lt hb, Nat.add_zero, Nat.mul_add_mod,
    Nat.mod_eq_of_lt hb]

/-- Every entry can be come to. -/
theorem placed_sectorOf (E : Entries) (k : ℕ) :
    Placed E k (sectorOf E (k / 16)) (k % 16) (prevOf E (k / 16)) where
  index := rfl
  cur i _ b hb := by
    rw [sectorOf_entry E _ _ hb, show 16 * (k / 16) + i = k - k % 16 + i by omega]
  first hk := if_pos (Nat.div_eq_of_lt hk)
  prev hk := by
    refine ⟨_, if_neg (by omega), fun i _ b hb => ?_⟩
    rw [sectorOf_entry E _ _ hb, show 16 * (k / 16 - 1) + i = k - k % 16 - 16 + i by omega]

theorem createLfnSum_lt (e : ℕ → ℕ) : createLfnSum e < 256 := by
  rw [createLfnSum, List.range_succ, List.foldl_append]
  exact Nat.mod_lt _ (by decide)

/-- What is in an entry are bytes. -/
theorem lfnEntry_lt {sum : ℕ} (hname : ∀ c ∈ name, c < 128) (hsum : sum < 256)
    (hs : s ≤ 20) (b : ℕ) : lfnEntry name sum s b < 256 := by
  have hunit : ∀ t i, unitByte (lfnUnit name t) i < 256 := by
    intro t i
    have := lfnUnit_lt hname t
    rw [unitByte]
    split <;> omega
  rw [lfnEntry]
  split
  · rw [kLfnLastLongEntry]
    split <;> omega
  split
  · exact hunit _ _
  split
  · decide
  split
  · decide
  split
  · exact hsum
  split
  · exact hunit _ _
  split
  · decide
  · exact hunit _ _

/-- **Every name can be written.** -/
theorem written_dirOf {short : ℕ → ℕ} (hpos : 1 ≤ name.length) (hlen : name.length ≤ 255)
    (hname : ∀ c ∈ name, 0 < c ∧ c < 128) (hroom : lfnParts name ≤ k)
    (hshort : ∀ b, short b < 256) :
    Written (dirOf name short k) k name := by
  have hself : dirOf name short k k = short := funext fun b => if_pos rfl
  have hparts : lfnParts name ≤ 20 := by
    rw [lfnParts]
    omega
  have hpart : ∀ {s}, s ≤ lfnParts name → ∀ b, lfnEntry name (createLfnSum short) s b < 256 :=
    fun hs => lfnEntry_lt (fun c hc => (hname c hc).2) (createLfnSum_lt short) (hs.trans hparts)
  refine ⟨hpos, hlen, hname, hroom, fun i b => ?_, fun s h1 hs b _ => ?_⟩
  · rw [dirOf]
    split
    · exact hshort b
    · split
      · exact hpart (by omega) b
      · decide
  · rw [hself, dirOf, if_neg (by omega), if_pos ⟨by omega, by omega⟩,
      show k - (k - s) = s by omega]

/-- A name of `n` times the letter a. -/
def aName (n : ℕ) : List ℕ := List.replicate n 97

theorem written_aName {n : ℕ} (hpos : 1 ≤ n) (hlen : n ≤ 255) (hroom : (n + 12) / 13 ≤ k) :
    Written (dirOf (aName n) (fun _ => 65) k) k (aName n) := by
  have hname : ∀ c ∈ aName n, 0 < c ∧ c < 128 := by
    intro c hc
    obtain rfl := List.eq_of_mem_replicate hc
    decide
  have hn : (aName n).length = n := List.length_replicate
  exact written_dirOf (by rwa [hn]) (by rwa [hn]) hname (by rwa [lfnParts, hn]) (fun _ => by decide)

/-- A name of 20 characters, over the boundary of two sectors. -/
theorem lfn_right_iff_aName :
    (∃ result, getLfn (sectorOf (dirOf (aName 20) (fun _ => 65) 17) 1) (dirSize * 1)
      (prevOf (dirOf (aName 20) (fun _ => 65) 17) 1) = .ok (some result) ∧ cstr result = aName 20) ∧
    ∃ r, getLfn (fun _ => 0) (dirSize * 1) none = .ok r :=
  ⟨((lfn_right_iff (by decide)).1 _ 17 (aName 20) (written_aName (by decide) (by decide)
    (by decide)) (placed_sectorOf _ 17)).mpr (by decide),
    ((lfn_right_iff (by decide)).2).mpr fun h => absurd h.1 Bool.false_ne_true⟩

/-- **A name of 248 characters** is stored beyond the end of the array, though all its parts are
in the two sectors. -/
theorem long_name_overruns :
    Written (dirOf (aName 248) (fun _ => 65) 20) 20 (aName 248) ∧
    Placed (dirOf (aName 248) (fun _ => 65) 20) 20
      (sectorOf (dirOf (aName 248) (fun _ => 65) 20) 1) 4
      (prevOf (dirOf (aName 248) (fun _ => 65) 20) 1) ∧
    getLfn (sectorOf (dirOf (aName 248) (fun _ => 65) 20) 1) (dirSize * 4)
      (prevOf (dirOf (aName 248) (fun _ => 65) 20) 1) = .error .outOfBounds := by
  have h : Written (dirOf (aName 248) (fun _ => 65) 20) 20 (aName 248) :=
    written_aName (by decide) (by decide) (by decide)
  have hp := placed_sectorOf (dirOf (aName 248) (fun _ => 65) 20) 20
  refine ⟨h, hp, (getLfn_from (by decide)).1 (h.unending hp ?_)⟩
  rintro ⟨hlen, -⟩
  rw [aName, List.length_replicate] at hlen
  exact absurd hlen (by decide)

end Fat32Fs

end Evisor
