import Mathlib.Data.List.DropRight
import Evisor.Fs.Fat.Init

/-!
# Names in a directory

A directory is a sequence of entries of 32 bytes. An entry of a file has a short name of
eight characters and three; a long name, if there is one, is in the entries before it,
thirteen characters each, the first of them right before that of the file.

`GetSfn` and `GetLfn` of `fs/fat/fat32.cc` are given a sector, the place of an entry in it,
and the sector before. What they make of a name is what the name is as long as the
entries are all there to be seen (`Evisor.Fat32Fs.getLfn_long`), and as long as a short name
fills its fields (`Evisor.Fat32Fs.getSfn_full`): blanks are not taken away, and nothing puts an
end to a name with no extension but what `GetSfn` has left behind earlier.
-/

namespace Evisor

namespace Fat32Fs

/-! ### The code -/

/-- `kFat32MaxFileNameSize`. -/
def kFat32MaxFileNameSize : ℕ := 255

/-- `kAttrLongName`. -/
def kAttrLongName : ℕ := 0x0f

/-- `kDirNameKanjiEntry`. -/
def kDirNameKanjiEntry : ℕ := 0x05

/-- `kLfnLastLongEntry`. -/
def kLfnLastLongEntry : ℕ := 0x40

/-- `sizeof(fat32_dir_t)`. -/
def dirSize : ℕ := 32

/-- `evisor::strncmp`. A string ends where a list does, if not before. -/
def strncmp : ℕ → List ℕ → List ℕ → ℤ
  | 0, _, _ => 0
  | n + 1, s1, s2 =>
    if s1.headD 0 ≠ 0 ∧ s1.headD 0 = s2.headD 0 then strncmp n s1.tail s2.tail
    else s1.headD 0 - s2.headD 0

/-- `Fat32Fs::CreateLfnSum`, of the bytes of an entry. -/
def createLfnSum (entry : ℕ → ℕ) : ℕ :=
  (List.range 11).foldl (fun sum i => (sum / 2 + sum * 2 ^ 7 + entry i) % 256) 0

/-- `result` of `GetSfn`, which keeps what it has from call to call. -/
abbrev SfnBuf := ℕ → ℕ

/-- A loop of `GetSfn`, with the characters still to be looked at: what is at `i` in the entry
gets to `i + gap`. -/
def getSfnLoop (entry : ℕ → ℕ) (gap : ℕ) : ℕ → ℕ → SfnBuf → SfnBuf
  | 0, _, result => result
  | left + 1, i, result =>
    let result := Function.update result (i + gap) (entry i)
    if entry i = ' '.toNat then result
    else
      let result :=
        if entry i = kDirNameKanjiEntry then Function.update result (i + gap) 0xe5 else result
      getSfnLoop entry gap left (i + 1) result

/-- `Fat32Fs::GetSfn`. -/
def getSfn (entry : ℕ → ℕ) (result : SfnBuf) : SfnBuf :=
  let result := getSfnLoop entry 0 8 0 result
  let result :=
    if entry 8 ≠ ' '.toNat then getSfnLoop entry 1 3 8 (Function.update result 8 '.'.toNat)
    else result
  Function.update result 12 0

/-- Where `lfn` points: at an offset of the sector, or of the sector before. -/
inductive LfnPtr where
  | cur (offset : ℕ)
  | prev (offset : ℕ)

/-- One step back, and what is there. In the sector the offset is `offset` of `GetLfn`; what lies
before the sector before is not for it to read. -/
def lfnBack (buf : ℕ → ℕ) (prev_buf : SectorBuf) :
    LfnPtr → Except Fault (Option (LfnPtr × (ℕ → ℕ)))
  | .cur 0 => match prev_buf with
    | none => .ok none
    | some byte =>
      .ok (some (.prev (kBlockSize - dirSize), fun b => byte (kBlockSize - dirSize + b)))
  | .cur (o + 1) => .ok (some (.cur (o + 1 - dirSize), fun b => buf (o + 1 - dirSize + b)))
  | .prev o =>
    if o < dirSize then .error .outOfBounds
    else match prev_buf with
      | none => .error .nullDeref
      | some byte => .ok (some (.prev (o - dirSize), fun b => byte (o - dirSize + b)))

/-- The low bytes of the characters of `fat32_lfn_t`. -/
def lfnChars (lfn : ℕ → ℕ) : List ℕ := [1, 3, 5, 7, 9, 14, 16, 18, 20, 22, 24, 28, 30].map lfn

/-- The loop of `GetLfn`: `result` is what has been stored. Its array has 256 places. -/
def getLfnLoop (buf : ℕ → ℕ) (prev_buf : SectorBuf) (sum : ℕ) :
    ℕ → LfnPtr → ℕ → List ℕ → Except Fault (Option (List ℕ))
  | 0, _, _, _ => .error .outOfFuel
  | fuel + 1, p, seq, result => do
    match ← lfnBack buf prev_buf p with
    | none => return none
    | some (p, lfn) =>
      if lfn 13 ≠ sum ∨ lfn 11 &&& kAttrLongName ≠ kAttrLongName ∨ lfn 0 &&& 0x1f ≠ seq then
        return none
      else if 256 < result.length + 13 then .error .outOfBounds
      else if lfn 0 &&& kLfnLastLongEntry ≠ 0 then return some (result ++ lfnChars lfn ++ [0])
      else getLfnLoop buf prev_buf sum fuel p (seq + 1) (result ++ lfnChars lfn)

/-- `Fat32Fs::GetLfn`. The array is full before the passes are used up. -/
def getLfn (buf : ℕ → ℕ) (offset : ℕ) (prev_buf : SectorBuf) : Except Fault (Option (List ℕ)) :=
  getLfnLoop buf prev_buf (createLfnSum fun b => buf (offset + b)) 32 (.cur offset) 1 []

/-! ### Names -/

/-- The entries of a directory: the bytes of each. -/
abbrev Entries := ℕ → ℕ → ℕ

/-- **The long name of entry `k` has `m` parts**, the last of which says that it is. -/
structure LongParts (E : Entries) (k m : ℕ) : Prop where
  pos : 1 ≤ m
  le : m ≤ k
  short : m ≤ 20
  ord : ∀ s, 1 ≤ s → s ≤ m → E (k - s) 0 = if s = m then s + kLfnLastLongEntry else s
  attr : ∀ s, 1 ≤ s → s ≤ m → E (k - s) 11 &&& 0x3f = kAttrLongName
  sum : ∀ s, 1 ≤ s → s ≤ m → E (k - s) 13 = createLfnSum (E k)

/-- The characters of a part. -/
def lfnUnits (lfn : ℕ → ℕ) : List ℕ :=
  [1, 3, 5, 7, 9, 14, 16, 18, 20, 22, 24, 28, 30].map fun i => lfn i + 256 * lfn (i + 1)

/-- A string, up to its end. -/
def cstr (l : List ℕ) : List ℕ := l.takeWhile (· ≠ 0)

/-- The long name of an entry, in `m` parts. -/
def longName (E : Entries) (k m : ℕ) : List ℕ :=
  cstr ((List.range m).flatMap fun s => lfnUnits (E (k - (s + 1))))

/-- The short name of an entry. The blanks at the end of its two fields are none of it, and a
first character 0x05 is meant to be 0xE5. -/
def shortName (entry : ℕ → ℕ) : List ℕ :=
  let base := ((List.range 8).map fun i =>
    if i = 0 ∧ entry 0 = kDirNameKanjiEntry then 0xe5 else entry i).rdropWhile (· = ' '.toNat)
  let ext := ((List.range 3).map fun i => entry (8 + i)).rdropWhile (· = ' '.toNat)
  if ext = [] then base else base ++ '.'.toNat :: ext

/-- **The name of an entry**: the long one, or the short one if there is no long one. -/
def Named (E : Entries) (k : ℕ) (name : List ℕ) : Prop :=
  (∃ m, LongParts E k m ∧ longName E k m = name) ∨
    ((¬∃ m, LongParts E k m) ∧ shortName (E k) = name)

/-! ### Strings -/

/-- A string compares equal to one that is short enough only if it is the same. -/
theorem strncmp_eq_zero_iff {n : ℕ} {s1 s2 : List ℕ} (h1 : ∀ c ∈ s1, c ≠ 0)
    (hn : (cstr s2).length < n) : strncmp n s1 s2 = 0 ↔ s1 = cstr s2 := by
  induction n generalizing s1 s2 with
  | zero => exact absurd hn (Nat.not_lt_zero _)
  | succ n ih =>
    rw [strncmp]
    rcases s1 with _ | ⟨c, s1⟩
    · rw [if_neg (fun h => h.1 rfl)]
      rcases s2 with _ | ⟨b, s2⟩
      · exact ⟨fun _ => rfl, fun _ => rfl⟩
      · by_cases hb : b = 0 <;> simp [cstr, hb]
    · have hc : c ≠ 0 := h1 c List.mem_cons_self
      rcases s2 with _ | ⟨b, s2⟩
      · simp [cstr, hc]
      · by_cases hcb : c = b
        · subst hcb
          have hcons : cstr (c :: s2) = c :: cstr s2 :=
            List.takeWhile_cons_of_pos (by simpa using hc)
          rw [hcons, List.length_cons, Nat.succ_lt_succ_iff] at hn
          rw [if_pos ⟨hc, rfl⟩, hcons, List.cons_inj_right]
          exact ih (fun x hx => h1 x (List.mem_cons_of_mem c hx)) hn
        · rw [if_neg fun h => hcb h.2]
          have hne : (c : ℤ) - b ≠ 0 := by omega
          refine ⟨fun h => absurd h hne, fun h => ?_⟩
          by_cases hb : b = 0
          · simp [cstr, hb] at h
          · rw [cstr, List.takeWhile_cons_of_pos (by simpa using hb)] at h
            exact absurd (List.cons.inj h).1 hcb

/-- The low bytes of characters that have no more than these. -/
theorem cstr_map_low {l : List ℕ} (h : ∀ u ∈ cstr l, u < 256) :
    cstr (l.map (· % 256) ++ [0]) = cstr l := by
  induction l with
  | nil => rfl
  | cons u l ih =>
    by_cases hu : u = 0
    · simp [cstr, hu]
    · have hcons : cstr (u :: l) = u :: cstr l := List.takeWhile_cons_of_pos (by simpa using hu)
      rw [hcons] at h ⊢
      have hlow : u % 256 = u := Nat.mod_eq_of_lt (h u List.mem_cons_self)
      rw [List.map_cons, List.cons_append, hlow, cstr,
        List.takeWhile_cons_of_pos (by simpa using hu)]
      exact congrArg _ (ih fun x hx => h x (List.mem_cons_of_mem u hx))

/-- A string ends at the first zero. -/
theorem cstr_append_zero {l r : List ℕ} (h : ∀ c ∈ l, c ≠ 0) : cstr (l ++ 0 :: r) = l := by
  rw [cstr, List.takeWhile_append_of_pos (by simpa using h)]
  simp

/-! ### Long names -/

/-- **What `GetLfn` sees** `s` places before entry `j` of a sector: entries of the sector, and of
the sector before. -/
inductive Seen (buf : ℕ → ℕ) (prev_buf : SectorBuf) (j s : ℕ) (e : ℕ → ℕ) : Prop where
  | cur (le : s ≤ j) (eq : ∀ b < dirSize, buf (dirSize * (j - s) + b) = e b)
  | prev (byte : ℕ → ℕ) (some : prev_buf = some byte) (lt : j < s) (le : s ≤ j + 16)
      (eq : ∀ b < dirSize, byte (dirSize * (16 + j - s) + b) = e b)

/-- Where `lfn` points after `s` steps. -/
def lfnAt (j s : ℕ) : LfnPtr :=
  if s ≤ j then .cur (dirSize * (j - s)) else .prev (dirSize * (16 + j - s))

variable {buf : ℕ → ℕ} {prev_buf : SectorBuf} {j s : ℕ} {e : ℕ → ℕ}

/-- A step back gets to what is seen. -/
theorem lfnBack_seen (h : Seen buf prev_buf j (s + 1) e) :
    ∃ lfn, lfnBack buf prev_buf (lfnAt j s) = .ok (some (lfnAt j (s + 1), lfn)) ∧
      ∀ b < dirSize, lfn b = e b := by
  rcases h with ⟨hle, heq⟩ | ⟨byte, rfl, hlt, hle, heq⟩
  · obtain ⟨o, ho⟩ : ∃ o, dirSize * (j - s) = o + 1 := by
      refine Nat.exists_eq_succ_of_ne_zero ?_
      rw [dirSize]
      omega
    have hback : o + 1 - dirSize = dirSize * (j - (s + 1)) := by
      rw [← ho, dirSize]
      omega
    refine ⟨_, ?_, heq⟩
    rw [lfnAt, lfnAt, if_pos (by omega), if_pos hle, ho, lfnBack, hback]
  · rcases Nat.lt_succ_iff_lt_or_eq.mp hlt with hjs | rfl
    · have hback : dirSize * (16 + j - s) - dirSize = dirSize * (16 + j - (s + 1)) := by
        rw [dirSize]
        omega
      refine ⟨_, ?_, heq⟩
      rw [lfnAt, lfnAt, if_neg (by omega), if_neg (by omega), lfnBack, hback, if_neg]
      rw [dirSize]
      omega
    · have hstart : kBlockSize - dirSize = dirSize * (16 + j - (j + 1)) := by
        rw [dirSize, kBlockSize]
        omega
      refine ⟨_, ?_, heq⟩
      rw [lfnAt, lfnAt, if_pos le_rfl, if_neg (by omega), Nat.sub_self, Nat.mul_zero, lfnBack,
        hstart]

/-- The characters of parts that have been passed. -/
def lfnResult (E : Entries) (k s : ℕ) : List ℕ :=
  (List.range s).flatMap fun t => lfnChars (E (k - (t + 1)))

theorem lfnResult_succ (E : Entries) (k s : ℕ) :
    lfnResult E k (s + 1) = lfnResult E k s ++ lfnChars (E (k - (s + 1))) := by
  rw [lfnResult, List.range_succ, List.flatMap_append, ← lfnResult]
  simp

theorem length_lfnResult (E : Entries) (k s : ℕ) : (lfnResult E k s).length = 13 * s := by
  induction s with
  | zero => rfl
  | succ s ih => rw [lfnResult_succ, List.length_append, ih, Nat.mul_succ]; rfl

theorem lfnChars_congr {lfn e : ℕ → ℕ} (h : ∀ b < dirSize, lfn b = e b) :
    lfnChars lfn = lfnChars e := by
  refine List.map_congr_left fun b hb => h b ?_
  revert b
  decide

/-- The checksum is that of the name of an entry. -/
theorem createLfnSum_congr {e e' : ℕ → ℕ} (h : ∀ b < dirSize, e b = e' b) :
    createLfnSum e = createLfnSum e' := by
  rw [createLfnSum, createLfnSum]
  refine List.foldl_ext _ _ _ fun sum b hb => ?_
  rw [h b ((List.mem_range.mp hb).trans (by decide))]

variable {E : Entries} {k m : ℕ}

/-- What the loop of `GetLfn` finds of a part. -/
theorem LongParts.part (h : LongParts E k m) {s : ℕ} (hs : s < m) :
    E (k - (s + 1)) 13 = createLfnSum (E k) ∧
      E (k - (s + 1)) 11 &&& kAttrLongName = kAttrLongName ∧
      E (k - (s + 1)) 0 &&& 0x1f = s + 1 ∧
      (E (k - (s + 1)) 0 &&& kLfnLastLongEntry ≠ 0 ↔ s + 1 = m) := by
  have hshort := h.short
  have hord := h.ord (s + 1) (by omega) hs
  have hbits : ∀ x < 32, x &&& 0x40 = 0 ∧ (x + 0x40) &&& 0x40 = 0x40 := by decide
  obtain ⟨hzero, hlast⟩ := hbits (s + 1) (by omega)
  have hlow : ∀ x, x &&& 0x1f = x % 2 ^ 5 := fun x => Nat.and_two_pow_sub_one_eq_mod x 5
  refine ⟨h.sum _ (by omega) hs, ?_, ?_, ?_⟩
  · have hattr := h.attr (s + 1) (by omega) hs
    have hmask : (0x3f : ℕ) &&& kAttrLongName = kAttrLongName := rfl
    calc E (k - (s + 1)) 11 &&& kAttrLongName
        = (E (k - (s + 1)) 11 &&& 0x3f) &&& kAttrLongName := by rw [Nat.and_assoc, hmask]
      _ = kAttrLongName := by rw [hattr]; rfl
  · rw [hlow, hord, kLfnLastLongEntry]
    split <;> omega
  · rw [hord, kLfnLastLongEntry]
    by_cases hm : s + 1 = m
    · rw [if_pos hm, hlast]
      exact ⟨fun _ => hm, fun _ => by decide⟩
    · rw [if_neg hm, hzero]
      exact ⟨fun h => absurd rfl h, fun h => absurd h hm⟩

/-- The loop of `GetLfn` reads the parts that are left. -/
theorem getLfnLoop_long {fuel : ℕ} (h : LongParts E k m) (hm : m ≤ 19) (hs : s < m)
    (hfuel : m ≤ s + fuel)
    (hseen : ∀ t, 1 ≤ t → t ≤ m → Seen buf prev_buf j t (E (k - t))) :
    getLfnLoop buf prev_buf (createLfnSum (E k)) fuel (lfnAt j s) (s + 1) (lfnResult E k s) =
      .ok (some (lfnResult E k m ++ [0])) := by
  induction fuel generalizing s with
  | zero => exact absurd hfuel (by omega)
  | succ fuel ih =>
    obtain ⟨lfn, hback, hlfn⟩ := lfnBack_seen (hseen (s + 1) (by omega) hs)
    obtain ⟨hsum, hattr, hseq, hlast⟩ := h.part hs
    have hroom : ¬256 < (lfnResult E k s).length + 13 := by
      rw [length_lfnResult]
      omega
    have hpart : ¬(lfn 13 ≠ createLfnSum (E k) ∨ lfn 11 &&& kAttrLongName ≠ kAttrLongName ∨
        lfn 0 &&& 0x1f ≠ s + 1) := by
      rw [hlfn 13 (by decide), hlfn 11 (by decide), hlfn 0 (by decide), hsum, hattr, hseq]
      simp
    rw [getLfnLoop, hback, Lib.ok_bind]
    dsimp only
    rw [if_neg hpart, if_neg hroom, lfnChars_congr hlfn, ← lfnResult_succ, hlfn 0 (by decide)]
    by_cases hend : s + 1 = m
    · rw [if_pos (hlast.mpr hend), hend]
      rfl
    · rw [if_neg fun h => hend (hlast.mp h)]
      exact ih (by omega) (by omega)

/-- **`GetLfn` finds a long name**, if it sees all parts and its array is large enough. -/
theorem getLfn_long (h : LongParts E k m) (hm : m ≤ 19)
    (hentry : ∀ b < dirSize, buf (dirSize * j + b) = E k b)
    (hseen : ∀ t, 1 ≤ t → t ≤ m → Seen buf prev_buf j t (E (k - t))) :
    getLfn buf (dirSize * j) prev_buf = .ok (some (lfnResult E k m ++ [0])) := by
  have hsum : createLfnSum (fun b => buf (dirSize * j + b)) = createLfnSum (E k) :=
    createLfnSum_congr hentry
  have hat : lfnAt j 0 = .cur (dirSize * j) := if_pos (Nat.zero_le j)
  rw [getLfn, hsum, ← hat]
  exact getLfnLoop_long (s := 0) h hm h.pos (by omega) hseen

/-- What it has found is the long name, if the characters of that have one byte. -/
theorem cstr_lfnResult (hE : ∀ i b, E i b < 256) (hchars : ∀ u ∈ longName E k m, u < 256) :
    cstr (lfnResult E k m ++ [0]) = longName E k m := by
  have hlow : lfnResult E k m =
      ((List.range m).flatMap fun s => lfnUnits (E (k - (s + 1)))).map (· % 256) := by
    rw [lfnResult, List.map_flatMap]
    refine List.flatMap_congr fun s _ => ?_
    rw [lfnChars, lfnUnits, List.map_map]
    refine List.map_congr_left fun b _ => ?_
    change _ = (E (k - (s + 1)) b + 256 * E (k - (s + 1)) (b + 1)) % 256
    rw [Nat.add_mul_mod_self_left, Nat.mod_eq_of_lt (hE _ b)]
  rw [hlow]
  exact cstr_map_low hchars

/-- A long name of at most 19 parts is short enough to be compared. -/
theorem length_longName (E : Entries) (k m : ℕ) : (longName E k m).length ≤ 13 * m := by
  refine (List.takeWhile_sublist _).length_le.trans (le_of_eq ?_)
  induction m with
  | zero => rfl
  | succ m ih =>
    rw [List.range_succ, List.flatMap_append, List.length_append, ih, Nat.mul_succ]
    rfl

/-- **The first part of a long name**, as `GetLfn` tells it. -/
def PassesFor (E : Entries) (q k : ℕ) : Prop :=
  E q 13 = createLfnSum (E k) ∧ E q 11 &&& kAttrLongName = kAttrLongName ∧ E q 0 &&& 0x1f = 1

/-- An entry with a long name has its first part before it. -/
theorem LongParts.passesFor (h : LongParts E k m) : PassesFor E (k - 1) k := by
  obtain ⟨hsum, hattr, hseq, -⟩ := h.part h.pos
  exact ⟨hsum, hattr, hseq⟩

/-- **`GetLfn` finds no long name**, if what it sees before the entry is none of one. -/
theorem getLfn_none {q : ℕ} (hentry : ∀ b < dirSize, buf (dirSize * j + b) = E k b)
    (hseen : Seen buf prev_buf j 1 (E q)) (hq : ¬PassesFor E q k) :
    getLfn buf (dirSize * j) prev_buf = .ok none := by
  have hsum : createLfnSum (fun b => buf (dirSize * j + b)) = createLfnSum (E k) :=
    createLfnSum_congr hentry
  obtain ⟨lfn, hback, hlfn⟩ := lfnBack_seen hseen
  have hat : lfnAt j 0 = .cur (dirSize * j) := if_pos (Nat.zero_le j)
  rw [hat] at hback
  rw [getLfn, hsum, getLfnLoop, hback, Lib.ok_bind]
  dsimp only
  rw [if_pos]
  · rfl
  · rw [hlfn 13 (by decide), hlfn 11 (by decide), hlfn 0 (by decide)]
    by_contra hall
    push Not at hall
    exact hq hall

/-- Nor does it where there is nothing before the entry. -/
theorem getLfn_first (buf : ℕ → ℕ) : getLfn buf 0 none = .ok none := rfl

/-! ### Short names -/

/-- A character that is to be copied as it is, or as 0xE5 if it is the first. -/
def Char (entry : ℕ → ℕ) (i : ℕ) : Prop :=
  entry i ≠ ' '.toNat ∧ entry i ≠ 0 ∧ (entry i = kDirNameKanjiEntry → i = 0)

theorem getSfnLoop_congr {e e' : ℕ → ℕ} {gap left i : ℕ} (result : SfnBuf)
    (h : ∀ p < i + left, e p = e' p) :
    getSfnLoop e gap left i result = getSfnLoop e' gap left i result := by
  induction left generalizing i result with
  | zero => rfl
  | succ left ih =>
    rw [getSfnLoop, getSfnLoop, h i (by omega), ih _ fun p hp => h p (by omega)]

/-- `GetSfn` looks at the name of an entry only. -/
theorem getSfn_congr {e e' : ℕ → ℕ} (result : SfnBuf) (h : ∀ b < dirSize, e b = e' b) :
    getSfn e result = getSfn e' result := by
  have hlt : ∀ {p}, p < 11 → e p = e' p := fun hp => h _ (hp.trans (by decide))
  rw [getSfn, getSfn, hlt (p := 8) (by decide), getSfnLoop_congr result fun p hp => hlt (by omega),
    getSfnLoop_congr _ fun p hp => hlt (by omega)]

/-- What a loop of `GetSfn` leaves alone. -/
theorem getSfnLoop_of_not_mem {entry : ℕ → ℕ} {gap left i p : ℕ} (result : SfnBuf)
    (hp : p < i + gap ∨ i + left + gap ≤ p) : getSfnLoop entry gap left i result p = result p := by
  induction left generalizing i result with
  | zero => rfl
  | succ left ih =>
    have hne : p ≠ i + gap := by omega
    rw [getSfnLoop]
    split
    · exact Function.update_of_ne hne ..
    · rw [ih _ (by omega)]
      split
      · rw [Function.update_of_ne hne, Function.update_of_ne hne]
      · exact Function.update_of_ne hne ..

/-- What it copies, if there is no blank. -/
theorem getSfnLoop_of_mem {entry : ℕ → ℕ} {gap left i p : ℕ} (result : SfnBuf)
    (hchar : ∀ q, i ≤ q → q < i + left → entry q ≠ ' '.toNat) (hlo : i ≤ p) (hhi : p < i + left) :
    getSfnLoop entry gap left i result (p + gap) =
      if entry p = kDirNameKanjiEntry then 0xe5 else entry p := by
  induction left generalizing i result with
  | zero => exact absurd hhi (by omega)
  | succ left ih =>
    rw [getSfnLoop, if_neg (hchar i le_rfl (by omega))]
    rcases Nat.eq_or_lt_of_le hlo with rfl | hlt
    · rw [getSfnLoop_of_not_mem _ (by omega)]
      split
      · exact Function.update_self ..
      · exact Function.update_self ..
    · exact ih _ (fun q hq hq' => hchar q (by omega) (by omega)) hlt (by omega)

/-- What is at the place of the point if there is no extension. -/
theorem getSfn_eight {entry : ℕ → ℕ} (result : SfnBuf) (h : entry 8 = ' '.toNat) :
    getSfn entry result 8 = result 8 := by
  rw [getSfn, if_neg (not_not.mpr h), Function.update_of_ne (by decide)]
  exact getSfnLoop_of_not_mem _ (.inr (by decide))

/-- The eight characters of a name. -/
theorem getSfn_base {entry : ℕ → ℕ} (result : SfnBuf) (h : ∀ i < 8, Char entry i) {p : ℕ}
    (hp : p < 8) : getSfn entry result p = if p = 0 ∧ entry 0 = kDirNameKanjiEntry then 0xe5
      else entry p := by
  have hcopy : getSfnLoop entry 0 8 0 result (p + 0) = _ := getSfnLoop_of_mem result
    (fun q _ hq => (h q (by omega)).1) (Nat.zero_le p) (by omega)
  have hsame : (if entry p = kDirNameKanjiEntry then 0xe5 else entry p) =
      if p = 0 ∧ entry 0 = kDirNameKanjiEntry then 0xe5 else entry p := by
    refine if_congr ⟨fun he => ?_, fun he => he.1 ▸ he.2⟩ rfl rfl
    obtain rfl := (h p hp).2.2 he
    exact ⟨rfl, he⟩
  rw [← hsame, ← hcopy, getSfn, Function.update_of_ne (by omega)]
  split
  · rw [getSfnLoop_of_not_mem _ (.inl (by omega)), Function.update_of_ne (by omega)]
    rfl
  · rfl

/-- The string `GetSfn` returns. -/
def sfnString (result : SfnBuf) : List ℕ := (List.range 13).map result

/-- A field with no blank at its end is taken whole. -/
theorem rdropWhile_field {n : ℕ} {f : ℕ → ℕ} (h : f n ≠ ' '.toNat) :
    ((List.range (n + 1)).map f).rdropWhile (· = ' '.toNat) = (List.range (n + 1)).map f := by
  rw [List.range_succ, List.map_append, List.map_singleton,
    List.rdropWhile_concat_neg _ _ _ (by simpa using h)]

/-- The base of a short name that fills its field. -/
theorem sfnString_base {entry : ℕ → ℕ} (result : SfnBuf) (h : ∀ i < 8, Char entry i) :
    (List.range 8).map (getSfn entry result) = (List.range 8).map (fun i =>
      if i = 0 ∧ entry 0 = kDirNameKanjiEntry then 0xe5 else entry i) ∧
      ∀ c ∈ (List.range 8).map (getSfn entry result), c ≠ 0 := by
  have heq : (List.range 8).map (getSfn entry result) = (List.range 8).map (fun i =>
      if i = 0 ∧ entry 0 = kDirNameKanjiEntry then 0xe5 else entry i) :=
    List.map_congr_left fun i hi => getSfn_base result h (List.mem_range.mp hi)
  refine ⟨heq, fun c hc => ?_⟩
  rw [heq] at hc
  obtain ⟨i, hi, rfl⟩ := List.mem_map.mp hc
  split
  · decide
  · exact (h i (List.mem_range.mp hi)).2.1

/-- **`GetSfn` finds a short name** of eight characters and three. -/
theorem getSfn_full {entry : ℕ → ℕ} (result : SfnBuf) (h : ∀ i < 11, Char entry i) :
    cstr (sfnString (getSfn entry result)) = shortName entry := by
  have hbase := sfnString_base result fun i hi => h i (by omega)
  have hblank : entry 8 ≠ ' '.toNat := (h 8 (by decide)).1
  have hdot : getSfn entry result 8 = '.'.toNat := by
    rw [getSfn, if_pos hblank, Function.update_of_ne (by decide),
      getSfnLoop_of_not_mem _ (.inl (by decide)), Function.update_self]
  -- the extension is copied behind the dot, one place further on
  have hext : ∀ i < 3, getSfn entry result (9 + i) = entry (8 + i) := by
    intro i hi
    have hcopy : getSfnLoop entry 1 3 8
        (Function.update (getSfnLoop entry 0 8 0 result) 8 '.'.toNat) (8 + i + 1) = _ :=
      getSfnLoop_of_mem _ (fun q _ hq => (h q (by omega)).1) (Nat.le_add_right 8 i) (by omega)
    have hkanji : entry (8 + i) ≠ kDirNameKanjiEntry := fun he =>
      absurd ((h (8 + i) (by omega)).2.2 he) (by omega)
    have hplace : 8 + i + 1 = 9 + i := by omega
    rw [if_neg hkanji, hplace] at hcopy
    rw [getSfn, if_pos hblank, Function.update_of_ne (by omega)]
    exact hcopy
  have hend : getSfn entry result 12 = 0 := by
    rw [getSfn]
    exact Function.update_self ..
  have hstring : sfnString (getSfn entry result) = ((List.range 8).map (getSfn entry result) ++
      '.'.toNat :: (List.range 3).map fun i => entry (8 + i)) ++ [0] := by
    have h0 := hext 0 (by decide)
    have h1 := hext 1 (by decide)
    have h2 := hext 2 (by decide)
    simp only [sfnString, List.range_succ, List.range_zero, List.nil_append,
      List.map_cons, List.map_nil, List.cons_append]
    rw [hdot, hend, h0, h1, h2]
  -- no field of a full name has blanks to drop at its end
  have hshort : shortName entry = (List.range 8).map (getSfn entry result) ++
      '.'.toNat :: (List.range 3).map fun i => entry (8 + i) := by
    have hlast : entry 10 ≠ ' '.toNat := (h 10 (by decide)).1
    rw [shortName, rdropWhile_field (n := 2) (f := fun i => entry (8 + i)) hlast,
      rdropWhile_field (n := 7), hbase.1]
    · exact if_neg (by simp [List.range_succ])
    · exact (h 7 (by decide)).1
  rw [hstring, hshort]
  refine cstr_append_zero fun c hc => ?_
  rcases List.mem_append.mp hc with hc | hc
  · exact hbase.2 c hc
  · rcases List.mem_cons.mp hc with rfl | hc
    · decide
    · obtain ⟨i, hi, rfl⟩ := List.mem_map.mp hc
      have hi := List.mem_range.mp hi
      exact (h (8 + i) (by omega)).2.1

/-- **It finds one of eight characters** with no extension, if nothing is left at the place of the
point. -/
theorem getSfn_eight_only {entry : ℕ → ℕ} {result : SfnBuf} (h : ∀ i < 8, Char entry i)
    (hext : ∀ i < 3, entry (8 + i) = ' '.toNat) (hzero : result 8 = 0) :
    cstr (sfnString (getSfn entry result)) = shortName entry := by
  have hbase := sfnString_base result h
  have h8 : getSfn entry result 8 = 0 := (getSfn_eight result (hext 0 (by decide))).trans hzero
  have hstring : sfnString (getSfn entry result) =
      (List.range 8).map (getSfn entry result) ++ 0 :: (List.range 4).map
        fun i => getSfn entry result (9 + i) := by
    simp only [sfnString, List.range_succ, List.range_zero, List.nil_append,
      List.map_cons, List.map_nil, List.cons_append]
    rw [h8]
  have hshort : shortName entry = (List.range 8).map (getSfn entry result) := by
    have hblank : ((List.range 3).map fun i => entry (8 + i)).rdropWhile (· = ' '.toNat) = [] := by
      have hmap : (List.range 3).map (fun i => entry (8 + i)) =
          [' '.toNat, ' '.toNat, ' '.toNat] := by
        have h0 := hext 0 (by decide)
        have h1 := hext 1 (by decide)
        have h2 := hext 2 (by decide)
        simp only [List.range_succ, List.range_zero, List.nil_append,
          List.map_cons, List.map_nil, List.cons_append]
        rw [h0, h1, h2]
      rw [hmap]
      rfl
    rw [shortName, hblank, if_pos rfl, rdropWhile_field (n := 7), hbase.1]
    exact (h 7 (by decide)).1
  rw [hstring, hshort]
  exact cstr_append_zero hbase.2

end Fat32Fs

end Evisor
