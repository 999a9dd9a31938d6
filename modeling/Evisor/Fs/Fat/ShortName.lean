import Mathlib.Data.List.GetD
import Evisor.Fs.Fat.Name

/-!
# Short names and what came before them

`GetSfn` returns a static array. A name that fills its two fields overwrites all of it, and
is found whatever was there (`Evisor.Fat32Fs.getSfn_full`). Any other name is not: its padding is
copied along with it, the loop that meets a blank leaves the rest of the field as it was, and
with no extension the place of the point is not written at all. What is there comes from the
names of earlier calls, so that a name is found after every sequence of calls exactly when it
fills both fields (`Evisor.Fat32Fs.sfn_right_iff`).
-/

namespace Evisor

namespace Fat32Fs

/-- `result` of `GetSfn` after earlier calls: a static array is zero at the start. -/
def sfnAfter (earlier : List (ℕ → ℕ)) : SfnBuf :=
  earlier.foldl (fun result entry => getSfn entry result) fun _ => 0

/-- **The name of an entry is found**: the string `GetSfn` returns is the name, so that it
compares equal to the name and to nothing else. -/
def SfnRight (earlier : List (ℕ → ℕ)) (entry : ℕ → ℕ) : Prop :=
  cstr (sfnString (getSfn entry (sfnAfter earlier))) = shortName entry ∧
    ∀ filename : List ℕ, (∀ c ∈ filename, c ≠ 0) →
      (strncmp kFat32MaxFileNameSize filename (sfnString (getSfn entry (sfnAfter earlier))) = 0 ↔
        filename = shortName entry)

/-- There are no blanks in the name but those that pad it, and 0x05 is its first character
if it is one at all. -/
structure Plain (entry : ℕ → ℕ) : Prop where
  base : ∀ i < 7, entry i = ' '.toNat → entry (i + 1) = ' '.toNat
  ext : ∀ i < 2, entry (8 + i) = ' '.toNat → entry (9 + i) = ' '.toNat
  kanji : ∀ i < 11, entry i = kDirNameKanjiEntry → i = 0

/-! ### What the name is -/

/-- A field without its padding. -/
theorem rdropWhile_range (f : ℕ → ℕ) (k : ℕ) : ∃ n ≤ k,
    ((List.range k).map f).rdropWhile (· = ' '.toNat) = (List.range n).map f ∧
      (∀ i, n ≤ i → i < k → f i = ' '.toNat) ∧ (0 < n → f (n - 1) ≠ ' '.toNat) := by
  induction k with
  | zero => exact ⟨0, le_rfl, rfl, fun i _ hi => absurd hi (Nat.not_lt_zero i),
      fun h => absurd h (Nat.lt_irrefl 0)⟩
  | succ k ih =>
    by_cases hk : f k = ' '.toNat
    · obtain ⟨n, hn, heq, hpad, hlast⟩ := ih
      refine ⟨n, Nat.le_succ_of_le hn, ?_, fun i hi hik => ?_, hlast⟩
      · rw [List.range_succ, List.map_append, List.map_singleton,
          List.rdropWhile_concat_pos _ _ _ (by simpa using hk), heq]
      · rcases Nat.lt_succ_iff_lt_or_eq.mp hik with hlt | rfl
        · exact hpad i hi hlt
        · exact hk
    · exact ⟨k + 1, le_rfl, rdropWhile_field hk, fun i hi hik => absurd hik (by omega),
        fun _ => hk⟩

/-- **The fields of a name**: `n` characters and `m`, and then blanks. -/
structure Fields (entry : ℕ → ℕ) (n m : ℕ) : Prop where
  base_le : n ≤ 8
  ext_le : m ≤ 3
  base_pad : ∀ i, n ≤ i → i < 8 → entry i = ' '.toNat
  base_last : 0 < n → entry (n - 1) ≠ ' '.toNat
  ext_pad : ∀ i, m ≤ i → i < 3 → entry (8 + i) = ' '.toNat
  ext_last : 0 < m → entry (8 + (m - 1)) ≠ ' '.toNat
  name : shortName entry = (List.range n).map (fun i =>
    if i = 0 ∧ entry 0 = kDirNameKanjiEntry then 0xe5 else entry i) ++
      if m = 0 then [] else '.'.toNat :: (List.range m).map fun i => entry (8 + i)

/-- Every name has them. -/
theorem exists_fields (entry : ℕ → ℕ) : ∃ n m, Fields entry n m := by
  obtain ⟨n, hn, hbase, hpad, hlast⟩ := rdropWhile_range (fun i =>
    if i = 0 ∧ entry 0 = kDirNameKanjiEntry then 0xe5 else entry i) 8
  obtain ⟨m, hm, hext, hpad', hlast'⟩ := rdropWhile_range (fun i => entry (8 + i)) 3
  -- neither 0x05 nor what it stands for is a blank
  have hblank : ∀ i, (if i = 0 ∧ entry 0 = kDirNameKanjiEntry then 0xe5 else entry i) =
      ' '.toNat ↔ entry i = ' '.toNat := by
    intro i
    split_ifs with h
    · rw [h.1, h.2]
      decide
    · exact Iff.rfl
  refine ⟨n, m, hn, hm, fun i hi hi' => (hblank i).mp (hpad i hi hi'),
    fun hpos h => hlast hpos ((hblank _).mpr h), hpad', hlast', ?_⟩
  rw [shortName, hbase, hext]
  rcases Nat.eq_zero_or_pos m with rfl | hpos
  · simp
  · have hne : (List.range m).map (fun i => entry (8 + i)) ≠ [] := by
      rw [ne_eq, List.map_eq_nil_iff, List.range_eq_nil]
      omega
    rw [if_neg hne, if_neg hpos.ne']

section Characters

variable {entry : ℕ → ℕ} {n m : ℕ}

theorem Fields.length (h : Fields entry n m) :
    (shortName entry).length = if m = 0 then n else n + 1 + m := by
  rw [h.name, List.length_append, List.length_map, List.length_range]
  split
  · rfl
  · rw [List.length_cons, List.length_map, List.length_range]
    omega

theorem Fields.base_getD (h : Fields entry n m) {i : ℕ} (hi : i < n) :
    (shortName entry).getD i 0 =
      if i = 0 ∧ entry 0 = kDirNameKanjiEntry then 0xe5 else entry i := by
  rw [h.name, List.getD_append _ _ _ _ (by simpa using hi)]
  simp [hi]

/-- What comes after the base. -/
theorem Fields.dot_getD (h : Fields entry n m) :
    (shortName entry).getD n 0 = if m = 0 then 0 else '.'.toNat := by
  rw [h.name, List.getD_append_right _ _ _ _ (by simp), List.length_map, List.length_range,
    Nat.sub_self]
  split <;> rfl

theorem Fields.ext_getD (h : Fields entry n m) {i : ℕ} (hi : i < m) :
    (shortName entry).getD (n + 1 + i) 0 = entry (8 + i) := by
  have hplace : n + 1 + i - n = i + 1 := by omega
  rw [h.name, List.getD_append_right _ _ _ _ (by simp; omega), List.length_map,
    List.length_range, hplace, if_neg (by omega)]
  simp [hi]

/-- A string is read up to its end. -/
theorem cstr_getD {l : List ℕ} {i : ℕ} (hi : i ≤ (cstr l).length) :
    l.getD i 0 = (cstr l).getD i 0 := by
  induction l generalizing i with
  | nil => rfl
  | cons c l ih =>
    by_cases hc : c = 0
    · have hnil : cstr (c :: l) = [] := List.takeWhile_cons_of_neg (by simpa using hc)
      rw [hnil] at hi ⊢
      obtain rfl := Nat.le_zero.mp hi
      exact hc
    · have hcons : cstr (c :: l) = c :: cstr l := List.takeWhile_cons_of_pos (by simpa using hc)
      rw [hcons] at hi ⊢
      cases i with
      | zero => rfl
      | succ i => exact ih (Nat.le_of_succ_le_succ hi)

/-- **A name that is found** is what the array holds, up to its end. -/
theorem SfnRight.getD {earlier : List (ℕ → ℕ)} (h : SfnRight earlier entry) {i : ℕ}
    (hi : i ≤ (shortName entry).length) (hlt : i < 13) :
    getSfn entry (sfnAfter earlier) i = (shortName entry).getD i 0 := by
  have hget : (sfnString (getSfn entry (sfnAfter earlier))).getD i 0 =
      getSfn entry (sfnAfter earlier) i := by
    simp [sfnString, hlt]
  rw [← hget, cstr_getD (by rwa [h.1]), h.1]

/-! ### What `GetSfn` leaves -/

/-- **The first blank of a field ends the loop**: it is copied, and what comes after it stays
as it was. -/
theorem getSfnLoop_blank {gap left i p : ℕ} (result : SfnBuf) (hlo : i ≤ p) (hhi : p < i + left)
    (hchar : ∀ q, i ≤ q → q < p → entry q ≠ ' '.toNat) (hp : entry p = ' '.toNat) :
    getSfnLoop entry gap left i result (p + gap) = ' '.toNat ∧
      ∀ q, p < q → getSfnLoop entry gap left i result (q + gap) = result (q + gap) := by
  induction left generalizing i result with
  | zero => exact absurd hhi (by omega)
  | succ left ih =>
    rw [getSfnLoop]
    rcases Nat.eq_or_lt_of_le hlo with rfl | hlt
    · rw [if_pos hp]
      refine ⟨(Function.update_self ..).trans hp, fun q hq => ?_⟩
      exact Function.update_of_ne (by omega) ..
    · rw [if_neg (hchar i le_rfl hlt)]
      have hrest := fun r => ih (i := i + 1) r hlt (by omega) fun q hq hq' => hchar q (by omega) hq'
      refine ⟨(hrest _).1, fun q hq => ((hrest _).2 q hq).trans ?_⟩
      have hne : q + gap ≠ i + gap := by omega
      split
      · rw [Function.update_of_ne hne, Function.update_of_ne hne]
      · exact Function.update_of_ne hne ..

/-- What the array has where the base goes. -/
theorem getSfn_of_lt (result : SfnBuf) {p : ℕ} (hp : p < 8) :
    getSfn entry result p = getSfnLoop entry 0 8 0 result p := by
  rw [getSfn, Function.update_of_ne (by omega)]
  split
  · rw [getSfnLoop_of_not_mem _ (.inl (by omega)), Function.update_of_ne (by omega)]
  · rfl

/-- What it has at the place of the point. -/
theorem getSfn_eight_eq (entry : ℕ → ℕ) (result : SfnBuf) :
    getSfn entry result 8 = if entry 8 = ' '.toNat then result 8 else '.'.toNat := by
  by_cases h : entry 8 = ' '.toNat
  · rw [if_pos h, getSfn_eight result h]
  · rw [if_neg h, getSfn, if_pos h, Function.update_of_ne (by decide),
      getSfnLoop_of_not_mem _ (.inl (by decide)), Function.update_self]

/-- What it has where the extension goes, if there is one. -/
theorem getSfn_of_gt (result : SfnBuf) (h : entry 8 ≠ ' '.toNat) {p : ℕ} (hlo : 8 ≤ p)
    (hhi : p < 11) : getSfn entry result (p + 1) = getSfnLoop entry 1 3 8
      (Function.update (getSfnLoop entry 0 8 0 result) 8 '.'.toNat) (p + 1) := by
  rw [getSfn, if_pos h, Function.update_of_ne (by omega)]

/-- **A blank in the base** is copied, and what comes after it is what was there. -/
theorem getSfn_base_blank (result : SfnBuf) {p : ℕ} (hp : p < 8) (hblank : entry p = ' '.toNat)
    (hchar : ∀ q < p, entry q ≠ ' '.toNat) :
    getSfn entry result p = ' '.toNat ∧
      ∀ q, p < q → q < 8 → getSfn entry result q = result q := by
  obtain ⟨hcopy, hrest⟩ : getSfnLoop entry 0 8 0 result p = _ ∧ _ :=
    getSfnLoop_blank result (Nat.zero_le p) (by omega) (fun q _ hq => hchar q hq) hblank
  exact ⟨(getSfn_of_lt result hp).trans hcopy,
    fun q hq hlt => (getSfn_of_lt result hlt).trans (hrest q hq)⟩

/-- **A blank in the extension** is, too. -/
theorem getSfn_ext_blank (result : SfnBuf) {p : ℕ} (hlo : 8 < p) (hhi : p < 11)
    (hblank : entry p = ' '.toNat) (hchar : ∀ q, 8 ≤ q → q < p → entry q ≠ ' '.toNat) :
    getSfn entry result (p + 1) = ' '.toNat ∧
      ∀ q, p < q → q < 11 → getSfn entry result (q + 1) = result (q + 1) := by
  have h8 := hchar 8 le_rfl hlo
  obtain ⟨hcopy, hrest⟩ : getSfnLoop entry 1 3 8
      (Function.update (getSfnLoop entry 0 8 0 result) 8 '.'.toNat) (p + 1) = _ ∧ _ :=
    getSfnLoop_blank _ hlo.le (by omega) hchar hblank
  refine ⟨(getSfn_of_gt result h8 hlo.le hhi).trans hcopy, fun q hq hlt => ?_⟩
  rw [getSfn_of_gt result h8 (by omega) hlt, hrest q hq, Function.update_of_ne (by omega),
    getSfnLoop_of_not_mem _ (.inr (by omega))]

/-- **What is left at the place of the point** is nothing exactly if no name before had an
extension. -/
theorem sfnAfter_eight (earlier : List (ℕ → ℕ)) :
    sfnAfter earlier 8 = if ∀ e ∈ earlier, e 8 = ' '.toNat then 0 else '.'.toNat := by
  have hfold : ∀ result : SfnBuf, earlier.foldl (fun result entry => getSfn entry result) result 8 =
      if ∀ e ∈ earlier, e 8 = ' '.toNat then result 8 else '.'.toNat := by
    induction earlier with
    | nil => exact fun result => (if_pos (by simp)).symm
    | cons e earlier ih =>
      intro result
      rw [List.foldl_cons, ih, getSfn_eight_eq]
      simp only [List.forall_mem_cons]
      by_cases he : e 8 = ' '.toNat
      · simp only [he, true_and, if_true]
      · simp only [he, false_and, if_false, ite_self]
  exact hfold _

/-- A name that consists of one character leaves it everywhere but at the place of the
point. -/
theorem sfnAfter_same {c : ℕ} (hc : c ≠ ' '.toNat) (hkanji : c ≠ kDirNameKanjiEntry) {p : ℕ}
    (hp : p < 12) (h8 : p ≠ 8) : sfnAfter [fun _ => c] p = c := by
  rw [sfnAfter, List.foldl_cons, List.foldl_nil]
  rcases Nat.lt_or_ge p 8 with hlt | hge
  · rw [getSfn_of_lt _ hlt, ← Nat.add_zero p, getSfnLoop_of_mem _ (fun _ _ _ => hc) (Nat.zero_le p)
      (by omega), if_neg hkanji]
  · obtain ⟨q, rfl⟩ : ∃ q, p = q + 1 := ⟨p - 1, by omega⟩
    rw [getSfn_of_gt _ hc (by omega) (by omega), getSfnLoop_of_mem _ (fun _ _ _ => hc) (by omega)
      (by omega), if_neg hkanji]

/-- Some name leaves something else than a given character. -/
theorem exists_sfnAfter_ne (c : ℕ) : ∃ earlier, sfnAfter earlier 8 = '.'.toNat ∧
    ∀ p < 12, p ≠ 8 → sfnAfter earlier p ≠ c := by
  obtain ⟨d, hd, hkanji, hdc⟩ : ∃ d, d ≠ ' '.toNat ∧ d ≠ kDirNameKanjiEntry ∧ d ≠ c := by
    by_cases hc : c = 'X'.toNat
    · exact ⟨'Y'.toNat, by decide, by decide, by rw [hc]; decide⟩
    · exact ⟨'X'.toNat, by decide, by decide, Ne.symm hc⟩
  refine ⟨[fun _ => d], ?_, fun p hp h8 => by rwa [sfnAfter_same hd hkanji hp h8]⟩
  rw [sfnAfter_eight, if_neg]
  exact fun h => hd (h _ List.mem_cons_self)

/-! ### Names that are found -/

variable {earlier : List (ℕ → ℕ)}

/-- **The base of a name that is found** has no blank that pads it, and what comes after a
blank inside was there before. -/
theorem SfnRight.base_blank (h : SfnRight earlier entry) (hf : Fields entry n m) {p : ℕ}
    (hp : p < 8) (hblank : entry p = ' '.toNat) (hchar : ∀ q < p, entry q ≠ ' '.toNat) :
    p + 1 < n ∧ sfnAfter earlier (p + 1) = entry (p + 1) := by
  have hlen := hf.length
  have hle := hf.base_le
  obtain ⟨hcopy, hrest⟩ := getSfn_base_blank (sfnAfter earlier) hp hblank hchar
  have hpn : p ≤ n := by
    by_contra hlt
    exact hchar n (by omega) (hf.base_pad n le_rfl (by omega))
  have hne : p ≠ n := by
    rintro rfl
    have hget := h.getD (i := p) (by split at hlen <;> omega) (by omega)
    rw [hcopy, hf.dot_getD] at hget
    split at hget <;> exact absurd hget (by decide)
  have hlast : p ≠ n - 1 := by
    rintro rfl
    exact hf.base_last (by omega) hblank
  refine ⟨by omega, ?_⟩
  have hget := h.getD (i := p + 1) (by split at hlen <;> omega) (by omega)
  rw [hrest _ (Nat.lt_succ_self p) (by omega), hf.base_getD (by omega), if_neg (by omega)] at hget
  exact hget

/-- If it has no extension then nothing is left at the place of the point. -/
theorem SfnRight.eight (h : SfnRight earlier entry) (hf : Fields entry 8 m)
    (hblank : entry 8 = ' '.toNat) : sfnAfter earlier 8 = if m = 0 then 0 else '.'.toNat := by
  have hlen := hf.length
  have hget := h.getD (i := 8) (by split at hlen <;> omega) (by decide)
  rwa [getSfn_eight _ hblank, hf.dot_getD] at hget

/-- **Nor has its extension**, and what comes after a blank inside was there before. -/
theorem SfnRight.ext_blank (h : SfnRight earlier entry) (hf : Fields entry 8 m) {p : ℕ}
    (hlo : 8 < p) (hhi : p < 11) (hblank : entry p = ' '.toNat)
    (hchar : ∀ q, 8 ≤ q → q < p → entry q ≠ ' '.toNat) :
    p < 7 + m ∧ sfnAfter earlier (p + 2) = entry (p + 1) := by
  have hlen := hf.length
  have hle := hf.ext_le
  obtain ⟨hcopy, hrest⟩ := getSfn_ext_blank (sfnAfter earlier) hlo hhi hblank hchar
  have hpm : p ≤ 8 + m := by
    by_contra hlt
    exact hchar (8 + m) (by omega) (by omega) (hf.ext_pad m le_rfl (by omega))
  rw [if_neg (by omega)] at hlen
  have hne : p ≠ 8 + m := by
    rintro rfl
    have hget := h.getD (i := 8 + m + 1) (by omega) (by omega)
    rw [hcopy, List.getD_eq_default _ _ (by omega)] at hget
    exact absurd hget (by decide)
  have hlast : p ≠ 8 + (m - 1) := by
    rintro rfl
    exact hf.ext_last (by omega) hblank
  refine ⟨by omega, ?_⟩
  have hget := h.getD (i := p + 2) (by omega) (by omega)
  obtain ⟨i, rfl⟩ : ∃ i, p = 7 + i := ⟨p - 7, by omega⟩
  have hext := hf.ext_getD (i := i) (by omega)
  rw [hrest _ (Nat.lt_succ_self _) (by omega), show 7 + i + 2 = 8 + 1 + i by omega, hext] at hget
  rw [show 7 + i + 2 = 8 + 1 + i by omega, hget]
  congr 1
  omega

/-- **Its first character alone** may be 0x05. -/
theorem SfnRight.kanji (h : SfnRight earlier entry) (hf : Fields entry 8 3)
    (hchar : ∀ i < 11, entry i ≠ ' '.toNat) {p : ℕ} (hp : p < 11)
    (hkanji : entry p = kDirNameKanjiEntry) : p = 0 := by
  have hlen : (shortName entry).length = 12 := hf.length
  by_contra hpos
  rcases Nat.lt_or_ge p 8 with hlt | hge
  · have hget := h.getD (i := p) (by omega) (by omega)
    have hcopy : getSfnLoop entry 0 8 0 (sfnAfter earlier) (p + 0) = _ :=
      getSfnLoop_of_mem _ (fun q _ hq => hchar q (by omega)) (Nat.zero_le p) (by omega)
    rw [getSfn_of_lt _ hlt, hf.base_getD hlt, if_neg (by omega)] at hget
    rw [if_pos hkanji, Nat.add_zero, hget, hkanji] at hcopy
    exact absurd hcopy (by decide)
  · have hget := h.getD (i := p + 1) (by omega) (by omega)
    have hext := hf.ext_getD (i := p - 8) (by omega)
    rw [show 8 + 1 + (p - 8) = p + 1 by omega, show 8 + (p - 8) = p by omega] at hext
    rw [getSfn_of_gt _ (hchar 8 (by decide)) hge hp, getSfnLoop_of_mem _
      (fun q _ hq => hchar q (by omega)) hge (by omega), if_pos hkanji, hext, hkanji] at hget
    exact absurd hget (by decide)

/-- A string that is the name compares equal to the name. -/
theorem sfnRight_of_eq
    (h : cstr (sfnString (getSfn entry (sfnAfter earlier))) = shortName entry) :
    SfnRight earlier entry := by
  refine ⟨h, fun filename hname => ?_⟩
  have hlen : (cstr (sfnString (getSfn entry (sfnAfter earlier)))).length ≤ 13 :=
    (List.takeWhile_sublist _).length_le.trans (by simp [sfnString])
  rw [strncmp_eq_zero_iff hname (by rw [kFat32MaxFileNameSize]; omega), h]

/-- A name that is found after names of all kinds has no blanks in its base. -/
theorem base_of_right (h : ∀ earlier, SfnRight earlier entry) (hf : Fields entry n m) :
    ∀ p < 8, entry p ≠ ' '.toNat := by
  intro p
  induction p using Nat.strong_induction_on with
  | _ p ih =>
    intro hp hblank
    obtain ⟨earlier, -, hne⟩ := exists_sfnAfter_ne (entry (p + 1))
    obtain ⟨hlt, heq⟩ := (h earlier).base_blank hf hp hblank fun q hq => ih q hq (by omega)
    have hle := hf.base_le
    exact hne (p + 1) (by omega) (by omega) heq

/-- Nor in its extension. -/
theorem ext_of_right (h : ∀ earlier, SfnRight earlier entry) (hf : Fields entry 8 m) :
    ∀ p, 8 ≤ p → p < 11 → entry p ≠ ' '.toNat := by
  intro p
  induction p using Nat.strong_induction_on with
  | _ p ih =>
    intro hlo hp hblank
    rcases Nat.eq_or_lt_of_le hlo with rfl | hlt
    · have hnone := (h []).eight hf hblank
      obtain ⟨earlier, hdot, -⟩ := exists_sfnAfter_ne 0
      have hsome := (h earlier).eight hf hblank
      rw [hdot, ← hnone] at hsome
      exact absurd hsome (by decide)
    · obtain ⟨earlier, -, hne⟩ := exists_sfnAfter_ne (entry (p + 1))
      obtain ⟨hpm, heq⟩ := (h earlier).ext_blank hf hlt hp hblank fun q hq hq' =>
        ih q hq' hq (by omega)
      have hle := hf.ext_le
      exact hne (p + 2) (by omega) (by omega) heq

/-- The base fills its field if there is no blank in the field. -/
theorem Fields.base_eq (hf : Fields entry n m) (h : entry 7 ≠ ' '.toNat) : n = 8 := by
  have hle := hf.base_le
  by_contra hne
  exact h (hf.base_pad 7 (by omega) (by decide))

theorem Fields.ext_eq (hf : Fields entry n m) (h : entry 10 ≠ ' '.toNat) : m = 3 := by
  have hle := hf.ext_le
  by_contra hne
  exact h (hf.ext_pad 2 (by omega) (by decide))

/-- After a blank there are only blanks. -/
theorem Plain.base_le (h : Plain entry) {p q : ℕ} (hpq : p ≤ q) (hq : q < 8)
    (hp : entry p = ' '.toNat) : entry q = ' '.toNat := by
  induction q, hpq using Nat.le_induction with
  | base => exact hp
  | succ q _ ih => exact h.base q (by omega) (ih (by omega))

theorem Plain.ext_le (h : Plain entry) {p q : ℕ} (hpq : p ≤ q) (hq : q < 3)
    (hp : entry (8 + p) = ' '.toNat) : entry (8 + q) = ' '.toNat := by
  induction q, hpq using Nat.le_induction with
  | base => exact hp
  | succ q _ ih =>
    have hnext := h.ext q (by omega) (ih (by omega))
    rwa [show 8 + (q + 1) = 9 + q by omega]

/-- A name without odd blanks that is found fills its base, and its extension unless there
is none. -/
theorem SfnRight.of_plain (h : SfnRight earlier entry) (hplain : Plain entry) :
    entry 7 ≠ ' '.toNat ∧
      (entry 10 ≠ ' '.toNat ∨ entry 8 = ' '.toNat ∧ ∀ e ∈ earlier, e 8 = ' '.toNat) := by
  obtain ⟨n, m, hf⟩ := exists_fields entry
  have hbase : ∀ p < 8, entry p ≠ ' '.toNat := by
    intro p
    induction p using Nat.strong_induction_on with
    | _ p ih =>
      intro hp hblank
      have hlt := (h.base_blank hf hp hblank fun q hq => ih q hq (by omega)).1
      have hle := hf.base_le
      exact hf.base_last (by omega) (hplain.base_le (by omega) (by omega) hblank)
  obtain rfl := hf.base_eq (hbase 7 (by decide))
  have hle := hf.ext_le
  refine ⟨hbase 7 (by decide), ?_⟩
  by_cases h8 : entry 8 = ' '.toNat
  · have hm : m = 0 := by
      by_contra hne
      exact hf.ext_last (by omega) (hplain.ext_le (p := 0) (Nat.zero_le _) (by omega) h8)
    -- without an extension nothing puts a dot there, so an earlier name must not have done so
    have hafter := h.eight hf h8
    rw [sfnAfter_eight, if_pos hm] at hafter
    refine .inr ⟨h8, ?_⟩
    by_contra hne
    rw [if_neg hne] at hafter
    exact absurd hafter (by decide)
  · refine .inl fun h10 => ?_
    by_cases h9 : entry 9 = ' '.toNat
    · have hlt := (h.ext_blank hf (p := 9) (by decide) (by decide) h9 fun q hq hq' => by
        obtain rfl : q = 8 := by omega
        exact h8).1
      exact hf.ext_last (by omega) (hplain.ext_le (p := 1) (by omega) (by omega) h9)
    -- behind a blank there has to be more of the extension, but this is its third character
    · have hlt := (h.ext_blank hf (p := 10) (by decide) (by decide) h10 fun q hq hq' => by
        obtain rfl | rfl : q = 8 ∨ q = 9 := by omega
        · exact h8
        · exact h9).1
      omega

/-- A name that does is found. -/
theorem sfnRight_of_plain (hpos : ∀ i < 11, entry i ≠ 0) (hplain : Plain entry)
    (h7 : entry 7 ≠ ' '.toNat)
    (hext : entry 10 ≠ ' '.toNat ∨ entry 8 = ' '.toNat ∧ ∀ e ∈ earlier, e 8 = ' '.toNat) :
    SfnRight earlier entry := by
  have hbase : ∀ i < 8, Char entry i := fun i hi => ⟨fun hi' =>
    h7 (hplain.base_le (by omega) (by decide) hi'), hpos i (by omega), hplain.kanji i (by omega)⟩
  refine sfnRight_of_eq ?_
  rcases hext with h10 | ⟨h8, hall⟩
  · refine getSfn_full _ fun i hi => ?_
    rcases Nat.lt_or_ge i 8 with hlt | hge
    · exact hbase i hlt
    · obtain ⟨k, rfl⟩ := Nat.exists_eq_add_of_le hge
      exact ⟨fun hk => h10 (hplain.ext_le (p := k) (q := 2) (by omega) (by decide) hk),
        hpos _ hi, hplain.kanji _ hi⟩
  · refine getSfn_eight_only hbase
      (fun i hi => hplain.ext_le (p := 0) (Nat.zero_le i) hi h8) ?_
    rw [sfnAfter_eight, if_pos hall]

/-- **A short name is found after every sequence of calls** exactly if it fills its two
fields, with no blank, and 0x05 stands nowhere but at its start. If there are no blanks but
those that pad it, and no 0x05 but at its start, then it is found after a given sequence
exactly if it fills its base, and either fills its extension or has none, like all the names
before it. -/
theorem sfn_right_iff (hpos : ∀ i < 11, entry i ≠ 0) :
    ((∀ earlier, SfnRight earlier entry) ↔ ∀ i < 11, Char entry i) ∧
    (Plain entry → ∀ earlier, SfnRight earlier entry ↔ entry 7 ≠ ' '.toNat ∧
      (entry 10 ≠ ' '.toNat ∨ entry 8 = ' '.toNat ∧ ∀ e ∈ earlier, e 8 = ' '.toNat)) := by
  obtain ⟨n, m, hf⟩ := exists_fields entry
  refine ⟨⟨fun h => ?_, fun h earlier => sfnRight_of_eq (getSfn_full _ h)⟩,
    fun hplain earlier => ⟨fun h => h.of_plain hplain,
      fun h => sfnRight_of_plain hpos hplain h.1 h.2⟩⟩
  have hbase := base_of_right h hf
  obtain rfl := hf.base_eq (hbase 7 (by decide))
  have hext := ext_of_right h hf
  obtain rfl := hf.ext_eq (hext 10 (by decide) (by decide))
  have hchar : ∀ i < 11, entry i ≠ ' '.toNat := by
    intro i hi
    rcases Nat.lt_or_ge i 8 with hlt | hge
    · exact hbase i hlt
    · exact hext i hge hi
  exact fun i hi => ⟨hchar i hi, hpos i hi, (h []).kanji hf hchar hi⟩

/-- The bytes of `A.TXT`, in their fields. -/
def aTxt : ℕ → ℕ := fun i =>
  [65, 32, 32, 32, 32, 32, 32, 32, 84, 88, 84].getD i 0

/-- The bytes of `README88.TXT`. -/
def readme88Txt : ℕ → ℕ := fun i =>
  [82, 69, 65, 68, 77, 69, 56, 56, 84, 88, 84].getD i 0

theorem sfn_right_iff_readme : SfnRight [aTxt] readme88Txt :=
  (sfn_right_iff (by decide : ∀ i < 11, readme88Txt i ≠ 0)).1.mpr
    (by simp only [Char]; decide) [aTxt]

/-- **A short base** is not found, even by the first call. -/
theorem short_base_not_found :
    (∀ i < 11, aTxt i ≠ 0) ∧ shortName aTxt = [65, 46, 84, 88, 84] ∧
      cstr (sfnString (getSfn aTxt (sfnAfter []))) = [65, 32] ∧ ¬SfnRight [] aTxt := by
  have hshort : shortName aTxt = [65, 46, 84, 88, 84] := by decide
  have hstring : cstr (sfnString (getSfn aTxt (sfnAfter []))) = [65, 32] := by decide
  refine ⟨by decide, hshort, hstring, fun h => ?_⟩
  exact absurd (hstring.symm.trans (h.1.trans hshort)) (by decide)

end Characters

end Fat32Fs

end Evisor
