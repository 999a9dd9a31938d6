import Mathlib.Data.List.Perm.Subperm

/-!
# Blocks that a range covers in part

Addresses come in blocks of `b`, numbered from zero. Of a range of addresses, only the block where
it starts and the one where it ends can be covered in part, however many there are in between:
`Lib.Partly.eq_or_eq`. So a list of such blocks, without repetitions, has two of them at most
(`Lib.Partly.countP_le`).
-/

namespace Lib

/-- **A range covers a block in part**: of the addresses of block `i` there are some from `lo` up to
`hi`, and some that are not. -/
structure Partly (b lo hi i : ℕ) : Prop where
  starts : i * b < hi
  ends : lo < (i + 1) * b
  part : ¬(lo ≤ i * b ∧ (i + 1) * b ≤ hi)

variable {b c lo hi i k : ℕ}

/-- **It is the block where the range starts, or the one where it ends.** -/
theorem Partly.eq_or_eq (h : Partly b lo hi i) : i = lo / b ∨ i = (hi - 1) / b := by
  obtain ⟨hstarts, hends, hpart⟩ := h
  rw [Nat.succ_mul] at hends hpart
  have hb : 0 < b := by
    rcases Nat.eq_zero_or_pos b with rfl | hb
    · omega
    · exact hb
  rcases Nat.lt_or_ge (i * b) lo with hlo | hlo
  · exact .inl ((Nat.div_eq_iff hb).mpr ⟨Nat.le_of_lt hlo, by omega⟩).symm
  · exact .inr ((Nat.div_eq_iff hb).mpr ⟨by omega, by omega⟩).symm

/-- The block where a range starts is covered in part, unless it starts there as well and is covered
altogether. -/
theorem Partly.of_start (hb : 0 < b) (hlt : lo < hi) (h : ¬(b ∣ lo ∧ lo + b ≤ hi)) :
    Partly b lo hi (lo / b) := by
  have hle := Nat.div_mul_le_self lo b
  refine ⟨Nat.lt_of_le_of_lt hle hlt, ?_, fun hcovered => h ?_⟩
  · rw [Nat.succ_mul]
    exact Nat.lt_div_mul_add hb
  · rw [Nat.succ_mul] at hcovered
    have hstart : lo / b * b = lo := Nat.le_antisymm hle hcovered.1
    rw [hstart] at hcovered
    exact ⟨⟨lo / b, by rw [Nat.mul_comm, hstart]⟩, hcovered.2⟩

/-- A block that what is left of a range covers in part is one that the range does, if it goes on by
blocks at least as large, or by smaller ones where the block would not have been covered. -/
theorem Partly.of_add (h : Partly b (lo + c) hi i) (hc : c ∣ lo)
    (hb : b ∣ c ∨ c ∣ b ∧ ¬(b ∣ lo ∧ lo + b ≤ hi)) : Partly b lo hi i := by
  obtain ⟨hstarts, hends, hpart⟩ := h
  refine ⟨hstarts, by omega, fun hcovered => ?_⟩
  obtain ⟨hlo, hhi⟩ := hcovered
  have hlt : i * b < lo + c := Nat.lt_of_not_le fun hle => hpart ⟨hle, hhi⟩
  rcases hb with hbc | ⟨hcb, hnot⟩
  · -- what is left starts between the block and the next one
    obtain ⟨m, hm⟩ := Nat.dvd_add (Nat.dvd_trans hbc hc) hbc
    rw [hm, Nat.mul_comm b] at hlt hends
    have := Nat.lt_of_mul_lt_mul_right hlt
    have := Nat.lt_of_mul_lt_mul_right hends
    omega
  · -- the block starts where the range does
    have hdvd : c ∣ i * b - lo := Nat.dvd_sub (Nat.dvd_mul_left_of_dvd hcb i) hc
    have hzero := Nat.eq_zero_of_dvd_of_lt hdvd (by omega)
    have hstart : lo = i * b := by omega
    rw [Nat.succ_mul] at hhi
    exact hnot ⟨hstart ▸ Nat.dvd_mul_left .., by omega⟩

/-- **Two blocks of a size at most** are covered in part. -/
theorem Partly.countP_le {l : List (ℕ × ℕ)} (hl : l.Nodup)
    (h : ∀ c ∈ l, c.1 = k → Partly b lo hi c.2) : l.countP (fun c => c.1 = k) ≤ 2 := by
  rw [List.countP_eq_length_filter]
  have hsub : l.filter (fun c => c.1 = k) ⊆ [(k, lo / b), (k, (hi - 1) / b)] := by
    rintro ⟨j, i⟩ hc
    obtain ⟨hmem, hk⟩ := List.mem_filter.mp hc
    obtain rfl : j = k := of_decide_eq_true hk
    rcases (h _ hmem rfl).eq_or_eq with heq | heq
    · exact heq ▸ List.mem_cons_self
    · exact heq ▸ List.mem_cons_of_mem _ (List.mem_singleton_self _)
  exact (List.subperm_of_subset (hl.filter _) hsub).length_le

end Lib
