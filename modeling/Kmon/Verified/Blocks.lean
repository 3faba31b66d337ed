import Mathlib.Data.List.Range

/-!
# Cutting a range into blocks

A loop that steps by `size` until it has passed `n` makes `number size n` rounds
(`lt_number_iff`), the last of which may reach over the end.  What the rounds cover is the
range itself, each block cut to what is left (`flatMap_range`).
-/

namespace Kmon.Verified.Blocks

universe u

/-- The blocks of a size that `n` elements take. -/
def number (size n : Nat) : Nat := (n + size - 1) / size

/-- A block is begun as long as there is something left for it. -/
theorem lt_number_iff {size : Nat} (hsize : 0 < size) (n k : Nat) :
    k < number size n ↔ size * k < n := by
  unfold number
  rw [Nat.lt_iff_add_one_le, Nat.le_div_iff_mul_le hsize, Nat.succ_mul, Nat.mul_comm k size]
  omega

theorem le_mul_number {size : Nat} (hsize : 0 < size) (n : Nat) : n ≤ size * number size n := by
  have hlast := lt_number_iff hsize n (number size n)
  omega

/-- No block reaches over the end if the size divides the range. -/
theorem mul_number_of_dvd {size n : Nat} (hsize : 0 < size) (h : size ∣ n) :
    size * number size n = n := by
  obtain ⟨k, rfl⟩ := h
  have hk : number size (size * k) = k := by
    apply Nat.le_antisymm
    · by_contra hlt
      exact Nat.lt_irrefl _ ((lt_number_iff hsize (size * k) k).1 (Nat.lt_of_not_le hlt))
    · exact Nat.le_of_mul_le_mul_left (le_mul_number hsize (size * k)) hsize
  rw [hk]

/-- **The blocks, each cut to what is left, cover the range once.** -/
theorem flatMap_range {α : Type u} (f : Nat → α) (size n m : Nat) :
    (List.range m).flatMap (fun k =>
        (List.range (min size (n - size * k))).map fun j => f (size * k + j)) =
      (List.range (min n (size * m))).map f := by
  induction m with
  | zero => rw [Nat.mul_zero, Nat.min_zero]; rfl
  | succ m ih =>
      have hsum : min n (size * (m + 1)) =
          min n (size * m) + min size (n - size * m) := by
        rw [Nat.mul_succ]
        omega
      rw [List.range_succ, List.flatMap_append, ih, List.flatMap_singleton, hsum, List.range_add,
        List.map_append, List.map_map]
      congr 1
      -- the block begins where the ones before it end, unless it is empty
      by_cases hover : size * m ≤ n
      · rw [Nat.min_eq_right hover]
        rfl
      · rw [Nat.sub_eq_zero_of_le (Nat.le_of_not_le hover), Nat.min_zero]
        rfl

end Kmon.Verified.Blocks
