import Mathlib.Logic.Function.Basic

/-!
# Loops that write to an array

The loop `xs[dest i] = val i`, for the indices of a list in their order.  Nothing is asked
of `dest`: a loop may leave cells alone, and a loop that comes later may write to the cells
of an earlier one.
-/

namespace Kmon.Verified.Writes

universe u v w

variable {ι : Type u} {κ : Type v} {α : Type w} [DecidableEq κ]

/-- The array after `xs[dest i] = val i` for every index. -/
def fill (dest : ι → κ) (val : ι → α) : List ι → (κ → α) → κ → α
  | [], xs => xs
  | i :: is, xs => fill dest val is (Function.update xs (dest i) (val i))

variable {dest : ι → κ} {val : ι → α} {is : List ι} {xs ys : κ → α} {k : κ}

/-- A cell that no index is written to is left alone. -/
theorem fill_of_ne (h : ∀ i ∈ is, dest i ≠ k) : fill dest val is xs k = xs k := by
  induction is generalizing xs with
  | nil => rfl
  | cons i is ih =>
      have hi : k ≠ dest i := (h i List.mem_cons_self).symm
      rw [fill, ih fun j hj => h j (List.mem_cons_of_mem i hj), Function.update_of_ne hi]

/-- Cells that are written to have the value of their index, if there is only one. -/
theorem fill_dest (hdest : Function.Injective dest) {i : ι} (hi : i ∈ is) :
    fill dest val is xs (dest i) = val i := by
  induction is generalizing xs with
  | nil => cases hi
  | cons j is ih =>
      by_cases hlater : i ∈ is
      · exact ih hlater
      · obtain rfl : i = j := (List.mem_cons.1 hi).resolve_right hlater
        have hne : ∀ j ∈ is, dest j ≠ dest i := by
          intro j hj heq
          exact hlater (hdest heq ▸ hj)
        rw [fill, fill_of_ne hne, Function.update_self]

/-- What a written cell held before the loop does not matter. -/
theorem fill_congr (h : (∃ i ∈ is, dest i = k) ∨ xs k = ys k) :
    fill dest val is xs k = fill dest val is ys k := by
  induction is generalizing xs ys with
  | nil =>
      rcases h with ⟨i, hi, -⟩ | heq
      · cases hi
      · exact heq
  | cons j is ih =>
      apply ih
      by_cases hj : k = dest j
      · right
        rw [hj, Function.update_self, Function.update_self]
      · rw [Function.update_of_ne hj, Function.update_of_ne hj]
        apply h.imp_left
        rintro ⟨i, hi, rfl⟩
        have hne : i ≠ j := fun heq => hj (congrArg dest heq)
        exact ⟨i, (List.mem_cons.1 hi).resolve_left hne, rfl⟩

/-- A loop that follows another one with the same destinations erases it. -/
theorem fill_fill (val' : ι → α) :
    fill dest val' is (fill dest val is xs) = fill dest val' is xs := by
  funext k
  apply fill_congr
  by_cases hk : ∃ i ∈ is, dest i = k
  · exact .inl hk
  · exact .inr (fill_of_ne fun i hi heq => hk ⟨i, hi, heq⟩)

end Kmon.Verified.Writes
