import Mathlib.Algebra.BigOperators.Group.List.Basic
import Mathlib.Data.List.Basic

/-!
# Activities under way

A machine with any number of goroutines, calls or CPUs keeps a list of what is under
way.  A new one is put at its end.  One of them, at any index, finishes and is taken out of
the list, or makes a step and is put back in its place.  The lemmas say what that leaves of
the others: membership, how often something occurs, and the sum of a quantity over all of
them.
-/

namespace Kmon.Verified.Pool

universe u v

variable {α : Type u} {l : List α} {i : Nat} {a b : α}

/-! ## One is added -/

theorem getElem?_concat (hi : (l ++ [b])[i]? = some a) :
    l[i]? = some a ∨ i = l.length ∧ a = b := by
  rw [List.getElem?_append] at hi
  split at hi
  · exact .inl hi
  · rename_i hlen
    obtain ⟨hlt, heq⟩ := List.getElem?_eq_some_iff.1 hi
    rw [List.length_singleton] at hlt
    exact .inr ⟨by omega, by simpa using heq.symm⟩

/-! ## One is taken out -/

/-- What differs from the one that is taken out stays. -/
theorem mem_eraseIdx_of_ne (hi : l[i]? = some b) (ha : a ∈ l) (hne : a ≠ b) :
    a ∈ l.eraseIdx i := by
  obtain ⟨j, hj⟩ := List.mem_iff_getElem?.1 ha
  apply List.mem_eraseIdx_iff_getElem?.2
  refine ⟨j, ?_, hj⟩
  intro hij
  rw [hij, hi] at hj
  exact hne (Option.some.inj hj).symm

/-- One occurrence goes. -/
theorem count_eraseIdx [DecidableEq α] (hi : l[i]? = some a) (b : α) :
    l.count b = (l.eraseIdx i).count b + if a = b then 1 else 0 := by
  obtain ⟨hlt, rfl⟩ := List.getElem?_eq_some_iff.1 hi
  have hperm := (List.getElem_cons_eraseIdx_perm hlt).count_eq b
  rw [List.count_cons] at hperm
  simpa [beq_iff_eq] using hperm.symm

/-! ## One makes a step -/

/-- What differs from the one that makes the step stays. -/
theorem mem_set_of_ne (hi : l[i]? = some b) (ha : a ∈ l) (hne : a ≠ b) (b' : α) :
    a ∈ l.set i b' := by
  obtain ⟨j, hj⟩ := List.mem_iff_getElem?.1 ha
  have hij : i ≠ j := by
    intro hij
    rw [hij, hj] at hi
    exact hne (Option.some.inj hi)
  apply List.mem_of_getElem? (i := j)
  rw [List.getElem?_set_ne hij, hj]

/-- What the step keeps is as before for all. -/
theorem map_set_of_eq {β : Type v} (f : α → β) (hi : l[i]? = some b) {b' : α}
    (hf : f b' = f b) : (l.set i b').map f = l.map f := by
  have hget : (l.map f)[i]? = some (f b') := by
    rw [List.getElem?_map, hi, hf]
    rfl
  obtain ⟨hlt, heq⟩ := List.getElem?_eq_some_iff.1 hget
  rw [List.map_set, ← heq, List.set_getElem_self hlt]

/-- The others keep their shares of a sum. -/
theorem exists_sum_map_set {ν : Type v} [AddCommMonoid ν] (f : α → ν) (hi : l[i]? = some b)
    (b' : α) :
    ∃ rest, (l.map f).sum = f b + rest ∧ ((l.set i b').map f).sum = f b' + rest := by
  induction l generalizing i with
  | nil => cases hi
  | cons a l ih =>
      cases i with
      | zero =>
          cases hi
          exact ⟨(l.map f).sum, rfl, rfl⟩
      | succ i =>
          obtain ⟨rest, hsum, hset⟩ := ih hi
          refine ⟨f a + rest, ?_, ?_⟩
          · rw [List.map_cons, List.sum_cons, hsum, add_left_comm]
          · rw [List.set_cons_succ, List.map_cons, List.sum_cons, hset, add_left_comm]

end Kmon.Verified.Pool
