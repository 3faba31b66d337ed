import Mathlib.Data.List.Basic

/-!
# Go slices over shared backing arrays

A slice is a window on an array: the array, a length and a capacity.  `append`
writes in place while the capacity allows and otherwise moves to a new array;
`s[:0]` keeps the array.  Two slices may therefore share cells, and what one of
them reads depends on what was appended to the other.

`append_cells_of_ne` is the frame rule this comes down to: an append writes one
cell, the one just past the end of its slice, or a new array.
-/

namespace Kmon.Verified.GoSlice

universe u

variable {α : Type u}

/-- The arrays allocated so far.  A cell that was never written holds the zero
value, `none`. -/
structure Heap (α : Type u) where
  cells : Nat → Nat → Option α
  next : Nat

/-- No array yet. -/
def Heap.empty : Heap α := ⟨fun _ _ => none, 0⟩

/-- A slice header. -/
structure Slice where
  arr : Nat
  len : Nat
  cap : Nat
  len_le_cap : len ≤ cap
  deriving DecidableEq

/-- The nil slice. -/
def Slice.nil : Slice := ⟨0, 0, 0, Nat.le_refl 0⟩

/-- How `append` chooses the capacity of a new array; all that is promised is
that the new element fits. -/
structure Growth where
  newCap : Nat → Nat
  lt_newCap : ∀ n, n < newCap n

/-- The elements a slice shows. -/
def elements (h : Heap α) (s : Slice) : List (Option α) :=
  (List.range s.len).map (h.cells s.arr)

/-- `s[:0]`. -/
def truncate (s : Slice) : Slice := ⟨s.arr, 0, s.cap, Nat.zero_le _⟩

/-- `append(s, x)`. -/
def append (g : Growth) (h : Heap α) (s : Slice) (x : α) : Heap α × Slice :=
  if hlt : s.len < s.cap then
    ({ h with cells := fun a i => if a = s.arr ∧ i = s.len then some x else h.cells a i },
      ⟨s.arr, s.len + 1, s.cap, hlt⟩)
  else
    ({ cells := fun a i =>
        if a = h.next then
          if i < s.len then h.cells s.arr i else if i = s.len then some x else none
        else h.cells a i
       next := h.next + 1 },
      ⟨h.next, s.len + 1, g.newCap s.len, g.lt_newCap s.len⟩)

/-- A slice points into an allocated array, unless it has no room at all. -/
def Allocated (h : Heap α) (s : Slice) : Prop :=
  s.cap = 0 ∨ s.arr < h.next

section Append

variable (g : Growth) (h : Heap α) (s : Slice) (x : α)

@[simp] theorem append_len : (append g h s x).2.len = s.len + 1 := by
  unfold append
  split <;> rfl

theorem next_le_append : h.next ≤ (append g h s x).1.next := by
  unfold append
  split
  · exact Nat.le_refl _
  · exact Nat.le_succ _

theorem append_allocated (hs : Allocated h s) :
    (append g h s x).2.arr < (append g h s x).1.next := by
  unfold append
  split
  · rename_i hlt
    rcases hs with hcap | harr
    · omega
    · exact harr
  · exact Nat.lt_succ_self _

/-- In place, the cell just past the end gets the new element. -/
theorem append_cells_of_lt (hlt : s.len < s.cap) (a i : Nat) :
    (append g h s x).1.cells a i =
      if a = s.arr ∧ i = s.len then some x else h.cells a i := by
  unfold append
  rw [dif_pos hlt]

/-- Every other cell of an array that is already there keeps its content. -/
theorem append_cells_of_ne {a i : Nat} (ha : a < h.next)
    (hne : s.len < s.cap → ¬ (a = s.arr ∧ i = s.len)) :
    (append g h s x).1.cells a i = h.cells a i := by
  by_cases hlt : s.len < s.cap
  · rw [append_cells_of_lt g h s x hlt, if_neg (hne hlt)]
  · unfold append
    rw [dif_neg hlt]
    exact if_neg (Nat.ne_of_lt ha)

/-- The new slice shows the old elements and the new one. -/
theorem elements_append :
    elements (append g h s x).1 (append g h s x).2 = elements h s ++ [some x] := by
  rw [elements, append_len, List.range_succ, List.map_append, List.map_singleton, elements]
  congr 1
  · refine List.map_congr_left fun i hi => ?_
    have hi' : i < s.len := List.mem_range.1 hi
    unfold append
    split
    · exact if_neg fun h => Nat.ne_of_lt hi' h.2
    · simp [hi']
  · unfold append
    split <;> simp

/-- An append writes its element or leaves a cell as it is. -/
theorem append_cells_cases {a i : Nat} (ha : a < h.next) :
    (append g h s x).1.cells a i = some x ∧ a = s.arr ∧ i = s.len ∨
      (append g h s x).1.cells a i = h.cells a i := by
  by_cases hlt : s.len < s.cap
  · rw [append_cells_of_lt g h s x hlt]
    split
    · rename_i hcell
      exact .inl ⟨rfl, hcell⟩
    · exact .inr rfl
  · exact .inr (append_cells_of_ne g h s x ha fun h => absurd h hlt)

/-- What an array holds after an append is the new element, or was there before in the
array that it was copied from. -/
theorem append_cells_origin (a : Nat) : ∃ b, ∀ i y,
    (append g h s x).1.cells a i = some y → y = x ∧ i = s.len ∨ h.cells b i = some y := by
  by_cases hlt : s.len < s.cap
  · refine ⟨a, fun i y hy => ?_⟩
    rw [append_cells_of_lt g h s x hlt] at hy
    split at hy
    · rename_i hcell
      exact .inl ⟨(Option.some.inj hy).symm, hcell.2⟩
    · exact .inr hy
  · unfold append
    rw [dif_neg hlt]
    dsimp only
    by_cases ha : a = h.next
    · refine ⟨s.arr, fun i y hy => ?_⟩
      rw [if_pos ha] at hy
      split at hy
      · exact .inr hy
      · split at hy
        · rename_i hi
          exact .inl ⟨(Option.some.inj hy).symm, hi⟩
        · cases hy
    · refine ⟨a, fun i y hy => ?_⟩
      rw [if_neg ha] at hy
      exact .inr hy

end Append

/-- A slice of an array that is there, all of whose elements have been written. -/
structure Filled (h : Heap α) (s : Slice) : Prop where
  allocated : Allocated h s
  isSome : ∀ i < s.len, (h.cells s.arr i).isSome = true

theorem filled_nil (h : Heap α) : Filled h Slice.nil :=
  ⟨.inl rfl, fun _ hi => absurd hi (Nat.not_lt_zero _)⟩

variable {g : Growth} {h : Heap α} {s s' : Slice} {x : α}

/-- The array of a slice with an element is there. -/
theorem Filled.arr_lt (hs : Filled h s) {i : Nat} (hi : i < s.len) : s.arr < h.next := by
  have hcap := s.len_le_cap
  rcases hs.allocated with hzero | harr
  · omega
  · exact harr

/-- A property of slices that no append takes away: it stays with the others, and the new
slice has it from the old one. -/
structure Lasting (Q : Heap α → Slice → Prop) : Prop where
  after : ∀ {h s s'} g x, Q h s → Q h s' → Q (append g h s x).1 s'
  append : ∀ {h s} g x, Q h s → Q (append g h s x).1 (append g h s x).2

theorem Filled.after_append (hs : Filled h s') : Filled (append g h s x).1 s' := by
  constructor
  · exact hs.allocated.imp_right fun harr => Nat.lt_of_lt_of_le harr (next_le_append g h s x)
  · intro i hi
    rcases append_cells_cases g h s x (hs.arr_lt hi) with ⟨hcell, -⟩ | hcell
    · rw [hcell]
      rfl
    · rw [hcell]
      exact hs.isSome i hi

theorem Filled.append (hs : Filled h s) :
    Filled (GoSlice.append g h s x).1 (GoSlice.append g h s x).2 := by
  refine ⟨.inr (append_allocated g h s x hs.allocated), fun i hi => ?_⟩
  have hmem : (GoSlice.append g h s x).1.cells (GoSlice.append g h s x).2.arr i ∈
      elements (GoSlice.append g h s x).1 (GoSlice.append g h s x).2 :=
    List.mem_map_of_mem (List.mem_range.2 hi)
  rw [elements_append] at hmem
  rcases List.mem_append.1 hmem with hold | hnew
  · obtain ⟨j, hj, hcell⟩ := List.mem_map.1 hold
    rw [← hcell]
    exact hs.isSome j (List.mem_range.1 hj)
  · rw [List.mem_singleton.1 hnew]
    rfl

theorem lasting_filled : Lasting (Filled : Heap α → Slice → Prop) :=
  ⟨fun _ _ _ hs' => hs'.after_append, fun _ _ hs => hs.append⟩

/-- What `s` showed on the heap `h₀` is still there, and no append to `s'` can write over it. -/
structure Leaves (h₀ : Heap α) (s : Slice) (h : Heap α) (s' : Slice) : Prop where
  filled : Filled h s
  behind : s'.arr = s.arr → s.len ≤ s'.len
  same : ∀ i < s.len, h.cells s.arr i = h₀.cells s.arr i

theorem leaves_self (hs : Filled h s) : Leaves h s h s :=
  ⟨hs, fun _ => Nat.le_refl _, fun _ _ => rfl⟩

/-- An append behind the slice leaves its cells. -/
theorem Leaves.append_same {h₀ : Heap α} (hl : Leaves h₀ s h s') {i : Nat} (hi : i < s.len) :
    (GoSlice.append g h s' x).1.cells s.arr i = h₀.cells s.arr i := by
  rw [append_cells_of_ne g h s' x (hl.filled.arr_lt hi), hl.same i hi]
  rintro - ⟨harr, rfl⟩
  exact absurd hi (Nat.not_lt.2 (hl.behind harr.symm))

theorem lasting_leaves (h₀ : Heap α) (s : Slice) : Lasting (Leaves h₀ s) where
  after _ _ hl hl' :=
    ⟨hl'.filled.after_append, hl'.behind, fun _ hi => hl.append_same hi⟩
  append {h s'} g x hl := by
    refine ⟨hl.filled.after_append, fun harr => ?_, fun i hi => hl.append_same hi⟩
    rw [append_len]
    unfold GoSlice.append at harr
    split at harr
    · exact Nat.le_succ_of_le (hl.behind harr)
    · -- the new array is not the one of `s`, unless `s` shows nothing
      by_contra hlen
      have hlt := hl.filled.arr_lt (i := 0) (by omega)
      exact absurd harr (Nat.ne_of_gt hlt)

/-- No array has an element twice. -/
def Once (h : Heap α) : Prop := ∀ a i j y, h.cells a i = some y → h.cells a j = some y → i = j

/-- A new element leaves it so. -/
theorem Once.append (ho : Once h) (hnew : ∀ a i, h.cells a i ≠ some x) :
    Once (GoSlice.append g h s x).1 := by
  intro a i j y hi hj
  obtain ⟨b, horigin⟩ := append_cells_origin g h s x a
  rcases horigin i y hi with ⟨rfl, rfl⟩ | hold
  · rcases horigin j y hj with ⟨-, rfl⟩ | hold'
    · rfl
    · exact absurd hold' (hnew b j)
  · rcases horigin j y hj with ⟨rfl, -⟩ | hold'
    · exact absurd hold (hnew b i)
    · exact ho b i j y hold hold'

@[simp] theorem elements_length (h : Heap α) (s : Slice) :
    (elements h s).length = s.len := by
  simp [elements]

end Kmon.Verified.GoSlice
