import Mathlib.Data.Finmap
import Mathlib.Data.Finset.SDiff

/-!
# Go maps and loops that range over them

A Go map is a finite partial function without an order: `Finmap`.  The order in
which `for k := range m` meets the keys is unspecified and may differ from one
loop to the next, so a loop is only well defined as a function when its result
does not depend on that order.  `rangeKeys` asks for exactly this: the loop body
must be left commutative, and `rangeKeys_eq_foldl` then says that the value is
the one the loop computes in any order.

The rest of the file are the loops a program writes most often, those that put
one value under many keys, those that copy one map into another and those that add
elements to a set or take them out, with the lemma that says what they leave behind.
-/

namespace Kmon.Verified

universe u v w

/-- A Go `map[κ]ν`. -/
abbrev GoMap (κ : Type u) (ν : Type v) := Finmap (fun _ : κ => ν)

namespace GoMap

variable {κ : Type u} {ν : Type v} {σ : Type w} [DecidableEq κ]

theorem lookup_insert_ite (m : GoMap κ ν) (k k' : κ) (v : ν) :
    (m.insert k v).lookup k' = if k' = k then some v else m.lookup k' := by
  by_cases h : k' = k
  · subst h
    rw [if_pos rfl, Finmap.lookup_insert]
  · rw [if_neg h, Finmap.lookup_insert_of_ne _ h]

theorem lookup_erase_ite (m : GoMap κ ν) (k k' : κ) :
    (m.erase k).lookup k' = if k' = k then none else m.lookup k' := by
  by_cases h : k' = k
  · subst h
    rw [if_pos rfl, Finmap.lookup_erase]
  · rw [if_neg h, Finmap.lookup_erase_ne h]

theorem erase_insert (m : GoMap κ ν) (k : κ) (v : ν) : (m.insert k v).erase k = m.erase k := by
  refine Finmap.ext_lookup fun k' => ?_
  rw [lookup_erase_ite, lookup_erase_ite, lookup_insert_ite]
  by_cases h : k' = k
  · rw [if_pos h, if_pos h]
  · rw [if_neg h, if_neg h, if_neg h]

theorem erase_of_notMem {m : GoMap κ ν} {k : κ} (h : k ∉ m) : m.erase k = m := by
  refine Finmap.ext_lookup fun k' => ?_
  rw [lookup_erase_ite]
  by_cases hk : k' = k
  · rw [if_pos hk, hk, Finmap.lookup_eq_none.2 h]
  · rw [if_neg hk]

theorem mem_keys_iff {m : GoMap κ ν} {k : κ} :
    k ∈ m.keys ↔ ∃ v, m.lookup k = some v := by
  rw [Finmap.mem_keys, Finmap.mem_iff]

/-- Two maps that answer the same keys have the same keys. -/
theorem keys_eq_of_isSome {m m' : GoMap κ ν}
    (h : ∀ k, (m.lookup k).isSome = (m'.lookup k).isSome) : m.keys = m'.keys := by
  ext k
  rw [Finmap.mem_keys, Finmap.mem_keys, ← Finmap.lookup_isSome, ← Finmap.lookup_isSome, h]

/-! ## Ranging over a map -/

omit [DecidableEq κ] in
/-- `for k := range m { body }`, for a body whose effects commute. -/
def rangeKeys (m : GoMap κ ν) (body : κ → σ → σ) [LeftCommutative body]
    (s : σ) : σ :=
  m.keys.val.foldr body s

omit [DecidableEq κ] in
/-- The loop computes the same in whatever order it meets the keys. -/
theorem rangeKeys_eq_foldl (m : GoMap κ ν) (body : κ → σ → σ)
    [LeftCommutative body] (s : σ) {order : List κ}
    (h : (order : Multiset κ) = m.keys.val) :
    rangeKeys m body s = order.foldl (fun s k => body k s) s := by
  have hrev : ((order.reverse : List κ) : Multiset κ) = m.keys.val := by
    rw [← h]
    exact Multiset.coe_reverse order
  rw [rangeKeys, ← hrev, Multiset.coe_foldr, List.foldr_reverse]

/-- An order in which a loop over a map meets its keys, for loops whose outcome depends
on it. -/
structure RangeOrder (m : GoMap κ ν) where
  keys : List κ
  ranges : (keys : Multiset κ) = m.keys.val

omit [DecidableEq κ] in
theorem RangeOrder.nodup {m : GoMap κ ν} (order : RangeOrder m) : order.keys.Nodup := by
  rw [← Multiset.coe_nodup, order.ranges]
  exact m.keys.nodup

/-- The loop meets the keys of the map. -/
theorem RangeOrder.mem_keys_iff {m : GoMap κ ν} (order : RangeOrder m) {k : κ} :
    k ∈ order.keys ↔ ∃ v, m.lookup k = some v := by
  rw [← Multiset.mem_coe, order.ranges, Finset.mem_val, GoMap.mem_keys_iff]

/-! ## Putting one value under many keys -/

/-- `m[k] = v`, as the body of a loop over the keys. -/
def put (v : ν) (k : κ) (m : GoMap κ ν) : GoMap κ ν := m.insert k v

instance (v : ν) : LeftCommutative (put (κ := κ) v) where
  left_comm a b m := by
    by_cases h : a = b
    · rw [h]
    · exact Finmap.insert_insert_of_ne m (Ne.symm h)

theorem lookup_put (m : GoMap κ ν) (v : ν) (k k' : κ) :
    (put v k m).lookup k' = if k' = k then some v else m.lookup k' :=
  lookup_insert_ite m k k' v

/-- After the loop the keys it met hold the value and the others are as before. -/
theorem lookup_foldr_put (v : ν) (m : GoMap κ ν) (ks : Multiset κ) (k : κ) :
    (ks.foldr (put v) m).lookup k = if k ∈ ks then some v else m.lookup k := by
  induction ks using Multiset.induction with
  | empty => simp
  | cons a ks ih =>
      rw [Multiset.foldr_cons, lookup_put, ih]
      by_cases ha : k = a <;> simp [ha]

/-- `for _, k := range ks { m[k] = v }` over a slice. -/
def putAll (v : ν) (ks : List κ) (m : GoMap κ ν) : GoMap κ ν :=
  ks.foldl (fun m k => put v k m) m

theorem lookup_putAll (v : ν) (m : GoMap κ ν) (ks : List κ) (k : κ) :
    (putAll v ks m).lookup k = if k ∈ ks then some v else m.lookup k := by
  rw [putAll, ← Multiset.coe_foldr_swap, lookup_foldr_put]
  simp only [Multiset.mem_coe]

/-! ## Copying one map into another -/

section Copy

variable {ν' : Type w} (f : ν → ν') (src : GoMap κ ν)

/-- `m[k] = v`, as the body of a loop `for k, v := range src`. -/
def store (k : κ) (m : GoMap κ ν') : GoMap κ ν' :=
  match src.lookup k with
  | none => m
  | some v => m.insert k (f v)

theorem lookup_store (m : GoMap κ ν') (k k' : κ) :
    (store f src k m).lookup k' =
      if k' = k then ((src.lookup k').map f).or (m.lookup k') else m.lookup k' := by
  unfold store
  by_cases h : k' = k
  · subst h
    rw [if_pos rfl]
    cases src.lookup k' with
    | none => rfl
    | some v => exact Finmap.lookup_insert m
  · rw [if_neg h]
    cases src.lookup k with
    | none => rfl
    | some v => exact Finmap.lookup_insert_of_ne m h

instance : LeftCommutative (store f src) where
  left_comm a b m := by
    by_cases hab : a = b
    · rw [hab]
    · refine Finmap.ext_lookup fun k => ?_
      simp only [lookup_store]
      by_cases ha : k = a
      · have hb : k ≠ b := fun hb => hab (ha.symm.trans hb)
        simp only [if_pos ha, if_neg hb]
      · simp only [if_neg ha]

/-- `for k, v := range src { m[k] = v }`. -/
def copyInto (m : GoMap κ ν') : GoMap κ ν' := rangeKeys src (store f src) m

theorem lookup_foldr_store (m : GoMap κ ν') (ks : Multiset κ) (k : κ) :
    (ks.foldr (store f src) m).lookup k =
      if k ∈ ks then ((src.lookup k).map f).or (m.lookup k) else m.lookup k := by
  induction ks using Multiset.induction with
  | empty => rw [Multiset.foldr_zero, if_neg (Multiset.notMem_zero k)]
  | cons a ks ih =>
      rw [Multiset.foldr_cons, lookup_store, ih]
      by_cases ha : k = a
      · rw [if_pos ha, if_pos (Multiset.mem_cons.2 (.inl ha))]
        cases src.lookup k with
        | none => simp
        | some v => rfl
      · rw [if_neg ha]
        simp only [Multiset.mem_cons, or_iff_right ha]

/-- What was copied comes before what was there. -/
theorem lookup_copyInto (m : GoMap κ ν') (k : κ) :
    (copyInto f src m).lookup k = ((src.lookup k).map f).or (m.lookup k) := by
  rw [copyInto, rangeKeys, lookup_foldr_store]
  by_cases hmem : k ∈ src.keys.val
  · rw [if_pos hmem]
  · rw [if_neg hmem, Finmap.lookup_eq_none.2 fun h => hmem (Finmap.mem_keys.2 h)]
    rfl

end Copy

end GoMap

/-! ## Sets

A `map[κ]bool` of which only the keys are read is a set of keys. -/

namespace GoSet

variable {κ : Type u} [DecidableEq κ]

/-- `for _, k := range ks { delete(s, k) }`. -/
def deleteAll (ks : List κ) (s : Finset κ) : Finset κ :=
  ks.foldl (fun s k => s.erase k) s

theorem mem_deleteAll {ks : List κ} {s : Finset κ} {k : κ} :
    k ∈ deleteAll ks s ↔ k ∈ s ∧ k ∉ ks := by
  unfold deleteAll
  induction ks generalizing s with
  | nil => simp
  | cons a ks ih =>
      rw [List.foldl_cons, ih, Finset.mem_erase, List.mem_cons, not_or]
      tauto

end GoSet

end Kmon.Verified
