import Kmon.Verified.GoMap

/-!
# Hash tables whose elements are replaced

A lookup in a hash table of the kernel returns a pointer into the element that
holds the value of the key, and a program adds to the value through the pointer.
An update does not touch that element: it puts a copy of the new value into
another one and hangs it in its place.  A pointer that was taken before still
works, but what is added through it no longer reaches the table.

A table is here the element of each key and the memory of all elements, those
included that are in no table any more.  Two keys never share an element.
Without its elements it is a map (`values`).  `values_modify`, `values_put` and
`values_erase` say what an addition, an update and a deletion do to the map; the first
asks that the element is still the one of its key.
-/

namespace Kmon.Verified

universe u v

/-- A pointer to a value is the number of the element the value lies in. -/
abbrev Elem := Nat

/-- A hash table with the memory of its elements. -/
structure ElementTable (κ : Type u) (ν : Type v) [DecidableEq κ] where
  slot : GoMap κ Elem
  mem : Elem → ν
  slot_inj : ∀ {k k' : κ} {e : Elem},
    slot.lookup k = some e → slot.lookup k' = some e → k = k'

namespace ElementTable

variable {κ : Type u} {ν : Type v} [DecidableEq κ] {t : ElementTable κ ν} {k k' : κ} {e : Elem}

/-- A table without keys. -/
def empty [Zero ν] : ElementTable κ ν where
  slot := ∅
  mem := fun _ => 0
  slot_inj := fun h => by cases h

/-- The element of a key, if it has one. -/
def lookup (t : ElementTable κ ν) (k : κ) : Option Elem := t.slot.lookup k

/-- An element that no key has. -/
def Free (t : ElementTable κ ν) (e : Elem) : Prop := ∀ k ∈ t.slot.keys, t.lookup k ≠ some e

instance (t : ElementTable κ ν) (e : Elem) : Decidable (t.Free e) :=
  inferInstanceAs (Decidable (∀ k ∈ t.slot.keys, t.lookup k ≠ some e))

theorem Free.lookup_ne (h : t.Free e) (k : κ) : t.lookup k ≠ some e := by
  intro hk
  exact h k (GoMap.mem_keys_iff.2 ⟨e, hk⟩) hk

/-- The value of `k` becomes `v`, in the free element `e`. -/
def put (t : ElementTable κ ν) (k : κ) (e : Elem) (v : ν) (h : t.Free e) : ElementTable κ ν where
  slot := t.slot.insert k e
  mem := Function.update t.mem e v
  slot_inj := by
    intro a b e' ha hb
    rw [GoMap.lookup_insert_ite] at ha hb
    split at ha
    · rename_i hak
      split at hb
      · rename_i hbk
        exact hak.trans hbk.symm
      · cases ha
        exact absurd hb (h.lookup_ne b)
    · split at hb
      · cases hb
        exact absurd ha (h.lookup_ne a)
      · exact t.slot_inj ha hb

/-- An update of the table, which is given the element it may use. -/
def update (t : ElementTable κ ν) (k : κ) (e : Elem) (v : ν) : Option (ElementTable κ ν) :=
  if h : t.Free e then some (t.put k e v h) else none

/-- A key is deleted, and its element belongs to none. -/
def erase (t : ElementTable κ ν) (k : κ) : ElementTable κ ν where
  slot := t.slot.erase k
  mem := t.mem
  slot_inj := by
    intro a b e ha hb
    rw [GoMap.lookup_erase_ite] at ha hb
    split at ha
    · cases ha
    · split at hb
      · cases hb
      · exact t.slot_inj ha hb

/-- What a program does to a value through a pointer. -/
def modify (t : ElementTable κ ν) (e : Elem) (f : ν → ν) : ElementTable κ ν :=
  { t with mem := Function.update t.mem e (f (t.mem e)) }

/-- The table as a map, without the elements. -/
def values (t : ElementTable κ ν) : GoMap κ ν :=
  Finmap.keysLookupEquiv.symm ⟨(t.slot.keys, fun k => (t.lookup k).map t.mem), fun k => by
    rw [Option.isSome_map, lookup, Finmap.lookup_isSome, Finmap.mem_keys]⟩

/-- The value of a key, zero if it has none. -/
def value [Zero ν] (t : ElementTable κ ν) (k : κ) : ν := ((t.lookup k).map t.mem).getD 0

@[simp] theorem lookup_values (t : ElementTable κ ν) (k : κ) :
    t.values.lookup k = (t.lookup k).map t.mem :=
  Finmap.keysLookupEquiv_symm_apply_lookup _ k

theorem update_eq_some {v : ν} {t' : ElementTable κ ν} :
    t.update k e v = some t' ↔ ∃ h : t.Free e, t' = t.put k e v h := by
  unfold update
  split
  · rename_i h
    constructor
    · intro ht
      cases ht
      exact ⟨h, rfl⟩
    · rintro ⟨_, rfl⟩
      rfl
  · rename_i h
    constructor
    · intro ht
      cases ht
    · rintro ⟨h', -⟩
      exact absurd h' h

/-- A step that ends with an update. -/
theorem map_update_eq_some {α : Type*} {v : ν} {f : ElementTable κ ν → α} {r : α} :
    (t.update k e v).map f = some r ↔ ∃ h : t.Free e, r = f (t.put k e v h) := by
  constructor
  · intro hr
    obtain ⟨t', hput, rfl⟩ := Option.map_eq_some_iff.1 hr
    obtain ⟨h, rfl⟩ := update_eq_some.1 hput
    exact ⟨h, rfl⟩
  · rintro ⟨h, rfl⟩
    rw [update_eq_some.2 ⟨h, rfl⟩, Option.map_some]

theorem lookup_put {v : ν} (h : t.Free e) (k' : κ) :
    (t.put k e v h).lookup k' = if k' = k then some e else t.lookup k' :=
  GoMap.lookup_insert_ite t.slot k k' e

@[simp] theorem lookup_modify (f : ν → ν) : (t.modify e f).lookup k = t.lookup k := rfl

theorem lookup_erase (k k' : κ) :
    (t.erase k).lookup k' = if k' = k then none else t.lookup k' :=
  GoMap.lookup_erase_ite t.slot k k'

/-! ## The map of a table -/

/-- There is always an element for an update. -/
theorem exists_free (t : ElementTable κ ν) : ∃ e, t.Free e := by
  refine ⟨(t.slot.keys.sup fun k => (t.lookup k).getD 0) + 1, fun k hk hlookup => ?_⟩
  have hle := Finset.le_sup (f := fun k => (t.lookup k).getD 0) hk
  rw [hlookup] at hle
  exact absurd hle (Nat.not_succ_le_self _)

/-- An update sets the value of its key. -/
theorem values_put {v : ν} (h : t.Free e) : (t.put k e v h).values = t.values.insert k v := by
  refine Finmap.ext_lookup fun k' => ?_
  rw [lookup_values, lookup_put, GoMap.lookup_insert_ite, lookup_values]
  by_cases hk : k' = k
  · rw [if_pos hk, if_pos hk, Option.map_some, Option.some.injEq]
    exact Function.update_self e v t.mem
  · rw [if_neg hk, if_neg hk]
    cases he : t.lookup k' with
    | none => rfl
    | some e' =>
        have hne : e' ≠ e := fun hee => h.lookup_ne k' (hee ▸ he)
        rw [Option.map_some, Option.map_some, Option.some.injEq]
        exact Function.update_of_ne hne v t.mem

/-- So does what is done through the pointer of a key's own element. -/
theorem values_modify (hk : t.lookup k = some e) (f : ν → ν) :
    (t.modify e f).values = t.values.insert k (f (t.mem e)) := by
  refine Finmap.ext_lookup fun k' => ?_
  rw [lookup_values, lookup_modify, GoMap.lookup_insert_ite, lookup_values]
  by_cases hkk : k' = k
  · rw [if_pos hkk, hkk, hk, Option.map_some, Option.some.injEq]
    exact Function.update_self e _ t.mem
  · rw [if_neg hkk]
    cases he : t.lookup k' with
    | none => rfl
    | some e' =>
        have hne : e' ≠ e := fun hee => hkk (t.slot_inj he (hee ▸ hk))
        rw [Option.map_some, Option.map_some, Option.some.injEq]
        exact Function.update_of_ne hne _ t.mem

/-- A value that is written back as it is leaves the map as it is. -/
theorem values_put_mem {e' : Elem} (hk : t.lookup k = some e') (h : t.Free e) :
    (t.put k e (t.mem e') h).values = t.values := by
  refine Finmap.ext_lookup fun k' => ?_
  rw [values_put, GoMap.lookup_insert_ite]
  split
  · rename_i hkk
    rw [hkk, lookup_values, hk]
    rfl
  · rfl

theorem values_erase (k : κ) : (t.erase k).values = t.values.erase k := by
  refine Finmap.ext_lookup fun k' => ?_
  rw [lookup_values, lookup_erase, GoMap.lookup_erase_ite, lookup_values]
  by_cases hk : k' = k
  · rw [if_pos hk, if_pos hk]
    rfl
  · rw [if_neg hk, if_neg hk]
    rfl

/-! ## The value of a key -/

variable [Zero ν]

@[simp] theorem value_empty (k : κ) : (empty : ElementTable κ ν).value k = 0 := rfl

theorem value_of_lookup (h : t.lookup k = some e) : t.value k = t.mem e := by
  rw [value, h]
  rfl

theorem value_of_lookup_none (h : t.lookup k = none) : t.value k = 0 := by
  rw [value, h]
  rfl

theorem value_eq (t : ElementTable κ ν) (k : κ) : t.value k = (t.values.lookup k).getD 0 := by
  rw [lookup_values]
  rfl

/-- An update changes the value of its key and no other. -/
theorem value_put {v : ν} (h : t.Free e) (k' : κ) :
    (t.put k e v h).value k' = if k' = k then v else t.value k' := by
  rw [value_eq, values_put, GoMap.lookup_insert_ite, value_eq]
  split <;> rfl

/-- A value that is written back as it is leaves all values as they are. -/
theorem value_put_mem {e' : Elem} (hk : t.lookup k = some e') (h : t.Free e) (k' : κ) :
    (t.put k e (t.mem e') h).value k' = t.value k' := by
  rw [value_eq, values_put_mem hk, value_eq]

/-- What is done through the pointer of a key's own element is done to the value of
the key. -/
theorem value_modify (hk : t.lookup k = some e) (f : ν → ν) (k' : κ) :
    (t.modify e f).value k' = if k' = k then f (t.value k) else t.value k' := by
  rw [value_eq, values_modify hk, GoMap.lookup_insert_ite, value_of_lookup hk, value_eq]
  split <;> rfl

end ElementTable

end Kmon.Verified
