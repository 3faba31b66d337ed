import Kmon.Verified.BucketTable

/-!
# A loop that deletes the entry it stands on

The walk over a chained hash table asks for the entry behind the current key, and starts
again when the current key is not in the table.  A loop that deletes every entry it comes
to is therefore sent back to the first bucket each time, which now begins with the entry
that was second: it takes the entries from the front of the list `entries`.

`drainLoop_eq` is the rule for such a loop.  With more fuel than there are entries it
ends, the table is empty, and what the body has computed is its fold over the entries,
whatever the hash function.  `lookup` gives the contents of a table without its order, and
`exists_drainLoop` states the rule in these terms.
-/

namespace Kmon.Verified

universe u v w

namespace BucketTable

variable {κ : Type u} {ν : Type v} {σ : Type w}

/-- All entries. -/
def entries (t : BucketTable κ ν) : List (κ × ν) := entriesFrom t.bucket t.size 0

theorem nodup_keys_entries (t : BucketTable κ ν) : (t.entries.map Prod.fst).Nodup := by
  rw [entries, map_fst_entriesFrom]
  exact t.nodup_keysFrom t.size 0

/-- An entry is in the bucket of its key. -/
theorem mem_entries_iff_mem_bucket (t : BucketTable κ ν) {entry : κ × ν} :
    entry ∈ t.entries ↔ entry ∈ t.bucket (t.hash entry.1) := by
  rw [entries, mem_entriesFrom]
  constructor
  · rintro ⟨j, -, -, hmem⟩
    rw [t.hash_of_mem j entry hmem]
    exact hmem
  · intro hmem
    exact ⟨t.hash entry.1, Nat.zero_le _, by have := t.hash_lt entry.1; omega, hmem⟩

/-- The search for a first entry finds the head of the list. -/
theorem firstIn_eq_head? (bucket : Nat → List (κ × ν)) :
    ∀ count i, firstIn bucket count i = (entriesFrom bucket count i).head? := by
  intro count
  induction count with
  | zero => exact fun _ => rfl
  | succ count ih =>
      intro i
      rw [firstIn, entriesFrom]
      cases bucket i with
      | nil => exact ih (i + 1)
      | cons entry behind => rfl

variable [DecidableEq κ]

/-- The value under a key. -/
def lookup (t : BucketTable κ ν) (key : κ) : Option ν :=
  ((t.bucket (t.hash key)).find? fun entry => entry.1 = key).map Prod.snd

theorem lookup_eq_some_iff (t : BucketTable κ ν) {key : κ} {val : ν} :
    t.lookup key = some val ↔ (key, val) ∈ t.entries := by
  rw [mem_entries_iff_mem_bucket, lookup, Option.map_eq_some_iff]
  constructor
  · rintro ⟨entry, hfind, rfl⟩
    have hkey := List.find?_some hfind
    rw [decide_eq_true_iff] at hkey
    rw [← hkey]
    exact List.mem_of_find?_eq_some (hkey ▸ hfind)
  · intro hmem
    cases hfind : (t.bucket (t.hash key)).find? fun entry => entry.1 = key with
    | none =>
        have hne := List.find?_eq_none.1 hfind (key, val) hmem
        rw [decide_eq_true_iff] at hne
        exact absurd rfl hne
    | some entry =>
        have hkey := List.find?_some hfind
        rw [decide_eq_true_iff] at hkey
        refine ⟨entry, rfl, ?_⟩
        have heq : entry = (key, val) := List.inj_on_of_nodup_map (t.nodup (t.hash key))
          (List.mem_of_find?_eq_some hfind) hmem hkey
        rw [heq]

/-- The table without an entry. -/
def erase (t : BucketTable κ ν) (key : κ) : BucketTable κ ν where
  size := t.size
  hash := t.hash
  hash_lt := t.hash_lt
  bucket i := (t.bucket i).filter fun entry => entry.1 ≠ key
  hash_of_mem i entry hmem := t.hash_of_mem i entry (List.mem_filter.1 hmem).1
  nodup i := (List.filter_sublist.map Prod.fst).nodup (t.nodup i)

theorem entries_erase (t : BucketTable κ ν) (key : κ) :
    (t.erase key).entries = t.entries.filter fun entry => entry.1 ≠ key := by
  have hfrom : ∀ count i, entriesFrom (t.erase key).bucket count i =
      (entriesFrom t.bucket count i).filter fun entry => entry.1 ≠ key := by
    intro count
    induction count with
    | zero => exact fun _ => rfl
    | succ count ih =>
        intro i
        rw [entriesFrom, entriesFrom, List.filter_append, ih]
        rfl
  exact hfrom t.size 0

/-- Deleting the first entry leaves the others. -/
theorem entries_erase_of_cons (t : BucketTable κ ν) {entry : κ × ν} {rest : List (κ × ν)}
    (h : t.entries = entry :: rest) : (t.erase entry.1).entries = rest := by
  have hnodup := t.nodup_keys_entries
  rw [h, List.map_cons, List.nodup_cons] at hnodup
  rw [entries_erase, h, List.filter_cons_of_neg (by simp)]
  refine List.filter_eq_self.2 fun e he => decide_eq_true fun heq => ?_
  exact hnodup.1 (heq ▸ List.mem_map_of_mem he)

/-- The table does not hold a key that was deleted. -/
theorem not_contains_erase (t : BucketTable κ ν) (key : κ) : ¬ (t.erase key).Contains key := by
  intro hmem
  obtain ⟨entry, hentry, hkey⟩ := List.mem_map.1 hmem
  exact absurd hkey (by simpa using (List.mem_filter.1 hentry).2)

/-- A loop over the table that deletes the entry it stands on: the table it leaves and
what its body has made, or `none` when the fuel is used up. -/
def drainLoop (body : σ → κ → ν → σ) :
    Nat → BucketTable κ ν → Option κ → σ → Option (BucketTable κ ν × σ)
  | 0, _, _, _ => none
  | fuel + 1, t, current, s =>
      match t.next current with
      | none => some (t, s)
      | some entry =>
          drainLoop body fuel (t.erase entry.1) (some entry.1) (body s entry.1 entry.2)

/-- From the start, or from a key that is gone, the walk comes to the first entry. -/
theorem next_eq_head? (t : BucketTable κ ν) {current : Option κ}
    (hgone : ∀ key, current = some key → ¬ t.Contains key) :
    t.next current = t.entries.head? := by
  cases current with
  | none => exact firstIn_eq_head? t.bucket t.size 0
  | some key =>
      have hnotMem : key ∉ (t.bucket (t.hash key)).map Prod.fst := hgone key rfl
      rw [next, if_neg hnotMem]
      exact firstIn_eq_head? t.bucket t.size 0

/-- **The loop ends with an empty table, and its body has met every entry in the order of
the walk.** -/
theorem drainLoop_eq (body : σ → κ → ν → σ) :
    ∀ fuel (t : BucketTable κ ν) (current : Option κ) (s : σ),
      (∀ key, current = some key → ¬ t.Contains key) → t.entries.length < fuel →
      ∃ t', drainLoop body fuel t current s =
          some (t', t.entries.foldl (fun s entry => body s entry.1 entry.2) s) ∧
        t'.entries = [] := by
  intro fuel
  induction fuel with
  | zero => exact fun t _ _ _ hlt => absurd hlt (Nat.not_lt_zero _)
  | succ fuel ih =>
      intro t current s hgone hlt
      rw [drainLoop, next_eq_head? t hgone]
      cases hentries : t.entries with
      | nil => exact ⟨t, rfl, hentries⟩
      | cons entry rest =>
          have hrest := t.entries_erase_of_cons hentries
          rw [hentries, List.length_cons] at hlt
          obtain ⟨t', hloop, hempty⟩ := ih (t.erase entry.1) (some entry.1)
            (body s entry.1 entry.2)
            (fun key hkey => by cases hkey; exact t.not_contains_erase entry.1)
            (by rw [hrest]; omega)
          rw [hrest] at hloop
          exact ⟨t', hloop, hempty⟩

/-- The same of the contents: there is an order of the entries, with each key once, in
which the body has met them. -/
theorem exists_drainLoop (body : σ → κ → ν → σ) (t : BucketTable κ ν) (s : σ) :
    ∃ order : List (κ × ν), (order.map Prod.fst).Nodup ∧
      (∀ key val, (key, val) ∈ order ↔ t.lookup key = some val) ∧
      ∀ fuel > order.length, ∃ t', drainLoop body fuel t none s =
          some (t', order.foldl (fun s entry => body s entry.1 entry.2) s) ∧
        ∀ key, t'.lookup key = none := by
  refine ⟨t.entries, t.nodup_keys_entries, fun key val => t.lookup_eq_some_iff.symm, ?_⟩
  intro fuel hfuel
  obtain ⟨t', hloop, hempty⟩ := drainLoop_eq body fuel t none s
    (fun key hkey => by cases hkey) hfuel
  refine ⟨t', hloop, fun key => ?_⟩
  cases hlookup : t'.lookup key with
  | none => rfl
  | some val =>
      have hmem := t'.lookup_eq_some_iff.1 hlookup
      rw [hempty] at hmem
      cases hmem

end BucketTable

end Kmon.Verified
