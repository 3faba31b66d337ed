import Mathlib.Data.List.Nodup
import Mathlib.Logic.Function.Basic

/-!
# A chained hash table and the walk over it

The keys of the table lie in buckets, chosen by a hash function; a bucket is a
list, and an update puts its entry at the head of its bucket, whether it was
there before or not.  A walk asks for the next key: the one behind the current
key in its bucket, or else the first one of the next bucket that is not empty.

A loop that updates the key it stands on changes the order it walks in.
`visitsAll_iff` is the exact rule for such a loop: it ends, and has visited every
key once, if and only if no two keys share a bucket.  With two keys in a bucket
it goes back and forth between them for ever (`rewriteLoop_of_crowded`).
-/

namespace Kmon.Verified

universe u v

/-- A hash table. -/
structure BucketTable (κ : Type u) (ν : Type v) where
  size : Nat
  hash : κ → Nat
  hash_lt : ∀ key, hash key < size
  bucket : Nat → List (κ × ν)
  hash_of_mem : ∀ i, ∀ entry ∈ bucket i, hash entry.1 = i
  nodup : ∀ i, ((bucket i).map Prod.fst).Nodup

namespace BucketTable

variable {κ : Type u} {ν : Type v}

/-- The table holds the key. -/
def Contains (t : BucketTable κ ν) (key : κ) : Prop :=
  key ∈ (t.bucket (t.hash key)).map Prod.fst

/-- No two keys of the table share a bucket. -/
def NoCollision (t : BucketTable κ ν) : Prop :=
  ∀ key key', t.Contains key → t.Contains key' → t.hash key = t.hash key' → key = key'

/-- The first entry of the buckets from `i` on, of which there are `count`. -/
def firstIn (bucket : Nat → List (κ × ν)) : (count i : Nat) → Option (κ × ν)
  | 0, _ => none
  | count + 1, i =>
      match bucket i with
      | [] => firstIn bucket count (i + 1)
      | entry :: _ => some entry

/-- The keys of these buckets, in the order of the walk. -/
def keysFrom (bucket : Nat → List (κ × ν)) : (count i : Nat) → List κ
  | 0, _ => []
  | count + 1, i => (bucket i).map Prod.fst ++ keysFrom bucket count (i + 1)

/-- The entries of the buckets from `i` on, in the order of the walk. -/
def entriesFrom (bucket : Nat → List (κ × ν)) : (count i : Nat) → List (κ × ν)
  | 0, _ => []
  | count + 1, i => bucket i ++ entriesFrom bucket count (i + 1)

variable [DecidableEq κ]

/-- The entry behind a key in its bucket. -/
def afterIn (key : κ) : List (κ × ν) → Option (κ × ν)
  | [] => none
  | entry :: entries => if entry.1 = key then entries.head? else afterIn key entries

/-- The entry the walk comes to next, from the start or from a key; a key that is
not in the table sends it back to the start. -/
def next (t : BucketTable κ ν) : Option κ → Option (κ × ν)
  | none => firstIn t.bucket t.size 0
  | some key =>
      if key ∈ (t.bucket (t.hash key)).map Prod.fst then
        match afterIn key (t.bucket (t.hash key)) with
        | some entry => some entry
        | none => firstIn t.bucket (t.size - (t.hash key + 1)) (t.hash key + 1)
      else firstIn t.bucket t.size 0

/-- An update. -/
def update (t : BucketTable κ ν) (key : κ) (val : ν) : BucketTable κ ν where
  size := t.size
  hash := t.hash
  hash_lt := t.hash_lt
  bucket := Function.update t.bucket (t.hash key)
    ((key, val) :: (t.bucket (t.hash key)).filter fun entry => entry.1 ≠ key)
  hash_of_mem i entry hmem := by
    by_cases hi : i = t.hash key
    · subst hi
      rw [Function.update_self, List.mem_cons] at hmem
      rcases hmem with rfl | hmem
      · rfl
      · exact t.hash_of_mem _ entry (List.mem_filter.1 hmem).1
    · rw [Function.update_of_ne hi] at hmem
      exact t.hash_of_mem i entry hmem
  nodup i := by
    by_cases hi : i = t.hash key
    · subst hi
      rw [Function.update_self, List.map_cons, List.nodup_cons]
      constructor
      · intro hmem
        obtain ⟨entry, hentry, hkey⟩ := List.mem_map.1 hmem
        exact absurd hkey (by simpa using (List.mem_filter.1 hentry).2)
      · exact (List.filter_sublist.map Prod.fst).nodup (t.nodup _)
    · rw [Function.update_of_ne hi]
      exact t.nodup i

/-- A loop over the table that rewrites the entry it stands on: the table it
leaves and the keys it visited, or `none` when the fuel is used up. -/
def rewriteLoop (f : κ → ν → ν) :
    Nat → BucketTable κ ν → Option κ → List κ → Option (BucketTable κ ν × List κ)
  | 0, _, _, _ => none
  | fuel + 1, t, current, visited =>
      match t.next current with
      | none => some (t, visited)
      | some entry =>
          rewriteLoop f fuel (t.update entry.1 (f entry.1 entry.2)) (some entry.1)
            (visited ++ [entry.1])

/-- The loop ends, and has then visited the keys of the table, each of them
once. -/
def VisitsAll (f : κ → ν → ν) (t : BucketTable κ ν) : Prop :=
  ∃ fuel t' visited, rewriteLoop f fuel t none [] = some (t', visited) ∧
    visited.Nodup ∧ ∀ key, key ∈ visited ↔ t.Contains key

/-! ## Buckets after an update -/

section Update

variable (t : BucketTable κ ν)

@[simp] theorem update_hash (key : κ) (val : ν) : (t.update key val).hash = t.hash := rfl

theorem update_bucket_self (key : κ) (val : ν) :
    (t.update key val).bucket (t.hash key) =
      (key, val) :: (t.bucket (t.hash key)).filter fun entry => entry.1 ≠ key :=
  Function.update_self ..

theorem update_bucket_of_ne (key : κ) (val : ν) {i : Nat} (h : i ≠ t.hash key) :
    (t.update key val).bucket i = t.bucket i :=
  Function.update_of_ne h ..

/-- Taking a key out of a bucket takes out its one entry. -/
theorem filter_ne_append {entry : κ × ν} {before behind : List (κ × ν)}
    (h : ((before ++ entry :: behind).map Prod.fst).Nodup) :
    ((before ++ entry :: behind).filter fun e => e.1 ≠ entry.1) = before ++ behind := by
  rw [List.map_append, List.map_cons, List.nodup_append, List.nodup_cons] at h
  obtain ⟨-, ⟨hbehind, -⟩, hbefore⟩ := h
  rw [List.filter_append, List.filter_cons_of_neg (by simp)]
  congr 1
  · refine List.filter_eq_self.2 fun e he => ?_
    exact decide_eq_true (hbefore e.1 (List.mem_map_of_mem he) entry.1 List.mem_cons_self)
  · refine List.filter_eq_self.2 fun e he => decide_eq_true fun heq => ?_
    exact hbehind (heq ▸ List.mem_map_of_mem he)

/-- Rewriting an entry moves it to the head of its bucket. -/
theorem update_bucket_append {entry : κ × ν} {before behind : List (κ × ν)} {i : Nat}
    (h : t.bucket i = before ++ entry :: behind) (val : ν) :
    (t.update entry.1 val).bucket i = (entry.1, val) :: (before ++ behind) := by
  have hhash : t.hash entry.1 = i := t.hash_of_mem i entry (by simp [h])
  have hnodup := t.nodup i
  rw [h] at hnodup
  rw [← hhash, update_bucket_self, hhash, h, filter_ne_append hnodup]

/-- It leaves every bucket as long as it was. -/
theorem length_update_bucket {entry : κ × ν} {i : Nat} (hmem : entry ∈ t.bucket i) (val : ν)
    (j : Nat) : ((t.update entry.1 val).bucket j).length = (t.bucket j).length := by
  obtain ⟨before, behind, hsplit⟩ := List.append_of_mem hmem
  by_cases hj : j = i
  · subst hj
    rw [update_bucket_append t hsplit, hsplit]
    simp only [List.length_cons, List.length_append]
    omega
  · have hne : j ≠ t.hash entry.1 := fun h => hj (h.trans (t.hash_of_mem i entry hmem))
    rw [update_bucket_of_ne t _ _ hne]

end Update

/-! ## With two keys in a bucket -/

omit [DecidableEq κ] in
/-- The search from a bucket on ends at a bucket not behind one that has an
entry. -/
theorem exists_firstIn (bucket : Nat → List (κ × ν)) {c : Nat} (hc : bucket c ≠ []) :
    ∀ count i, i ≤ c → c < i + count →
      ∃ j entry behind, i ≤ j ∧ j ≤ c ∧ bucket j = entry :: behind ∧
        firstIn bucket count i = some entry := by
  intro count
  induction count with
  | zero => exact fun i hle hlt => absurd hlt (by omega)
  | succ count ih =>
      intro i hle hlt
      rw [firstIn]
      cases hb : bucket i with
      | nil =>
          have hne : i ≠ c := fun h => hc (h ▸ hb)
          obtain ⟨j, entry, behind, hij, hjc, hj, hfirst⟩ := ih (i + 1) (by omega) (by omega)
          exact ⟨j, entry, behind, by omega, hjc, hj, hfirst⟩
      | cons entry behind => exact ⟨i, entry, behind, Nat.le_refl i, hle, hb, rfl⟩

/-- A walk that cannot end: some bucket has two entries, and the walk has not come
further than to the head of this bucket. -/
def Crowded (t : BucketTable κ ν) (current : Option κ) : Prop :=
  ∃ c, 2 ≤ (t.bucket c).length ∧ ∀ key, current = some key →
    t.hash key ≤ c ∧ ∃ val behind, t.bucket (t.hash key) = (key, val) :: behind

/-- Rewriting an entry of a bucket in front of a crowded one, or of this one,
leaves the walk as it was. -/
theorem crowded_update (t : BucketTable κ ν) {c i : Nat} (hc : 2 ≤ (t.bucket c).length)
    (hi : i ≤ c) {entry : κ × ν} (hmem : entry ∈ t.bucket i) (val : ν) :
    Crowded (t.update entry.1 val) (some entry.1) := by
  refine ⟨c, (length_update_bucket t hmem val c).symm ▸ hc, fun key hkey => ?_⟩
  cases hkey
  have hhash := t.hash_of_mem i entry hmem
  obtain ⟨before, behind, hsplit⟩ := List.append_of_mem hmem
  refine ⟨hhash.symm ▸ hi, val, before ++ behind, ?_⟩
  rw [update_hash, hhash]
  exact update_bucket_append t hsplit val

/-- Such a walk goes on, and stays such a walk. -/
theorem crowded_next {t : BucketTable κ ν} {current : Option κ} (h : Crowded t current) :
    ∃ entry, t.next current = some entry ∧
      ∀ val, Crowded (t.update entry.1 val) (some entry.1) := by
  obtain ⟨c, hc, hcurrent⟩ := h
  have hne : t.bucket c ≠ [] := by
    intro hnil
    rw [hnil, List.length_nil] at hc
    omega
  have hsize : c < t.size := by
    obtain ⟨entry, hentry⟩ := List.exists_mem_of_ne_nil _ hne
    exact t.hash_of_mem c entry hentry ▸ t.hash_lt entry.1
  cases current with
  | none =>
      obtain ⟨j, entry, behind, -, hjc, hj, hfirst⟩ :=
        exists_firstIn t.bucket hne t.size 0 (Nat.zero_le c) (by omega)
      exact ⟨entry, hfirst, fun val => crowded_update t hc hjc (by simp [hj]) val⟩
  | some key =>
      obtain ⟨hle, val, behind, hb⟩ := hcurrent key rfl
      have hpresent : key ∈ (t.bucket (t.hash key)).map Prod.fst := by simp [hb]
      have hafter : afterIn key (t.bucket (t.hash key)) = behind.head? := by
        rw [hb, afterIn, if_pos rfl]
      rw [next, if_pos hpresent, hafter]
      cases behind with
      | cons entry behind =>
          exact ⟨entry, rfl, fun val => crowded_update t hc hle (by simp [hb]) val⟩
      | nil =>
          have hlt : t.hash key ≠ c := by
            rintro rfl
            rw [hb, List.length_singleton] at hc
            omega
          obtain ⟨j, entry, behind, -, hjc, hj, hfirst⟩ := exists_firstIn t.bucket hne
            (t.size - (t.hash key + 1)) (t.hash key + 1) (by omega) (by omega)
          exact ⟨entry, hfirst, fun val => crowded_update t hc hjc (by simp [hj]) val⟩

/-- **With two keys in a bucket the loop never ends.** -/
theorem rewriteLoop_of_crowded (f : κ → ν → ν) :
    ∀ fuel (t : BucketTable κ ν) (current : Option κ) (visited : List κ),
      Crowded t current → rewriteLoop f fuel t current visited = none := by
  intro fuel
  induction fuel with
  | zero => exact fun _ _ _ _ => rfl
  | succ fuel ih =>
      intro t current visited h
      obtain ⟨entry, hnext, hcrowded⟩ := crowded_next h
      rw [rewriteLoop, hnext]
      exact ih _ _ _ (hcrowded _)

/-! ## With one key in a bucket at most -/

omit [DecidableEq κ] in
theorem keysFrom_congr {bucket bucket' : Nat → List (κ × ν)} :
    ∀ count i, (∀ j, i ≤ j → bucket j = bucket' j) →
      keysFrom bucket count i = keysFrom bucket' count i := by
  intro count
  induction count with
  | zero => exact fun _ _ => rfl
  | succ count ih =>
      intro i h
      rw [keysFrom, keysFrom, h i (Nat.le_refl i), ih (i + 1) fun j hj => h j (by omega)]

/-- The loop ends with the keys that were before it, in the order of the walk. -/
theorem rewriteLoop_of_alone (f : κ → ν → ν) :
    ∀ count i (t : BucketTable κ ν) (current : Option κ) (visited : List κ),
      i + count = t.size → (∀ j, (t.bucket j).length ≤ 1) →
      t.next current = firstIn t.bucket count i →
      ∃ fuel t', rewriteLoop f fuel t current visited =
        some (t', visited ++ keysFrom t.bucket count i) := by
  intro count
  induction count with
  | zero =>
      intro i t current visited _ _ hnext
      refine ⟨1, t, ?_⟩
      rw [rewriteLoop, hnext, keysFrom, List.append_nil]
      rfl
  | succ count ih =>
      intro i t current visited hsize halone hnext
      cases hb : t.bucket i with
      | nil =>
          rw [firstIn, hb] at hnext
          rw [keysFrom, hb]
          exact ih (i + 1) t current visited (by omega) halone hnext
      | cons entry behind =>
          have hnil : behind = [] := by
            have hlen := halone i
            rw [hb, List.length_cons] at hlen
            exact List.eq_nil_of_length_eq_zero (by omega)
          subst hnil
          have hmem : entry ∈ t.bucket i := by simp [hb]
          have hhash := t.hash_of_mem i entry hmem
          let val := f entry.1 entry.2
          let t₁ := t.update entry.1 val
          have hrest : ∀ j, i + 1 ≤ j → t₁.bucket j = t.bucket j := fun j hj =>
            update_bucket_of_ne t entry.1 val (by omega)
          have hself : t₁.bucket i = [(entry.1, val)] :=
            update_bucket_append t (show t.bucket i = [] ++ entry :: [] from hb) val
          have hnext₁ : t₁.next (some entry.1) = firstIn t₁.bucket count (i + 1) := by
            have hhash₁ : t₁.hash entry.1 = i := hhash
            have hsize₁ : t₁.size = i + 1 + count := by
              show t.size = i + 1 + count
              omega
            rw [next, hhash₁, hself, if_pos (by simp), afterIn, if_pos rfl, hsize₁,
              Nat.add_sub_cancel_left]
            rfl
          obtain ⟨fuel, t', hloop⟩ := ih (i + 1) t₁ (some entry.1) (visited ++ [entry.1])
            (by show i + 1 + count = t.size; omega)
            (fun j => Nat.le_trans (Nat.le_of_eq (length_update_bucket t hmem val j)) (halone j))
            hnext₁
          refine ⟨fuel + 1, t', ?_⟩
          rw [firstIn, hb] at hnext
          rw [rewriteLoop, hnext, keysFrom, hb, ← keysFrom_congr count (i + 1) hrest]
          simpa only [List.map_cons, List.map_nil, List.append_assoc] using hloop

/-! ## The exact rule -/

omit [DecidableEq κ] in
theorem map_fst_entriesFrom (bucket : Nat → List (κ × ν)) :
    ∀ count i, (entriesFrom bucket count i).map Prod.fst = keysFrom bucket count i := by
  intro count
  induction count with
  | zero => exact fun _ => rfl
  | succ count ih =>
      intro i
      rw [entriesFrom, keysFrom, List.map_append, ih]

omit [DecidableEq κ] in
theorem mem_entriesFrom {bucket : Nat → List (κ × ν)} {entry : κ × ν} :
    ∀ count i, entry ∈ entriesFrom bucket count i ↔
      ∃ j, i ≤ j ∧ j < i + count ∧ entry ∈ bucket j := by
  intro count
  induction count with
  | zero =>
      intro i
      refine iff_of_false List.not_mem_nil ?_
      rintro ⟨j, hle, hlt, -⟩
      omega
  | succ count ih =>
      intro i
      rw [entriesFrom, List.mem_append, ih (i + 1)]
      constructor
      · rintro (hmem | ⟨j, hle, hlt, hmem⟩)
        · exact ⟨i, Nat.le_refl i, by omega, hmem⟩
        · exact ⟨j, by omega, by omega, hmem⟩
      · rintro ⟨j, hle, hlt, hmem⟩
        by_cases hj : j = i
        · exact Or.inl (hj ▸ hmem)
        · exact Or.inr ⟨j, by omega, by omega, hmem⟩

omit [DecidableEq κ] in
theorem mem_keysFrom (bucket : Nat → List (κ × ν)) (key : κ) :
    ∀ count i, key ∈ keysFrom bucket count i ↔
      ∃ j, i ≤ j ∧ j < i + count ∧ key ∈ (bucket j).map Prod.fst := by
  intro count i
  rw [← map_fst_entriesFrom, List.mem_map]
  simp only [mem_entriesFrom, List.mem_map]
  constructor
  · rintro ⟨entry, ⟨j, hle, hlt, hmem⟩, hkey⟩
    exact ⟨j, hle, hlt, entry, hmem, hkey⟩
  · rintro ⟨j, hle, hlt, entry, hmem, hkey⟩
    exact ⟨entry, ⟨j, hle, hlt, hmem⟩, hkey⟩

omit [DecidableEq κ] in
theorem hash_of_mem_keys (t : BucketTable κ ν) {key : κ} {i : Nat}
    (h : key ∈ (t.bucket i).map Prod.fst) : t.hash key = i := by
  obtain ⟨entry, hentry, rfl⟩ := List.mem_map.1 h
  exact t.hash_of_mem i entry hentry

omit [DecidableEq κ] in
theorem nodup_keysFrom (t : BucketTable κ ν) :
    ∀ count i, (keysFrom t.bucket count i).Nodup := by
  intro count
  induction count with
  | zero => exact fun _ => List.nodup_nil
  | succ count ih =>
      intro i
      rw [keysFrom, List.nodup_append]
      refine ⟨t.nodup i, ih (i + 1), ?_⟩
      rintro key hkey key' hkey' rfl
      obtain ⟨j, hle, -, hj⟩ := (mem_keysFrom t.bucket key count (i + 1)).1 hkey'
      have hi := t.hash_of_mem_keys hkey
      have hj := t.hash_of_mem_keys hj
      omega

omit [DecidableEq κ] in
theorem mem_keysFrom_iff_contains (t : BucketTable κ ν) (key : κ) :
    key ∈ keysFrom t.bucket t.size 0 ↔ t.Contains key := by
  rw [mem_keysFrom]
  constructor
  · rintro ⟨j, -, -, hmem⟩
    rw [Contains, t.hash_of_mem_keys hmem]
    exact hmem
  · intro hmem
    exact ⟨t.hash key, Nat.zero_le _, by have := t.hash_lt key; omega, hmem⟩

omit [DecidableEq κ] in
theorem noCollision_iff (t : BucketTable κ ν) :
    t.NoCollision ↔ ∀ i, (t.bucket i).length ≤ 1 := by
  constructor
  · intro h i
    cases hb : t.bucket i with
    | nil => exact Nat.zero_le 1
    | cons entry behind =>
        cases behind with
        | nil => exact Nat.le_refl 1
        | cons entry' behind =>
            have hmem : entry.1 ∈ (t.bucket i).map Prod.fst := by simp [hb]
            have hmem' : entry'.1 ∈ (t.bucket i).map Prod.fst := by simp [hb]
            have hhash := t.hash_of_mem_keys hmem
            have hhash' := t.hash_of_mem_keys hmem'
            have heq := h entry.1 entry'.1 (by rwa [Contains, hhash])
              (by rwa [Contains, hhash']) (hhash.trans hhash'.symm)
            have hnodup := t.nodup i
            rw [hb, List.map_cons, List.map_cons, List.nodup_cons] at hnodup
            exact absurd (heq ▸ List.mem_cons_self) hnodup.1
  · intro h key key' hkey hkey' hhash
    rw [Contains] at hkey hkey'
    rw [← hhash] at hkey'
    have hlen := h (t.hash key)
    cases hb : t.bucket (t.hash key) with
    | nil =>
        rw [hb] at hkey
        cases hkey
    | cons entry behind =>
        rw [hb, List.length_cons] at hlen
        have hnil : behind = [] := List.eq_nil_of_length_eq_zero (by omega)
        rw [hb, hnil, List.map_singleton, List.mem_singleton] at hkey hkey'
        rw [hkey, hkey']

/-- **A loop that rewrites the entry it stands on ends after visiting every key
once if and only if no two keys share a bucket.** -/
theorem visitsAll_iff (f : κ → ν → ν) (t : BucketTable κ ν) :
    VisitsAll f t ↔ t.NoCollision := by
  rw [noCollision_iff]
  constructor
  · rintro ⟨fuel, t', visited, hloop, -, -⟩ c
    by_contra hc
    have hnone := rewriteLoop_of_crowded f fuel t none []
      ⟨c, by omega, fun key hkey => by cases hkey⟩
    rw [hnone] at hloop
    cases hloop
  · intro halone
    obtain ⟨fuel, t', hloop⟩ := rewriteLoop_of_alone f t.size 0 t none []
      (Nat.zero_add t.size) halone rfl
    rw [List.nil_append] at hloop
    exact ⟨fuel, t', _, hloop, t.nodup_keysFrom t.size 0, t.mem_keysFrom_iff_contains⟩

end BucketTable

end Kmon.Verified
