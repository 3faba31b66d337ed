import Mathlib.Algebra.BigOperators.Group.List.Basic
import Mathlib.Tactic.Abel
import Kmon.Verified.GoMap
import Kmon.Verified.Run

/-!
# Counters that one side adds to and the other reads and resets

A table of counters is filled by probes and emptied by an exporter, which walks
over it in rounds: it reads the value of a key, and in a later step it resets the
entry.  Nothing keeps a probe from adding to the key in between, and such an
addition is gone with the reset.

The values are any commutative monoid.  Which key the exporter reads next is left
to the environment, so that the results hold for every iterator, also one that
meets a key twice or misses one.

`sum_exported` is the account: what was exported, what is in the table, what was
added between a read and its reset, and what a round replaced by a later reading
of the same key, make up what was added.
-/

namespace Kmon.Verified.ReadReset

open Kmon.Verified.Run

universe u v

/-- How a table is written. -/
inductive Reset where
  /-- The entries are made by the exporter's side; a probe adds to those that are
  there, and a reset writes zero. -/
  | zero
  /-- A probe makes the entry it misses, and a reset deletes it. -/
  | delete
  deriving DecidableEq, Repr

/-- A table's way of being reset, and whether the data of a round are kept by key,
so that a second reading of a key replaces the first. -/
structure Discipline where
  reset : Reset
  keyed : Bool
  deriving DecidableEq, Repr

variable {κ : Type u} {ν : Type v} [DecidableEq κ] [AddCommMonoid ν]

/-- The export round in progress: its data, and the key that was read and is not
reset yet. -/
structure Round (κ : Type u) (ν : Type v) where
  data : List (κ × ν)
  reading : Option κ

/-- The table and its exporter. -/
structure Exporting (κ : Type u) (ν : Type v) where
  table : GoMap κ ν
  sent : List (κ × ν)
  round : Option (Round κ ν)

/-- The steps of the two sides.  A reading carries the value that was found. -/
inductive Event (κ : Type u) (ν : Type v) where
  | add (key : κ) (amount : ν)
  | track (key : κ)
  | beginRound
  | read (key : κ) (val : ν)
  | resetEntry
  | endRound

/-- A probe adds to a key. -/
def addTo (d : Discipline) (table : GoMap κ ν) (key : κ) (amount : ν) : GoMap κ ν :=
  match table.lookup key with
  | some val => table.insert key (val + amount)
  | none =>
      match d.reset with
      | .zero => table
      | .delete => table.insert key amount

/-- The exporter resets a key. -/
def resetKey (d : Discipline) (table : GoMap κ ν) (key : κ) : GoMap κ ν :=
  match d.reset with
  | .zero => table.insert key 0
  | .delete => table.erase key

omit [AddCommMonoid ν] in
/-- The exporter takes down what it has read. -/
def collect (d : Discipline) (data : List (κ × ν)) (key : κ) (val : ν) : List (κ × ν) :=
  (if d.keyed then data.filter fun p => p.1 ≠ key else data) ++ [(key, val)]

def step (d : Discipline) [DecidableEq ν] (s : Exporting κ ν) :
    Event κ ν → Option (Exporting κ ν)
  | .add key amount => some { s with table := addTo d s.table key amount }
  | .track key =>
      if d.reset = .zero ∧ s.table.lookup key = none then
        some { s with table := s.table.insert key 0 }
      else none
  | .beginRound =>
      match s.round with
      | none => some { s with round := some ⟨[], none⟩ }
      | some _ => none
  | .read key val =>
      match s.round with
      | some ⟨data, none⟩ =>
          if s.table.lookup key = some val then
            some { s with round := some ⟨collect d data key val, some key⟩ }
          else none
      | _ => none
  | .resetEntry =>
      match s.round with
      | some ⟨data, some key⟩ =>
          some { s with table := resetKey d s.table key, round := some ⟨data, none⟩ }
      | _ => none
  | .endRound =>
      match s.round with
      | some ⟨data, none⟩ => some { s with sent := s.sent ++ data, round := none }
      | _ => none

omit [DecidableEq κ] [AddCommMonoid ν] in
/-- An empty table before the first round. -/
def empty : Exporting κ ν := ⟨∅, [], none⟩

/-! ## What a history says -/

section History

variable (d : Discipline)

/-- The key was tracked; in a table whose entries the probes make, every key
is. -/
def Tracked : List (Event κ ν) → κ → Bool
  | [], _ => d.reset = .delete
  | .track key' :: h, key => key' = key ∨ Tracked h key
  | _ :: h, key => Tracked h key

/-- All that the probes added to the key since it was tracked. -/
def added : List (Event κ ν) → κ → ν
  | [], _ => 0
  | .add key' amount :: h, key =>
      added h key + if key' = key ∧ Tracked d h key then amount else 0
  | _ :: h, key => added h key

/-- The key that was read and is not reset yet. -/
def window : List (Event κ ν) → Option κ
  | [] => none
  | .read key _ :: _ => some key
  | .resetEntry :: _ => none
  | _ :: h => window h

/-- What the probes added to the key between a reading and its reset. -/
def lost : List (Event κ ν) → κ → ν
  | [], _ => 0
  | .add key' amount :: h, key =>
      lost h key + if key' = key ∧ window h = some key then amount else 0
  | _ :: h, key => lost h key

/-- The value of the key that the round has taken down last. -/
def taken : List (Event κ ν) → κ → ν
  | [], _ => 0
  | .beginRound :: _, _ => 0
  | .read key' val :: h, key => if key' = key then val else taken h key
  | _ :: h, key => taken h key

/-- What rounds kept by key have replaced. -/
def replaced : List (Event κ ν) → κ → ν
  | [], _ => 0
  | .read key' _ :: h, key =>
      replaced h key + if key' = key ∧ d.keyed then taken h key else 0
  | _ :: h, key => replaced h key

end History

/-- The sum of the values listed under a key. -/
def tally (data : List (κ × ν)) (key : κ) : ν :=
  (data.map fun p => if p.1 = key then p.2 else 0).sum

/-- The value of a key in the table. -/
def current (s : Exporting κ ν) (key : κ) : ν := (s.table.lookup key).getD 0

/-- The data of the round in progress. -/
def roundData (s : Exporting κ ν) : List (κ × ν) :=
  match s.round with
  | none => []
  | some r => r.data

/-! ## Small steps -/

@[simp] theorem tally_nil (key : κ) : tally ([] : List (κ × ν)) key = 0 := rfl

theorem tally_append (data data' : List (κ × ν)) (key : κ) :
    tally (data ++ data') key = tally data key + tally data' key := by
  rw [tally, List.map_append, List.sum_append]
  rfl

theorem tally_singleton (key key' : κ) (val : ν) :
    tally [(key', val)] key = if key' = key then val else 0 := by
  simp [tally]

theorem tally_filter_ne (data : List (κ × ν)) (key key' : κ) :
    tally (data.filter fun p => p.1 ≠ key') key = if key' = key then 0 else tally data key := by
  induction data with
  | nil => simp
  | cons p data ih =>
      by_cases hp : p.1 = key'
      · rw [List.filter_cons_of_neg (by simpa using hp), ih]
        by_cases hk : key' = key
        · rw [if_pos hk, if_pos hk]
        · have hpk : p.1 ≠ key := fun h => hk (hp.symm.trans h)
          rw [if_neg hk, if_neg hk, tally, tally, List.map_cons, List.sum_cons, if_neg hpk,
            zero_add]
      · rw [List.filter_cons_of_pos (by simpa using hp)]
        have hcons : ∀ l : List (κ × ν),
            tally (p :: l) key = (if p.1 = key then p.2 else 0) + tally l key := fun l => by
          rw [tally, List.map_cons, List.sum_cons]
          rfl
        rw [hcons, hcons, ih]
        by_cases hk : key' = key
        · have hpk : p.1 ≠ key := fun h => hp (h.trans hk.symm)
          rw [if_pos hk, if_pos hk, if_neg hpk, add_zero]
        · rw [if_neg hk, if_neg hk]

/-- Taking down a reading adds its value, and in a round kept by key it takes the
place of what was there. -/
theorem tally_collect (d : Discipline) (data : List (κ × ν)) (key key' : κ) (val : ν) :
    tally (collect d data key' val) key + (if key' = key ∧ d.keyed then tally data key else 0) =
      tally data key + if key' = key then val else 0 := by
  rw [collect, tally_append, tally_singleton]
  cases d.keyed with
  | false => simp
  | true =>
      simp only [if_true, tally_filter_ne, and_true]
      by_cases hk : key' = key
      · rw [if_pos hk, if_pos hk, if_pos hk, zero_add, add_comm]
      · rw [if_neg hk, if_neg hk, if_neg hk, add_zero]

theorem lookup_addTo_of_ne {d : Discipline} {table : GoMap κ ν} {key key' : κ} {amount : ν}
    (h : key ≠ key') : (addTo d table key' amount).lookup key = table.lookup key := by
  unfold addTo
  split
  · exact Finmap.lookup_insert_of_ne _ h
  · split
    · rfl
    · exact Finmap.lookup_insert_of_ne _ h

/-- Where the probe finds the entry, or makes it, the amount is added. -/
theorem lookup_addTo_self {d : Discipline} {table : GoMap κ ν} {key : κ} {amount : ν}
    (h : d.reset = .delete ∨ key ∈ table) :
    ((addTo d table key amount).lookup key).getD 0 = (table.lookup key).getD 0 + amount := by
  unfold addTo
  split
  · rename_i val hval
    rw [Finmap.lookup_insert, hval]
    rfl
  · rename_i hnone
    rcases h with hd | hmem
    · simp only [hd, Finmap.lookup_insert, hnone, Option.getD_some, Option.getD_none, zero_add]
    · exact absurd hmem (Finmap.lookup_eq_none.1 hnone)

theorem mem_addTo_zero {d : Discipline} (hd : d.reset = .zero) {table : GoMap κ ν}
    {key key' : κ} {amount : ν} : key ∈ addTo d table key' amount ↔ key ∈ table := by
  unfold addTo
  split
  · rename_i val hval
    rw [Finmap.mem_insert]
    exact ⟨fun h => h.elim (fun h => h ▸ Finmap.mem_iff.2 ⟨val, hval⟩) id, Or.inr⟩
  · simp only [hd]

theorem addTo_of_none {d : Discipline} (hd : d.reset = .zero) {table : GoMap κ ν} {key : κ}
    {amount : ν} (h : table.lookup key = none) : addTo d table key amount = table := by
  simp only [addTo, h, hd]

theorem lookup_resetKey_of_ne {d : Discipline} {table : GoMap κ ν} {key key' : κ}
    (h : key ≠ key') : (resetKey d table key').lookup key = table.lookup key := by
  unfold resetKey
  split
  · exact Finmap.lookup_insert_of_ne _ h
  · exact Finmap.lookup_erase_ne h

theorem lookup_resetKey_self {d : Discipline} {table : GoMap κ ν} {key : κ} :
    ((resetKey d table key).lookup key).getD 0 = 0 := by
  unfold resetKey
  split
  · rw [Finmap.lookup_insert]
    rfl
  · rw [Finmap.lookup_erase]
    rfl

omit [AddCommMonoid ν] in
theorem tracked_of_delete {d : Discipline} (hd : d.reset = .delete) (h : List (Event κ ν))
    (key : κ) : Tracked d h key = true := by
  induction h with
  | nil => simp [Tracked, hd]
  | cons e h ih => cases e <;> simp [Tracked, ih]

/-! ## The account -/

/-- What holds at any moment: the value of a key counts in the table unless it has
been read and not reset yet, when it counts in the data of the round. -/
structure Balanced (d : Discipline) (h : List (Event κ ν)) (s : Exporting κ ν) : Prop where
  reading : s.round.bind Round.reading = window h
  tracked : d.reset = .zero → ∀ key, Tracked d h key = true ↔ key ∈ s.table
  readTracked : ∀ key, window h = some key → Tracked d h key = true
  roundTaken : d.keyed = true → ∀ r, s.round = some r → ∀ key, tally r.data key = taken h key
  balance : ∀ key, tally s.sent key + tally (roundData s) key +
    (if window h = some key then 0 else current s key) + lost h key + replaced d h key =
      added d h key

theorem balanced_empty (d : Discipline) : Balanced d [] (empty : Exporting κ ν) where
  reading := rfl
  tracked hd key := by
    simp [Tracked, hd, empty, Finmap.notMem_empty]
  readTracked key hw := by cases hw
  roundTaken _ r hr := by cases hr
  balance key := by
    simp [empty, roundData, tally, current, window, lost, replaced, added]

section Steps

variable {d : Discipline} {h : List (Event κ ν)} {s : Exporting κ ν}

theorem Balanced.add (hs : Balanced d h s) (key : κ) (amount : ν) :
    Balanced d (.add key amount :: h) { s with table := addTo d s.table key amount } where
  reading := hs.reading
  tracked hd key' := (hs.tracked hd key').trans (mem_addTo_zero hd).symm
  readTracked := hs.readTracked
  roundTaken := hs.roundTaken
  balance key' := by
    have hb := hs.balance key'
    simp only [window, lost, replaced, added, current, roundData] at hb ⊢
    by_cases hk : key = key'
    · subst hk
      by_cases hw : window h = some key
      · -- the addition falls between the reading and the reset
        have ht := hs.readTracked key hw
        simp only [hw, ht, and_self, if_true] at hb ⊢
        rw [← hb]
        abel
      · by_cases ht : Tracked d h key = true
        · have hmem : d.reset = .delete ∨ key ∈ s.table := by
            cases hd : d.reset with
            | zero => exact Or.inr ((hs.tracked hd key).1 ht)
            | delete => exact Or.inl rfl
          simp only [hw, ht, and_self, and_false, if_true, if_false, add_zero,
            lookup_addTo_self hmem] at hb ⊢
          rw [← hb]
          abel
        · -- the probe does not find the entry
          have hzero : d.reset = .zero := by
            cases hd : d.reset with
            | zero => rfl
            | delete => exact absurd (tracked_of_delete hd h key) ht
          have hnone : s.table.lookup key = none :=
            Finmap.lookup_eq_none.2 fun hmem => ht ((hs.tracked hzero key).2 hmem)
          rw [addTo_of_none hzero hnone, if_neg fun hn => hw hn.2, if_neg fun hn => ht hn.2,
            add_zero, add_zero]
          exact hb
    · simp only [hk, false_and, if_false, add_zero, lookup_addTo_of_ne (Ne.symm hk)]
      exact hb

theorem Balanced.track (hs : Balanced d h s) {key : κ} (hd : d.reset = .zero)
    (hnone : s.table.lookup key = none) :
    Balanced d (.track key :: h) { s with table := s.table.insert key 0 } where
  reading := hs.reading
  tracked _ key' := by
    rw [Finmap.mem_insert, ← hs.tracked hd key', Tracked, decide_eq_true_eq, eq_comm (a := key)]
  readTracked key' hw := by simp [Tracked, hs.readTracked key' hw]
  roundTaken := hs.roundTaken
  balance key' := by
    have hb := hs.balance key'
    have hcur : ((s.table.insert key 0).lookup key').getD 0 =
        (s.table.lookup key').getD 0 := by
      rw [GoMap.lookup_insert_ite]
      by_cases hk : key' = key
      · rw [if_pos hk, hk, hnone]
        rfl
      · rw [if_neg hk]
    simp only [window, lost, replaced, added, current, roundData, hcur] at hb ⊢
    exact hb

theorem Balanced.beginRound (hs : Balanced d h s) (hr : s.round = none) :
    Balanced d (.beginRound :: h) { s with round := some ⟨[], none⟩ } where
  reading := by
    have hreading := hs.reading
    rw [hr] at hreading
    exact hreading
  tracked := hs.tracked
  readTracked := hs.readTracked
  roundTaken _ r hr' key := by
    cases hr'
    rfl
  balance key := by
    have hb := hs.balance key
    simp only [roundData, hr] at hb
    exact hb

theorem Balanced.read (hs : Balanced d h s) {data : List (κ × ν)} {key : κ} {val : ν}
    (hr : s.round = some ⟨data, none⟩) (hval : s.table.lookup key = some val) :
    Balanced d (.read key val :: h)
      { s with round := some ⟨collect d data key val, some key⟩ } where
  reading := rfl
  tracked := hs.tracked
  readTracked key' hw := by
    cases hw
    cases hd : d.reset with
    | zero => exact (hs.tracked hd key).2 (Finmap.mem_iff.2 ⟨val, hval⟩)
    | delete => exact tracked_of_delete hd h key
  roundTaken hd r hr' key' := by
    cases hr'
    have htaken := hs.roundTaken hd ⟨data, none⟩ hr key'
    simp only [taken]
    rw [collect, if_pos hd, tally_append, tally_singleton, tally_filter_ne]
    by_cases hk : key = key'
    · rw [if_pos hk, if_pos hk, if_pos hk, zero_add]
    · rw [if_neg hk, if_neg hk, if_neg hk, add_zero]
      exact htaken
  balance key' := by
    have hb := hs.balance key'
    have hcollect := tally_collect d data key' key val
    have hwindow : window h = none := by
      rw [← hs.reading, hr]
      rfl
    simp only [roundData, hr, hwindow, reduceCtorEq, if_false] at hb
    simp only [window, lost, replaced, added, roundData, Option.some.injEq]
    have hreplaced : (if key = key' ∧ d.keyed = true then taken h key' else 0) =
        if key = key' ∧ d.keyed = true then tally data key' else 0 := by
      by_cases hd : d.keyed = true
      · rw [hs.roundTaken hd ⟨data, none⟩ hr key']
      · rw [if_neg fun h => hd h.2, if_neg fun h => hd h.2]
    rw [hreplaced, ← hb]
    by_cases hk : key = key'
    · subst hk
      have hcur : current s key = val := by
        rw [current, hval]
        rfl
      rw [if_pos rfl] at hcollect ⊢
      rw [hcur]
      calc tally s.sent key + tally (collect d data key val) key + 0 + lost h key +
            (replaced d h key + if key = key ∧ d.keyed = true then tally data key else 0)
          = tally s.sent key + (tally (collect d data key val) key +
              if key = key ∧ d.keyed = true then tally data key else 0) + lost h key +
              replaced d h key := by abel
        _ = tally s.sent key + tally data key + val + lost h key + replaced d h key := by
            rw [hcollect]
            abel
    · rw [if_neg hk, if_neg fun h => hk h.1] at hcollect ⊢
      rw [add_zero, add_zero] at hcollect
      rw [hcollect, add_zero]
      rfl

theorem Balanced.resetEntry (hs : Balanced d h s) {data : List (κ × ν)} {key : κ}
    (hr : s.round = some ⟨data, some key⟩) :
    Balanced d (.resetEntry :: h)
      { s with table := resetKey d s.table key, round := some ⟨data, none⟩ } where
  reading := rfl
  tracked hd key' := by
    have hwindow : window h = some key := by
      rw [← hs.reading, hr]
      rfl
    have hmem : key ∈ s.table := (hs.tracked hd key).1 (hs.readTracked key hwindow)
    refine (hs.tracked hd key').trans ?_
    simp only [resetKey, hd, Finmap.mem_insert]
    exact ⟨Or.inr, fun h => h.elim (fun h => h ▸ hmem) id⟩
  readTracked key' hw := by cases hw
  roundTaken hd r hr' key' := by
    cases hr'
    exact hs.roundTaken hd ⟨data, some key⟩ hr key'
  balance key' := by
    have hb := hs.balance key'
    have hwindow : window h = some key := by
      rw [← hs.reading, hr]
      rfl
    simp only [roundData, hr, hwindow, current, Option.some.injEq] at hb
    simp only [window, lost, replaced, added, roundData, current, reduceCtorEq, if_false]
    by_cases hk : key = key'
    · subst hk
      rw [if_pos rfl] at hb
      rw [lookup_resetKey_self]
      exact hb
    · rw [if_neg hk] at hb
      rw [lookup_resetKey_of_ne (Ne.symm hk)]
      exact hb

theorem Balanced.endRound (hs : Balanced d h s) {data : List (κ × ν)}
    (hr : s.round = some ⟨data, none⟩) :
    Balanced d (.endRound :: h) { s with sent := s.sent ++ data, round := none } where
  reading := by
    have hreading := hs.reading
    rw [hr] at hreading
    exact hreading
  tracked := hs.tracked
  readTracked := hs.readTracked
  roundTaken _ r hr' := by cases hr'
  balance key := by
    have hb := hs.balance key
    simp only [roundData, hr] at hb
    simp only [window, lost, replaced, added, roundData, tally_append, tally_nil, add_zero]
    exact hb

variable [DecidableEq ν]

/-- One step keeps the account. -/
theorem step_balanced {e : Event κ ν} {t : Exporting κ ν} (hs : Balanced d h s)
    (he : step d s e = some t) : Balanced d (e :: h) t := by
  cases e with
  | add key amount =>
      cases he
      exact hs.add key amount
  | track key =>
      simp only [step] at he
      split at he
      · rename_i hcond
        cases he
        exact hs.track hcond.1 hcond.2
      · cases he
  | beginRound =>
      simp only [step] at he
      split at he
      · rename_i hr
        cases he
        exact hs.beginRound hr
      · cases he
  | read key val =>
      simp only [step] at he
      split at he
      · rename_i data hr
        split at he
        · rename_i hval
          cases he
          exact hs.read hr hval
        · cases he
      · cases he
  | resetEntry =>
      simp only [step] at he
      split at he
      · rename_i data key hr
        cases he
        exact hs.resetEntry hr
      · cases he
  | endRound =>
      simp only [step] at he
      split at he
      · rename_i data hr
        cases he
        exact hs.endRound hr
      · cases he

theorem run_balanced (d : Discipline) :
    ∀ (h : List (Event κ ν)) (s : Exporting κ ν), run (step d) empty h = some s →
      Balanced d h s :=
  run_invariant (balanced_empty d) fun _ _ _ _ _ hs he => step_balanced hs he

/-- **The account of a key.**  Between two rounds, the exported values, the value
in the table, what was lost and what was replaced make up what was added. -/
theorem sum_exported (d : Discipline) (h : List (Event κ ν)) (s : Exporting κ ν)
    (hrun : run (step d) empty h = some s) (hidle : s.round = none) (key : κ) :
    tally s.sent key + current s key + lost h key + replaced d h key = added d h key := by
  have hs := run_balanced d h s hrun
  have hb := hs.balance key
  have hwindow : window h = none := by
    rw [← hs.reading, hidle]
    rfl
  simp only [roundData, hidle, hwindow, reduceCtorEq, if_false, tally_nil, add_zero] at hb
  exact hb

end Steps

/-- Where data are not kept by key, nothing is replaced. -/
theorem replaced_of_not_keyed {d : Discipline} (hd : d.keyed = false) (h : List (Event κ ν))
    (key : κ) : replaced d h key = 0 := by
  induction h with
  | nil => rfl
  | cons e h ih => cases e <;> simp [replaced, ih, hd]

end Kmon.Verified.ReadReset
