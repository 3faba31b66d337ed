import Mathlib.Algebra.BigOperators.Group.Finset.Basic
import Mathlib.Algebra.Order.BigOperators.Group.List
import Mathlib.Algebra.Order.Group.Nat
import Kmon.Verified.Exporter

/-!
# What counters and their exports weigh

Every entry of a table of counters weighs a natural number, and so does every value
that was read from it.  A value that is read moves from the table to the data of the
round, and the entry that stays behind until it is reset is not weighed a second
time.  What weighs is then only ever what a probe has added: no step of the exporter
adds to the sum over the table, the round and all that was exported, for every key
and all keys together, and an addition adds at most the weight of its amount.

The account of `ReadReset` is kept in the values, which may wrap around, key by key.
A weight is a natural number, and may leave keys out.
-/

namespace Kmon.Verified

universe u v u' v'

/-! ## Tables -/

namespace GoMap

variable {κ : Type u} {ν : Type v} [DecidableEq κ]

/-- What the entries of a table weigh together. -/
def weigh (entry : κ → ν → ℕ) (m : GoMap κ ν) : ℕ :=
  ∑ key ∈ m.keys, (m.lookup key).elim 0 (entry key)

/-- A key apart from the others. -/
theorem weigh_eq (entry : κ → ν → ℕ) (m : GoMap κ ν) (key : κ) :
    weigh entry m = (m.lookup key).elim 0 (entry key) + weigh entry (m.erase key) := by
  by_cases hmem : key ∈ m.keys
  · have herase : weigh entry (m.erase key) =
        ∑ k ∈ m.keys.erase key, (m.lookup k).elim 0 (entry k) := by
      unfold weigh
      rw [Finmap.keys_erase]
      refine Finset.sum_congr rfl fun k hk => ?_
      rw [Finmap.lookup_erase_ne (Finset.ne_of_mem_erase hk)]
    rw [herase, Finset.add_sum_erase _ (fun k => (m.lookup k).elim 0 (entry k)) hmem]
    rfl
  · have hnone : key ∉ m := fun h => hmem (Finmap.mem_keys.2 h)
    rw [GoMap.erase_of_notMem hnone, Finmap.lookup_eq_none.2 hnone]
    exact (Nat.zero_add _).symm

theorem weigh_congr {entry entry' : κ → ν → ℕ} {m : GoMap κ ν}
    (h : ∀ key ∈ m, ∀ val, entry key val = entry' key val) : weigh entry m = weigh entry' m := by
  refine Finset.sum_congr rfl fun key hkey => ?_
  cases m.lookup key with
  | none => rfl
  | some val => exact h key (Finmap.mem_keys.1 hkey) val

theorem weigh_insert (entry : κ → ν → ℕ) (m : GoMap κ ν) (key : κ) (val : ν) :
    weigh entry (m.insert key val) = entry key val + weigh entry (m.erase key) := by
  rw [weigh_eq entry _ key, Finmap.lookup_insert, GoMap.erase_insert]
  rfl

theorem weigh_erase_le (entry : κ → ν → ℕ) (m : GoMap κ ν) (key : κ) :
    weigh entry (m.erase key) ≤ weigh entry m := by
  rw [weigh_eq entry m key]
  exact Nat.le_add_left _ _

end GoMap

/-! ## Counters -/

namespace ReadReset

variable {κ : Type u} {ν : Type v} [DecidableEq κ] [AddCommMonoid ν]

/-- The weight of an entry: nothing for zero, and no more for a sum than for its
parts. -/
structure Weight (κ : Type u) (ν : Type v) [AddCommMonoid ν] where
  entry : κ → ν → ℕ
  zero : ∀ key, entry key 0 = 0
  add_le : ∀ key val amount, entry key (val + amount) ≤ entry key val + entry key amount

omit [DecidableEq κ] [AddCommMonoid ν] in
/-- The key that was read and is not reset yet. -/
def reading (s : Exporting κ ν) : Option κ := s.round.bind Round.reading

omit [AddCommMonoid ν] in
/-- The table without the entry that was read. -/
def unread (s : Exporting κ ν) : GoMap κ ν :=
  match reading s with
  | none => s.table
  | some key => s.table.erase key

/-- Counters that wrap around do not weigh more. -/
theorem toNat_add_le {n : ℕ} (val amount : BitVec n) :
    (val + amount).toNat ≤ val.toNat + amount.toNat := by
  rw [BitVec.toNat_add]
  exact Nat.mod_le _ _

namespace Weight

variable (w : Weight κ ν)

omit [DecidableEq κ] in
/-- The weight of values that were read. -/
def data (l : List (κ × ν)) : ℕ := (l.map fun p => w.entry p.1 p.2).sum

/-- The weight of all that was exported, is in the round or is still to be read. -/
def held (s : Exporting κ ν) : ℕ :=
  w.data s.sent + w.data (roundData s) + GoMap.weigh w.entry (unread s)

omit [DecidableEq κ] in
/-- What a step of a probe adds. -/
def event : Event κ ν → ℕ
  | .add key amount => w.entry key amount
  | _ => 0

omit [DecidableEq κ] in
/-- The exporter adds nothing. -/
theorem event_export (x : ExportStep κ ν) : w.event x.event = 0 := by
  cases x <;> rfl

/-! ## Probes and resets -/

/-- A probe adds at most the weight of the amount. -/
theorem table_addTo_le (d : Discipline) (m : GoMap κ ν) (key : κ) (amount : ν) :
    GoMap.weigh w.entry (addTo d m key amount) ≤ GoMap.weigh w.entry m + w.entry key amount := by
  unfold addTo
  cases hval : m.lookup key with
  | some val =>
      have hm := GoMap.weigh_eq w.entry m key
      have hadd := w.add_le key val amount
      rw [hval] at hm
      rw [GoMap.weigh_insert, hm]
      show _ ≤ w.entry key val + _ + _
      omega
  | none =>
      cases d.reset with
      | zero => exact Nat.le_add_right _ _
      | delete =>
          have herase := GoMap.weigh_erase_le w.entry m key
          show GoMap.weigh w.entry (m.insert key amount) ≤ _
          rw [GoMap.weigh_insert]
          omega

/-- So it does where the entry of one key is left out. -/
theorem table_erase_addTo_le (d : Discipline) (m : GoMap κ ν) (key key' : κ) (amount : ν) :
    GoMap.weigh w.entry ((addTo d m key amount).erase key') ≤
      GoMap.weigh w.entry (m.erase key') + w.entry key amount := by
  have hold := GoMap.weigh_eq w.entry m key'
  have hnew := GoMap.weigh_eq w.entry (addTo d m key amount) key'
  by_cases hk : key' = key
  · subst hk
    have herase : (addTo d m key' amount).erase key' = m.erase key' := by
      refine Finmap.ext_lookup fun k => ?_
      rw [GoMap.lookup_erase_ite, GoMap.lookup_erase_ite]
      by_cases hne : k = key'
      · rw [if_pos hne, if_pos hne]
      · rw [if_neg hne, if_neg hne, lookup_addTo_of_ne hne]
    rw [herase]
    exact Nat.le_add_right _ _
  · have hadd := w.table_addTo_le d m key amount
    rw [lookup_addTo_of_ne hk] at hnew
    omega

theorem table_erase_resetKey (d : Discipline) (m : GoMap κ ν) (key : κ) :
    GoMap.weigh w.entry (resetKey d m key) = GoMap.weigh w.entry (m.erase key) := by
  unfold resetKey
  cases d.reset with
  | zero =>
      show GoMap.weigh w.entry (m.insert key 0) = _
      rw [GoMap.weigh_insert, w.zero, Nat.zero_add]
  | delete => rfl

/-! ## Data -/

omit [DecidableEq κ] in
theorem data_append (l l' : List (κ × ν)) : w.data (l ++ l') = w.data l + w.data l' := by
  rw [data, List.map_append, List.sum_append]
  rfl

/-- What replaces a reading of its key weighs in its place. -/
theorem data_collect_le (d : Discipline) (l : List (κ × ν)) (key : κ) (val : ν) :
    w.data (collect d l key val) ≤ w.data l + w.entry key val := by
  have hfilter : w.data (if d.keyed then l.filter fun p => p.1 ≠ key else l) ≤ w.data l := by
    split
    · exact (List.filter_sublist.map fun p : κ × ν => w.entry p.1 p.2).sum_le_sum
        fun _ _ => Nat.zero_le _
    · exact le_rfl
  have hsingle : w.data [(key, val)] = w.entry key val := List.sum_singleton
  rw [collect, data_append, hsingle]
  exact Nat.add_le_add_right hfilter _

/-! ## Steps -/

variable {d : Discipline} [DecidableEq ν]

omit [DecidableEq ν] in
/-- An entry that is written weighs no more than what is written, whatever was there. -/
theorem held_insert_le (s : Exporting κ ν) (key : κ) (val : ν) :
    w.held { s with table := s.table.insert key val } ≤ w.held s + w.entry key val := by
  have hunread : GoMap.weigh w.entry (unread { s with table := s.table.insert key val }) ≤
      GoMap.weigh w.entry (unread s) + w.entry key val := by
    unfold unread
    show GoMap.weigh w.entry (match reading s with
      | none => s.table.insert key val
      | some key' => (s.table.insert key val).erase key') ≤ _
    have hinsert := GoMap.weigh_insert w.entry s.table key val
    have herase := GoMap.weigh_erase_le w.entry s.table key
    cases reading s with
    | none =>
        dsimp only
        omega
    | some key' =>
        have hnew := GoMap.weigh_eq w.entry (s.table.insert key val) key'
        have hold := GoMap.weigh_eq w.entry s.table key'
        dsimp only
        rw [GoMap.lookup_insert_ite] at hnew
        by_cases hk : key' = key
        · rw [hk, GoMap.erase_insert]
          exact Nat.le_add_right _ _
        · rw [if_neg hk] at hnew
          omega
  show w.data s.sent + w.data (roundData s) + _ ≤ w.held s + w.entry key val
  unfold held
  omega

/-- **A step adds no more than the probes do.** -/
theorem held_step_le {s t : Exporting κ ν} {e : Event κ ν} (he : step d s e = some t) :
    w.held t ≤ w.held s + w.event e := by
  cases e with
  | add key amount =>
      cases he
      have hunread : GoMap.weigh w.entry (unread { s with table := addTo d s.table key amount }) ≤
          GoMap.weigh w.entry (unread s) + w.entry key amount := by
        unfold unread
        show GoMap.weigh w.entry (match reading s with
          | none => addTo d s.table key amount
          | some key' => (addTo d s.table key amount).erase key') ≤ _
        cases reading s with
        | none => exact w.table_addTo_le d s.table key amount
        | some key' => exact w.table_erase_addTo_le d s.table key key' amount
      show w.data s.sent + w.data (roundData s) + _ ≤ w.held s + w.entry key amount
      unfold held
      omega
  | track key =>
      simp only [step] at he
      split at he
      · rename_i hcond
        cases he
        have hinsert := w.held_insert_le s key 0
        rw [w.zero] at hinsert
        exact hinsert
      · cases he
  | beginRound =>
      simp only [step] at he
      split at he
      · rename_i hr
        cases he
        unfold held unread reading roundData
        rw [hr]
        exact le_rfl
      · cases he
  | read key val =>
      simp only [step] at he
      split at he
      · rename_i data hr
        split at he
        · rename_i hval
          cases he
          have hcollect := w.data_collect_le d data key val
          have htable := GoMap.weigh_eq w.entry s.table key
          rw [hval] at htable
          unfold held unread reading roundData
          rw [hr]
          show w.data s.sent + w.data (collect d data key val) +
              GoMap.weigh w.entry (s.table.erase key) ≤
            w.data s.sent + w.data data + GoMap.weigh w.entry s.table + 0
          rw [htable]
          show _ ≤ _ + (w.entry key val + _) + 0
          omega
        · cases he
      · cases he
  | resetEntry =>
      simp only [step] at he
      split at he
      · rename_i data key hr
        cases he
        unfold held unread reading roundData
        rw [hr]
        show w.data s.sent + w.data data + GoMap.weigh w.entry (resetKey d s.table key) ≤
          w.data s.sent + w.data data + GoMap.weigh w.entry (s.table.erase key) + 0
        rw [table_erase_resetKey]
        exact le_rfl
      · cases he
  | endRound =>
      simp only [step] at he
      split at he
      · rename_i data hr
        cases he
        unfold held unread reading roundData
        rw [hr]
        show w.data (s.sent ++ data) + 0 + GoMap.weigh w.entry s.table ≤
          w.data s.sent + w.data data + GoMap.weigh w.entry s.table + 0
        rw [data_append]
        omega
      · cases he

section Machine

open Kmon.Verified.Run

variable {S : Type u'} {E : Type v'} {step : S → E → Option S} {s₀ : S}
variable {amounts : S → E → List (κ × ν)}

omit [DecidableEq κ] [DecidableEq ν] in
theorem data_cons (p : κ × ν) (l : List (κ × ν)) :
    w.data (p :: l) = w.entry p.1 p.2 + w.data l := by
  rw [data, List.map_cons, List.sum_cons]
  rfl

theorem held_adds_le {l : List (κ × ν)} {s t : Exporting κ ν}
    (hrun : run (ReadReset.step d) s (adds l) = some t) : w.held t ≤ w.held s + w.data l := by
  induction l generalizing t with
  | nil =>
      cases hrun
      exact Nat.le_add_right _ _
  | cons p l ih =>
      obtain ⟨s', hs', he⟩ := run_cons_eq_some.1 hrun
      have hold := ih hs'
      have hnew : w.held t ≤ w.held s' + w.entry p.1 p.2 := w.held_step_le he
      rw [data_cons]
      omega

/-- What a machine has added weighs. -/
def spent (step : S → E → Option S) (s₀ : S) (amounts : S → E → List (κ × ν)) : List E → ℕ
  | [] => 0
  | e :: h =>
      spent step s₀ amounts h +
        match run step s₀ h with
        | none => 0
        | some s => w.data (amounts s e)

omit [DecidableEq κ] [DecidableEq ν] in
theorem spent_cons {h : List E} {s : S} (hs : run step s₀ h = some s) (e : E) :
    w.spent step s₀ amounts (e :: h) = w.spent step s₀ amounts h + w.data (amounts s e) := by
  rw [spent, hs]

variable {G : S → E → Prop}

omit [DecidableEq ν] in
/-- **A machine holds no more than it has added**, if no step that meets the condition adds
more. -/
theorem held_le_spent (view : S → Exporting κ ν) (hempty : view s₀ = empty)
    (hstep : ∀ s e t, G s e → step s e = some t →
      w.held (view t) ≤ w.held (view s) + w.data (amounts s e)) {h : List E} {s : S}
    (hg : Guarded step s₀ G h) (hrun : run step s₀ h = some s) :
    w.held (view s) ≤ w.spent step s₀ amounts h := by
  induction h generalizing s with
  | nil =>
      cases hrun
      rw [hempty]
      exact le_rfl
  | cons e h ih =>
      obtain ⟨s', hs', he⟩ := run_cons_eq_some.1 hrun
      have hold := ih hg.1 hs'
      have hnew := hstep s' e s (hg.2 s' hs') he
      rw [w.spent_cons hs']
      omega

end Machine

end Weight

end ReadReset

end Kmon.Verified
