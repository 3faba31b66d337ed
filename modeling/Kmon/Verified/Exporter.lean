import Kmon.Verified.ElementTable
import Kmon.Verified.ReadReset

/-!
# Machines around a table of counters

A larger machine that holds a table of counters with its exporter takes, with every step of
its own that meets a condition, some steps of `ReadReset` (`Simulation`).  A run whose steps
all meet it is then a run there (`run_trace`), and the accounts of `ReadReset` hold of it.

`ExportStep` are the steps that are the exporter's.  Where every other step adds to the
table (`Filled`), `sum_emitted` is the account of what the machine adds.

The table may be one of elements, to which the probes add through pointers.  Where a pointer
is to the element of its key, such an addition is one of `ReadReset`, and so is an insertion
that does not find its key; the exporter reads an element and deletes it.
-/

namespace Kmon.Verified

universe u v u' v'

/-! ## Simulations -/

namespace Run

/-- A machine that takes, with every step that meets the condition `G`, some steps of
another one.  The events are newest first. -/
structure Simulation {S : Type u} {E : Type v} {S' : Type u'} {E' : Type v'}
    (step : S → E → Option S) (step' : S' → E' → Option S') (G : S → E → Prop) where
  view : S → S'
  moves : S → E → List E'
  sound : ∀ s e t, G s e → step s e = some t →
    run step' (view s) (moves s e) = some (view t)

namespace Simulation

variable {S : Type u} {E : Type v} {S' : Type u'} {E' : Type v'}
variable {step : S → E → Option S} {step' : S' → E' → Option S'} {G : S → E → Prop}

/-- The history of the other machine. -/
def trace (sim : Simulation step step' G) (s₀ : S) : List E → List E'
  | [] => []
  | e :: h =>
      match run step s₀ h with
      | none => sim.trace s₀ h
      | some s => sim.moves s e ++ sim.trace s₀ h

theorem trace_cons (sim : Simulation step step' G) {s₀ s : S} {h : List E}
    (hs : run step s₀ h = some s) (e : E) :
    sim.trace s₀ (e :: h) = sim.moves s e ++ sim.trace s₀ h := by
  rw [trace, hs]

/-- **A run is a run of the other machine**, if its steps meet the condition. -/
theorem run_trace (sim : Simulation step step' G) {s₀ : S} :
    ∀ h s, Guarded step s₀ G h → run step s₀ h = some s →
      run step' (sim.view s₀) (sim.trace s₀ h) = some (sim.view s) := by
  intro h
  induction h with
  | nil =>
      intro s _ hs
      cases hs
      rfl
  | cons e h ih =>
      intro t hg ht
      obtain ⟨s, hs, he⟩ := run_cons_eq_some.1 ht
      rw [sim.trace_cons hs]
      exact run_append_of_run (ih s hg.1 hs) (sim.sound s e t (hg.2 s hs) he)

end Simulation

end Run

/-! ## The exporter -/

namespace ReadReset

variable {κ : Type u} {ν : Type v}

/-- The steps of an exporter. -/
inductive ExportStep (κ : Type u) (ν : Type v) where
  | beginRound
  | read (key : κ) (val : ν)
  | resetEntry
  | endRound

def ExportStep.event : ExportStep κ ν → Event κ ν
  | .beginRound => .beginRound
  | .read key val => .read key val
  | .resetEntry => .resetEntry
  | .endRound => .endRound

variable [DecidableEq κ] [AddCommMonoid ν]

/-- The exporter adds nothing. -/
theorem added_export (d : Discipline) (x : ExportStep κ ν) (h : List (Event κ ν)) (key : κ) :
    added d (x.event :: h) key = added d h key := by
  cases x <;> rfl

/-- Additions, one after the other. -/
def adds (amounts : List (κ × ν)) : List (Event κ ν) := amounts.map fun p => .add p.1 p.2

/-- Where the probes make the entries, every addition counts. -/
theorem added_adds {d : Discipline} (hd : d.reset = .delete) (amounts : List (κ × ν))
    (h : List (Event κ ν)) (key : κ) :
    added d (adds amounts ++ h) key = added d h key + tally amounts key := by
  induction amounts with
  | nil => exact (add_zero _).symm
  | cons p amounts ih =>
      have hcons : tally (p :: amounts) key =
          (if p.1 = key then p.2 else 0) + tally amounts key := by
        rw [tally, List.map_cons, List.sum_cons]
        rfl
      have hadded : added d (adds (p :: amounts) ++ h) key =
          added d (adds amounts ++ h) key + if p.1 = key then p.2 else 0 := by
        show added d (.add p.1 p.2 :: (adds amounts ++ h)) key = _
        rw [added, tracked_of_delete hd]
        simp only [and_true]
      rw [hadded, ih, hcons, add_assoc, add_comm (tally amounts key)]

section Machine

open Kmon.Verified.Run

variable {S : Type u'} {E : Type v'} [DecidableEq ν] {step : S → E → Option S} {s₀ s : S}
variable {d : Discipline} {amounts : S → E → List (κ × ν)} {G : S → E → Prop}

/-- What a machine has added to a key in a run. -/
def emitted (step : S → E → Option S) (s₀ : S) (amounts : S → E → List (κ × ν)) :
    List E → κ → ν
  | [], _ => 0
  | e :: h, key =>
      emitted step s₀ amounts h key +
        match run step s₀ h with
        | none => 0
        | some s => tally (amounts s e) key

omit [DecidableEq ν] in
theorem emitted_cons {h : List E} (hs : run step s₀ h = some s) (e : E) (key : κ) :
    emitted step s₀ amounts (e :: h) key =
      emitted step s₀ amounts h key + tally (amounts s e) key := by
  rw [emitted, hs]

/-- A machine with a table that its probes fill and an exporter empties: a step that meets
the condition adds to the table, or it is the exporter's. -/
structure Filled (step : S → E → Option S) (d : Discipline) (amounts : S → E → List (κ × ν))
    (G : S → E → Prop)
    extends Simulation step
      (ReadReset.step d : Exporting κ ν → Event κ ν → Option (Exporting κ ν)) G where
  delete : d.reset = .delete
  moves_eq : ∀ s e, moves s e = adds (amounts s e) ∨
    ∃ x : ExportStep κ ν, moves s e = [x.event] ∧ amounts s e = []

namespace Filled

/-- What the table has been given is what the machine has added. -/
theorem added_trace (m : Filled step d amounts G) {h : List E} (hrun : run step s₀ h = some s)
    (key : κ) : added d (m.trace s₀ h) key = emitted step s₀ amounts h key := by
  induction h generalizing s with
  | nil => rfl
  | cons e h ih =>
      obtain ⟨s', hs', -⟩ := run_cons_eq_some.1 hrun
      rw [m.trace_cons hs', emitted_cons hs', ← ih hs']
      rcases m.moves_eq s' e with hadds | ⟨x, hx, hnone⟩
      · rw [hadds, added_adds m.delete]
      · rw [hx, hnone, tally_nil, add_zero]
        exact added_export d x (m.trace s₀ h) key

/-- **The account of a machine.**  Between two rounds, the exported values, the value in
the table, what was lost and what was replaced make up what the machine has added. -/
theorem sum_emitted (m : Filled step d amounts G) (hempty : m.view s₀ = empty) {h : List E}
    (hg : Guarded step s₀ G h) (hrun : run step s₀ h = some s) (hidle : (m.view s).round = none) (key : κ) :
    tally (m.view s).sent key + current (m.view s) key + lost (m.trace s₀ h) key +
      replaced d (m.trace s₀ h) key = emitted step s₀ amounts h key := by
  have htrace := m.run_trace h s hg hrun
  rw [hempty] at htrace
  rw [sum_exported d _ _ htrace hidle key, m.added_trace hrun]

end Filled

end Machine

/-! ## Tables of elements -/

/-- A table of elements and its exporter. -/
structure Elements (κ : Type u) (ν : Type v) [DecidableEq κ] where
  table : ElementTable κ ν
  sent : List (κ × ν)
  round : Option (Round κ ν)

namespace Elements

omit [AddCommMonoid ν] in
/-- Without the elements. -/
def values (s : Elements κ ν) : Exporting κ ν := ⟨s.table.values, s.sent, s.round⟩

omit [AddCommMonoid ν] in
/-- A step of the exporter: it reads the element of a key, and deletes the key. -/
def step (d : Discipline) [DecidableEq ν] (s : Elements κ ν) :
    ExportStep κ ν → Option (Elements κ ν)
  | .beginRound =>
      match s.round with
      | none => some { s with round := some ⟨[], none⟩ }
      | some _ => none
  | .read key val =>
      match s.round with
      | some ⟨data, none⟩ =>
          if (s.table.lookup key).map s.table.mem = some val then
            some { s with round := some ⟨collect d data key val, some key⟩ }
          else none
      | _ => none
  | .resetEntry =>
      match s.round with
      | some ⟨data, some key⟩ =>
          some { s with table := s.table.erase key, round := some ⟨data, none⟩ }
      | _ => none
  | .endRound =>
      match s.round with
      | some ⟨data, none⟩ => some { s with sent := s.sent ++ data, round := none }
      | _ => none

variable {d : Discipline} {s t : Elements κ ν}

/-- It is the step of `ReadReset`. -/
theorem step_values [DecidableEq ν] (hd : d.reset = .delete) {x : ExportStep κ ν}
    (he : s.step d x = some t) : ReadReset.step d s.values x.event = some t.values := by
  cases x with
  | beginRound =>
      simp only [step] at he
      split at he
      · rename_i hr
        cases he
        simp only [ExportStep.event, ReadReset.step, values, hr]
      · cases he
  | read key val =>
      simp only [step] at he
      split at he
      · rename_i data hr
        split at he
        · rename_i hval
          cases he
          simp only [ExportStep.event, ReadReset.step, values, hr, ElementTable.lookup_values,
            hval, if_true]
        · cases he
      · cases he
  | resetEntry =>
      simp only [step] at he
      split at he
      · rename_i data key hr
        cases he
        simp only [ExportStep.event, ReadReset.step, values, hr, resetKey, hd,
          ElementTable.values_erase]
      · cases he
  | endRound =>
      simp only [step] at he
      split at he
      · rename_i data hr
        cases he
        simp only [ExportStep.event, ReadReset.step, values, hr]
      · cases he

end Elements

/-- An addition through the pointer of a key's own element is an addition to the key. -/
theorem values_modify_add {table : ElementTable κ ν} {key : κ} {e : Elem}
    (hk : table.lookup key = some e) (d : Discipline) {f : ν → ν} (amount : ν)
    (hf : f (table.mem e) = table.mem e + amount) :
    (table.modify e f).values = addTo d table.values key amount := by
  rw [ElementTable.values_modify hk, hf, addTo, ElementTable.lookup_values, hk]
  rfl

/-- An insertion that does not find its key is one as well. -/
theorem values_put_new {table : ElementTable κ ν} {key : κ} {e : Elem}
    (hk : table.lookup key = none) {d : Discipline} (hd : d.reset = .delete) {amount : ν}
    (h : table.Free e) :
    (table.put key e amount h).values = addTo d table.values key amount := by
  rw [ElementTable.values_put, addTo, ElementTable.lookup_values, hk]
  simp only [Option.map_none, hd]

end ReadReset

end Kmon.Verified
