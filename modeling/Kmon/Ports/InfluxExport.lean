import Kmon.Verified.Run
import Kmon.Ports.Points

/-!
# Several exporters on one batch

The consumer loop of `exporter.Setup` starts a goroutine for every exporter that a batch
names, and all of them get the same slice of pointers.  `influxdb.Export` deletes the
field `timestamp` of a point when it is a `time.Time`, and hands it to `NewPoint` apart.
Whoever comes to the point next finds no time in it.

`export_alike_iff`: in no schedule do two or more exporters all build what each would
build alone, unless no point has such a field; then they do in every schedule.
-/

namespace Kmon.Ports.InfluxExport

open Kmon.Verified
open Kmon.Verified.Run
open Kmon.Ports.Config
open Kmon.Ports.Points

/-- A point, as what `NewPoint` is called with.  Without a time the server takes its
own. -/
structure Point where
  name : String
  tags : GoMap String String
  fields : GoMap String Value
  time : Option Time
  deriving DecidableEq

/-- One round of the loop of `Export`: what becomes of the shared point, and the point
that is built. -/
def exportPoint (point : ExportData) : ExportData × Point :=
  match point.Fields.lookup "timestamp" with
  | some (.time ts) =>
      let point := { point with Fields := point.Fields.erase "timestamp" }
      (point, ⟨point.Name, point.Tags, point.Fields, some ts⟩)
  | some _ => (point, ⟨point.Name, point.Tags, point.Fields, none⟩)
  | none => (point, ⟨point.Name, point.Tags, point.Fields, none⟩)

/-- The exporter a batch goes to, and the batch. -/
structure BatchPoints where
  exporter : String
  Database : String
  points : List Point

/-- The points that the calls of `Export` share, and the batch of each call. -/
structure Exporting where
  data : List ExportData
  calls : List BatchPoints

/-- One round of the consumer loop.  `exporterMap` are the exporters that were
started. -/
def consume (exporterMap : Finset String) (data : ExportDataWarpper) : Exporting :=
  { data := data.Data
    calls := data.Exporter.filterMap fun exporter =>
      let database := if exporter.Database = "" then "Unknown" else exporter.Database
      if exporter.Name ∈ exporterMap then some ⟨exporter.Name, database, []⟩ else none }

/-- Call `i` does its next round. -/
def step (s : Exporting) (i : Nat) : Option Exporting :=
  match s.calls[i]? with
  | none => none
  | some bp =>
      match s.data[bp.points.length]? with
      | none => none
      | some point =>
          let r := exportPoint point
          some
            { data := s.data.set bp.points.length r.1
              calls := s.calls.set i { bp with points := bp.points ++ [r.2] } }

/-- Every call has come to the end of the data. -/
def Finished (s : Exporting) : Prop := ∀ bp ∈ s.calls, bp.points.length = s.data.length

instance (s : Exporting) : Decidable (Finished s) :=
  inferInstanceAs (Decidable (∀ bp ∈ s.calls, bp.points.length = s.data.length))

/-- What a call builds when it is the only one (`points_of_single`). -/
def alone (data : List ExportData) : List Point := data.map fun point => (exportPoint point).2

/-- The point carries a `time.Time` under `timestamp`. -/
def HasTime (point : ExportData) : Prop := ∃ ts, point.Fields.lookup "timestamp" = some (.time ts)

/-! ## One round -/

/-- The built point has the time of the shared one. -/
theorem time_exportPoint (point : ExportData) :
    (exportPoint point).2.time ≠ none ↔ HasTime point := by
  unfold exportPoint HasTime
  split
  · rename_i ts hts
    simp [hts]
  · rename_i value hne hvalue
    simp only [hvalue, ne_eq, not_true_eq_false, Option.some.injEq, false_iff]
    exact fun ⟨ts, hts⟩ => hne ts (by rw [hts])
  · rename_i hnone
    simp [hnone]

/-- Afterwards the shared point has no time. -/
theorem not_hasTime_exportPoint (point : ExportData) : ¬ HasTime (exportPoint point).1 := by
  unfold exportPoint
  split
  · rintro ⟨ts, hts⟩
    rw [Finmap.lookup_erase] at hts
    cases hts
  · rename_i value hne hvalue
    rintro ⟨ts, hts⟩
    exact hne ts (Option.some.inj (hvalue.symm.trans hts))
  · rename_i hnone
    rintro ⟨ts, hts⟩
    rw [hnone] at hts
    cases hts

/-- A point without a time is left alone, and built as it is. -/
theorem exportPoint_of_not_hasTime {point : ExportData} (h : ¬ HasTime point) :
    exportPoint point = (point, ⟨point.Name, point.Tags, point.Fields, none⟩) := by
  unfold exportPoint
  split
  · rename_i ts hts
    exact absurd ⟨ts, hts⟩ h
  · rfl
  · rfl

variable {s t : Exporting} {i : Nat}

theorem step_cases (he : step s i = some t) :
    ∃ bp point, s.calls[i]? = some bp ∧ s.data[bp.points.length]? = some point ∧
      t = { data := s.data.set bp.points.length (exportPoint point).1
            calls := s.calls.set i
              { bp with points := bp.points ++ [(exportPoint point).2] } } := by
  unfold step at he
  split at he
  · cases he
  · rename_i bp hbp
    split at he
    · cases he
    · rename_i point hpoint
      cases he
      exact ⟨bp, point, hbp, hpoint, rfl⟩

/-- Call `i` has built `pt` for the point at `j`. -/
def Built (s : Exporting) (i j : Nat) (pt : Point) : Prop :=
  ∃ bp, s.calls[i]? = some bp ∧ bp.points[j]? = some pt

/-- A round builds one point and nothing else. -/
theorem built_set_iff {bp : BatchPoints} (hbp : s.calls[i]? = some bp) {data : List ExportData}
    {new : Point} {i' j : Nat} {pt : Point} :
    Built ⟨data, s.calls.set i { bp with points := bp.points ++ [new] }⟩ i' j pt ↔
      Built s i' j pt ∨ (i' = i ∧ j = bp.points.length ∧ pt = new) := by
  have hlt : i < s.calls.length := (List.getElem?_eq_some_iff.1 hbp).1
  unfold Built
  by_cases hi : i' = i
  · subst hi
    rw [hbp, List.getElem?_set_self hlt]
    simp only [Option.some.injEq, exists_eq_left', true_and]
    rw [List.getElem?_append, List.getElem?_singleton]
    by_cases hj : j < bp.points.length
    · rw [if_pos hj]
      exact ⟨Or.inl, fun h => h.resolve_right fun hnew => absurd hnew.1 (Nat.ne_of_lt hj)⟩
    · have hnone : bp.points[j]? = none := List.getElem?_eq_none (Nat.not_lt.1 hj)
      rw [if_neg hj, hnone]
      by_cases hend : j = bp.points.length
      · simp [hend, eq_comm]
      · have hpos : ¬ j - bp.points.length = 0 := by omega
        simp [hend, hpos]
  · rw [List.getElem?_set_ne (Ne.symm hi)]
    simp [hi]

/-! ## No more than one call finds the time -/

/-- A point that some call has handled carries no time, and only one call has built a
point with a time from it. -/
structure TimedOnce (s : Exporting) : Prop where
  stripped : ∀ i j pt point, Built s i j pt → s.data[j]? = some point → ¬ HasTime point
  once : ∀ i i' j pt pt', Built s i j pt → Built s i' j pt' → pt.time ≠ none →
    pt'.time ≠ none → i = i'

theorem timedOnce_step (hs : TimedOnce s) (he : step s i = some t) : TimedOnce t := by
  obtain ⟨bp, point, hbp, hpoint, rfl⟩ := step_cases he
  constructor
  · intro i' j pt point' hbuilt hpoint'
    by_cases hj : j = bp.points.length
    · have hlt : bp.points.length < s.data.length := (List.getElem?_eq_some_iff.1 hpoint).1
      subst hj
      rw [List.getElem?_set_self hlt] at hpoint'
      cases hpoint'
      exact not_hasTime_exportPoint point
    · rw [List.getElem?_set_ne (Ne.symm hj)] at hpoint'
      rcases (built_set_iff hbp).1 hbuilt with hold | ⟨-, hend, -⟩
      · exact hs.stripped i' j pt point' hold hpoint'
      · exact absurd hend hj
  · intro i₁ i₂ j pt pt' hbuilt hbuilt' htime htime'
    rw [built_set_iff hbp] at hbuilt hbuilt'
    rcases hbuilt with hold | ⟨rfl, rfl, rfl⟩
    · rcases hbuilt' with hold' | ⟨rfl, rfl, rfl⟩
      · exact hs.once i₁ i₂ j pt pt' hold hold' htime htime'
      · exact absurd ((time_exportPoint point).1 htime') (hs.stripped i₁ _ pt point hold hpoint)
    · rcases hbuilt' with hold' | ⟨rfl, -, rfl⟩
      · exact absurd ((time_exportPoint point).1 htime) (hs.stripped i₂ _ pt' point hold' hpoint)
      · rfl

theorem points_of_mem_consume {exporterMap : Finset String} {w : ExportDataWarpper}
    {bp : BatchPoints} (h : bp ∈ (consume exporterMap w).calls) : bp.points = [] := by
  obtain ⟨exporter, -, hcall⟩ := List.mem_filterMap.1 h
  by_cases hstarted : exporter.Name ∈ exporterMap
  · simp only [if_pos hstarted, Option.some.injEq] at hcall
    rw [← hcall]
  · simp only [if_neg hstarted] at hcall
    cases hcall

theorem run_timedOnce (exporterMap : Finset String) (w : ExportDataWarpper) :
    ∀ moves s, run step (consume exporterMap w) moves = some s → TimedOnce s := by
  have hnone : ∀ i j pt, ¬ Built (consume exporterMap w) i j pt := by
    rintro i j pt ⟨bp, hbp, hpt⟩
    rw [points_of_mem_consume (List.mem_of_getElem? hbp)] at hpt
    cases hpt
  refine run_invariant (I := fun _ => TimedOnce) ?_ fun _ s i t _ hs he => timedOnce_step hs he
  exact ⟨fun i j pt _ h => absurd h (hnone i j pt), fun i _ j pt _ h => absurd h (hnone i j pt)⟩

theorem length_calls_run (exporterMap : Finset String) (w : ExportDataWarpper) :
    ∀ moves s, run step (consume exporterMap w) moves = some s →
      s.calls.length = (consume exporterMap w).calls.length := by
  refine run_invariant (I := fun _ (s : Exporting) => s.calls.length = _) rfl ?_
  intro _ s i t _ hs he
  obtain ⟨bp, point, -, -, rfl⟩ := step_cases he
  rw [List.length_set, hs]

/-! ## Calls that build what they would build alone -/

/-- A call that has found the points as they were so far. -/
def Undisturbed (data : List ExportData) (bp : BatchPoints) : Prop :=
  bp.points = (alone data).take bp.points.length

theorem length_alone (data : List ExportData) : (alone data).length = data.length :=
  List.length_map _

/-- If the next point is as it was, the call stays undisturbed. -/
theorem Undisturbed.concat {data : List ExportData} {bp : BatchPoints} (h : Undisturbed data bp)
    {point : ExportData} (hpoint : data[bp.points.length]? = some point) :
    Undisturbed data { bp with points := bp.points ++ [(exportPoint point).2] } := by
  have hnext : (alone data)[bp.points.length]? = some (exportPoint point).2 := by
    rw [alone, List.getElem?_map, hpoint, Option.map_some]
  dsimp only [Undisturbed]
  rw [List.length_append, List.length_singleton, List.take_add_one, ← h, hnext]
  rfl

theorem Undisturbed.points_eq {data : List ExportData} {bp : BatchPoints}
    (h : Undisturbed data bp) (hlength : bp.points.length = data.length) :
    bp.points = alone data := by
  rw [h, List.take_of_length_le]
  rw [length_alone, hlength]

/-- Without a time in any point nobody changes the data. -/
theorem run_undisturbed {exporterMap : Finset String} {w : ExportDataWarpper}
    (hnone : ∀ point ∈ w.Data, ¬ HasTime point) :
    ∀ moves s, run step (consume exporterMap w) moves = some s →
      s.data = w.Data ∧ ∀ bp ∈ s.calls, Undisturbed w.Data bp := by
  refine run_invariant
    (I := fun _ (s : Exporting) => s.data = w.Data ∧ ∀ bp ∈ s.calls, Undisturbed w.Data bp)
    ⟨rfl, fun bp hbp => ?_⟩ ?_
  · rw [Undisturbed, points_of_mem_consume hbp]
    rfl
  · rintro _ s i t _ ⟨hdata, hcalls⟩ he
    obtain ⟨bp, point, hbp, hpoint, rfl⟩ := step_cases he
    rw [hdata] at hpoint
    have hsame := congrArg Prod.fst
      (exportPoint_of_not_hasTime (hnone point (List.mem_of_getElem? hpoint)))
    refine ⟨?_, fun bp' hbp' => ?_⟩
    · obtain ⟨hlt, heq⟩ := List.getElem?_eq_some_iff.1 hpoint
      show s.data.set bp.points.length (exportPoint point).1 = w.Data
      rw [hsame, hdata, ← heq, List.set_getElem_self hlt]
    · rcases List.mem_or_eq_of_mem_set hbp' with hold | rfl
      · exact hcalls bp' hold
      · exact (hcalls bp (List.mem_of_getElem? hbp)).concat hpoint

/-- The data behind the place a call has come to are as they were. -/
structure Ahead (w : ExportDataWarpper) (s : Exporting) (bp : BatchPoints) : Prop where
  calls : s.calls = [bp]
  undisturbed : Undisturbed w.Data bp
  length : s.data.length = w.Data.length
  data : ∀ j, bp.points.length ≤ j → s.data[j]? = w.Data[j]?

theorem Ahead.step {w : ExportDataWarpper} {bp : BatchPoints} (hs : Ahead w s bp)
    (he : step s i = some t) : ∃ bp', Ahead w t bp' := by
  obtain ⟨bp', point, hbp, hpoint, rfl⟩ := step_cases he
  rw [hs.calls, List.getElem?_singleton] at hbp
  split at hbp
  · rename_i hi
    cases hbp
    have hnext := hpoint
    rw [hs.data _ (Nat.le_refl _)] at hnext
    refine ⟨{ bp with points := bp.points ++ [(exportPoint point).2] }, ?_,
      hs.undisturbed.concat hnext, ?_, fun j hj => ?_⟩
    · show s.calls.set i _ = [_]
      rw [hs.calls, hi]
      rfl
    · rw [List.length_set, hs.length]
    · rw [List.length_append, List.length_singleton] at hj
      rw [List.getElem?_set_ne (by omega), hs.data j (by omega)]
  · cases hbp

/-- A single call finds every point as it was, times included. -/
theorem points_of_single {exporterMap : Finset String} {w : ExportDataWarpper}
    {call : BatchPoints} (hsingle : (consume exporterMap w).calls = [call]) {moves : List Nat}
    (hrun : run step (consume exporterMap w) moves = some s) (hfin : Finished s) :
    ∃ bp, s.calls = [bp] ∧ bp.points = alone w.Data := by
  have hstart : Ahead w (consume exporterMap w) call := by
    refine ⟨hsingle, ?_, rfl, fun _ _ => rfl⟩
    rw [Undisturbed, points_of_mem_consume (hsingle ▸ List.mem_cons_self)]
    rfl
  obtain ⟨bp, hbp⟩ := run_invariant (I := fun _ s => ∃ bp, Ahead w s bp) ⟨call, hstart⟩
    (fun _ s i t _ ⟨_, hs⟩ he => hs.step he) moves s hrun
  refine ⟨bp, hbp.calls, hbp.undisturbed.points_eq ?_⟩
  rw [hfin bp (hbp.calls ▸ List.mem_cons_self), hbp.length]

/-! ## Every schedule -/

/-- **Two or more calls all build what each would build alone exactly when no point has a
time, in whatever order they take their rounds.** -/
theorem export_alike_iff (exporterMap : Finset String) (w : ExportDataWarpper)
    (moves : List Nat) (s : Exporting)
    (hcalls : 2 ≤ (consume exporterMap w).calls.length)
    (hrun : run step (consume exporterMap w) moves = some s) (hfin : Finished s) :
    (∀ bp ∈ s.calls, bp.points = alone w.Data) ↔ ∀ point ∈ w.Data, ¬ HasTime point := by
  constructor
  · intro hall point hpoint htime
    obtain ⟨j, hj⟩ := List.mem_iff_getElem?.1 hpoint
    have hbuilt : ∀ i < s.calls.length, Built s i j (exportPoint point).2 := by
      intro i hi
      refine ⟨s.calls[i], List.getElem?_eq_getElem hi, ?_⟩
      rw [hall _ (List.getElem_mem hi), alone, List.getElem?_map, hj, Option.map_some]
    rw [← length_calls_run exporterMap w moves s hrun] at hcalls
    have htimed := (time_exportPoint point).2 htime
    have honce := (run_timedOnce exporterMap w moves s hrun).once 0 1 j _ _
      (hbuilt 0 (by omega)) (hbuilt 1 (by omega)) htimed htimed
    exact absurd honce (by decide)
  · intro hnone bp hbp
    obtain ⟨hdata, hundisturbed⟩ := run_undisturbed hnone moves s hrun
    exact (hundisturbed bp hbp).points_eq ((hfin bp hbp).trans (congrArg List.length hdata))

/-- A point with a time for two exporters. -/
def timedBatch : ExportDataWarpper :=
  ⟨[⟨"offcpu", ∅, ((∅ : GoMap String Value).insert "timestamp" (.time 5)).insert
      "dutration(us)" (.int64 7)⟩],
    [⟨"lab", "kmon"⟩, ⟨"backup", ""⟩]⟩

theorem export_alike_iff_timedBatch :
    ∃ s, run step (consume {"lab", "backup"} timedBatch) [1, 0] = some s ∧ Finished s ∧
      ((∀ bp ∈ s.calls, bp.points = alone timedBatch.Data) ↔
        ∀ point ∈ timedBatch.Data, ¬ HasTime point) := by
  refine ⟨_, rfl, by decide, ?_⟩
  exact export_alike_iff {"lab", "backup"} timedBatch [1, 0] _ (by decide) rfl (by decide)

/-- The exporter that comes second writes the point without its time. -/
theorem second_exporter_loses_time :
    ¬ ∀ (exporterMap : Finset String) (w : ExportDataWarpper) (moves : List Nat)
        (s : Exporting), 2 ≤ (consume exporterMap w).calls.length →
      run step (consume exporterMap w) moves = some s → Finished s →
        ∀ bp ∈ s.calls, bp.points = alone w.Data := by
  intro h
  have hall := h {"lab", "backup"} timedBatch [1, 0] _ (by decide) rfl (by decide)
  revert hall
  decide

end Kmon.Ports.InfluxExport
