import Kmon.Verified.KeyedStream
import Kmon.Ports.TcpreqCollector
import Mathlib.Algebra.BigOperators.Group.List.Basic
import Mathlib.Data.BitVec

/-!
# The records of one connection

The connections that tcpreq traces share `tcpEventMachine`, but `bufferEvent` looks up and
replaces the entry of one 4-tuple only (`src/collector/tcpreq.go`).  What the records of a
connection say of its state is therefore a function of the events of this connection
(`stateRecords`).  `connection_undisturbed` compares two runs, one on the whole stream and
one on the events of a single connection; the containers and the clock the calls find may
differ between the two.
-/

namespace Kmon.Ports.ConnectionStreams

open Kmon.Verified
open Kmon.Verified.KeyedStream
open Kmon.Ports.Config
open Kmon.Ports.Points
open Kmon.Ports.TcpreqCollector

/-- What a call of `bufferEvent` finds besides the collector. -/
structure Surroundings where
  containerName : String
  now : Time

/-- The records of a stream, each with the connection of its event.  `found i` is what the
call for event `i` finds. -/
def records (found : Nat → Surroundings) (collector : Tcpreq) :
    List TcpEvent → List (TcpConn × ExportData)
  | [] => []
  | e :: events =>
      (e.conn, point (found 0).containerName (found 0).now collector e) ::
        records (fun i => found (i + 1))
          (bufferEvent (found 0).containerName (found 0).now collector e) events

/-- The collector after a stream. -/
def after (found : Nat → Surroundings) (collector : Tcpreq) : List TcpEvent → Tcpreq
  | [] => collector
  | e :: events =>
      after (fun i => found (i + 1))
        (bufferEvent (found 0).containerName (found 0).now collector e) events

/-- The records are the points that `bufferEvent` appends. -/
theorem tcpEventBuffer_after (found : Nat → Surroundings) (collector : Tcpreq)
    (events : List TcpEvent) :
    (after found collector events).tcpEventBuffer =
      collector.tcpEventBuffer ++ (records found collector events).map Prod.snd := by
  induction events generalizing found collector with
  | nil => exact (List.append_nil _).symm
  | cons e events ih =>
      rw [after, records, ih, List.map_cons]
      exact List.append_assoc _ [_] _

/-- What a record says of the state of its connection. -/
structure StateRecord where
  eventType : Option String
  prevType : Option String
  duration : Option Value
  deriving DecidableEq

/-- The state in a point. -/
def stateRecord (data : ExportData) : StateRecord where
  eventType := data.Tags.lookup "eventType"
  prevType := data.Tags.lookup "prevType"
  duration := data.Fields.lookup "duration(ns)"

/-- The records for the events of one connection. -/
def recordsOf (found : Nat → Surroundings) (collector : Tcpreq) (events : List TcpEvent)
    (c : TcpConn) : List StateRecord :=
  ((records found collector events).filter fun r => r.1 = c).map fun r => stateRecord r.2

/-- The duration of a record, zero if it has none. -/
def StateRecord.nanoseconds (r : StateRecord) : BitVec 64 :=
  match r.duration with
  | some (.int64 d) => d
  | _ => 0

/-- From the first event to the last. -/
def span (events : List TcpEvent) : BitVec 64 :=
  match events.head?, events.getLast? with
  | some first, some last => last.CurTs - first.CurTs
  | _, _ => 0

/-! ## One connection -/

/-- The records of a connection whose last event was `pre`. -/
def stateRecords : Option TcpEvent → List TcpEvent → List StateRecord
  | _, [] => []
  | pre, e :: events =>
      { eventType := some (tcpEventTypeToString e.type)
        prevType := pre.map fun pre => tcpEventTypeToString pre.type
        duration := pre.map fun pre => .int64 (e.CurTs - pre.CurTs) } ::
        stateRecords (some e) events

theorem stateRecord_point (containerName : String) (now : Time) (collector : Tcpreq)
    (e : TcpEvent) :
    stateRecord (point containerName now collector e) =
      { eventType := some (tcpEventTypeToString e.type)
        prevType := (collector.tcpEventMachine.lookup e.conn).map
          fun pre => tcpEventTypeToString pre.type
        duration := (collector.tcpEventMachine.lookup e.conn).map
          fun pre => .int64 (e.CurTs - pre.CurTs) } := by
  have htype : (point containerName now collector e).Tags.lookup "eventType" =
      some (tcpEventTypeToString e.type) := by
    unfold point baseTags
    cases collector.tcpEventMachine.lookup e.conn <;> by_cases hname : containerName = "" <;>
      simp [hname]
  rw [stateRecord, htype, lookup_prevType, lookup_duration]

/-- The records of a connection come from its own events, after the one that the machine
holds for it. -/
theorem recordsOf_eq_stateRecords (c : TcpConn) (events : List TcpEvent) :
    ∀ (found : Nat → Surroundings) (collector : Tcpreq),
      recordsOf found collector events c =
        stateRecords (collector.tcpEventMachine.lookup c) (under TcpEvent.conn c events) := by
  induction events with
  | nil => exact fun _ _ => rfl
  | cons e events ih =>
      intro found collector
      have hrest := ih (fun i => found (i + 1))
        (bufferEvent (found 0).containerName (found 0).now collector e)
      have hmachine : (bufferEvent (found 0).containerName (found 0).now collector
          e).tcpEventMachine.lookup c =
            if c = e.conn then some e else collector.tcpEventMachine.lookup c :=
        GoMap.lookup_insert_ite _ _ _ _
      rw [hmachine] at hrest
      unfold recordsOf at hrest ⊢
      by_cases hc : e.conn = c
      · subst hc
        rw [if_pos rfl] at hrest
        rw [records, List.filter_cons_of_pos (by simp), List.map_cons, hrest, stateRecord_point,
          under_cons_self]
        rfl
      · rw [if_neg (Ne.symm hc)] at hrest
        rw [records, List.filter_cons_of_neg (by simpa using hc), hrest, under_cons_of_ne hc]

/-! ## What the records of a connection say -/

theorem eventType_stateRecords (pre : Option TcpEvent) (events : List TcpEvent) :
    (stateRecords pre events).map StateRecord.eventType =
      events.map fun e => some (tcpEventTypeToString e.type) := by
  induction events generalizing pre with
  | nil => rfl
  | cons e events ih =>
      rw [stateRecords, List.map_cons, ih]
      rfl

/-- Each record names the type of the one before. -/
theorem isChain_stateRecords (pre : Option TcpEvent) (events : List TcpEvent) :
    (stateRecords pre events).IsChain fun r r' => r'.prevType = r.eventType := by
  induction events generalizing pre with
  | nil => exact List.IsChain.nil
  | cons e events ih =>
      rw [stateRecords]
      have htail := ih (some e)
      cases events with
      | nil => exact List.IsChain.singleton _
      | cons e' events => exact List.IsChain.cons_cons rfl htail

/-- The durations add up. -/
theorem sum_nanoseconds (pre : TcpEvent) (events : List TcpEvent) :
    ((stateRecords (some pre) events).map StateRecord.nanoseconds).sum =
      span (pre :: events) := by
  induction events generalizing pre with
  | nil =>
      show (0 : BitVec 64) = pre.CurTs - pre.CurTs
      rw [sub_self]
  | cons e events ih =>
      have hlast : span (pre :: e :: events) = e.CurTs - pre.CurTs + span (e :: events) := by
        unfold span
        rw [List.head?_cons, List.head?_cons, List.getLast?_cons_cons]
        cases hend : (e :: events).getLast? with
        | none => cases List.getLast?_eq_none_iff.1 hend
        | some last => exact (sub_add_sub_cancel' _ _ _).symm
      rw [stateRecords, List.map_cons, List.sum_cons, ih, hlast]
      rfl

/-! ## Two runs -/

/-- **Connections do not disturb each other.**  The records of a connection say the same
as in a run on its own events; the first names no type before it, each later one names the
type of the record before it, and the durations sum to the last time minus the first. -/
theorem connection_undisturbed (conf conf' : ColTcpreq) (buffer buffer' : List ExportData)
    (found found' : Nat → Surroundings) (events : List TcpEvent) (c : TcpConn) :
    let inside := recordsOf found ⟨conf, ∅, buffer⟩ events c
    let own := under TcpEvent.conn c events
    inside = recordsOf found' ⟨conf', ∅, buffer'⟩ own c ∧
      inside.map StateRecord.eventType =
        own.map (fun e => some (tcpEventTypeToString e.type)) ∧
      inside.head?.bind StateRecord.prevType = none ∧
      inside.IsChain (fun r r' => r'.prevType = r.eventType) ∧
      (inside.map StateRecord.nanoseconds).sum = span own := by
  intro inside own
  have hinside : inside = stateRecords none own :=
    recordsOf_eq_stateRecords c events found ⟨conf, ∅, buffer⟩
  have hown : under TcpEvent.conn c own = own := under_under c events
  refine ⟨?_, ?_, ?_, ?_, ?_⟩
  · rw [hinside, recordsOf_eq_stateRecords, hown]
    rfl
  · rw [hinside, eventType_stateRecords]
  · rw [hinside]
    cases own <;> rfl
  · rw [hinside]
    exact isChain_stateRecords none own
  · rw [hinside]
    cases own with
    | nil => rfl
    | cons e rest =>
        rw [← sum_nanoseconds e rest, stateRecords, List.map_cons, List.sum_cons]
        exact zero_add _

end Kmon.Ports.ConnectionStreams
