import Kmon.Ports.InfluxExport
import Kmon.Ports.TcpreqCollector

/-!
# Which request events InfluxDB keeps

InfluxDB keeps one point for each measurement, tag set and time, and gives all points
of one write that carry no time the same one (`stored`).  `tcpreq.bufferEvent` puts the
time of an event into the field `occurTime`, and `influxdb.Export` takes a time from the
field `timestamp` alone.  So no request event has a time of its own, and those of one
batch with the same name and tags fall on one point.

Name and tags are made of what an `Origin` holds, and of nothing else
(`origin_eq_iff`).  `allStored_iff` says that a batch is stored completely exactly when
its events have different origins.
-/

namespace Kmon.Ports.StoredPoints

open Kmon.Verified
open Kmon.Verified.Run
open Kmon.Ports.Config
open Kmon.Ports.Points
open Kmon.Ports.InfluxExport
open Kmon.Ports.TcpreqCollector

/-! ## InfluxDB -/

/-- What a point is stored under when it is written at `writeTime`. -/
def storedUnder (writeTime : Time) (pt : Point) : String × GoMap String String × Time :=
  (pt.name, pt.tags, pt.time.getD writeTime)

/-- The points that are there after a write. -/
def stored (writeTime : Time) (points : List Point) :
    Finset (String × GoMap String String × Time) :=
  (points.map (storedUnder writeTime)).toFinset

/-- Points of equal name and tags have different times of their own. -/
def KeptApart (points : List Point) : Prop :=
  points.Pairwise fun p q => p.name = q.name → p.tags = q.tags →
    ∃ t u, p.time = some t ∧ q.time = some u ∧ t ≠ u

/-! ## Events between two exports -/

/-- What may happen to tcpreq between two exports. -/
inductive Event where
  | bufferEvent (containerName : String) (now : Time) (e : TcpEvent)
  | onConfigChange (conf : ColTcpreq)

/-- The collector after the events, newest first. -/
def buffered (start : Tcpreq) : List Event → Tcpreq
  | [] => start
  | .bufferEvent containerName now e :: h => bufferEvent containerName now (buffered start h) e
  | .onConfigChange conf :: h => { buffered start h with conf := conf }

/-- `exportData` has just run. -/
def exported (collector : Tcpreq) : Tcpreq := { collector with tcpEventBuffer := [] }

/-- The number of events buffered. -/
def count : List Event → Nat
  | [] => 0
  | .bufferEvent _ _ _ :: h => count h + 1
  | .onConfigChange _ :: h => count h

/-- Where an event comes from: the name in the configuration, the container and the
process, the type, the connection, and the type of the event before it on that
connection. -/
structure Origin where
  dataName : String
  containerName : String
  pid : BitVec 32
  eventType : String
  conn : TcpConn
  prevType : Option String
  deriving DecidableEq, Repr

/-- The origin of an event that arrives now. -/
def originOf (containerName : String) (collector : Tcpreq) (e : TcpEvent) : Origin where
  dataName := collector.conf.ExportConfig.DataName
  containerName := containerName
  pid := e.PID
  eventType := tcpEventTypeToString e.type
  conn := e.conn
  prevType := (collector.tcpEventMachine.lookup e.conn).map fun pre => tcpEventTypeToString pre.type

/-- An event, and the collector and the container it meets. -/
structure Arrival where
  containerName : String
  now : Time
  collector : Tcpreq
  e : TcpEvent

/-- The point the event becomes. -/
def Arrival.point (a : Arrival) : ExportData :=
  TcpreqCollector.point a.containerName a.now a.collector a.e

def Arrival.origin (a : Arrival) : Origin := originOf a.containerName a.collector a.e

/-- The events that are buffered, oldest first. -/
def arrivals (start : Tcpreq) : List Event → List Arrival
  | [] => []
  | .bufferEvent containerName now e :: h =>
      arrivals start h ++ [⟨containerName, now, buffered start h, e⟩]
  | .onConfigChange _ :: h => arrivals start h

/-- The batch of the next export is stored completely, whenever it is written. -/
structure AllStored (collector : Tcpreq) (events : Nat) : Prop where
  apart : KeptApart (alone collector.tcpEventBuffer)
  stored : ∀ writeTime, (stored writeTime (alone collector.tcpEventBuffer)).card = events

/-! ## The point of one event -/

section Point

variable {containerName containerName' : String} {now now' : Time}
  {collector collector' : Tcpreq} {e e' : TcpEvent}

/-- The point carries no time that `Export` recognises. -/
theorem not_hasTime_point : ¬ HasTime (point containerName now collector e) := by
  rintro ⟨ts, hts⟩
  unfold point at hts
  cases hpre : collector.tcpEventMachine.lookup e.conn with
  | none => simp [hpre] at hts
  | some pre => simp [hpre] at hts

theorem Name_point :
    (point containerName now collector e).Name = collector.conf.ExportConfig.DataName := by
  unfold point
  cases collector.tcpEventMachine.lookup e.conn with
  | none => rfl
  | some pre => rfl

/-- The tags of a point, each from the part of the origin it is made of. -/
theorem lookup_Tags (tag : String) :
    (point containerName now collector e).Tags.lookup tag =
      if tag = "prevType" then (originOf containerName collector e).prevType
      else if tag = "container" then
        if containerName = "" then none else some containerName
      else if tag = "myAddr" then some (endpoint e.MyAddr e.MyPort)
      else if tag = "peerAddr" then some (endpoint e.PeerAddr e.PeerPort)
      else if tag = "eventType" then some (tcpEventTypeToString e.type)
      else if tag = "pid" then some (sprint e.PID)
      else none := by
  have hbase : (baseTags e).lookup tag =
      if tag = "myAddr" then some (endpoint e.MyAddr e.MyPort)
      else if tag = "peerAddr" then some (endpoint e.PeerAddr e.PeerPort)
      else if tag = "eventType" then some (tcpEventTypeToString e.type)
      else if tag = "pid" then some (sprint e.PID)
      else none := by
    rw [baseTags, GoMap.lookup_insert_ite, GoMap.lookup_insert_ite, GoMap.lookup_insert_ite,
      GoMap.lookup_insert_ite, Finmap.lookup_empty]
  have htags : (point containerName now collector e).Tags.lookup tag =
      if tag = "prevType" then (originOf containerName collector e).prevType
      else (if containerName ≠ "" then (baseTags e).insert "container" containerName
        else baseTags e).lookup tag := by
    by_cases hprev : tag = "prevType"
    · rw [if_pos hprev, hprev, lookup_prevType]
      rfl
    · rw [if_neg hprev]
      unfold point
      cases collector.tcpEventMachine.lookup e.conn with
      | none => rfl
      | some pre => exact (GoMap.lookup_insert_ite _ _ _ _).trans (if_neg hprev)
  rw [htags, lookup_container, hbase]
  by_cases htag : tag = "container"
  · subst htag
    by_cases hname : containerName = "" <;> simp [hname]
  · simp only [htag, false_and, if_false]

/-- Points have the same name and tags exactly when their events have the same
origin. -/
theorem origin_eq_iff :
    (point containerName now collector e).Name = (point containerName' now' collector' e').Name ∧
        (point containerName now collector e).Tags =
          (point containerName' now' collector' e').Tags ↔
      originOf containerName collector e = originOf containerName' collector' e' := by
  rw [Name_point, Name_point]
  constructor
  · rintro ⟨hname, htags⟩
    have hlookup : ∀ tag, (point containerName now collector e).Tags.lookup tag =
        (point containerName' now' collector' e').Tags.lookup tag := by
      intro tag
      rw [htags]
    have hprev := hlookup "prevType"
    have hcontainer := hlookup "container"
    have hmy := hlookup "myAddr"
    have hpeer := hlookup "peerAddr"
    have htype := hlookup "eventType"
    have hpid := hlookup "pid"
    simp only [lookup_Tags] at hprev hcontainer hmy hpeer htype hpid
    have hcontainer' : containerName = containerName' := by
      by_cases h : containerName = "" <;> by_cases h' : containerName' = "" <;>
        simp_all
    obtain ⟨hmyAddr, hmyPort⟩ := endpoint_inj (Option.some.inj hmy)
    obtain ⟨hpeerAddr, hpeerPort⟩ := endpoint_inj (Option.some.inj hpeer)
    have hconn : e.conn = e'.conn := by
      simp only [TcpEvent.conn, hmyAddr, hmyPort, hpeerAddr, hpeerPort]
    simp only [Origin.mk.injEq, originOf]
    exact ⟨hname, hcontainer', sprint_inj (Option.some.inj hpid), Option.some.inj htype, hconn,
      hprev⟩
  · intro h
    have hprev := congrArg Origin.prevType h
    simp only [Origin.mk.injEq, originOf, TcpEvent.conn, TcpConn.mk.injEq] at h
    obtain ⟨hname, hcontainer, hpid, htype, ⟨hpeerAddr, hmyAddr, hpeerPort, hmyPort⟩, -⟩ := h
    refine ⟨hname, Finmap.ext_lookup fun tag => ?_⟩
    rw [lookup_Tags, lookup_Tags, hprev, hcontainer, hpid, htype, hpeerAddr, hmyAddr, hpeerPort,
      hmyPort]

end Point

/-! ## The batch -/

theorem length_arrivals (start : Tcpreq) (h : List Event) :
    (arrivals start h).length = count h := by
  induction h with
  | nil => rfl
  | cons e h ih =>
      cases e with
      | bufferEvent containerName now e =>
          rw [arrivals, List.length_append, ih]
          rfl
      | onConfigChange conf => exact ih

/-- The buffer holds the points of the events since the export. -/
theorem tcpEventBuffer_buffered (collector : Tcpreq) (h : List Event) :
    (buffered (exported collector) h).tcpEventBuffer =
      (arrivals (exported collector) h).map Arrival.point := by
  induction h with
  | nil => rfl
  | cons e h ih =>
      cases e with
      | bufferEvent containerName now e =>
          rw [arrivals, List.map_append, ← ih]
          rfl
      | onConfigChange conf => exact ih

/-- What `Export` builds of an event. -/
def Arrival.built (a : Arrival) : Point :=
  ⟨a.point.Name, a.point.Tags, a.point.Fields, none⟩

theorem alone_arrivals (l : List Arrival) : alone (l.map Arrival.point) = l.map Arrival.built := by
  rw [alone, List.map_map]
  apply List.map_congr_left
  intro a _
  exact congrArg Prod.snd (exportPoint_of_not_hasTime not_hasTime_point)

/-- Two events fall on one point exactly when they have the same origin. -/
theorem storedUnder_eq_iff (writeTime : Time) (a b : Arrival) :
    storedUnder writeTime a.built = storedUnder writeTime b.built ↔ a.origin = b.origin := by
  show (a.point.Name, a.point.Tags, writeTime) = (b.point.Name, b.point.Tags, writeTime) ↔ _
  rw [Prod.mk.injEq, Prod.mk.injEq]
  simp only [and_true]
  exact origin_eq_iff

theorem keptApart_iff (l : List Arrival) :
    KeptApart (l.map Arrival.built) ↔ (l.map Arrival.origin).Nodup := by
  unfold KeptApart List.Nodup
  rw [List.pairwise_map, List.pairwise_map]
  apply iff_of_eq
  congr
  funext a b
  apply propext
  constructor
  · intro hapart hsame
    obtain ⟨hname, htags⟩ := origin_eq_iff.2 hsame
    -- no event has a time
    obtain ⟨t, -, htime, -⟩ := hapart hname htags
    cases htime
  · intro hne hname htags
    exact absurd (origin_eq_iff.1 ⟨hname, htags⟩) hne

theorem card_stored_iff (writeTime : Time) (l : List Arrival) :
    (stored writeTime (l.map Arrival.built)).card = l.length ↔
      (l.map Arrival.origin).Nodup := by
  have hcard : (stored writeTime (l.map Arrival.built)).card = l.length ↔
      ((l.map Arrival.built).map (storedUnder writeTime)).Nodup := by
    rw [← Multiset.coe_nodup, ← Multiset.toFinset_card_eq_card_iff_nodup, Multiset.coe_card,
      List.length_map, List.length_map]
    rfl
  rw [hcard, List.map_map]
  unfold List.Nodup
  rw [List.pairwise_map, List.pairwise_map]
  apply iff_of_eq
  congr
  funext a b
  exact propext (not_congr (storedUnder_eq_iff writeTime a b))

/-- **A batch of request events is stored completely exactly when its events have
different origins.** -/
theorem allStored_iff (collector : Tcpreq) (events : List Event) :
    AllStored (buffered (exported collector) events) (count events) ↔
      ((arrivals (exported collector) events).map Arrival.origin).Nodup := by
  have halone : alone (buffered (exported collector) events).tcpEventBuffer =
      (arrivals (exported collector) events).map Arrival.built := by
    rw [tcpEventBuffer_buffered, alone_arrivals]
  constructor
  · intro hall
    have hapart := hall.apart
    rw [halone] at hapart
    exact (keptApart_iff _).1 hapart
  · intro hnodup
    constructor
    · rw [halone]
      exact (keptApart_iff _).2 hnodup
    · intro writeTime
      rw [halone, ← length_arrivals (exported collector)]
      exact (card_stored_iff writeTime _).2 hnodup

/-- A connection that is accepted, receives, sends, receives and sends within a period:
both sends come after a receive, and are one point. -/
theorem repeated_send_overwritten :
    let event (CurTs : BitVec 64) (type : BitVec 32) : TcpEvent :=
      ⟨CurTs, type, 7, 0x0100000a, 0x0200000a, 51000, 80⟩
    let collector : Tcpreq := ⟨⟨"tcpreq", 1, ListenConfig.zero, ⟨10, "req", []⟩⟩, ∅, []⟩
    ¬ AllStored (buffered (exported collector)
        [.bufferEvent "" 50 (event 5000 2), .bufferEvent "" 40 (event 4000 1),
          .bufferEvent "" 30 (event 3000 2), .bufferEvent "" 20 (event 2000 1),
          .bufferEvent "" 10 (event 1000 3)]) 5 := by
  intro event collector hall
  have hapart := hall.apart
  rw [tcpEventBuffer_buffered, alone_arrivals, keptApart_iff] at hapart
  revert hapart
  decide

/-- In every schedule every exporter builds the batch as if it were the only one: the
points have no time that one of them could take away. -/
theorem points_of_exporters (exporterMap : Finset String) (w : ExportDataWarpper)
    (collector : Tcpreq) (events : List Event)
    (hw : w.Data = (buffered (exported collector) events).tcpEventBuffer) (moves : List Nat)
    (s : Exporting) (hrun : run InfluxExport.step (consume exporterMap w) moves = some s)
    (hfin : Finished s) : ∀ bp ∈ s.calls, bp.points = alone w.Data := by
  have hnone : ∀ point ∈ w.Data, ¬ HasTime point := by
    intro point hpoint
    rw [hw, tcpEventBuffer_buffered] at hpoint
    obtain ⟨a, -, rfl⟩ := List.mem_map.1 hpoint
    exact not_hasTime_point
  intro bp hbp
  obtain ⟨hdata, hundisturbed⟩ := run_undisturbed hnone moves s hrun
  exact (hundisturbed bp hbp).points_eq ((hfin bp hbp).trans (congrArg List.length hdata))

end Kmon.Ports.StoredPoints
