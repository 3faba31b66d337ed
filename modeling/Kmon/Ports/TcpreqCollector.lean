import Kmon.Ports.Config
import Kmon.Ports.Points

/-!
# The event machine of tcpreq

`tcpreq.bufferEvent` (`src/collector/tcpreq.go`) turns an event of the probes into
a point.  `tcpEventMachine` holds the last event of each 4-tuple; a point gets the
type of that event as `prevType` and the time since as `duration(ns)`.  The
container of the process and the time of day are arguments.  Which array the point
is appended to is the business of `EventBuffer`.
-/

namespace Kmon.Ports.TcpreqCollector

open Kmon.Verified
open Kmon.Ports.Config
open Kmon.Ports.Points

/-- `tcpConn`. -/
structure TcpConn where
  peerAddr : BitVec 32
  myAddr : BitVec 32
  peerPort : BitVec 16
  myPort : BitVec 16
  deriving DecidableEq, Repr

/-- `tcpEvent`.  `Type` is a keyword of Lean, so the field is `type` here. -/
structure TcpEvent where
  CurTs : BitVec 64
  type : BitVec 32
  PID : BitVec 32
  PeerAddr : BitVec 32
  MyAddr : BitVec 32
  PeerPort : BitVec 16
  MyPort : BitVec 16
  deriving DecidableEq, Repr

/-- The key of an event in the machine. -/
def TcpEvent.conn (e : TcpEvent) : TcpConn := ⟨e.PeerAddr, e.MyAddr, e.PeerPort, e.MyPort⟩

/-- `tcpreq`, as far as `bufferEvent` reads and writes it. -/
structure Tcpreq where
  conf : ColTcpreq
  tcpEventMachine : GoMap TcpConn TcpEvent
  tcpEventBuffer : List ExportData

/-- `tcpEventTypeToString`. -/
def tcpEventTypeToString (tcpType : BitVec 32) : String :=
  if tcpType = 1 then "recv"
  else if tcpType = 2 then "send"
  else if tcpType = 3 then "accept"
  else if tcpType = 4 then "close"
  else "unknown"

/-- The tags of a point before those for the container and the last event. -/
def baseTags (e : TcpEvent) : GoMap String String :=
  ((((∅ : GoMap String String).insert "pid" (sprint e.PID)).insert
    "eventType" (tcpEventTypeToString e.type)).insert
    "peerAddr" (endpoint e.PeerAddr e.PeerPort)).insert
    "myAddr" (endpoint e.MyAddr e.MyPort)

/-- The point `bufferEvent` appends.  `containerName` is what
`GetContainerFromPID` answers and `now` is `time.Now()`. -/
def point (containerName : String) (now : Time) (collector : Tcpreq) (e : TcpEvent) :
    ExportData :=
  let tags :=
    if containerName ≠ "" then (baseTags e).insert "container" containerName else baseTags e
  let fields := (∅ : GoMap String Value).insert "occurTime" (.time now)
  match collector.tcpEventMachine.lookup e.conn with
  | none => ⟨collector.conf.ExportConfig.DataName, tags, fields⟩
  | some pre =>
      ⟨collector.conf.ExportConfig.DataName,
        tags.insert "prevType" (tcpEventTypeToString pre.type),
        fields.insert "duration(ns)" (.int64 (e.CurTs - pre.CurTs))⟩

/-- `bufferEvent`. -/
def bufferEvent (containerName : String) (now : Time) (collector : Tcpreq) (e : TcpEvent) :
    Tcpreq :=
  { collector with
    tcpEventMachine := collector.tcpEventMachine.insert e.conn e
    tcpEventBuffer := collector.tcpEventBuffer ++ [point containerName now collector e] }

/-! ## What a point says about the last event -/

variable {containerName : String} {now : Time} {collector : Tcpreq} {e : TcpEvent}

/-- `prevType` is the type of the event the machine holds. -/
theorem lookup_prevType :
    (point containerName now collector e).Tags.lookup "prevType" =
      (collector.tcpEventMachine.lookup e.conn).map fun pre => tcpEventTypeToString pre.type := by
  have hbase : (baseTags e).lookup "prevType" = none := by
    simp [baseTags]
  unfold point
  cases collector.tcpEventMachine.lookup e.conn with
  | none =>
      by_cases hname : containerName ≠ ""
      · simp [hname, hbase]
      · simp [hname, hbase]
  | some pre => exact Finmap.lookup_insert _

/-- `duration(ns)` is the time since the event the machine holds. -/
theorem lookup_duration :
    (point containerName now collector e).Fields.lookup "duration(ns)" =
      (collector.tcpEventMachine.lookup e.conn).map
        fun pre => Value.int64 (e.CurTs - pre.CurTs) := by
  unfold point
  cases collector.tcpEventMachine.lookup e.conn with
  | none => simp
  | some pre => exact Finmap.lookup_insert _

end Kmon.Ports.TcpreqCollector
