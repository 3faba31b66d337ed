import Kmon.Ports.BiostatProbe
import Kmon.Ports.PerfRecords
import Kmon.Ports.Stacks

/-!
# Dropped packets, from the probe to a point

`trace_tcp_drop` (`release/bcc/tcpdrop.c`) fills one of two packed records, and
`bufferEventV4` or `bufferEventV6` (`src/collector/tcpdrop.go`) makes a point of what
it finds in the sample.  What becomes of a record on the way is the subject of
`PerfRecords`: of an IPv4 record the addresses may be read wrongly, but the ids of the
stacks arrive (`receivedV4_stackIds`).

Where the point goes afterwards is the business of `EventBuffer`.
-/

namespace Kmon.Ports.TcpdropCollector

open Kmon.Verified
open Kmon.Verified.Layout
open Kmon.Ports.Config
open Kmon.Ports.Points
open Kmon.Ports.Records
open Kmon.Ports.PerfRecords
open Kmon.Ports.Stacks
open Kmon.Ports.BiostatProbe (tgid)

/-! ## The probe -/

/-- What the probe reads of the socket and of the headers.  The ports are in network
order; the addresses of IPv6 are those of the socket. -/
structure Packet where
  family : BitVec 16
  state : BitVec 8
  tcpflags : BitVec 8
  source : BitVec 16
  dest : BitVec 16
  saddr : BitVec (8 * 4)
  daddr : BitVec (8 * 4)
  v6Daddr : BitVec (8 * 16)
  v6RcvSaddr : BitVec (8 * 16)

/-- `AF_INET` and `AF_INET6`. -/
def afInet : BitVec 16 := 2

def afInet6 : BitVec 16 := 10

/-- `ntohs` on a little-endian host. -/
def ntohs (port : BitVec 16) : BitVec 16 := port <<< 8 ||| port >>> 8

/-- What `get_stackid` returns: the id of the kernel stack and that of the user
stack, negative numbers for errors. -/
structure StackIds where
  kernel : BitVec 32
  user : BitVec 32

/-- `data4`. -/
def data4 (verbose pid : BitVec 32) (packet : Packet) (ids : StackIds) : Rec ipv4DataT :=
  let ustackId := if verbose > 1 then ids.user else 0
  let stackId := if verbose > 2 then ids.kernel else -1
  (pid, stackId, ustackId, packet.state, packet.tcpflags, ntohs packet.source,
    ntohs packet.dest, packet.saddr, packet.daddr, ())

/-- `data6`. -/
def data6 (verbose pid : BitVec 32) (packet : Packet) (ids : StackIds) : Rec ipv6DataT :=
  let ustackId := if verbose > 1 then ids.user else 0
  let stackId := if verbose > 2 then ids.kernel else 0
  (pid, stackId, ustackId, packet.state, packet.tcpflags, ntohs packet.source,
    ntohs packet.dest, packet.v6Daddr, packet.v6RcvSaddr, ())

/-- The record that `trace_tcp_drop` submits. -/
inductive DropEvent where
  | ipv4 (data : Rec ipv4DataT)
  | ipv6 (data : Rec ipv6DataT)

/-- `trace_tcp_drop`.  `controlMap` holds the verbosity of each process; without a
socket there is no packet. -/
def traceTcpDrop (controlMap : GoMap (BitVec 32) (BitVec 32)) (pidTgid : BitVec 64)
    (packet : Option Packet) (ids : StackIds) : Option DropEvent :=
  match packet with
  | none => none
  | some packet =>
      match controlMap.lookup (tgid pidTgid) with
      | none => none
      | some verbose =>
          if packet.family = afInet then some (.ipv4 (data4 verbose (tgid pidTgid) packet ids))
          else if packet.family = afInet6 then
            some (.ipv6 (data6 verbose (tgid pidTgid) packet ids))
          else none

/-- It submits a record for each packet of the two families that a traced process drops,
and for no other. -/
theorem traceTcpDrop_eq_some_iff {controlMap : GoMap (BitVec 32) (BitVec 32)}
    {pidTgid : BitVec 64} {packet : Option Packet} {ids : StackIds} {ev : DropEvent} :
    traceTcpDrop controlMap pidTgid packet ids = some ev ↔
      ∃ dropped verbose, packet = some dropped ∧
        controlMap.lookup (tgid pidTgid) = some verbose ∧
        ((dropped.family = afInet ∧ ev = .ipv4 (data4 verbose (tgid pidTgid) dropped ids)) ∨
          (dropped.family = afInet6 ∧ ev = .ipv6 (data6 verbose (tgid pidTgid) dropped ids))) := by
  constructor
  · intro hsubmit
    simp only [traceTcpDrop] at hsubmit
    split at hsubmit
    · cases hsubmit
    · rename_i dropped
      split at hsubmit
      · cases hsubmit
      · rename_i verbose hverbose
        refine ⟨dropped, verbose, rfl, hverbose, ?_⟩
        split_ifs at hsubmit with h4 h6
        · exact Or.inl ⟨h4, (Option.some.inj hsubmit).symm⟩
        · exact Or.inr ⟨h6, (Option.some.inj hsubmit).symm⟩
  · rintro ⟨dropped, verbose, rfl, hverbose, ⟨h4, rfl⟩ | ⟨h6, rfl⟩⟩
    · simp only [traceTcpDrop, hverbose, if_pos h4]
    · have hother : dropped.family ≠ afInet := h6 ▸ by decide
      simp only [traceTcpDrop, hverbose, if_neg hother, if_pos h6]

/-! ## The collector -/

/-- `dropPackV4`. -/
structure DropPackV4 where
  PID : BitVec 32
  StackID : BitVec 32
  UserStackID : BitVec 32
  State : BitVec 8
  TCPflags : BitVec 8
  SPort : BitVec 16
  DPort : BitVec 16
  SAddr : BitVec 32
  DAddr : BitVec 32

/-- `dropPackV6`.  An address is a word whose byte `k` is its element `k`. -/
structure DropPackV6 where
  PID : BitVec 32
  StackID : BitVec 32
  UserStackID : BitVec 32
  State : BitVec 8
  TCPflags : BitVec 8
  SPort : BitVec 16
  DPort : BitVec 16
  SAddr : BitVec (8 * 16)
  DAddr : BitVec (8 * 16)

/-- `val := **(**dropPackV4)(unsafe.Pointer(&ev4))` for the sample of a record, with
what follows it in the buffer. -/
def receivedV4 (data : Rec ipv4DataT) (after : Mem) : DropPackV4 :=
  match decode .dropV4 (sample .dropV4 data after) with
  | (PID, StackID, UserStackID, State, TCPflags, SPort, DPort, SAddr, DAddr, _) =>
      ⟨PID, StackID, UserStackID, State, TCPflags, SPort, DPort, SAddr, DAddr⟩

/-- The same for `dropPackV6`. -/
def receivedV6 (data : Rec ipv6DataT) (after : Mem) : DropPackV6 :=
  match decode .dropV6 (sample .dropV6 data after) with
  | (PID, StackID, UserStackID, State, TCPflags, SPort, DPort, SAddr, DAddr, _) =>
      ⟨PID, StackID, UserStackID, State, TCPflags, SPort, DPort, SAddr, DAddr⟩

/-- `tcpState`. -/
def tcpState (state : BitVec 8) : Option String :=
  match state.toNat with
  | 1 => some "ESTABLISHED"
  | 2 => some "SYN_SENT"
  | 3 => some "SYN_RECV"
  | 4 => some "FIN_WAIT1"
  | 5 => some "FIN_WAIT2"
  | 6 => some "TIME_WAIT"
  | 7 => some "CLOSE"
  | 8 => some "CLOSE_WAIT"
  | 9 => some "LAST_ACK"
  | 10 => some "LISTEN"
  | 11 => some "CLOSING"
  | 12 => some "NEW_SYN_RECV"
  | _ => none

/-- The flags that `flag2str` tests; `ACK` is not among them. -/
def flagNames : List (BitVec 8 × String) :=
  [(0x01, "FIN"), (0x02, "SYN"), (0x04, "RST"), (0x08, "PSH"), (0x20, "URG"), (0x40, "ECE"),
    (0x80, "CWR")]

/-- `flag2str`. -/
def flag2str (flags : BitVec 8) : String :=
  "|".intercalate ((flagNames.filter fun f => flags &&& f.1 ≠ 0).map Prod.snd)

/-- A group of an IPv6 address, without leading zeros. -/
def hexGroup (group : Nat) : String := String.ofList (Nat.toDigits 16 group)

/-- Where the first longest run of zero groups begins, and its length. -/
def zeroRun (groups : List Nat) : Nat × Nat :=
  (List.range groups.length).foldl (fun best i =>
    let run := ((groups.drop i).takeWhile (· = 0)).length
    if run > best.2 then (i, run) else best) (0, 0)

/-- `net.IP.String` of sixteen bytes: dotted for a mapped IPv4 address; else the
longest run of two or more zero groups becomes `::`. -/
def ip16String (ip : BitVec (8 * 16)) : String :=
  let bytes := (List.range 16).map fun k => byteOf (n := 16) ip k
  if bytes.take 12 = List.replicate 10 0 ++ [0xff, 0xff] then ipString (bytes.drop 12)
  else
    let groups := (List.range 8).map fun k =>
      (byteOf (n := 16) ip (2 * k)).toNat * 256 + (byteOf (n := 16) ip (2 * k + 1)).toNat
    let run := zeroRun groups
    if run.2 ≤ 1 then ":".intercalate (groups.map hexGroup)
    else
      ":".intercalate ((groups.take run.1).map hexGroup) ++ "::" ++
        ":".intercalate ((groups.drop (run.1 + run.2)).map hexGroup)

/-- The fields that the two functions write, the stacks included. -/
def dropFields (ksym : BitVec 64 → String) (stackMap : StackTable) (now : Time)
    (state flags : BitVec 8) (stackID userStackID : BitVec 32) : GoMap String Value :=
  let stateStr := (tcpState state).getD "UNKNOWN"
  let fields := (((∅ : GoMap String Value).insert "flag" (.string (flag2str flags))).insert
    "state" (.string stateStr)).insert "timestamp" (.time now)
  stackFields ksym stackMap stackID userStackID fields

/-- The tags that the two functions write. -/
def dropTags (containerName : String) (pid : BitVec 32) (source destination : String) :
    GoMap String String :=
  let tags := (((∅ : GoMap String String).insert "pid" (sprint pid)).insert
    "source" source).insert "destination" destination
  if containerName ≠ "" then tags.insert "container" containerName else tags

/-- The point of `bufferEventV4`.  `containerName` is what `GetContainerFromPID`
answers and `now` is `time.Now()`. -/
def pointV4 (ksym : BitVec 64 → String) (stackMap : StackTable) (conf : ColTcpdrop)
    (containerName : String) (now : Time) (e : DropPackV4) : ExportData where
  Name := conf.ExportConfig.DataName
  Tags := dropTags containerName e.PID (endpoint e.SAddr e.SPort) (endpoint e.DAddr e.DPort)
  Fields := dropFields ksym stackMap now e.State e.TCPflags e.StackID e.UserStackID

/-- The point of `bufferEventV6`, which writes the source port twice. -/
def pointV6 (ksym : BitVec 64 → String) (stackMap : StackTable) (conf : ColTcpdrop)
    (containerName : String) (now : Time) (e : DropPackV6) : ExportData where
  Name := conf.ExportConfig.DataName
  Tags := dropTags containerName e.PID (ip16String e.SAddr ++ ":" ++ sprint e.SPort)
    (ip16String e.DAddr ++ ":" ++ sprint e.SPort)
  Fields := dropFields ksym stackMap now e.State e.TCPflags e.StackID e.UserStackID

/-- The point of a record that was submitted. -/
def dropPoint (ksym : BitVec 64 → String) (stackMap : StackTable) (conf : ColTcpdrop)
    (containerName : String) (now : Time) (after : Mem) : DropEvent → ExportData
  | .ipv4 data => pointV4 ksym stackMap conf containerName now (receivedV4 data after)
  | .ipv6 data => pointV6 ksym stackMap conf containerName now (receivedV6 data after)

/-! ## The ids arrive -/

/-- The ids of the stacks are read where they were stored. -/
theorem receivedV4_stackIds (data : Rec ipv4DataT) (after : Mem) :
    (receivedV4 data after).StackID = data.2.1 ∧
      (receivedV4 data after).UserStackID = data.2.2.1 := by
  constructor
  · show readWord (sample .dropV4 data after) 4 4 = data.2.1
    apply readWord_eq_iff.2
    intro k hk
    have hpast : 4 ≤ 4 + k := Nat.le_add_right 4 k
    exact (place_of_rest data after hpast).trans (place_of_field data.2 after hk)
  · show readWord (sample .dropV4 data after) 8 4 = data.2.2.1
    apply readWord_eq_iff.2
    intro k hk
    exact ((place_of_rest data after (by show 4 ≤ 8 + k; omega)).trans
      (place_of_rest data.2 after (by show 8 ≤ 8 + k; omega))).trans
        (place_of_field data.2.2 after hk)

theorem receivedV6_stackIds (data : Rec ipv6DataT) (after : Mem) :
    (receivedV6 data after).StackID = data.2.1 ∧
      (receivedV6 data after).UserStackID = data.2.2.1 := by
  obtain ⟨-, hstack, hustack, -⟩ := (decodes_iff .dropV6 data after).2 trivial
  exact ⟨(BitVec.eq_of_toNat_eq hstack).symm, (BitVec.eq_of_toNat_eq hustack).symm⟩

/-- ACK alone is printed as nothing. -/
example : flag2str 0x10 = "" := by
  decide

end Kmon.Ports.TcpdropCollector
