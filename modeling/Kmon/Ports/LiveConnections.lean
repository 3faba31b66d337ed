import Kmon.Ports.ConnectionEvents
import Kmon.Ports.TcpreqCollector

/-!
# The connections the probes and the collector hold to be live

`conn_map` in the kernel and `tcpEventMachine` in the collector both keep the last
event of a connection.  The probes delete the entry when the connection is closed;
`bufferEvent` enters the close like any other event and deletes nothing.

Here the collector processes every event right after its emission.  Its machine
after an event depends only on the events up to it, so this is also what a
collector has that receives the events later and in order, compared with
`conn_map` right after the emission.
-/

namespace Kmon.Ports.LiveConnections

open Kmon.Verified
open Kmon.Verified.Run
open Kmon.Ports.Config
open Kmon.Ports.Points
open Kmon.Ports.TcpreqProbe
open Kmon.Ports.TcpreqCollector
open Kmon.Ports.ConnectionEvents (Recorded loaded_recorded step_recorded)

/-- The event the collector decodes from a record. -/
def decode (ev : MsgEvent) : TcpEvent where
  CurTs := ev.curTs
  type := ev.type
  PID := ev.pid
  PeerAddr := ev.peerAddr
  MyAddr := ev.myAddr
  PeerPort := ev.peerPort
  MyPort := ev.myPort

/-- The key of a 4-tuple in the machine. -/
def tcpConn (conn : ConnPair) : TcpConn :=
  ⟨conn.peerAddr, conn.myAddr, conn.peerPort, conn.myPort⟩

/-- The probes and the collector. -/
structure Mirrored where
  kernel : Probing
  collector : Tcpreq

/-- A move of the probes, with the container and the time of day that the collector
finds if the move submits an event. -/
structure Tick where
  move : Move
  containerName : String
  now : Time

/-- The state after `setupTcpreqBCC`. -/
def start (conf : ColTcpreq) : Mirrored :=
  { kernel := loaded, collector := ⟨conf, ∅, []⟩ }

def step (s : Mirrored) (e : Tick) : Option Mirrored :=
  let r := probe s.kernel.maps e.move
  some
    { kernel := ⟨r.1, s.kernel.tcpEvent ++ r.2.toList⟩
      collector :=
        match r.2 with
        | none => s.collector
        | some ev => bufferEvent e.containerName e.now s.collector (decode ev) }

/-- The two key sets are equal. -/
def SameKeys (s : Mirrored) : Prop :=
  ∀ conn, tcpConn conn ∈ s.collector.tcpEventMachine ↔ conn ∈ s.kernel.maps.connMap

/-- The property of a step: the key sets are equal, and a connection that was not
live is exported without a previous event when it is accepted. -/
structure Agrees (_ : List Tick) (s : Mirrored) (_ : Tick) (t : Mirrored) : Prop where
  keys : SameKeys t
  fresh : ∀ ev, t.kernel.tcpEvent = s.kernel.tcpEvent ++ [ev] → ev.type = msgTypeConnect →
    ev.conn ∉ s.kernel.maps.connMap →
      ∃ data, t.collector.tcpEventBuffer = s.collector.tcpEventBuffer ++ [data] ∧
        data.Tags.lookup "prevType" = none ∧ data.Fields.lookup "duration(ns)" = none

/-- The condition: no connection that `conn_map` holds is closed by a traced
process, and updates of `conn_map` succeed. -/
def StaysLive (s : Mirrored) (e : Tick) : Prop :=
  match e.move with
  | .tcpClose c skp =>
      c.pid ∈ s.kernel.maps.controlMap → c.connAt skp ∉ s.kernel.maps.connMap
  | .moveAddrToUser c => ∀ sockp, s.kernel.maps.ptrMap.lookup c.pid = some sockp →
      c.full = false ∨ c.connOf sockp ∈ s.kernel.maps.connMap
  | _ => True

/-! ## One step -/

theorem tcpConn_inj {conn conn' : ConnPair} : tcpConn conn = tcpConn conn' ↔ conn = conn' := by
  constructor
  · intro h
    cases conn
    cases conn'
    cases h
    rfl
  · exact congrArg tcpConn

/-- The machine after an event. -/
theorem mem_bufferEvent {containerName : String} {now : Time} {collector : Tcpreq}
    {ev : MsgEvent} {conn : ConnPair} :
    tcpConn conn ∈ (bufferEvent containerName now collector (decode ev)).tcpEventMachine ↔
      conn = ev.conn ∨ tcpConn conn ∈ collector.tcpEventMachine := by
  have hkey : (decode ev).conn = tcpConn ev.conn := rfl
  rw [bufferEvent, Finmap.mem_insert, hkey, tcpConn_inj]

/-- The collector forgets no connection. -/
theorem mem_machine_step {s t : Mirrored} {e : Tick} (he : step s e = some t) {conn : ConnPair}
    (hmem : tcpConn conn ∈ s.collector.tcpEventMachine) :
    tcpConn conn ∈ t.collector.tcpEventMachine := by
  cases he
  cases (probe s.kernel.maps e.move).2 with
  | none => exact hmem
  | some ev => exact mem_bufferEvent.2 (Or.inr hmem)

/-- If the key sets are still equal after a step, the step met the condition. -/
theorem staysLive_of_sameKeys {s t : Mirrored} {e : Tick} (hs : SameKeys s)
    (he : step s e = some t) (ht : SameKeys t) : StaysLive s e := by
  obtain ⟨move, containerName, now⟩ := e
  cases move with
  | tcpClose c skp =>
      intro htraced hmem
      have hmachine := mem_machine_step he ((hs (c.connAt skp)).2 hmem)
      have hmap := (ht (c.connAt skp)).1 hmachine
      cases he
      exact (notMem_connMap_tcpClose_iff s.kernel.maps c skp).2 (fun _ => htraced) hmap
  | moveAddrToUser c =>
      intro sockp hptr
      have hconn := ht (c.connOf sockp)
      cases he
      simp only [probe, kretprobeMoveAddrToUser, hptr] at hconn
      exact mem_updateConn_self_iff.1 (hconn.1 (mem_bufferEvent.2 (Or.inl rfl)))
  | _ => trivial

/-- A step that meets the condition keeps the key sets equal. -/
theorem sameKeys_of_staysLive {s t : Mirrored} {e : Tick} (hs : SameKeys s)
    (hrec : Recorded s.kernel) (hlive : StaysLive s e) (he : step s e = some t) :
    SameKeys t := by
  intro conn
  cases he
  cases probe_effect s.kernel.maps e.move with
  | quiet hmap hev =>
      simp only [hev, hmap]
      exact hs conn
  | accept c sockp hmove hptr hmap hev =>
      have hroom : c.full = false ∨ c.connOf sockp ∈ s.kernel.maps.connMap := by
        simp only [StaysLive, hmove] at hlive
        exact hlive sockp hptr
      rw [updateConn_eq_insert_iff.2 hroom] at hmap
      simp only [hev, hmap]
      rw [mem_bufferEvent, Finmap.mem_insert, hs conn]
      rfl
  | refresh c conn' state hcaller htraced hlook hmap hev =>
      simp only [hev, hmap]
      rw [hs conn, Finmap.mem_insert]
      refine ⟨Or.inr, ?_⟩
      rintro (rfl | hold)
      · exact Finmap.mem_iff.2 ⟨state, hlook⟩
      · exact hold
  | traffic c conn' state type hcaller htraced hlook hne htype hmap hev =>
      simp only [hev, hmap]
      rw [mem_bufferEvent, Finmap.mem_insert, hs conn]
      rfl
  | close c skp state hmove htraced hlook hne hmap hev =>
      simp only [StaysLive, hmove] at hlive
      exact absurd (Finmap.mem_iff.2 ⟨state, hlook⟩) (hlive htraced)
  | closeUnknown c skp hmove htraced hlook hmap hev =>
      simp only [hev, hmap]
      rw [hs conn, Finmap.mem_erase]
      refine ⟨fun hmem => ⟨?_, hmem⟩, And.right⟩
      rintro rfl
      obtain ⟨state, hstate⟩ := Finmap.mem_iff.1 hmem
      exact hrec.live _ state hstate (hlook state hstate)

/-- With equal key sets, an accept of a connection that was not live is exported as
the first event of its 4-tuple. -/
theorem fresh_of_sameKeys {s t : Mirrored} {e : Tick} (hs : SameKeys s)
    (he : step s e = some t) {ev : MsgEvent}
    (hev : t.kernel.tcpEvent = s.kernel.tcpEvent ++ [ev])
    (hnew : ev.conn ∉ s.kernel.maps.connMap) :
    ∃ data, t.collector.tcpEventBuffer = s.collector.tcpEventBuffer ++ [data] ∧
      data.Tags.lookup "prevType" = none ∧ data.Fields.lookup "duration(ns)" = none := by
  have hkernel : TcpreqProbe.step s.kernel e.move = some t.kernel := by
    cases he
    rfl
  have hprobe := probe_event hkernel hev
  have hnone : s.collector.tcpEventMachine.lookup (decode ev).conn = none :=
    Finmap.lookup_eq_none.2 fun hmem => hnew ((hs ev.conn).1 hmem)
  cases he
  refine ⟨point e.containerName e.now s.collector (decode ev), ?_, ?_, ?_⟩
  · simp only [hprobe]
    rfl
  · rw [lookup_prevType, hnone, Option.map_none]
  · rw [lookup_duration, hnone, Option.map_none]

/-! ## Every run -/

theorem run_recorded (conf : ColTcpreq) :
    ∀ h s, run step (start conf) h = some s → Recorded s.kernel := by
  refine run_invariant (I := fun _ (s : Mirrored) => Recorded s.kernel) loaded_recorded ?_
  intro _ s e t _ hs he
  cases he
  exact step_recorded hs rfl

/-- **The probes and the collector agree on the live connections after every event
exactly in the runs where no traced process closes a connection.** -/
theorem everyStep_agrees_iff (conf : ColTcpreq) (ticks : List Tick) :
    EveryStep step (start conf) Agrees ticks ↔ Guarded step (start conf) StaysLive ticks := by
  refine everyStep_iff_guarded (I := fun _ => SameKeys) ?_ ?_ ?_ ?_ ticks
  · exact fun conn => iff_of_false Finmap.notMem_empty Finmap.notMem_empty
  · exact fun h s e t hrun hs hlive he =>
      sameKeys_of_staysLive hs (run_recorded conf h s hrun) hlive he
  · intro h s e t hrun hs he
    refine ⟨fun hagrees => staysLive_of_sameKeys hs he hagrees.keys, fun hlive => ⟨?_, ?_⟩⟩
    · exact sameKeys_of_staysLive hs (run_recorded conf h s hrun) hlive he
    · exact fun ev hev _ hnew => fresh_of_sameKeys hs he hev hnew
  · intro s e hnone
    cases hnone

/-- A connection is accepted and closed: `conn_map` is empty, the machine is not. -/
theorem closed_connection_kept :
    ¬ EveryStep step (start ⟨"tcpreq", 2, ⟨[7], []⟩, ⟨1, "tcpreq", []⟩⟩) Agrees
        ([.tcpClose oneSocket 1, .moveAddrToUser oneSocket, .securitySocketAccept oneSocket 1,
          .setControl 7 ⟨2⟩].map fun move => ⟨move, "", 0⟩) := by
  intro h
  have hkeys := (h.2 _ _ rfl rfl).keys ⟨1, 2, 80, 8080⟩
  revert hkeys
  decide

end Kmon.Ports.LiveConnections
