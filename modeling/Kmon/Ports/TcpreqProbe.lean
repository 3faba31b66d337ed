import Kmon.Verified.Run
import Kmon.Ports.BiostatProbe

/-!
# The probes of tcpreq

`release/bcc/tcpreq.c` follows the connections that traced processes accept.
`conn_map` holds the type of the last event of each connection, and an event is
submitted when the type changes.  An accept is seen in two places:
`kprobe_security_socket_accept` notes the socket of the call under its process in
`ptr_map`, and `kretprobe_move_addr_to_user`, which runs when the peer's address
is copied to the process, takes it from there.

Each probe is one step.  What a probe reads from the kernel comes with the call:
its thread, the memory behind the pointers, the two readings of the clock it may
make, and whether `conn_map` has room for a new key.  Four-tuples, sockets and
processes are all arbitrary.

`probe_effect` says in one place what a step can do to `conn_map` and which event
it submits; the modules about connections argue from its cases.
-/

namespace Kmon.Ports.TcpreqProbe

open Kmon.Verified
open Kmon.Verified.Run
open Kmon.Ports.BiostatProbe (tgid)

/-- An address in the kernel. -/
abbrev Ptr := BitVec 64

/-- `MSG_TYPE_RECV_CLEAN_RBUF`. -/
def msgTypeRecvCleanRbuf : BitVec 32 := 1#32

/-- `MSG_TYPE_SEND_ENTRY`. -/
def msgTypeSendEntry : BitVec 32 := 2#32

/-- `MSG_TYPE_CONNECT`. -/
def msgTypeConnect : BitVec 32 := 3#32

/-- `MSG_TYPE_DISCONNECT`. -/
def msgTypeDisconnect : BitVec 32 := 4#32

/-- `struct socket_pair`: the first bytes of a `struct sock`. -/
structure SocketPair where
  peerAddr : BitVec 32
  myAddr : BitVec 32
  peerPort : BitVec 16
  myPort : BitVec 16
  deriving DecidableEq, Repr

/-- `struct msg_event`. -/
structure MsgEvent where
  curTs : BitVec 64
  type : BitVec 32
  pid : BitVec 32
  peerAddr : BitVec 32
  myAddr : BitVec 32
  peerPort : BitVec 16
  myPort : BitVec 16
  deriving DecidableEq, Repr

/-- `struct conn_pair`: the 4-tuple of a connection. -/
structure ConnPair where
  peerAddr : BitVec 32
  myAddr : BitVec 32
  peerPort : BitVec 16
  myPort : BitVec 16
  deriving DecidableEq, Repr

/-- `struct conn_state`. -/
structure ConnState where
  type : BitVec 32
  prevTime : BitVec 64
  deriving DecidableEq, Repr

/-- `struct control`. -/
structure Control where
  verbose : BitVec 32
  deriving DecidableEq, Repr

/-- The hash tables of the module. -/
structure Maps where
  controlMap : GoMap (BitVec 32) Control
  ptrMap : GoMap (BitVec 32) Ptr
  connMap : GoMap ConnPair ConnState

/-- The memory the probes read: the `sk` of a `struct socket`, and the addresses
and ports of a `struct sock`. -/
structure Memory where
  sk : Ptr → Ptr
  socketPair : Ptr → SocketPair

/-- What a probe finds when it runs.  `stateTs` and `eventTs` are the readings of
the clock for `conn_map` and for the event; `full` says that `conn_map` has no
room for a new key. -/
structure Ctx where
  pidTgid : BitVec 64
  mem : Memory
  stateTs : BitVec 64
  eventTs : BitVec 64
  full : Bool

/-- The process of the thread that runs the probe. -/
def Ctx.pid (c : Ctx) : BitVec 32 := tgid c.pidTgid

/-- The 4-tuple of an event. -/
def MsgEvent.conn (ev : MsgEvent) : ConnPair := ⟨ev.peerAddr, ev.myAddr, ev.peerPort, ev.myPort⟩

/-! ## The probes -/

/-- `bpf_ntohs`. -/
def bpfNtohs (x : BitVec 16) : BitVec 16 := x.extractLsb' 0 8 ++ x.extractLsb' 8 8

/-- The `conn_pair` a probe fills from what it read of a `struct sock`. -/
def connPair (sk : SocketPair) : ConnPair :=
  ⟨sk.peerAddr, sk.myAddr, bpfNtohs sk.peerPort, sk.myPort⟩

/-- The 4-tuple behind a `struct sock *`. -/
def Ctx.connAt (c : Ctx) (skp : Ptr) : ConnPair := connPair (c.mem.socketPair skp)

/-- The 4-tuple behind a `struct socket *`. -/
def Ctx.connOf (c : Ctx) (sockp : Ptr) : ConnPair := c.connAt (c.mem.sk sockp)

/-- `emit_event`: the event it submits. -/
def emitEvent (c : Ctx) (pid : BitVec 32) (conn : ConnPair) (type : BitVec 32) : MsgEvent where
  curTs := c.eventTs
  type := type
  pid := pid
  peerAddr := conn.peerAddr
  myAddr := conn.myAddr
  peerPort := conn.peerPort
  myPort := conn.myPort

/-- `check_state`. -/
def checkState (m : Maps) (c : Ctx) (pid : BitVec 32) (conn : ConnPair) (type : BitVec 32) :
    Maps × Option MsgEvent :=
  match m.connMap.lookup conn with
  | none => (m, none)
  | some state =>
      if state.type ≠ type then
        ({ m with connMap := m.connMap.insert conn ⟨type, c.stateTs⟩ },
          some (emitEvent c pid conn type))
      else ({ m with connMap := m.connMap.insert conn ⟨state.type, c.stateTs⟩ }, none)

/-- `conn_map.update`: a key that is present is always updated, a new one needs
room. -/
def updateConn (full : Bool) (connMap : GoMap ConnPair ConnState) (conn : ConnPair)
    (state : ConnState) : GoMap ConnPair ConnState :=
  if full = true ∧ conn ∉ connMap then connMap else connMap.insert conn state

/-- `kprobe_security_socket_accept`.  What it reads through `sockp->type` is never
used. -/
def kprobeSecuritySocketAccept (m : Maps) (c : Ctx) (sockp : Ptr) : Maps × Option MsgEvent :=
  match m.controlMap.lookup c.pid with
  | none => (m, none)
  | some _ => ({ m with ptrMap := m.ptrMap.insert c.pid sockp }, none)

/-- `kretprobe_move_addr_to_user`. -/
def kretprobeMoveAddrToUser (m : Maps) (c : Ctx) : Maps × Option MsgEvent :=
  match m.ptrMap.lookup c.pid with
  | none => (m, none)
  | some sockp =>
      ({ m with
          ptrMap := m.ptrMap.erase c.pid
          connMap := updateConn c.full m.connMap (c.connOf sockp) ⟨msgTypeConnect, c.stateTs⟩ },
        some (emitEvent c c.pid (c.connOf sockp) msgTypeConnect))

/-- `kprobe_tcp_sendmsg_entry`. -/
def kprobeTcpSendmsgEntry (m : Maps) (c : Ctx) (skp : Ptr) : Maps × Option MsgEvent :=
  match m.controlMap.lookup c.pid with
  | none => (m, none)
  | some con =>
      if con.verbose ≤ 1 then (m, none)
      else checkState m c c.pid (c.connAt skp) msgTypeSendEntry

/-- `kprobe_tcp_cleanup_rbuf_entry`; `copied` is an `int`. -/
def kprobeTcpCleanupRbufEntry (m : Maps) (c : Ctx) (skp : Ptr) (copied : BitVec 32) :
    Maps × Option MsgEvent :=
  if copied.toInt ≤ 0 then (m, none)
  else
    match m.controlMap.lookup c.pid with
    | none => (m, none)
    | some con =>
        if con.verbose ≤ 1 then (m, none)
        else checkState m c c.pid (c.connAt skp) msgTypeRecvCleanRbuf

/-- `kprobe_tcp_close`. -/
def kprobeTcpClose (m : Maps) (c : Ctx) (skp : Ptr) : Maps × Option MsgEvent :=
  match m.controlMap.lookup c.pid with
  | none => (m, none)
  | some _ =>
      let checked := checkState m c c.pid (c.connAt skp) msgTypeDisconnect
      ({ checked.1 with connMap := checked.1.connMap.erase (c.connAt skp) }, checked.2)

/-- The steps of a run: the probes, and the collector's `SetP` and `DeleteP` on
`control_map`. -/
inductive Move where
  | securitySocketAccept (c : Ctx) (sockp : Ptr)
  | moveAddrToUser (c : Ctx)
  | tcpSendmsg (c : Ctx) (skp : Ptr)
  | tcpCleanupRbuf (c : Ctx) (skp : Ptr) (copied : BitVec 32)
  | tcpClose (c : Ctx) (skp : Ptr)
  | setControl (pid : BitVec 32) (con : Control)
  | deleteControl (pid : BitVec 32)

/-- The process whose thread runs the probe. -/
def Move.caller : Move → Option (BitVec 32)
  | .securitySocketAccept c _ => some c.pid
  | .moveAddrToUser c => some c.pid
  | .tcpSendmsg c _ => some c.pid
  | .tcpCleanupRbuf c _ _ => some c.pid
  | .tcpClose c _ => some c.pid
  | .setControl _ _ => none
  | .deleteControl _ => none

/-- The tables after a move, and the event it submits. -/
def probe (m : Maps) : Move → Maps × Option MsgEvent
  | .securitySocketAccept c sockp => kprobeSecuritySocketAccept m c sockp
  | .moveAddrToUser c => kretprobeMoveAddrToUser m c
  | .tcpSendmsg c skp => kprobeTcpSendmsgEntry m c skp
  | .tcpCleanupRbuf c skp copied => kprobeTcpCleanupRbufEntry m c skp copied
  | .tcpClose c skp => kprobeTcpClose m c skp
  | .setControl pid con => ({ m with controlMap := m.controlMap.insert pid con }, none)
  | .deleteControl pid => ({ m with controlMap := m.controlMap.erase pid }, none)

/-- The tables, and what was submitted to `tcp_event` so far. -/
structure Probing where
  maps : Maps
  tcpEvent : List MsgEvent

/-- A module that was just loaded. -/
def loaded : Probing := ⟨⟨∅, ∅, ∅⟩, []⟩

def step (s : Probing) (e : Move) : Option Probing :=
  let r := probe s.maps e
  some ⟨r.1, s.tcpEvent ++ r.2.toList⟩

@[simp] theorem conn_emitEvent (c : Ctx) (pid : BitVec 32) (conn : ConnPair) (type : BitVec 32) :
    (emitEvent c pid conn type).conn = conn := rfl

/-- What the probes find in a run about one connection of process 7. -/
def oneSocket : Ctx where
  pidTgid := 0x700000007#64
  mem := ⟨id, fun _ => ⟨1#32, 2#32, 0x5000#16, 8080#16⟩⟩
  stateTs := 5#64
  eventTs := 6#64
  full := false

/-! ## Updates and deletions of `conn_map` -/

/-- An entry found after an update is the new one or one from before. -/
theorem lookup_updateConn {full : Bool} {connMap : GoMap ConnPair ConnState}
    {conn conn' : ConnPair} {state state' : ConnState}
    (h : (updateConn full connMap conn state).lookup conn' = some state') :
    (conn' = conn ∧ state' = state) ∨ (conn' ≠ conn ∧ connMap.lookup conn' = some state') := by
  unfold updateConn at h
  split at h
  · rename_i hfull
    refine Or.inr ⟨?_, h⟩
    rintro rfl
    exact hfull.2 (Finmap.mem_iff.2 ⟨state', h⟩)
  · rw [GoMap.lookup_insert_ite] at h
    by_cases hconn : conn' = conn
    · rw [if_pos hconn] at h
      exact Or.inl ⟨hconn, (Option.some.inj h).symm⟩
    · rw [if_neg hconn] at h
      exact Or.inr ⟨hconn, h⟩

/-- The update inserts the entry exactly when there is room or the key is
present. -/
theorem updateConn_eq_insert_iff {full : Bool} {connMap : GoMap ConnPair ConnState}
    {conn : ConnPair} {state : ConnState} :
    updateConn full connMap conn state = connMap.insert conn state ↔
      full = false ∨ conn ∈ connMap := by
  unfold updateConn
  split
  · rename_i hfull
    refine iff_of_false (fun heq => hfull.2 ?_) ?_
    · rw [heq]
      exact Finmap.mem_insert.2 (Or.inl rfl)
    · rintro (hfalse | hmem)
      · rw [hfull.1] at hfalse
        cases hfalse
      · exact hfull.2 hmem
  · rename_i hroom
    refine iff_of_true rfl ?_
    by_cases hmem : conn ∈ connMap
    · exact Or.inr hmem
    · cases full with
      | false => exact Or.inl rfl
      | true => exact absurd ⟨rfl, hmem⟩ hroom

theorem mem_updateConn_self_iff {full : Bool} {connMap : GoMap ConnPair ConnState}
    {conn : ConnPair} {state : ConnState} :
    conn ∈ updateConn full connMap conn state ↔ full = false ∨ conn ∈ connMap := by
  constructor
  · intro hmem
    by_contra hroom
    have hold : updateConn full connMap conn state = connMap := by
      refine if_pos ⟨?_, fun h => hroom (Or.inr h)⟩
      cases full with
      | false => exact absurd (Or.inl rfl) hroom
      | true => rfl
    rw [hold] at hmem
    exact hroom (Or.inr hmem)
  · intro hroom
    rw [updateConn_eq_insert_iff.2 hroom]
    exact Finmap.mem_insert.2 (Or.inl rfl)

/-- A close deletes the entry exactly when the process is traced or there is
none. -/
theorem notMem_connMap_tcpClose_iff (m : Maps) (c : Ctx) (skp : Ptr) :
    c.connAt skp ∉ (kprobeTcpClose m c skp).1.connMap ↔
      (c.connAt skp ∈ m.connMap → c.pid ∈ m.controlMap) := by
  unfold kprobeTcpClose
  cases hcon : m.controlMap.lookup c.pid with
  | none =>
      have huntraced : c.pid ∉ m.controlMap := Finmap.lookup_eq_none.1 hcon
      exact ⟨fun hnot hmem => absurd hmem hnot, fun himp hmem => huntraced (himp hmem)⟩
  | some con =>
      refine iff_of_true ?_ fun _ => Finmap.mem_iff.2 ⟨con, hcon⟩
      exact Finmap.notMem_erase_self

/-- The event of a step is the one the probe returns. -/
theorem probe_event {s t : Probing} {e : Move} {ev : MsgEvent} (he : step s e = some t)
    (hev : t.tcpEvent = s.tcpEvent ++ [ev]) : (probe s.maps e).2 = some ev := by
  cases he
  have happ := List.append_cancel_left hev
  cases hopt : (probe s.maps e).2 with
  | none =>
      rw [hopt] at happ
      cases happ
  | some ev' =>
      rw [hopt] at happ
      cases happ
      rfl

/-! ## What a move does -/

/-- What a move does to `conn_map`, and the event it submits. -/
inductive Effect (m : Maps) (e : Move) (m' : Maps) (ev : Option MsgEvent) : Prop where
  /-- Nothing. -/
  | quiet (hmap : m'.connMap = m.connMap) (hev : ev = none)
  /-- The return of an accept whose entry was noted. -/
  | accept (c : Ctx) (sockp : Ptr) (he : e = .moveAddrToUser c)
      (hptr : m.ptrMap.lookup c.pid = some sockp)
      (hmap : m'.connMap =
        updateConn c.full m.connMap (c.connOf sockp) ⟨msgTypeConnect, c.stateTs⟩)
      (hev : ev = some (emitEvent c c.pid (c.connOf sockp) msgTypeConnect))
  /-- Data in the direction of the last event. -/
  | refresh (c : Ctx) (conn : ConnPair) (state : ConnState) (hcaller : e.caller = some c.pid)
      (htraced : c.pid ∈ m.controlMap) (hlook : m.connMap.lookup conn = some state)
      (hmap : m'.connMap = m.connMap.insert conn ⟨state.type, c.stateTs⟩) (hev : ev = none)
  /-- Data after an event of another type. -/
  | traffic (c : Ctx) (conn : ConnPair) (state : ConnState) (type : BitVec 32)
      (hcaller : e.caller = some c.pid) (htraced : c.pid ∈ m.controlMap)
      (hlook : m.connMap.lookup conn = some state) (hne : state.type ≠ type)
      (htype : type = msgTypeSendEntry ∨ type = msgTypeRecvCleanRbuf)
      (hmap : m'.connMap = m.connMap.insert conn ⟨type, c.stateTs⟩)
      (hev : ev = some (emitEvent c c.pid conn type))
  /-- A traced process closes a connection `conn_map` holds. -/
  | close (c : Ctx) (skp : Ptr) (state : ConnState) (he : e = .tcpClose c skp)
      (htraced : c.pid ∈ m.controlMap)
      (hlook : m.connMap.lookup (c.connAt skp) = some state)
      (hne : state.type ≠ msgTypeDisconnect)
      (hmap : m'.connMap = m.connMap.erase (c.connAt skp))
      (hev : ev = some (emitEvent c c.pid (c.connAt skp) msgTypeDisconnect))
  /-- A traced process closes any other connection. -/
  | closeUnknown (c : Ctx) (skp : Ptr) (he : e = .tcpClose c skp)
      (htraced : c.pid ∈ m.controlMap)
      (hlook : ∀ state, m.connMap.lookup (c.connAt skp) = some state →
        state.type = msgTypeDisconnect)
      (hmap : m'.connMap = m.connMap.erase (c.connAt skp)) (hev : ev = none)

/-- The ways `check_state` ends. -/
theorem checkState_cases (m : Maps) (c : Ctx) (pid : BitVec 32) (conn : ConnPair)
    (type : BitVec 32) :
    (m.connMap.lookup conn = none ∧ checkState m c pid conn type = (m, none)) ∨
      (∃ state, m.connMap.lookup conn = some state ∧ state.type ≠ type ∧
        checkState m c pid conn type =
          ({ m with connMap := m.connMap.insert conn ⟨type, c.stateTs⟩ },
            some (emitEvent c pid conn type))) ∨
      ∃ state, m.connMap.lookup conn = some state ∧ state.type = type ∧
        checkState m c pid conn type =
          ({ m with connMap := m.connMap.insert conn ⟨state.type, c.stateTs⟩ }, none) := by
  unfold checkState
  cases hlook : m.connMap.lookup conn with
  | none => exact Or.inl ⟨rfl, rfl⟩
  | some state =>
      by_cases htype : state.type = type
      · exact Or.inr (Or.inr ⟨state, rfl, htype, if_neg (not_not.2 htype)⟩)
      · exact Or.inr (Or.inl ⟨state, rfl, htype, if_pos htype⟩)

/-- The send probe does nothing, or `check_state` for a traced process. -/
theorem kprobeTcpSendmsgEntry_cases (m : Maps) (c : Ctx) (skp : Ptr) :
    kprobeTcpSendmsgEntry m c skp = (m, none) ∨
      (c.pid ∈ m.controlMap ∧ kprobeTcpSendmsgEntry m c skp =
        checkState m c c.pid (c.connAt skp) msgTypeSendEntry) := by
  unfold kprobeTcpSendmsgEntry
  split
  · exact Or.inl rfl
  · rename_i con hcon
    split
    · exact Or.inl rfl
    · exact Or.inr ⟨Finmap.mem_iff.2 ⟨con, hcon⟩, rfl⟩

/-- So does the receive probe. -/
theorem kprobeTcpCleanupRbufEntry_cases (m : Maps) (c : Ctx) (skp : Ptr) (copied : BitVec 32) :
    kprobeTcpCleanupRbufEntry m c skp copied = (m, none) ∨
      (c.pid ∈ m.controlMap ∧ kprobeTcpCleanupRbufEntry m c skp copied =
        checkState m c c.pid (c.connAt skp) msgTypeRecvCleanRbuf) := by
  unfold kprobeTcpCleanupRbufEntry
  split
  · exact Or.inl rfl
  · split
    · exact Or.inl rfl
    · rename_i con hcon
      split
      · exact Or.inl rfl
      · exact Or.inr ⟨Finmap.mem_iff.2 ⟨con, hcon⟩, rfl⟩

/-- `check_state` for data of a traced process. -/
theorem checkState_effect {m : Maps} {e : Move} {c : Ctx} {conn : ConnPair} {type : BitVec 32}
    (hcaller : e.caller = some c.pid) (htraced : c.pid ∈ m.controlMap)
    (htype : type = msgTypeSendEntry ∨ type = msgTypeRecvCleanRbuf) :
    Effect m e (checkState m c c.pid conn type).1 (checkState m c c.pid conn type).2 := by
  rcases checkState_cases m c c.pid conn type with ⟨-, heq⟩ | ⟨state, hlook, hne, heq⟩ |
    ⟨state, hlook, -, heq⟩
  · rw [heq]
    exact .quiet rfl rfl
  · rw [heq]
    exact .traffic c conn state type hcaller htraced hlook hne htype rfl rfl
  · rw [heq]
    exact .refresh c conn state hcaller htraced hlook rfl rfl

theorem kprobeTcpClose_effect (m : Maps) (c : Ctx) (skp : Ptr) :
    Effect m (.tcpClose c skp) (kprobeTcpClose m c skp).1 (kprobeTcpClose m c skp).2 := by
  unfold kprobeTcpClose
  cases hcon : m.controlMap.lookup c.pid with
  | none => exact .quiet rfl rfl
  | some con =>
      have htraced : c.pid ∈ m.controlMap := Finmap.mem_iff.2 ⟨con, hcon⟩
      rcases checkState_cases m c c.pid (c.connAt skp) msgTypeDisconnect with ⟨hlook, heq⟩ |
        ⟨state, hlook, hne, heq⟩ | ⟨state, hlook, htype, heq⟩
      · simp only [heq]
        refine .closeUnknown c skp rfl htraced ?_ rfl rfl
        intro state hstate
        rw [hlook] at hstate
        cases hstate
      · simp only [heq]
        exact .close c skp state rfl htraced hlook hne (GoMap.erase_insert _ _ _) rfl
      · simp only [heq]
        refine .closeUnknown c skp rfl htraced ?_ (GoMap.erase_insert _ _ _) rfl
        intro state' hstate
        rw [hlook] at hstate
        cases hstate
        exact htype

/-- **What a move does to `conn_map`, and the event it submits.** -/
theorem probe_effect (m : Maps) (e : Move) : Effect m e (probe m e).1 (probe m e).2 := by
  cases e with
  | securitySocketAccept c sockp =>
      simp only [probe, kprobeSecuritySocketAccept]
      split
      · exact .quiet rfl rfl
      · exact .quiet rfl rfl
  | moveAddrToUser c =>
      simp only [probe, kretprobeMoveAddrToUser]
      split
      · exact .quiet rfl rfl
      · rename_i sockp hptr
        exact .accept c sockp rfl hptr rfl rfl
  | tcpSendmsg c skp =>
      rw [probe]
      rcases kprobeTcpSendmsgEntry_cases m c skp with hquiet | ⟨htraced, hcheck⟩
      · rw [hquiet]
        exact .quiet rfl rfl
      · rw [hcheck]
        exact checkState_effect rfl htraced (Or.inl rfl)
  | tcpCleanupRbuf c skp copied =>
      rw [probe]
      rcases kprobeTcpCleanupRbufEntry_cases m c skp copied with hquiet | ⟨htraced, hcheck⟩
      · rw [hquiet]
        exact .quiet rfl rfl
      · rw [hcheck]
        exact checkState_effect rfl htraced (Or.inr rfl)
  | tcpClose c skp => exact kprobeTcpClose_effect m c skp
  | setControl pid con => exact .quiet rfl rfl
  | deleteControl pid => exact .quiet rfl rfl

end Kmon.Ports.TcpreqProbe
