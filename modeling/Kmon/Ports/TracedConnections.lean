import Kmon.Ports.TcpreqProbe

/-!
# The filter of the probes and what it leaves behind

Three probes of tcpreq and the entry probe of an accept look up the calling process
in `control_map` first and return if it is not there.  User space changes this map
at any time, and two laws depend on it.

* A close takes its 4-tuple out of `conn_map`, but only for a traced process: the
  early return skips the deletion together with the event.  The entry that stays
  behind then vouches for a later connection with the same 4-tuple
  (`everyStep_onlyAccepted_iff`).
* The return probe of an accept does not ask `control_map` but `ptr_map`, which was
  filled when the call began.  A process that is dropped in between is still
  reported (`everyStep_fromTraced_iff`).
-/

namespace Kmon.Ports.TracedConnections

open Kmon.Verified
open Kmon.Verified.Run
open Kmon.Ports.TcpreqProbe

/-! ## Closed connections -/

/-- The 4-tuple whose accept a move records. -/
def acceptedConn (m : Maps) : Move → Option ConnPair
  | .moveAddrToUser c => (m.ptrMap.lookup c.pid).map c.connOf
  | _ => none

/-- The 4-tuple of the socket that `tcp_close` is called on, by whatever process. -/
def closedConn : Move → Option ConnPair
  | .tcpClose c skp => some (c.connAt skp)
  | _ => none

/-- An accept of the 4-tuple was recorded after the last `tcp_close` on it. -/
def AcceptedSinceClose : List Move → ConnPair → Prop
  | [], _ => False
  | e :: h, conn =>
      (∃ s, run step loaded h = some s ∧ acceptedConn s.maps e = some conn) ∨
        (closedConn e ≠ some conn ∧ AcceptedSinceClose h conn)

/-- The property of a step: other events than CONNECT are submitted for accepted
connections only, and a close leaves no entry for its 4-tuple. -/
structure OnlyAccepted (h : List Move) (s : Probing) (e : Move) (t : Probing) : Prop where
  traffic : ∀ ev, t.tcpEvent = s.tcpEvent ++ [ev] → ev.type ≠ msgTypeConnect →
    AcceptedSinceClose h ev.conn
  closed : ∀ conn, closedConn e = some conn → conn ∉ t.maps.connMap

/-- The condition: a connection that `conn_map` holds is closed by a traced
process. -/
def ClosedTraced (s : Probing) : Move → Prop
  | .tcpClose c skp => c.connAt skp ∈ s.maps.connMap → c.pid ∈ s.maps.controlMap
  | _ => True

/-- Every entry of `conn_map` is that of an accepted connection. -/
def EntriesAccepted (h : List Move) (s : Probing) : Prop :=
  ∀ conn ∈ s.maps.connMap, AcceptedSinceClose h conn

theorem closed_iff {s t : Probing} {e : Move} (he : step s e = some t) :
    (∀ conn, closedConn e = some conn → conn ∉ t.maps.connMap) ↔ ClosedTraced s e := by
  cases he
  cases e with
  | tcpClose c skp =>
      refine Iff.trans ?_ (notMem_connMap_tcpClose_iff s.maps c skp)
      exact ⟨fun h => h _ rfl, fun h conn hconn => by cases hconn; exact h⟩
  | _ =>
      refine iff_of_true ?_ trivial
      intro conn hconn
      cases hconn

/-- A good step keeps the entries accepted. -/
theorem step_entriesAccepted {h : List Move} {s t : Probing} {e : Move}
    (hs : run step loaded h = some s) (hacc : EntriesAccepted h s) (hguard : ClosedTraced s e)
    (he : step s e = some t) : EntriesAccepted (e :: h) t := by
  intro conn hmem
  have hclosed : closedConn e ≠ some conn := fun hconn => (closed_iff he).2 hguard conn hconn hmem
  have hpast : conn ∈ s.maps.connMap → AcceptedSinceClose (e :: h) conn :=
    fun hold => Or.inr ⟨hclosed, hacc conn hold⟩
  cases he
  cases probe_effect s.maps e with
  | quiet hmap hev => exact hpast (hmap ▸ hmem)
  | accept c sockp he hptr hmap hev =>
      by_cases hconn : conn = c.connOf sockp
      · refine Or.inl ⟨s, hs, ?_⟩
        rw [he, acceptedConn, hptr, hconn]
        rfl
      · refine hpast ?_
        simp only [hmap, updateConn] at hmem
        split at hmem
        · exact hmem
        · exact (Finmap.mem_insert.1 hmem).resolve_left hconn
  | refresh c conn' state hcaller htraced hlook hmap hev =>
      simp only [hmap] at hmem
      rcases Finmap.mem_insert.1 hmem with rfl | hold
      · exact hpast (Finmap.mem_iff.2 ⟨state, hlook⟩)
      · exact hpast hold
  | traffic c conn' state type hcaller htraced hlook hne htype hmap hev =>
      simp only [hmap] at hmem
      rcases Finmap.mem_insert.1 hmem with rfl | hold
      · exact hpast (Finmap.mem_iff.2 ⟨state, hlook⟩)
      · exact hpast hold
  | close c skp state he htraced hlook hne hmap hev =>
      simp only [hmap] at hmem
      exact hpast (Finmap.mem_erase.1 hmem).2
  | closeUnknown c skp he htraced hlook hmap hev =>
      simp only [hmap] at hmem
      exact hpast (Finmap.mem_erase.1 hmem).2

/-- An event other than CONNECT is submitted for a 4-tuple that `conn_map` holds. -/
theorem mem_connMap_of_event {m : Maps} {e : Move} {ev : MsgEvent}
    (hev : (probe m e).2 = some ev) (htype : ev.type ≠ msgTypeConnect) :
    ev.conn ∈ m.connMap := by
  cases probe_effect m e with
  | quiet hmap hnone =>
      rw [hnone] at hev
      cases hev
  | accept c sockp he hptr hmap hsome =>
      rw [hsome] at hev
      cases hev
      exact absurd rfl htype
  | refresh c conn state hcaller htraced hlook hmap hnone =>
      rw [hnone] at hev
      cases hev
  | traffic c conn state type hcaller htraced hlook hne htype' hmap hsome =>
      rw [hsome] at hev
      cases hev
      exact Finmap.mem_iff.2 ⟨state, hlook⟩
  | close c skp state he htraced hlook hne hmap hsome =>
      rw [hsome] at hev
      cases hev
      exact Finmap.mem_iff.2 ⟨state, hlook⟩
  | closeUnknown c skp he htraced hlook hmap hnone =>
      rw [hnone] at hev
      cases hev

/-- **Traffic is reported for accepted connections only, and every close forgets
its connection, exactly in the runs where each connection that `conn_map` holds is
closed by a process traced at that moment.** -/
theorem everyStep_onlyAccepted_iff (moves : List Move) :
    EveryStep step loaded OnlyAccepted moves ↔ Guarded step loaded ClosedTraced moves := by
  refine everyStep_iff_guarded (I := EntriesAccepted) ?_ ?_ ?_ ?_ moves
  · exact fun conn hmem => absurd hmem Finmap.notMem_empty
  · exact fun h s e t hs hacc hguard he => step_entriesAccepted hs hacc hguard he
  · intro h s e t _ hacc he
    refine ⟨fun honly => (closed_iff he).1 honly.closed,
      fun hguard => ⟨?_, (closed_iff he).2 hguard⟩⟩
    intro ev hev htype
    exact hacc _ (mem_connMap_of_event (probe_event he hev) htype)
  · intro s e hnone
    cases hnone

/-- Process 7 accepts a connection and is dropped before it closes it; when it is
traced again, a connection it opens itself with the same 4-tuple is reported as if
it had been accepted. -/
theorem leftover_entry_reported :
    ¬ EveryStep step loaded OnlyAccepted
        [.tcpSendmsg oneSocket 1, .setControl 7 ⟨2⟩, .tcpClose oneSocket 1, .deleteControl 7,
          .moveAddrToUser oneSocket, .securitySocketAccept oneSocket 1, .setControl 7 ⟨2⟩] := by
  intro h
  have haccepted := (h.2 _ _ rfl rfl).traffic ⟨6, msgTypeSendEntry, 7, 1, 2, 80, 8080⟩ rfl
    (by decide)
  rcases haccepted with ⟨s, -, haccept⟩ | ⟨-, ⟨s, -, haccept⟩ | ⟨hclosed, -⟩⟩
  · cases haccept
  · cases haccept
  · exact hclosed rfl

/-! ## Processes that are not traced -/

/-- Whether a process is in `control_map`, by the history alone. -/
def Traced : List Move → BitVec 32 → Prop
  | [], _ => False
  | .setControl pid' _ :: h, pid => pid = pid' ∨ Traced h pid
  | .deleteControl pid' :: h, pid => pid ≠ pid' ∧ Traced h pid
  | _ :: h, pid => Traced h pid

/-- The property of a step: an event is submitted, and an entry of `conn_map`
written, for a traced process only. -/
structure FromTraced (h : List Move) (s : Probing) (e : Move) (t : Probing) : Prop where
  event : ∀ ev, t.tcpEvent = s.tcpEvent ++ [ev] → Traced h ev.pid
  entry : ∀ conn state, t.maps.connMap.lookup conn = some state →
    s.maps.connMap.lookup conn ≠ some state → ∃ pid, e.caller = some pid ∧ Traced h pid

/-- The condition: a process with a noted accept is still traced when the call
returns. -/
def ReturnTraced (s : Probing) : Move → Prop
  | .moveAddrToUser c => c.pid ∈ s.maps.ptrMap → c.pid ∈ s.maps.controlMap
  | _ => True

theorem controlMap_checkState (m : Maps) (c : Ctx) (pid : BitVec 32) (conn : ConnPair)
    (type : BitVec 32) : (checkState m c pid conn type).1.controlMap = m.controlMap := by
  rcases checkState_cases m c pid conn type with ⟨-, heq⟩ | ⟨_, -, -, heq⟩ | ⟨_, -, -, heq⟩ <;>
    rw [heq]

/-- The probes leave `control_map` alone. -/
theorem controlMap_probe (m : Maps) (e : Move) :
    (probe m e).1.controlMap =
      match e with
      | .setControl pid con => m.controlMap.insert pid con
      | .deleteControl pid => m.controlMap.erase pid
      | _ => m.controlMap := by
  cases e with
  | securitySocketAccept c sockp =>
      simp only [probe, kprobeSecuritySocketAccept]
      split <;> rfl
  | moveAddrToUser c =>
      simp only [probe, kretprobeMoveAddrToUser]
      split <;> rfl
  | tcpSendmsg c skp =>
      rw [probe]
      rcases kprobeTcpSendmsgEntry_cases m c skp with hquiet | ⟨-, hcheck⟩
      · rw [hquiet]
      · rw [hcheck, controlMap_checkState]
  | tcpCleanupRbuf c skp copied =>
      rw [probe]
      rcases kprobeTcpCleanupRbufEntry_cases m c skp copied with hquiet | ⟨-, hcheck⟩
      · rw [hquiet]
      · rw [hcheck, controlMap_checkState]
  | tcpClose c skp =>
      simp only [probe, kprobeTcpClose]
      split
      · rfl
      · exact controlMap_checkState _ _ _ _ _
  | setControl pid con => rfl
  | deleteControl pid => rfl

/-- `control_map` holds the traced processes. -/
theorem run_traced :
    ∀ h s, run step loaded h = some s → ∀ pid, Traced h pid ↔ pid ∈ s.maps.controlMap := by
  refine run_invariant (fun pid => ⟨False.elim, fun h => Finmap.notMem_empty h⟩) ?_
  intro h s e t _ hs he pid
  cases he
  simp only [controlMap_probe]
  cases e with
  | setControl pid' con => rw [Traced, hs pid, Finmap.mem_insert]
  | deleteControl pid' => rw [Traced, hs pid, Finmap.mem_erase]
  | _ => exact hs pid

/-- All but the return of an accept look the process up in `control_map`. -/
theorem traced_of_probe {m : Maps} {e : Move}
    (hguard : ∀ c, e = .moveAddrToUser c → c.pid ∈ m.ptrMap → c.pid ∈ m.controlMap) :
    (∀ ev, (probe m e).2 = some ev → ev.pid ∈ m.controlMap) ∧
      ∀ conn state, (probe m e).1.connMap.lookup conn = some state →
        m.connMap.lookup conn ≠ some state → ∃ pid, e.caller = some pid ∧ pid ∈ m.controlMap := by
  cases probe_effect m e with
  | quiet hmap hev =>
      rw [hev, hmap]
      exact ⟨fun _ h => (by cases h), fun _ _ hnew hold => absurd hnew hold⟩
  | accept c sockp he hptr hmap hev =>
      have htraced := hguard c he (Finmap.mem_iff.2 ⟨sockp, hptr⟩)
      rw [hev]
      refine ⟨?_, fun _ _ _ _ => ⟨c.pid, by rw [he]; rfl, htraced⟩⟩
      rintro ev ⟨⟩
      exact htraced
  | refresh c conn state hcaller htraced hlook hmap hev =>
      rw [hev]
      exact ⟨fun _ h => (by cases h), fun _ _ _ _ => ⟨c.pid, hcaller, htraced⟩⟩
  | traffic c conn state type hcaller htraced hlook hne htype hmap hev =>
      rw [hev]
      refine ⟨?_, fun _ _ _ _ => ⟨c.pid, hcaller, htraced⟩⟩
      rintro ev ⟨⟩
      exact htraced
  | close c skp state he htraced hlook hne hmap hev =>
      rw [hev]
      refine ⟨?_, fun _ _ _ _ => ⟨c.pid, by rw [he]; rfl, htraced⟩⟩
      rintro ev ⟨⟩
      exact htraced
  | closeUnknown c skp he htraced hlook hmap hev =>
      rw [hev]
      exact ⟨fun _ h => (by cases h), fun _ _ _ _ => ⟨c.pid, by rw [he]; rfl, htraced⟩⟩

/-- **Only traced processes are reported, and only their connections recorded,
exactly in the runs where no process is dropped between the two ends of an
accept.** -/
theorem everyStep_fromTraced_iff (moves : List Move) :
    EveryStep step loaded FromTraced moves ↔ Guarded step loaded ReturnTraced moves := by
  refine everyStep_iff_guarded (I := fun h s => ∀ pid, Traced h pid ↔ pid ∈ s.maps.controlMap)
    (run_traced [] loaded rfl) ?_ ?_ ?_ moves
  · exact fun h s e t hs _ _ he => run_traced (e :: h) t (run_cons_of_step hs he)
  · intro h s e t _ htraced he
    constructor
    · intro hfrom
      cases e with
      | moveAddrToUser c =>
          intro hptr
          obtain ⟨sockp, hsock⟩ := Finmap.mem_iff.1 hptr
          cases he
          refine (htraced c.pid).1
            (hfrom.event (emitEvent c c.pid (c.connOf sockp) msgTypeConnect) ?_)
          simp only [probe, kretprobeMoveAddrToUser, hsock, Option.toList_some]
      | _ => trivial
    · intro hguard
      have hprobe := traced_of_probe (m := s.maps) (e := e) fun c hc => by
        rw [hc] at hguard
        exact hguard
      refine ⟨fun ev hev => (htraced _).2 (hprobe.1 ev (probe_event he hev)), ?_⟩
      intro conn state hnew hold
      cases he
      obtain ⟨pid, hcaller, hmem⟩ := hprobe.2 conn state hnew hold
      exact ⟨pid, hcaller, (htraced pid).2 hmem⟩
  · intro s e hnone
    cases hnone

/-- Process 7 is dropped while it waits in accept, and its connection is reported
all the same. -/
theorem dropped_process_reported :
    ¬ EveryStep step loaded FromTraced
        [.moveAddrToUser oneSocket, .deleteControl 7, .securitySocketAccept oneSocket 1,
          .setControl 7 ⟨1⟩] := by
  intro h
  have htraced := (h.2 _ _ rfl rfl).event ⟨6, msgTypeConnect, 7, 1, 2, 80, 8080⟩ rfl
  exact htraced.1 rfl

end Kmon.Ports.TracedConnections
