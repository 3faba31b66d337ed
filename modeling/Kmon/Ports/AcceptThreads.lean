import Kmon.Ports.TcpreqProbe

/-!
# Accepts by several threads of a process

The entry probe of an accept notes the socket in `ptr_map` under the process, and
the return probe, in the same thread, takes whatever socket is noted there.  Two
threads of a process that accept at the same time share the one entry: the second
entry replaces the socket of the first, the first return takes the socket of the
second, and the second return finds nothing.

The machine below runs the two probes for threads of traced processes and keeps,
beside the tables, the socket of each thread's own call.  `everyStep_acceptsOwn_iff`
is the exact condition for every return to report its own connection; it holds
when the accepts of each process come one after the other
(`guarded_notedOwn_of_alone`).
-/

namespace Kmon.Ports.AcceptThreads

open Kmon.Verified
open Kmon.Verified.Run
open Kmon.Ports.BiostatProbe (tgid)
open Kmon.Ports.TcpreqProbe

/-- The module, and the socket of the accept call each thread is in. -/
structure Accepting where
  probing : Probing
  calls : GoMap (BitVec 64) Ptr

/-- The two ends of an accept call of the thread `c.pidTgid`. -/
inductive Call where
  | enter (c : Ctx) (sockp : Ptr)
  | leave (c : Ctx)

/-- The module with some traced processes, before any accept. -/
def start (controlMap : GoMap (BitVec 32) Control) : Accepting :=
  { probing := ⟨⟨controlMap, ∅, ∅⟩, []⟩, calls := ∅ }

/-- The probe at one end of a call of a traced process.  A thread is in one call
at a time. -/
def step (s : Accepting) : Call → Option Accepting
  | .enter c sockp =>
      if c.pidTgid ∉ s.calls ∧ c.pid ∈ s.probing.maps.controlMap then
        (TcpreqProbe.step s.probing (.securitySocketAccept c sockp)).map fun probing =>
          { probing := probing, calls := s.calls.insert c.pidTgid sockp }
      else none
  | .leave c =>
      if c.pidTgid ∈ s.calls then
        (TcpreqProbe.step s.probing (.moveAddrToUser c)).map fun probing =>
          { probing := probing, calls := s.calls.erase c.pidTgid }
      else none

/-- A return submits one CONNECT and inserts one entry, both for the 4-tuple of
the socket of the thread's own call. -/
structure Accepts (c : Ctx) (own : Ptr) (s t : Probing) : Prop where
  event : t.tcpEvent = s.tcpEvent ++ [emitEvent c c.pid (c.connOf own) msgTypeConnect]
  entry : t.maps.connMap =
    s.maps.connMap.insert (c.connOf own) ⟨msgTypeConnect, c.stateTs⟩

/-- The property of a step. -/
def AcceptsOwn (_ : List Call) (s : Accepting) : Call → Accepting → Prop
  | .enter _ _, _ => True
  | .leave c, t => ∀ own, s.calls.lookup c.pidTgid = some own → Accepts c own s.probing t.probing

/-- The condition: at a return, the socket noted for the process has the 4-tuple of
the thread's own socket, and `conn_map` can take it. -/
def NotedOwn (s : Accepting) : Call → Prop
  | .enter _ _ => True
  | .leave c => ∀ own, s.calls.lookup c.pidTgid = some own →
      (∃ sockp, s.probing.maps.ptrMap.lookup c.pid = some sockp ∧ c.connOf sockp = c.connOf own) ∧
        (c.full = false ∨ c.connOf own ∈ s.probing.maps.connMap)

/-! ## One return -/

theorem step_leave {s t : Accepting} {c : Ctx} (he : step s (.leave c) = some t) :
    t.probing = ⟨(kretprobeMoveAddrToUser s.probing.maps c).1,
        s.probing.tcpEvent ++ (kretprobeMoveAddrToUser s.probing.maps c).2.toList⟩ ∧
      t.calls = s.calls.erase c.pidTgid := by
  simp only [step] at he
  split at he
  · cases he
    exact ⟨rfl, rfl⟩
  · cases he

/-- Two events of one probe are equal only for the same 4-tuple. -/
theorem conn_eq_of_emitEvent_eq {c : Ctx} {pid type : BitVec 32} {conn conn' : ConnPair}
    (h : emitEvent c pid conn type = emitEvent c pid conn' type) : conn = conn' := by
  have hconn := congrArg MsgEvent.conn h
  exact hconn

/-- A return reports the thread's own connection exactly under the condition. -/
theorem leave_acceptsOwn_iff {h : List Call} {s t : Accepting} {c : Ctx}
    (he : step s (.leave c) = some t) :
    AcceptsOwn h s (.leave c) t ↔ NotedOwn s (.leave c) := by
  obtain ⟨hprobing, -⟩ := step_leave he
  refine forall_congr' fun own => imp_congr_right fun _ => ?_
  rw [hprobing]
  unfold kretprobeMoveAddrToUser
  cases hptr : s.probing.maps.ptrMap.lookup c.pid with
  | none =>
      refine iff_of_false (fun hacc => ?_) fun hnoted => ?_
      · have hlen := congrArg List.length hacc.event
        simp at hlen
      · obtain ⟨⟨sockp, hsock, -⟩, -⟩ := hnoted
        cases hsock
  | some sockp =>
      constructor
      · intro hacc
        have hevent := List.append_cancel_left hacc.event
        have hconn : c.connOf sockp = c.connOf own :=
          conn_eq_of_emitEvent_eq (List.head_eq_of_cons_eq hevent)
        have hentry := hacc.entry
        simp only [hconn] at hentry
        exact ⟨⟨sockp, rfl, hconn⟩, updateConn_eq_insert_iff.1 hentry⟩
      · rintro ⟨⟨sockp', hsock, hconn⟩, hroom⟩
        cases hsock
        refine ⟨?_, ?_⟩
        · rw [← hconn]
          rfl
        · simp only [hconn]
          exact updateConn_eq_insert_iff.2 hroom

/-! ## Every interleaving -/

/-- **Every accept of a run reports its own connection exactly when, at each
return, the socket noted for the process has the 4-tuple of the thread's own
socket and the update of `conn_map` does not fail.** -/
theorem everyStep_acceptsOwn_iff (controlMap : GoMap (BitVec 32) Control) (calls : List Call) :
    EveryStep step (start controlMap) AcceptsOwn calls ↔
      Guarded step (start controlMap) NotedOwn calls := by
  refine everyStep_iff_guarded (I := fun _ _ => True) trivial (fun _ _ _ _ _ _ _ _ => trivial)
    ?_ ?_ calls
  · intro h s e t _ _ he
    cases e with
    | enter c sockp => exact Iff.rfl
    | leave c => exact leave_acceptsOwn_iff he
  · intro s e hnone
    cases e with
    | enter c sockp => trivial
    | leave c =>
        intro own hown
        have hmem : c.pidTgid ∈ s.calls := Finmap.mem_iff.2 ⟨own, hown⟩
        simp only [step, if_pos hmem] at hnone
        cases hnone

/-- What the probes of a thread find in the run below. -/
def twoSockets (thread : BitVec 64) : Ctx where
  pidTgid := thread
  mem := ⟨id, fun skp => ⟨skp.setWidth 32, 1#32, 80#16, 8080#16⟩⟩
  stateTs := 5#64
  eventTs := 6#64
  full := false

/-- Two threads of process 7 accept at the same time: the first return reports the
connection of the second. -/
theorem other_thread_reported :
    ¬ EveryStep step (start ((∅ : GoMap _ _).insert 7#32 ⟨1#32⟩)) AcceptsOwn
        [.leave (twoSockets 0x700000001), .enter (twoSockets 0x700000002) 200#64,
          .enter (twoSockets 0x700000001) 100#64] := by
  intro h
  have hrun : run step (start ((∅ : GoMap _ _).insert 7#32 ⟨1#32⟩))
      [.enter (twoSockets 0x700000002) 200#64, .enter (twoSockets 0x700000001) 100#64] =
        some ⟨⟨⟨(∅ : GoMap _ _).insert 7#32 ⟨1#32⟩,
          ((∅ : GoMap _ _).insert 7#32 100#64).insert 7#32 200#64, ∅⟩, []⟩,
          ((∅ : GoMap _ _).insert 0x700000001#64 100#64).insert 0x700000002#64 200#64⟩ := rfl
  have hevent := (h.2 _ _ hrun rfl 100#64 rfl).event
  exact absurd hevent (by decide)

/-! ## One accept at a time -/

/-- No other thread of the process is in an accept call when one enters, and
`conn_map` has room. -/
def Alone (s : Accepting) : Call → Prop
  | .enter c _ => ∀ thread ∈ s.calls, tgid thread ≠ c.pid
  | .leave c => c.full = false

/-- What is noted for a process is the socket of its only call. -/
structure OnlyCall (s : Accepting) : Prop where
  noted : ∀ thread own, s.calls.lookup thread = some own →
    s.probing.maps.ptrMap.lookup (tgid thread) = some own
  only : ∀ thread thread', thread ∈ s.calls → thread' ∈ s.calls →
    tgid thread = tgid thread' → thread = thread'

theorem start_onlyCall (controlMap : GoMap (BitVec 32) Control) : OnlyCall (start controlMap) where
  noted _ _ h := by cases h
  only _ _ h := absurd h Finmap.notMem_empty

theorem OnlyCall.enter {s t : Accepting} {c : Ctx} {sockp : Ptr} (hs : OnlyCall s)
    (halone : Alone s (.enter c sockp)) (he : step s (.enter c sockp) = some t) :
    OnlyCall t := by
  simp only [step] at he
  split at he
  · rename_i hcond
    obtain ⟨con, hcon⟩ := Finmap.mem_iff.1 hcond.2
    cases he
    refine ⟨?_, ?_⟩
    · intro thread own hown
      simp only [probe, kprobeSecuritySocketAccept, hcon, GoMap.lookup_insert_ite]
      rw [GoMap.lookup_insert_ite] at hown
      by_cases hthread : thread = c.pidTgid
      · subst hthread
        rw [if_pos rfl] at hown
        exact (if_pos rfl).trans hown
      · rw [if_neg hthread] at hown
        rw [if_neg (halone thread (Finmap.mem_iff.2 ⟨own, hown⟩))]
        exact hs.noted thread own hown
    · intro thread thread' hmem hmem' heq
      rcases Finmap.mem_insert.1 hmem with rfl | hold
      · rcases Finmap.mem_insert.1 hmem' with rfl | hold'
        · rfl
        · exact absurd heq.symm (halone thread' hold')
      · rcases Finmap.mem_insert.1 hmem' with rfl | hold'
        · exact absurd heq (halone thread hold)
        · exact hs.only thread thread' hold hold' heq
  · cases he

theorem OnlyCall.leave {s t : Accepting} {c : Ctx} (hs : OnlyCall s)
    (he : step s (.leave c) = some t) : OnlyCall t := by
  have hmem : c.pidTgid ∈ s.calls := by
    by_contra hnot
    simp only [step, if_neg hnot] at he
    cases he
  obtain ⟨hprobing, hcalls⟩ := step_leave he
  have hold : ∀ thread, thread ∈ t.calls → thread ≠ c.pidTgid ∧ thread ∈ s.calls := by
    intro thread hthread
    rw [hcalls] at hthread
    exact Finmap.mem_erase.1 hthread
  refine ⟨?_, ?_⟩
  · intro thread own hown
    obtain ⟨hne, hin⟩ := hold thread (Finmap.mem_iff.2 ⟨own, hown⟩)
    have hother : tgid thread ≠ c.pid := fun heq => hne (hs.only thread c.pidTgid hin hmem heq)
    rw [hcalls, GoMap.lookup_erase_ite, if_neg hne] at hown
    rw [hprobing]
    unfold kretprobeMoveAddrToUser
    split
    · exact hs.noted thread own hown
    · simp only [GoMap.lookup_erase_ite, if_neg hother]
      exact hs.noted thread own hown
  · intro thread thread' hthread hthread' heq
    exact hs.only thread thread' (hold thread hthread).2 (hold thread' hthread').2 heq

/-- Where the accepts of each process come one after the other, the condition
holds. -/
theorem guarded_notedOwn_of_alone (controlMap : GoMap (BitVec 32) Control) (calls : List Call)
    (halone : Guarded step (start controlMap) Alone calls) :
    Guarded step (start controlMap) NotedOwn calls := by
  have honly : ∀ h s, Guarded step (start controlMap) Alone h →
      run step (start controlMap) h = some s → OnlyCall s := by
    refine guarded_invariant (I := fun _ => OnlyCall) (start_onlyCall controlMap) ?_
    intro _ s e t hs hg he
    cases e with
    | enter c sockp => exact hs.enter hg he
    | leave c => exact hs.leave he
  induction calls with
  | nil => trivial
  | cons e h ih =>
      refine ⟨ih halone.1, fun s hs => ?_⟩
      cases e with
      | enter c sockp => trivial
      | leave c =>
          intro own hown
          have hnoted := (honly h s halone.1 hs).noted c.pidTgid own hown
          exact ⟨⟨own, hnoted, rfl⟩, Or.inl (halone.2 s hs)⟩

end Kmon.Ports.AcceptThreads
