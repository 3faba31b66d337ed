import Kmon.Verified.Exporter
import Kmon.Ports.CompletionSteps

/-!
# The probes and the collector of biostat in one run

Completions make their steps (`CompletionSteps`) while other requests are issued and
started, `control_map` is changed and `exportData` and `exportHistData` go through their
tables (`release/bcc/biostat.c`, `src/collector/biostat.go`).  A pointer into `counts` or
`dist` may then lead to an element that another completion has replaced, or that the
collector has deleted, and an insertion may find an entry that was not there a step before.

The probes are attached to `blk_account_io_start`, `blk_mq_start_request` and
`blk_account_io_done`, which the kernel goes through one after the other for a request: no
probe runs for a request while its completion is under way.  Stale entries of `whobyreq`
and `start` and requests at an old address are all here.

`traceReqCompletion_of_steps` says that a completion whose steps nothing comes between does
what `BiostatProbe` has it do.
-/

namespace Kmon.Ports.BiostatRuns

open Kmon.Verified
open Kmon.Verified.Run
open Kmon.Verified.Pool
open Kmon.Verified.ReadReset
open Kmon.Ports.BiostatProbe (Ptr ReqStart Control InfoT ValT DiskKey Completion tgid addCounts
  addDist traceReqCompletion)
open Kmon.Ports.CompletionSteps hiding Event step move_eq_some
open Kmon.Ports.ExportRounds (discipline addCounts_eq_addTo addDist_eq_addTo)

/-! ## The machine -/

/-- `trace_pid_start`. -/
def tracePidStart (q : Requests) (req : Ptr) (pidTgid : BitVec 64) : Requests :=
  match q.controlMap.lookup (tgid pidTgid) with
  | none => q
  | some _ => { q with whobyreq := q.whobyreq.insert req (tgid pidTgid) }

/-- `trace_req_start`; `__data_len` is an `unsigned int`. -/
def traceReqStart (q : Requests) (req : Ptr) (dataLen : BitVec 32) (now : BitVec 64) :
    Requests :=
  { q with start := q.start.insert req ⟨dataLen.setWidth 64, now⟩ }

/-- The tables, the completions that have begun, and what the two functions have
exported. -/
structure Collected where
  cpus : Cpus
  counted : List (InfoT × ValT)
  countRound : Option (Round InfoT ValT)
  binned : List (DiskKey × BitVec 64)
  distRound : Option (Round DiskKey (BitVec 64))

/-- What `exportData` works on. -/
def Collected.counts (s : Collected) : Elements InfoT ValT :=
  ⟨s.cpus.tables.counts, s.counted, s.countRound⟩

/-- What `exportHistData` works on. -/
def Collected.dist (s : Collected) : Elements DiskKey (BitVec 64) :=
  ⟨s.cpus.tables.dist, s.binned, s.distRound⟩

/-- No completion of the request is under way. -/
def Idle (s : Collected) (req : Ptr) : Prop := ∀ x ∈ s.cpus.calls, x.1.req = req → x.2 = .done

instance (s : Collected) (req : Ptr) : Decidable (Idle s req) :=
  inferInstanceAs (Decidable (∀ x ∈ s.cpus.calls, x.1.req = req → x.2 = .done))

/-- A change of the first tables. -/
def Collected.withRequests (s : Collected) (q : Requests) : Collected :=
  { s with cpus.tables.requests := q }

/-- The steps of a run. -/
inductive Event where
  | tracePidStart (req : Ptr) (pidTgid : BitVec 64)
  | traceReqStart (req : Ptr) (dataLen : BitVec 32) (now : BitVec 64)
  | setControl (pid : BitVec 32) (con : Control)
  | deleteControl (pid : BitVec 32)
  | complete (call : Call)
  | move (i : Nat) (elem : Elem)
  | exportData (x : ExportStep InfoT ValT)
  | exportHistData (x : ExportStep DiskKey (BitVec 64))

/-- One goroutine calls the two functions, so that a round of the one is over before the
other begins. -/
def step (bpfLog2l : BitVec 64 → BitVec 32) (s : Collected) : Event → Option Collected
  | .tracePidStart req pidTgid =>
      if Idle s req then
        some (s.withRequests (tracePidStart s.cpus.tables.requests req pidTgid))
      else none
  | .traceReqStart req dataLen now =>
      if Idle s req then
        some (s.withRequests (traceReqStart s.cpus.tables.requests req dataLen now))
      else none
  | .setControl pid con =>
      let q := s.cpus.tables.requests
      some (s.withRequests { q with controlMap := q.controlMap.insert pid con })
  | .deleteControl pid =>
      let q := s.cpus.tables.requests
      some (s.withRequests { q with controlMap := q.controlMap.erase pid })
  | .complete call =>
      if Idle s call.req then
        some { s with cpus.calls := s.cpus.calls ++ [(call, .lookupWho)] }
      else none
  | .move i elem =>
      match s.cpus.calls[i]? with
      | none => none
      | some (call, pc) =>
          (advance bpfLog2l s.cpus.tables call elem pc).map fun r =>
            { s with cpus := ⟨r.1, s.cpus.calls.set i (call, r.2)⟩ }
  | .exportData x =>
      if s.distRound.isSome then none
      else
        (s.counts.step (discipline .counts) x).map fun s' =>
          { s with
            cpus.tables.counts := s'.table
            counted := s'.sent
            countRound := s'.round }
  | .exportHistData x =>
      if s.countRound.isSome then none
      else
        (s.dist.step (discipline .dist) x).map fun s' =>
          { s with
            cpus.tables.dist := s'.table
            binned := s'.sent
            distRound := s'.round }

/-- The module is loaded. -/
def loaded : Collected := ⟨init ⟨∅, ∅, ∅⟩, [], none, [], none⟩

/-- The condition that a completion uses no pointer to an element that its key no longer
has. -/
def Attached (bpfLog2l : BitVec 64 → BitVec 32) (s : Collected) : Event → Prop
  | .move i _ => ∀ x ∈ s.cpus.calls[i]?, PointsToKey bpfLog2l s.cpus.tables x.1 x.2
  | _ => True

/-- The condition that, besides, it inserts no key that is there. -/
def Orderly (bpfLog2l : BitVec 64 → BitVec 32) (s : Collected) : Event → Prop
  | .move i _ => ∀ x ∈ s.cpus.calls[i]?,
      PointsToKey bpfLog2l s.cpus.tables x.1 x.2 ∧ InsertsNew bpfLog2l s.cpus.tables x.1 x.2
  | _ => True

instance (bpfLog2l : BitVec 64 → BitVec 32) (s : Collected) :
    ∀ e, Decidable (Attached bpfLog2l s e)
  | .move i _ => inferInstanceAs (Decidable (∀ x ∈ s.cpus.calls[i]?, PointsToKey ..))
  | .tracePidStart _ _ | .traceReqStart _ _ _ | .setControl _ _ | .deleteControl _
  | .complete _ | .exportData _ | .exportHistData _ => isTrue trivial

instance (bpfLog2l : BitVec 64 → BitVec 32) (s : Collected) :
    ∀ e, Decidable (Orderly bpfLog2l s e)
  | .move i _ =>
      inferInstanceAs (Decidable (∀ x ∈ s.cpus.calls[i]?, PointsToKey .. ∧ InsertsNew ..))
  | .tracePidStart _ _ | .traceReqStart _ _ _ | .setControl _ _ | .deleteControl _
  | .complete _ | .exportData _ | .exportHistData _ => isTrue trivial

variable {bpfLog2l : BitVec 64 → BitVec 32} {s t : Collected} {e : Event} {m m' : Tables}
  {call : Call} {pc pc' : Pc} {l : Locals} {i : Nat}

/-- What a step does. -/
inductive Stepped (bpfLog2l : BitVec 64 → BitVec 32) (s : Collected) : Event → Collected → Prop
  | tracePidStart (req : Ptr) (pidTgid : BitVec 64) :
      Stepped bpfLog2l s (.tracePidStart req pidTgid)
        (s.withRequests (tracePidStart s.cpus.tables.requests req pidTgid))
  | traceReqStart {req : Ptr} (hidle : Idle s req) (dataLen : BitVec 32) (now : BitVec 64) :
      Stepped bpfLog2l s (.traceReqStart req dataLen now)
        (s.withRequests (traceReqStart s.cpus.tables.requests req dataLen now))
  | setControl (pid : BitVec 32) (con : Control) :
      Stepped bpfLog2l s (.setControl pid con)
        (s.withRequests { s.cpus.tables.requests with
          controlMap := s.cpus.tables.requests.controlMap.insert pid con })
  | deleteControl (pid : BitVec 32) :
      Stepped bpfLog2l s (.deleteControl pid)
        (s.withRequests { s.cpus.tables.requests with
          controlMap := s.cpus.tables.requests.controlMap.erase pid })
  | complete {call : Call} (hidle : Idle s call.req) :
      Stepped bpfLog2l s (.complete call)
        { s with cpus.calls := s.cpus.calls ++ [(call, .lookupWho)] }
  | move {i : Nat} {elem : Elem} {call : Call} {pc pc' : Pc} {m' : Tables}
      (hx : s.cpus.calls[i]? = some (call, pc))
      (hm : Moved bpfLog2l s.cpus.tables call pc m' pc') :
      Stepped bpfLog2l s (.move i elem) { s with cpus := ⟨m', s.cpus.calls.set i (call, pc')⟩ }
  | exportData {x : ExportStep InfoT ValT} {counts : Elements InfoT ValT}
      (hx : s.counts.step (discipline .counts) x = some counts) :
      Stepped bpfLog2l s (.exportData x)
        { s with
          cpus.tables.counts := counts.table
          counted := counts.sent
          countRound := counts.round }
  | exportHistData {x : ExportStep DiskKey (BitVec 64)} {dist : Elements DiskKey (BitVec 64)}
      (hx : s.dist.step (discipline .dist) x = some dist) :
      Stepped bpfLog2l s (.exportHistData x)
        { s with
          cpus.tables.dist := dist.table
          binned := dist.sent
          distRound := dist.round }

theorem stepped_of_step (he : step bpfLog2l s e = some t) : Stepped bpfLog2l s e t := by
  cases e with
  | tracePidStart req pidTgid =>
      simp only [step] at he
      split at he
      · cases he
        exact .tracePidStart req pidTgid
      · cases he
  | traceReqStart req dataLen now =>
      simp only [step] at he
      split at he
      · rename_i hidle
        cases he
        exact .traceReqStart hidle dataLen now
      · cases he
  | setControl pid con =>
      cases he
      exact .setControl pid con
  | deleteControl pid =>
      cases he
      exact .deleteControl pid
  | complete call =>
      simp only [step] at he
      split at he
      · rename_i hidle
        cases he
        exact .complete hidle
      · cases he
  | move i elem =>
      simp only [step] at he
      split at he
      · cases he
      · rename_i call pc hx
        obtain ⟨⟨m', pc'⟩, ha, rfl⟩ := Option.map_eq_some_iff.1 he
        exact .move hx (moved_of_advance ha)
  | exportData x =>
      simp only [step] at he
      split at he
      · cases he
      · obtain ⟨counts, hcounts, rfl⟩ := Option.map_eq_some_iff.1 he
        exact .exportData hcounts
  | exportHistData x =>
      simp only [step] at he
      split at he
      · cases he
      · obtain ⟨dist, hdist, rfl⟩ := Option.map_eq_some_iff.1 he
        exact .exportHistData hdist

/-! ## One completion for a request -/

/-- A completion is the only one of its request that is under way, and what it has found in
`start` is still there. -/
structure Alone (s : Collected) : Prop where
  only : ∀ {i j : Nat} {x y : Call × Pc}, s.cpus.calls[i]? = some x → s.cpus.calls[j]? = some y → i ≠ j →
    x.1.req = y.1.req → x.2 = .done ∨ y.2 = .done
  start : ∀ {x : Call × Pc}, x ∈ s.cpus.calls → ∀ rs, startOf x.2 = some rs →
    s.cpus.tables.requests.start.lookup x.1.req = some rs

theorem alone_loaded : Alone loaded where
  only hx := by cases hx
  start hx := by cases hx

/-- The other completions of the request have finished. -/
theorem Alone.done_of_ne (hs : Alone s) (hx : s.cpus.calls[i]? = some (call, pc))
    (hpc : pc ≠ .done) {j : Nat} {y : Call × Pc} (hy : s.cpus.calls[j]? = some y) (hne : i ≠ j)
    (hreq : y.1.req = call.req) : y.2 = .done :=
  (hs.only hx hy hne hreq.symm).resolve_left hpc

theorem Alone.move (hs : Alone s) (hx : s.cpus.calls[i]? = some (call, pc))
    (hm : Moved bpfLog2l s.cpus.tables call pc m' pc') :
    Alone { s with cpus := ⟨m', s.cpus.calls.set i (call, pc')⟩ } where
  only := by
    intro j k x y hj hk hne hreq
    have hother : ∀ {j : Nat} {y : Call × Pc}, (s.cpus.calls.set i (call, pc'))[j]? = some y →
        j ≠ i → y.1.req = call.req → y.2 = .done := by
      intro j y hj hji hreq
      rw [List.getElem?_set_ne (Ne.symm hji)] at hj
      exact hs.done_of_ne hx hm.ne_done hj (Ne.symm hji) hreq
    have hown : ∀ {x : Call × Pc}, (s.cpus.calls.set i (call, pc'))[i]? = some x →
        x.1.req = call.req := by
      intro x hx'
      rw [List.getElem?_set_self (List.getElem?_eq_some_iff.1 hx).1] at hx'
      cases hx'
      rfl
    by_cases hji : j = i
    · subst hji
      exact .inr (hother hk (Ne.symm hne) (hreq.symm.trans (hown hj)))
    · by_cases hki : k = i
      · subst hki
        exact .inl (hother hj hji (hreq.trans (hown hk)))
      · have hj' : s.cpus.calls[j]? = some x := by
          rw [← hj, List.getElem?_set_ne (Ne.symm hji)]
        have hk' : s.cpus.calls[k]? = some y := by
          rw [← hk, List.getElem?_set_ne (Ne.symm hki)]
        exact hs.only hj' hk' hne hreq
  start := by
    intro x hxs rs hrs
    obtain ⟨j, hj⟩ := List.mem_iff_getElem?.1 hxs
    by_cases hji : j = i
    · subst hji
      rw [List.getElem?_set_self (List.getElem?_eq_some_iff.1 hx).1] at hj
      cases hj
      exact hm.startOf (hs.start (List.mem_of_getElem? hx)) rs hrs
    · rw [List.getElem?_set_ne (Ne.symm hji)] at hj
      have hreq : x.1.req ≠ call.req := by
        intro hreq
        rw [hs.done_of_ne hx hm.ne_done hj (Ne.symm hji) hreq] at hrs
        cases hrs
      rw [hm.start_of_ne hreq]
      exact hs.start (List.mem_of_getElem? hj) rs hrs

theorem Alone.complete (hs : Alone s) (hidle : Idle s call.req) :
    Alone { s with cpus.calls := s.cpus.calls ++ [(call, .lookupWho)] } where
  only := by
    have hnew : ∀ {j : Nat} {x : Call × Pc}, s.cpus.calls[j]? = some x →
        x.1.req = call.req → x.2 = .done :=
      fun hj hreq => hidle _ (List.mem_of_getElem? hj) hreq
    intro j k x y hj hk hne hreq
    rcases getElem?_concat hj with hold | ⟨hlast, rfl⟩
    · rcases getElem?_concat hk with hold' | ⟨-, rfl⟩
      · exact hs.only hold hold' hne hreq
      · exact .inl (hnew hold hreq)
    · rcases getElem?_concat hk with hold' | ⟨hlast', rfl⟩
      · exact .inr (hnew hold' hreq.symm)
      · exact absurd (hlast.trans hlast'.symm) hne
  start := by
    intro x hx rs hrs
    rcases List.mem_append.1 hx with hold | hnew
    · exact hs.start hold rs hrs
    · rw [List.mem_singleton.1 hnew] at hrs
      cases hrs

/-- A completion is alone in every state of a run. -/
theorem alone_of_run : ∀ h s, run (step bpfLog2l) loaded h = some s → Alone s := by
  refine run_invariant alone_loaded fun h s e t _ hs he => ?_
  cases stepped_of_step he with
  | traceReqStart hidle dataLen now =>
      rename_i req
      refine ⟨hs.only, fun hx rs hrs => ?_⟩
      rename_i x
      have hne : x.1.req ≠ req := by
        intro hreq
        rw [hidle x hx hreq] at hrs
        cases hrs
      exact (Finmap.lookup_insert_of_ne _ hne).trans (hs.start hx rs hrs)
  | tracePidStart req pidTgid =>
      refine ⟨hs.only, fun hx rs hrs => ?_⟩
      show (tracePidStart _ req pidTgid).start.lookup _ = _
      unfold tracePidStart
      split
      · exact hs.start hx rs hrs
      · exact hs.start hx rs hrs
  | complete hidle => exact hs.complete hidle
  | move hx hm => exact hs.move hx hm
  | _ => exact ⟨hs.only, hs.start⟩

/-! ## A completion alone -/

/-- The tables as `BiostatProbe` has them. -/
def maps (m : Tables) : BiostatProbe.Maps :=
  ⟨m.requests.controlMap, m.counts.values, m.dist.values, m.requests.start,
    m.requests.whobyreq⟩

/-- Steps of one completion with nothing in between. -/
def Steps (bpfLog2l : BitVec 64 → BitVec 32) (call : Call) : Tables × Pc → Tables × Pc → Prop :=
  Relation.ReflTransGen fun x y => ∃ elem, advance bpfLog2l x.1 call elem x.2 = some y

theorem Steps.head {y z : Tables × Pc} (elem : Elem)
    (he : advance bpfLog2l m call elem pc = some y) (hz : Steps bpfLog2l call y z) :
    Steps bpfLog2l call (m, pc) z :=
  Relation.ReflTransGen.head ⟨elem, he⟩ hz

/-- The request as the completion leaves it. -/
def forget (q : Requests) (req : Ptr) : Requests :=
  { q with start := q.start.erase req, whobyreq := q.whobyreq.erase req }

theorem steps_deleteStart (bpfLog2l : BitVec 64 → BitVec 32) (m : Tables) (call : Call) :
    Steps bpfLog2l call (m, .deleteStart)
      ({ m with requests := forget m.requests call.req }, .done) :=
  Steps.head 0 rfl (Steps.head 0 rfl .refl)

/-- The part of a completion on `dist`. -/
theorem steps_afterCounts (bpfLog2l : BitVec 64 → BitVec 32) (m : Tables) (call : Call)
    (l : Locals) :
    ∃ dist, Steps bpfLog2l call (m, afterCounts l)
        (⟨forget m.requests call.req, m.counts, dist⟩, .done) ∧
      dist.values = if l.con.verbose > 1 then
        addDist m.dist.values (diskKey bpfLog2l call l) else m.dist.values := by
  unfold afterCounts
  by_cases hverbose : l.con.verbose > 1
  · rw [if_pos hverbose, if_pos hverbose]
    cases hlookup : m.dist.lookup (diskKey bpfLog2l call l) with
    | none =>
        obtain ⟨elem, hfree⟩ := m.dist.exists_free
        have hlook : advance bpfLog2l m call 0 (.lookupDist l) = some (m, .updateDist l) := by
          simp only [advance, hlookup]
        have hput : advance bpfLog2l m call elem (.updateDist l) =
            some ({ m with dist := m.dist.put (diskKey bpfLog2l call l) elem 1 hfree },
              .deleteStart) := ElementTable.map_update_eq_some.2 ⟨hfree, rfl⟩
        refine ⟨_, .head 0 hlook (.head elem hput (steps_deleteStart bpfLog2l _ call)), ?_⟩
        rw [values_put_new hlookup (d := discipline .dist) rfl, addDist_eq_addTo]
    | some counter =>
        have hlook : advance bpfLog2l m call 0 (.lookupDist l) =
            some (m, .increment l counter) := by
          simp only [advance, hlookup]
        refine ⟨_, .head 0 hlook (.head 0 rfl (steps_deleteStart bpfLog2l _ call)), ?_⟩
        rw [addDist_eq_addTo]
        exact values_modify_add hlookup (discipline .dist) 1 rfl
  · rw [if_neg hverbose, if_neg hverbose]
    exact ⟨m.dist, steps_deleteStart bpfLog2l m call, rfl⟩

/-- The part of a completion on `counts`, up to that on `dist`. -/
theorem steps_lookupCounts (bpfLog2l : BitVec 64 → BitVec 32) (m : Tables) (call : Call)
    (l : Locals) :
    ∃ counts, Steps bpfLog2l call (m, .lookupCounts l)
        ({ m with counts := counts }, afterCounts l) ∧
      counts.values = addCounts m.counts.values (info call l) (delta call l) l.rs.dataLen := by
  cases hlookup : m.counts.lookup (info call l) with
  | none =>
      obtain ⟨elem, hfree⟩ := m.counts.exists_free
      have hlook : advance bpfLog2l m call 0 (.lookupCounts l) = some (m, .tryInit l) := by
        simp only [advance, hlookup]
      have hput : advance bpfLog2l m call elem (.tryInit l) =
          some ({ m with counts := m.counts.put (info call l) elem (sample call l) hfree },
            afterCounts l) := by
        simp only [advance, hlookup]
        exact ElementTable.map_update_eq_some.2 ⟨hfree, rfl⟩
      refine ⟨_, .head 0 hlook (.head elem hput .refl), ?_⟩
      rw [values_put_new hlookup (d := discipline .counts) rfl, addCounts_eq_addTo]
      rfl
  | some valp =>
      let ns := m.counts.modify valp fun val => { val with ns := val.ns + delta call l }
      let bytes := ns.modify valp fun val => { val with bytes := val.bytes + l.rs.dataLen }
      obtain ⟨elem, hfree⟩ := bytes.exists_free
      have hlook : advance bpfLog2l m call 0 (.lookupCounts l) = some (m, .addNs l valp) := by
        simp only [advance, hlookup]
      have hput : advance bpfLog2l { m with counts := bytes } call elem (.updateCounts l valp) =
          some ({ m with counts := bytes.put (info call l) elem (bytes.mem valp) hfree },
            afterCounts l) := ElementTable.map_update_eq_some.2 ⟨hfree, rfl⟩
      refine ⟨_, .head 0 hlook (.head 0 rfl (.head 0 rfl (.head elem hput .refl))), ?_⟩
      have hbytes : bytes.lookup (info call l) = some valp := hlookup
      have hns : ns.lookup (info call l) = some valp := hlookup
      have hmem : ns.mem valp =
          { m.counts.mem valp with ns := (m.counts.mem valp).ns + delta call l } :=
        Function.update_self valp _ m.counts.mem
      rw [ElementTable.values_put_mem hbytes, ElementTable.values_modify hns, hmem,
        ElementTable.values_modify hlookup, Finmap.insert_insert, addCounts,
        ElementTable.lookup_values, hlookup]
      rfl

/-- **A completion alone**: it does what `trace_req_completion` does in one step. -/
theorem traceReqCompletion_of_steps (bpfLog2l : BitVec 64 → BitVec 32) (m : Tables)
    (call : Call) :
    ∃ m', Steps bpfLog2l call (m, .lookupWho) (m', .done) ∧
      maps m' = traceReqCompletion bpfLog2l (maps m) call.req call.found := by
  cases hwho : m.requests.whobyreq.lookup call.req with
  | none =>
      have hlook : advance bpfLog2l m call 0 .lookupWho = some (m, .missingPid) := by
        simp only [advance, hwho]
      refine ⟨_, .head 0 hlook (.head 0 rfl .refl), ?_⟩
      simp only [traceReqCompletion, maps, hwho]
  | some pid =>
      have hlook : advance bpfLog2l m call 0 .lookupWho = some (m, .lookupStart pid) := by
        simp only [advance, hwho]
      cases hstart : m.requests.start.lookup call.req with
      | none =>
          have hlook' : advance bpfLog2l m call 0 (.lookupStart pid) = some (m, .deleteWho) := by
            simp only [advance, hstart]
          refine ⟨_, .head 0 hlook (.head 0 hlook' (.head 0 rfl .refl)), ?_⟩
          simp only [traceReqCompletion, maps, hwho, hstart]
      | some rs =>
          have hlook' : advance bpfLog2l m call 0 (.lookupStart pid) =
              some (m, .lookupControl pid rs) := by
            simp only [advance, hstart]
          cases hcon : m.requests.controlMap.lookup pid with
          | none =>
              have hlook'' : advance bpfLog2l m call 0 (.lookupControl pid rs) =
                  some (m, .done) := by
                simp only [advance, hcon]
              refine ⟨_, .head 0 hlook (.head 0 hlook' (.head 0 hlook'' .refl)), ?_⟩
              simp only [traceReqCompletion, maps, hwho, hstart, hcon]
          | some con =>
              have hlook'' : advance bpfLog2l m call 0 (.lookupControl pid rs) =
                  some (m, .lookupCounts ⟨pid, rs, con⟩) := by
                simp only [advance, hcon]
              obtain ⟨counts, hcounts, hvalues⟩ :=
                steps_lookupCounts bpfLog2l m call ⟨pid, rs, con⟩
              obtain ⟨dist, hdist, hslots⟩ := steps_afterCounts bpfLog2l
                { m with counts := counts } call ⟨pid, rs, con⟩
              refine ⟨_, .head 0 hlook (.head 0 hlook' (.head 0 hlook'' (hcounts.trans hdist))),
                ?_⟩
              simp only [traceReqCompletion, maps, hwho, hstart, hcon, forget, hvalues, hslots]
              rfl

end Kmon.Ports.BiostatRuns
