import Kmon.Ports.ExportRounds
import Kmon.Verified.ElementTable
import Kmon.Verified.Pool

/-!
# The steps of a completion

`BiostatProbe` takes `trace_req_completion` as one step.  Here its helper calls and its
additions through a pointer are the steps, and any number of completions are between
two of them at a time (`release/bcc/biostat.c`).

A completion that finds no entry for its key puts its sample there with
`lookup_or_try_init`, which leaves an entry alone that another completion has made in
the meantime: the sample is lost.  In `dist` it writes 1 over what it finds.  A
completion that finds an entry adds to it through the pointer and then writes it back,
which replaces the element the others are adding to.

`Moved` lists what a step can do, and `Advanced` what it does where the completion finds its
request.  `Advanced.counts` and `Advanced.dist` say that it
adds to the tables what is no longer due, or loses it; `reads_of_run` that a completion
finds what was there at the start of the run.
-/

namespace Kmon.Ports.CompletionSteps

open Kmon.Verified
open Kmon.Verified.Run
open Kmon.Verified.Pool
open Kmon.Ports.BiostatProbe (Ptr ReqStart Control InfoT ValT DiskKey Completion infoOf
  diskKeyOf)

/-! ## The program of a completion -/

/-- The tables that say which request belongs to whom and since when. -/
structure Requests where
  controlMap : GoMap (BitVec 32) Control
  start : GoMap Ptr ReqStart
  whobyreq : GoMap Ptr (BitVec 32)

/-- All tables of the module. -/
structure Tables where
  requests : Requests
  counts : ElementTable InfoT ValT
  dist : ElementTable DiskKey (BitVec 64)

/-- A call of `trace_req_completion`: its request, and what it finds in the kernel. -/
structure Call where
  req : Ptr
  found : Completion
  deriving DecidableEq, Repr

/-- What its first three lookups find. -/
structure Locals where
  pid : BitVec 32
  rs : ReqStart
  con : Control
  deriving DecidableEq, Repr

/-- `delta`. -/
def delta (call : Call) (l : Locals) : BitVec 64 := call.found.now - l.rs.timestamp

/-- `info`, the key of `counts`. -/
def info (call : Call) (l : Locals) : InfoT := infoOf l.pid call.found

/-- `zero`, which is the sample of the completion. -/
def sample (call : Call) (l : Locals) : ValT := ⟨l.rs.dataLen, delta call l⟩

/-- `key`, that of `dist`. -/
def diskKey (bpfLog2l : BitVec 64 → BitVec 32) (call : Call) (l : Locals) : DiskKey :=
  diskKeyOf bpfLog2l l.pid l.con (delta call l) call.found

/-- The next step of a completion, with what it has read so far. -/
inductive Pc where
  | lookupWho
  | missingPid
  | lookupStart (pid : BitVec 32)
  | lookupControl (pid : BitVec 32) (rs : ReqStart)
  | lookupCounts (l : Locals)
  | tryInit (l : Locals)
  | addNs (l : Locals) (valp : Elem)
  | addBytes (l : Locals) (valp : Elem)
  | updateCounts (l : Locals) (valp : Elem)
  | lookupDist (l : Locals)
  | updateDist (l : Locals)
  | increment (l : Locals) (counter : Elem)
  | deleteStart
  | deleteWho
  | done
  deriving DecidableEq, Repr

/-- Where a completion goes on after `counts`. -/
def afterCounts (l : Locals) : Pc := if l.con.verbose > 1 then .lookupDist l else .deleteStart

/-- One step of a completion.  An update takes the element `elem`, which has to be a free
one. -/
def advance (bpfLog2l : BitVec 64 → BitVec 32) (m : Tables) (call : Call) (elem : Elem) :
    Pc → Option (Tables × Pc)
  | .lookupWho =>
      match m.requests.whobyreq.lookup call.req with
      | none => some (m, .missingPid)
      | some pid => some (m, .lookupStart pid)
  | .missingPid =>
      some ({ m with requests.start := m.requests.start.erase call.req }, .done)
  | .lookupStart pid =>
      match m.requests.start.lookup call.req with
      | none => some (m, .deleteWho)
      | some rs => some (m, .lookupControl pid rs)
  | .lookupControl pid rs =>
      match m.requests.controlMap.lookup pid with
      | none => some (m, .done)
      | some con => some (m, .lookupCounts ⟨pid, rs, con⟩)
  | .lookupCounts l =>
      match m.counts.lookup (info call l) with
      | none => some (m, .tryInit l)
      | some valp => some (m, .addNs l valp)
  | .tryInit l =>
      match m.counts.lookup (info call l) with
      | none =>
          (m.counts.update (info call l) elem (sample call l)).map fun counts =>
            ({ m with counts := counts }, afterCounts l)
      | some _ => some (m, afterCounts l)
  | .addNs l valp =>
      let counts := m.counts.modify valp fun val => { val with ns := val.ns + delta call l }
      some ({ m with counts := counts }, .addBytes l valp)
  | .addBytes l valp =>
      let counts := m.counts.modify valp fun val => { val with bytes := val.bytes + l.rs.dataLen }
      some ({ m with counts := counts }, .updateCounts l valp)
  | .updateCounts l valp =>
      (m.counts.update (info call l) elem (m.counts.mem valp)).map fun counts =>
        ({ m with counts := counts }, afterCounts l)
  | .lookupDist l =>
      match m.dist.lookup (diskKey bpfLog2l call l) with
      | none => some (m, .updateDist l)
      | some counter => some (m, .increment l counter)
  | .updateDist l =>
      (m.dist.update (diskKey bpfLog2l call l) elem 1).map fun dist =>
        ({ m with dist := dist }, .deleteStart)
  | .increment _ counter =>
      some ({ m with dist := m.dist.modify counter fun val => val + 1 }, .deleteStart)
  | .deleteStart =>
      some ({ m with requests.start := m.requests.start.erase call.req }, .deleteWho)
  | .deleteWho =>
      some ({ m with requests.whobyreq := m.requests.whobyreq.erase call.req }, .done)
  | .done => none

/-! ## Any number of them -/

/-- The tables, and the completions that have begun. -/
structure Cpus where
  tables : Tables
  calls : List (Call × Pc)

/-- What a completion of a traced request is going to find. -/
def localsOf (q : Requests) (call : Call) : Option Locals :=
  match q.whobyreq.lookup call.req, q.start.lookup call.req with
  | some pid, some rs => (q.controlMap.lookup pid).map fun con => ⟨pid, rs, con⟩
  | _, _ => none

/-- The steps of a run: a traced request completes, whose completion has not begun yet;
the `i`-th completion makes its next step. -/
inductive Event where
  | complete (call : Call)
  | move (i : Nat) (elem : Elem)

def step (bpfLog2l : BitVec 64 → BitVec 32) (s : Cpus) : Event → Option Cpus
  | .complete call =>
      if (localsOf s.tables.requests call).isSome ∧ call.req ∉ s.calls.map fun x => x.1.req then
        some { s with calls := s.calls ++ [(call, .lookupWho)] }
      else none
  | .move i elem =>
      match s.calls[i]? with
      | none => none
      | some (call, pc) =>
          (advance bpfLog2l s.tables call elem pc).map fun r =>
            ⟨r.1, s.calls.set i (call, r.2)⟩

/-- Nothing has been counted yet. -/
def init (q : Requests) : Cpus := ⟨⟨q, .empty, .empty⟩, []⟩

/-! ## Pointers, insertions and what is due -/

/-- A step through a pointer finds that its key still has the element. -/
def PointsToKey (bpfLog2l : BitVec 64 → BitVec 32) (m : Tables) (call : Call) : Pc → Prop
  | .addNs l valp => m.counts.lookup (info call l) = some valp
  | .addBytes l valp => m.counts.lookup (info call l) = some valp
  | .updateCounts l valp => m.counts.lookup (info call l) = some valp
  | .increment l counter => m.dist.lookup (diskKey bpfLog2l call l) = some counter
  | _ => True

/-- An insertion finds that its key is not there. -/
def InsertsNew (bpfLog2l : BitVec 64 → BitVec 32) (m : Tables) (call : Call) : Pc → Prop
  | .tryInit l => m.counts.lookup (info call l) = none
  | .updateDist l => m.dist.lookup (diskKey bpfLog2l call l) = none
  | _ => True

instance (bpfLog2l : BitVec 64 → BitVec 32) (m : Tables) (call : Call) :
    ∀ pc, Decidable (PointsToKey bpfLog2l m call pc)
  | .addNs l valp => inferInstanceAs (Decidable (m.counts.lookup (info call l) = some valp))
  | .addBytes l valp => inferInstanceAs (Decidable (m.counts.lookup (info call l) = some valp))
  | .updateCounts l valp =>
      inferInstanceAs (Decidable (m.counts.lookup (info call l) = some valp))
  | .increment l counter =>
      inferInstanceAs (Decidable (m.dist.lookup (diskKey bpfLog2l call l) = some counter))
  | .lookupWho | .missingPid | .lookupStart _ | .lookupControl _ _ | .lookupCounts _
  | .tryInit _ | .lookupDist _ | .updateDist _ | .deleteStart | .deleteWho | .done =>
      isTrue trivial

instance (bpfLog2l : BitVec 64 → BitVec 32) (m : Tables) (call : Call) :
    ∀ pc, Decidable (InsertsNew bpfLog2l m call pc)
  | .tryInit l => inferInstanceAs (Decidable (m.counts.lookup (info call l) = none))
  | .updateDist l =>
      inferInstanceAs (Decidable (m.dist.lookup (diskKey bpfLog2l call l) = none))
  | .lookupWho | .missingPid | .lookupStart _ | .lookupControl _ _ | .lookupCounts _
  | .addNs _ _ | .addBytes _ _ | .updateCounts _ _ | .lookupDist _ | .increment _ _
  | .deleteStart | .deleteWho | .done => isTrue trivial

/-- What an insertion that finds its key costs: the sample, or the counter it writes
over. -/
def lostCounts (m : Tables) (call : Call) (key : InfoT) : Pc → ValT
  | .tryInit l => if info call l = key ∧ m.counts.lookup key ≠ none then sample call l else 0
  | _ => 0

def lostDist (bpfLog2l : BitVec 64 → BitVec 32) (m : Tables) (call : Call) (key : DiskKey) :
    Pc → BitVec 64
  | .updateDist l => if diskKey bpfLog2l call l = key then m.dist.value key else 0
  | _ => 0

/-- What a completion has not added to `counts` yet. -/
def dueAt (call : Call) (l : Locals) : Pc → ValT
  | .lookupWho => sample call l
  | .lookupStart _ => sample call l
  | .lookupControl _ _ => sample call l
  | .lookupCounts _ => sample call l
  | .tryInit _ => sample call l
  | .addNs _ _ => sample call l
  | .addBytes _ _ => ⟨l.rs.dataLen, 0⟩
  | _ => 0

/-- Whether it has still to be counted in `dist`. -/
def dueDistAt (l : Locals) : Pc → BitVec 64
  | .deleteStart => 0
  | .deleteWho => 0
  | .done => 0
  | _ => if l.con.verbose > 1 then 1 else 0

/-- The same for a key, from the tables at the start of the run. -/
def due (q : Requests) (key : InfoT) (x : Call × Pc) : ValT :=
  match localsOf q x.1 with
  | none => 0
  | some l => if info x.1 l = key then dueAt x.1 l x.2 else 0

def dueDist (bpfLog2l : BitVec 64 → BitVec 32) (q : Requests) (key : DiskKey)
    (x : Call × Pc) : BitVec 64 :=
  match localsOf q x.1 with
  | none => 0
  | some l => if diskKey bpfLog2l x.1 l = key then dueDistAt l x.2 else 0

/-- The entry of `start` is still there, and that of `whobyreq`. -/
def KeepsStart : Pc → Prop
  | .missingPid => False
  | .deleteWho => False
  | .done => False
  | _ => True

def KeepsWho : Pc → Prop
  | .done => False
  | _ => True

/-- A completion has read what was there at the start. -/
def Agrees (l : Locals) : Pc → Prop
  | .lookupWho => True
  | .missingPid => False
  | .lookupStart pid => pid = l.pid
  | .lookupControl pid rs => pid = l.pid ∧ rs = l.rs
  | .lookupCounts l' => l' = l
  | .tryInit l' => l' = l
  | .addNs l' _ => l' = l
  | .addBytes l' _ => l' = l
  | .updateCounts l' _ => l' = l
  | .lookupDist l' => l' = l ∧ l.con.verbose > 1
  | .updateDist l' => l' = l ∧ l.con.verbose > 1
  | .increment l' _ => l' = l ∧ l.con.verbose > 1
  | .deleteStart => True
  | .deleteWho => True
  | .done => True

/-- What holds in every run: every request completes once, its entries stay until its
completion deletes them, and so all it reads is what was there at the start. -/
structure Reads (q : Requests) (s : Cpus) : Prop where
  nodup : (s.calls.map fun x => x.1.req).Nodup
  controlMap : s.tables.requests.controlMap = q.controlMap
  start : ∀ req, (∀ x ∈ s.calls, x.1.req = req → KeepsStart x.2) →
    s.tables.requests.start.lookup req = q.start.lookup req
  whobyreq : ∀ req, (∀ x ∈ s.calls, x.1.req = req → KeepsWho x.2) →
    s.tables.requests.whobyreq.lookup req = q.whobyreq.lookup req
  calls : ∀ x ∈ s.calls, ∃ l, localsOf q x.1 = some l ∧ Agrees l x.2

/-! ## One step of a completion -/

variable {bpfLog2l : BitVec 64 → BitVec 32} {q : Requests} {h : List Event} {s t : Cpus}
  {e : Event} {m m' : Tables} {call : Call} {l : Locals} {pc pc' : Pc} {elem : Elem}

theorem localsOf_eq_some : localsOf q call = some l ↔
    q.whobyreq.lookup call.req = some l.pid ∧ q.start.lookup call.req = some l.rs ∧
      q.controlMap.lookup l.pid = some l.con := by
  unfold localsOf
  cases q.whobyreq.lookup call.req with
  | none => simp
  | some pid =>
      cases q.start.lookup call.req with
      | none => simp
      | some rs =>
          cases l
          simp only [Option.map_eq_some_iff, Option.some.injEq, Locals.mk.injEq]
          constructor
          · rintro ⟨con, hcon, rfl, rfl, rfl⟩
            exact ⟨rfl, rfl, hcon⟩
          · rintro ⟨rfl, rfl, hcon⟩
            exact ⟨_, hcon, rfl, rfl, rfl⟩

/-- What a step of a completion does. -/
inductive Moved (bpfLog2l : BitVec 64 → BitVec 32) (m : Tables) (call : Call) :
    Pc → Tables → Pc → Prop
  | foundWho {pid : BitVec 32} (hwho : m.requests.whobyreq.lookup call.req = some pid) :
      Moved bpfLog2l m call .lookupWho m (.lookupStart pid)
  | missedWho (hwho : m.requests.whobyreq.lookup call.req = none) :
      Moved bpfLog2l m call .lookupWho m .missingPid
  | skip :
      Moved bpfLog2l m call .missingPid
        { m with requests.start := m.requests.start.erase call.req } .done
  | foundStart {pid : BitVec 32} {rs : ReqStart}
      (hstart : m.requests.start.lookup call.req = some rs) :
      Moved bpfLog2l m call (.lookupStart pid) m (.lookupControl pid rs)
  | missedStart {pid : BitVec 32} (hstart : m.requests.start.lookup call.req = none) :
      Moved bpfLog2l m call (.lookupStart pid) m .deleteWho
  | foundControl {pid : BitVec 32} {rs : ReqStart} {con : Control}
      (hcon : m.requests.controlMap.lookup pid = some con) :
      Moved bpfLog2l m call (.lookupControl pid rs) m (.lookupCounts ⟨pid, rs, con⟩)
  | missedControl {pid : BitVec 32} {rs : ReqStart}
      (hcon : m.requests.controlMap.lookup pid = none) :
      Moved bpfLog2l m call (.lookupControl pid rs) m .done
  | foundCounts {l : Locals} {valp : Elem} (hsome : m.counts.lookup (info call l) = some valp) :
      Moved bpfLog2l m call (.lookupCounts l) m (.addNs l valp)
  | missedCounts {l : Locals} (hnone : m.counts.lookup (info call l) = none) :
      Moved bpfLog2l m call (.lookupCounts l) m (.tryInit l)
  | initialized {l : Locals} (hnone : m.counts.lookup (info call l) = none) {elem : Elem}
      (hfree : m.counts.Free elem) :
      Moved bpfLog2l m call (.tryInit l)
        { m with counts := m.counts.put (info call l) elem (sample call l) hfree }
        (afterCounts l)
  | late {l : Locals} (hsome : m.counts.lookup (info call l) ≠ none) :
      Moved bpfLog2l m call (.tryInit l) m (afterCounts l)
  | addNs {l : Locals} (valp : Elem) :
      Moved bpfLog2l m call (.addNs l valp)
        { m with
          counts := m.counts.modify valp fun val => { val with ns := val.ns + delta call l } }
        (.addBytes l valp)
  | addBytes {l : Locals} (valp : Elem) :
      Moved bpfLog2l m call (.addBytes l valp)
        { m with
          counts := m.counts.modify valp fun val =>
            { val with bytes := val.bytes + l.rs.dataLen } }
        (.updateCounts l valp)
  | updateCounts {l : Locals} (valp : Elem) {elem : Elem} (hfree : m.counts.Free elem) :
      Moved bpfLog2l m call (.updateCounts l valp)
        { m with counts := m.counts.put (info call l) elem (m.counts.mem valp) hfree }
        (afterCounts l)
  | foundDist {l : Locals} {counter : Elem}
      (hsome : m.dist.lookup (diskKey bpfLog2l call l) = some counter) :
      Moved bpfLog2l m call (.lookupDist l) m (.increment l counter)
  | missedDist {l : Locals} (hnone : m.dist.lookup (diskKey bpfLog2l call l) = none) :
      Moved bpfLog2l m call (.lookupDist l) m (.updateDist l)
  | updateDist {l : Locals} {elem : Elem} (hfree : m.dist.Free elem) :
      Moved bpfLog2l m call (.updateDist l)
        { m with dist := m.dist.put (diskKey bpfLog2l call l) elem 1 hfree } .deleteStart
  | increment {l : Locals} (counter : Elem) :
      Moved bpfLog2l m call (.increment l counter)
        { m with dist := m.dist.modify counter fun val => val + 1 } .deleteStart
  | deleteStart :
      Moved bpfLog2l m call .deleteStart
        { m with requests.start := m.requests.start.erase call.req } .deleteWho
  | deleteWho :
      Moved bpfLog2l m call .deleteWho
        { m with requests.whobyreq := m.requests.whobyreq.erase call.req } .done

theorem moved_of_advance (he : advance bpfLog2l m call elem pc = some (m', pc')) :
    Moved bpfLog2l m call pc m' pc' := by
  cases pc with
  | lookupWho =>
      simp only [advance] at he
      split at he
      · cases he
        exact .missedWho ‹_›
      · cases he
        exact .foundWho ‹_›
  | missingPid =>
      cases he
      exact .skip
  | lookupStart pid =>
      simp only [advance] at he
      split at he
      · cases he
        exact .missedStart ‹_›
      · cases he
        exact .foundStart ‹_›
  | lookupControl pid rs =>
      simp only [advance] at he
      split at he
      · cases he
        exact .missedControl ‹_›
      · cases he
        exact .foundControl ‹_›
  | lookupCounts l =>
      simp only [advance] at he
      split at he
      · cases he
        exact .missedCounts ‹_›
      · cases he
        exact .foundCounts ‹_›
  | tryInit l =>
      simp only [advance] at he
      split at he
      · rename_i hnone
        obtain ⟨hfree, hr⟩ := ElementTable.map_update_eq_some.1 he
        cases hr
        exact .initialized hnone hfree
      · rename_i valp hsome
        cases he
        exact .late (by rw [hsome]; simp)
  | addNs l valp =>
      cases he
      exact .addNs valp
  | addBytes l valp =>
      cases he
      exact .addBytes valp
  | updateCounts l valp =>
      obtain ⟨hfree, hr⟩ := ElementTable.map_update_eq_some.1 he
      cases hr
      exact .updateCounts valp hfree
  | lookupDist l =>
      simp only [advance] at he
      split at he
      · cases he
        exact .missedDist ‹_›
      · cases he
        exact .foundDist ‹_›
  | updateDist l =>
      obtain ⟨hfree, hr⟩ := ElementTable.map_update_eq_some.1 he
      cases hr
      exact .updateDist hfree
  | increment l counter =>
      cases he
      exact .increment counter
  | deleteStart =>
      cases he
      exact .deleteStart
  | deleteWho =>
      cases he
      exact .deleteWho
  | done => cases he

/-- What a completion has found in `start` and not deleted yet. -/
def startOf : Pc → Option ReqStart
  | .lookupControl _ rs => some rs
  | .lookupCounts l => some l.rs
  | .tryInit l => some l.rs
  | .addNs l _ => some l.rs
  | .addBytes l _ => some l.rs
  | .updateCounts l _ => some l.rs
  | .lookupDist l => some l.rs
  | .updateDist l => some l.rs
  | .increment l _ => some l.rs
  | _ => none

theorem startOf_afterCounts {rs : ReqStart} (h : startOf (afterCounts l) = some rs) :
    rs = l.rs := by
  unfold afterCounts at h
  split at h
  · cases h
    rfl
  · cases h

theorem Moved.ne_done (hm : Moved bpfLog2l m call pc m' pc') : pc ≠ .done := by
  rintro rfl
  cases hm

/-- A step of a completion changes no entry of `start` but its own. -/
theorem Moved.start_of_ne (hm : Moved bpfLog2l m call pc m' pc') {req : Ptr}
    (hne : req ≠ call.req) :
    m'.requests.start.lookup req = m.requests.start.lookup req := by
  cases hm with
  | skip => exact Finmap.lookup_erase_ne hne
  | deleteStart => exact Finmap.lookup_erase_ne hne
  | _ => rfl

/-- And its own is there as long as it has still to be deleted. -/
theorem Moved.startOf (hm : Moved bpfLog2l m call pc m' pc')
    (hold : ∀ rs, startOf pc = some rs → m.requests.start.lookup call.req = some rs) :
    ∀ rs, startOf pc' = some rs → m'.requests.start.lookup call.req = some rs := by
  intro rs hrs
  cases hm with
  | foundStart hstart =>
      cases hrs
      exact hstart
  | initialized _ _ => exact startOf_afterCounts hrs ▸ hold _ rfl
  | late _ => exact startOf_afterCounts hrs ▸ hold _ rfl
  | updateCounts _ _ => exact startOf_afterCounts hrs ▸ hold _ rfl
  | foundControl _ => exact hold _ hrs
  | foundCounts _ => exact hold _ hrs
  | missedCounts _ => exact hold _ hrs
  | addNs _ => exact hold _ hrs
  | addBytes _ => exact hold _ hrs
  | foundDist _ => exact hold _ hrs
  | missedDist _ => exact hold _ hrs
  | _ => cases hrs

/-- What a step of a completion does that finds its locals in the tables. -/
inductive Advanced (bpfLog2l : BitVec 64 → BitVec 32) (m : Tables) (call : Call) (l : Locals) :
    Pc → Tables → Pc → Prop
  | lookup {pc pc' : Pc} (hagrees : Agrees l pc')
      (hkept : KeepsStart pc ∧ KeepsWho pc)
      (hdue : dueAt call l pc' = dueAt call l pc) (hdist : dueDistAt l pc' = dueDistAt l pc)
      (hcounts : ∀ key, lostCounts m call key pc = 0)
      (hlost : ∀ key, lostDist bpfLog2l m call key pc = 0) :
      Advanced bpfLog2l m call l pc m pc'
  | initialized (hnone : m.counts.lookup (info call l) = none) {elem : Elem}
      (hfree : m.counts.Free elem) :
      Advanced bpfLog2l m call l (.tryInit l)
        { m with counts := m.counts.put (info call l) elem (sample call l) hfree }
        (afterCounts l)
  | late (hsome : m.counts.lookup (info call l) ≠ none) :
      Advanced bpfLog2l m call l (.tryInit l) m (afterCounts l)
  | addNs (valp : Elem) :
      Advanced bpfLog2l m call l (.addNs l valp)
        { m with
          counts := m.counts.modify valp fun val => { val with ns := val.ns + delta call l } }
        (.addBytes l valp)
  | addBytes (valp : Elem) :
      Advanced bpfLog2l m call l (.addBytes l valp)
        { m with
          counts := m.counts.modify valp fun val =>
            { val with bytes := val.bytes + l.rs.dataLen } }
        (.updateCounts l valp)
  | updateCounts (valp : Elem) {elem : Elem} (hfree : m.counts.Free elem) :
      Advanced bpfLog2l m call l (.updateCounts l valp)
        { m with counts := m.counts.put (info call l) elem (m.counts.mem valp) hfree }
        (afterCounts l)
  | updateDist (hverbose : l.con.verbose > 1) {elem : Elem} (hfree : m.dist.Free elem) :
      Advanced bpfLog2l m call l (.updateDist l)
        { m with dist := m.dist.put (diskKey bpfLog2l call l) elem 1 hfree } .deleteStart
  | increment (hverbose : l.con.verbose > 1) (counter : Elem) :
      Advanced bpfLog2l m call l (.increment l counter)
        { m with dist := m.dist.modify counter fun val => val + 1 } .deleteStart
  | deleteStart :
      Advanced bpfLog2l m call l .deleteStart
        { m with requests.start := m.requests.start.erase call.req } .deleteWho
  | deleteWho :
      Advanced bpfLog2l m call l .deleteWho
        { m with requests.whobyreq := m.requests.whobyreq.erase call.req } .done

/-- A completion finds its locals in the tables. -/
structure Finds (m : Tables) (call : Call) (l : Locals) (pc : Pc) : Prop where
  who : KeepsWho pc → m.requests.whobyreq.lookup call.req = some l.pid
  start : KeepsStart pc → m.requests.start.lookup call.req = some l.rs
  con : m.requests.controlMap.lookup l.pid = some l.con
  agrees : Agrees l pc

theorem advanced_of_moved (hf : Finds m call l pc) (hm : Moved bpfLog2l m call pc m' pc') :
    Advanced bpfLog2l m call l pc m' pc' := by
  have hagrees := hf.agrees
  cases hm with
  | foundWho hwho =>
      cases (hf.who trivial).symm.trans hwho
      exact .lookup rfl ⟨trivial, trivial⟩ rfl rfl (fun _ => rfl) fun _ => rfl
  | missedWho hwho => cases (hf.who trivial).symm.trans hwho
  | skip => exact hagrees.elim
  | foundStart hstart =>
      cases (hf.start trivial).symm.trans hstart
      exact .lookup ⟨hagrees, rfl⟩ ⟨trivial, trivial⟩ rfl rfl (fun _ => rfl) fun _ => rfl
  | missedStart hstart => cases (hf.start trivial).symm.trans hstart
  | foundControl hcon =>
      obtain ⟨rfl, rfl⟩ := hagrees
      cases hf.con.symm.trans hcon
      exact .lookup rfl ⟨trivial, trivial⟩ rfl rfl (fun _ => rfl) fun _ => rfl
  | missedControl hcon =>
      obtain ⟨rfl, rfl⟩ := hagrees
      cases hf.con.symm.trans hcon
  | foundCounts _ =>
      cases hagrees
      exact .lookup rfl ⟨trivial, trivial⟩ rfl rfl (fun _ => rfl) fun _ => rfl
  | missedCounts _ =>
      cases hagrees
      exact .lookup rfl ⟨trivial, trivial⟩ rfl rfl (fun _ => rfl) fun _ => rfl
  | initialized hnone hfree =>
      cases hagrees
      exact .initialized hnone hfree
  | late hsome =>
      cases hagrees
      exact .late hsome
  | addNs valp =>
      cases hagrees
      exact .addNs valp
  | addBytes valp =>
      cases hagrees
      exact .addBytes valp
  | updateCounts valp hfree =>
      cases hagrees
      exact .updateCounts valp hfree
  | foundDist _ =>
      obtain ⟨rfl, hverbose⟩ := hagrees
      exact .lookup ⟨rfl, hverbose⟩ ⟨trivial, trivial⟩ rfl rfl (fun _ => rfl) fun _ => rfl
  | missedDist _ =>
      obtain ⟨rfl, hverbose⟩ := hagrees
      exact .lookup ⟨rfl, hverbose⟩ ⟨trivial, trivial⟩ rfl rfl (fun _ => rfl) fun _ => rfl
  | updateDist hfree =>
      obtain ⟨rfl, hverbose⟩ := hagrees
      exact .updateDist hverbose hfree
  | increment counter =>
      obtain ⟨rfl, hverbose⟩ := hagrees
      exact .increment hverbose counter
  | deleteStart => exact .deleteStart
  | deleteWho => exact .deleteWho

theorem agrees_afterCounts (l : Locals) : Agrees l (afterCounts l) := by
  unfold afterCounts
  split
  · rename_i hverbose
    exact ⟨rfl, hverbose⟩
  · trivial

@[simp] theorem dueAt_afterCounts (call : Call) (l : Locals) :
    dueAt call l (afterCounts l) = 0 := by
  unfold afterCounts
  split
  · rfl
  · rfl

@[simp] theorem dueDistAt_afterCounts (l : Locals) :
    dueDistAt l (afterCounts l) = if l.con.verbose > 1 then 1 else 0 := by
  unfold afterCounts
  split
  · rename_i hverbose
    exact if_pos hverbose
  · rfl

theorem Advanced.agrees (ha : Advanced bpfLog2l m call l pc m' pc') : Agrees l pc' := by
  cases ha with
  | lookup hagrees _ _ _ _ _ => exact hagrees
  | initialized _ _ => exact agrees_afterCounts l
  | late _ => exact agrees_afterCounts l
  | addNs _ => rfl
  | addBytes _ => rfl
  | updateCounts _ _ => exact agrees_afterCounts l
  | updateDist _ _ => trivial
  | increment _ _ => trivial
  | deleteStart => trivial
  | deleteWho => trivial

/-- What a step leaves alone: the entries of the other requests, and its own as long as
it has not come to delete them. -/
structure Framed (m m' : Tables) (call : Call) (pc pc' : Pc) : Prop where
  controlMap : m'.requests.controlMap = m.requests.controlMap
  start : ∀ req, (req = call.req → KeepsStart pc') →
    m'.requests.start.lookup req = m.requests.start.lookup req
  whobyreq : ∀ req, (req = call.req → KeepsWho pc') →
    m'.requests.whobyreq.lookup req = m.requests.whobyreq.lookup req
  keepsStart : KeepsStart pc' → KeepsStart pc
  keepsWho : KeepsWho pc' → KeepsWho pc

theorem framed_of_requests_eq (hrequests : m'.requests = m.requests) (hstart : KeepsStart pc)
    (hwho : KeepsWho pc) : Framed m m' call pc pc' := by
  refine ⟨?_, fun _ _ => ?_, fun _ _ => ?_, fun _ => hstart, fun _ => hwho⟩
  · rw [hrequests]
  · rw [hrequests]
  · rw [hrequests]

theorem Advanced.framed (ha : Advanced bpfLog2l m call l pc m' pc') :
    Framed m m' call pc pc' := by
  cases ha with
  | lookup _ hkept _ _ _ _ => exact framed_of_requests_eq rfl hkept.1 hkept.2
  | initialized _ _ => exact framed_of_requests_eq rfl trivial trivial
  | late _ => exact framed_of_requests_eq rfl trivial trivial
  | addNs _ => exact framed_of_requests_eq rfl trivial trivial
  | addBytes _ => exact framed_of_requests_eq rfl trivial trivial
  | updateCounts _ _ => exact framed_of_requests_eq rfl trivial trivial
  | updateDist _ _ => exact framed_of_requests_eq rfl trivial trivial
  | increment _ _ => exact framed_of_requests_eq rfl trivial trivial
  | deleteStart =>
      refine ⟨rfl, fun req hkeeps => ?_, fun _ _ => rfl, False.elim, fun _ => trivial⟩
      exact Finmap.lookup_erase_ne fun heq => hkeeps heq
  | deleteWho =>
      refine ⟨rfl, fun _ _ => rfl, fun req hkeeps => ?_, False.elim, False.elim⟩
      exact Finmap.lookup_erase_ne fun heq => hkeeps heq

/-- What a step does not lose. -/
theorem lostCounts_of_ne {key : InfoT} (hne : info call l ≠ key) (hagrees : Agrees l pc) :
    lostCounts m call key pc = 0 := by
  cases pc with
  | tryInit l' =>
      have hl : l' = l := hagrees
      subst hl
      exact if_neg fun hand => hne hand.1
  | _ => rfl

theorem lostDist_of_ne {key : DiskKey} (hne : diskKey bpfLog2l call l ≠ key)
    (hagrees : Agrees l pc) : lostDist bpfLog2l m call key pc = 0 := by
  cases pc with
  | updateDist l' =>
      obtain ⟨rfl, -⟩ := hagrees
      exact if_neg hne
  | _ => rfl

/-- A step leaves the values of the other keys alone, if its pointer is attached. -/
theorem Advanced.counts_of_ne (ha : Advanced bpfLog2l m call l pc m' pc')
    (hptr : PointsToKey bpfLog2l m call pc) {key : InfoT} (hne : info call l ≠ key) :
    m'.counts.value key = m.counts.value key := by
  cases ha with
  | initialized _ hfree => rw [ElementTable.value_put, if_neg (Ne.symm hne)]
  | addNs valp => rw [ElementTable.value_modify hptr, if_neg (Ne.symm hne)]
  | addBytes valp => rw [ElementTable.value_modify hptr, if_neg (Ne.symm hne)]
  | updateCounts valp hfree => rw [ElementTable.value_put, if_neg (Ne.symm hne)]
  | _ => rfl

theorem Advanced.dist_of_ne (ha : Advanced bpfLog2l m call l pc m' pc')
    (hptr : PointsToKey bpfLog2l m call pc) {key : DiskKey}
    (hne : diskKey bpfLog2l call l ≠ key) : m'.dist.value key = m.dist.value key := by
  cases ha with
  | updateDist _ hfree => rw [ElementTable.value_put, if_neg (Ne.symm hne)]
  | increment _ counter => rw [ElementTable.value_modify hptr, if_neg (Ne.symm hne)]
  | _ => rfl

/-- Of its own key, a step through attached pointers adds to `counts` what is no longer
due, or loses it. -/
theorem Advanced.counts_own (ha : Advanced bpfLog2l m call l pc m' pc')
    (hptr : PointsToKey bpfLog2l m call pc) :
    m'.counts.value (info call l) + dueAt call l pc' + lostCounts m call (info call l) pc =
      m.counts.value (info call l) + dueAt call l pc := by
  cases ha with
  | lookup _ _ hdue _ hcounts _ => rw [hdue, hcounts, add_zero]
  | initialized hnone hfree =>
      have hlost : lostCounts m call (info call l) (.tryInit l) = 0 :=
        if_neg fun hand => hand.2 hnone
      rw [ElementTable.value_put, if_pos rfl, ElementTable.value_of_lookup_none hnone,
        dueAt_afterCounts, hlost, add_zero, add_zero, zero_add]
      rfl
  | late hsome =>
      have hlost : lostCounts m call (info call l) (.tryInit l) = sample call l :=
        if_pos ⟨rfl, hsome⟩
      rw [dueAt_afterCounts, hlost, add_zero]
      rfl
  | addNs valp =>
      rw [ElementTable.value_modify hptr, if_pos rfl]
      apply ValT.ext
      · exact add_zero _
      · show (m.counts.value (info call l)).ns + delta call l + 0 + 0 = _
        rw [add_zero, add_zero]
        rfl
  | addBytes valp =>
      rw [ElementTable.value_modify hptr, if_pos rfl]
      apply ValT.ext
      · show (m.counts.value (info call l)).bytes + l.rs.dataLen + 0 + 0 = _
        rw [add_zero, add_zero]
        rfl
      · exact add_zero _
  | updateCounts valp hfree =>
      rw [ElementTable.value_put_mem hptr, dueAt_afterCounts]
      exact add_zero _
  | _ => exact add_zero _

/-- The same for its entry of `dist`. -/
theorem Advanced.dist_own (ha : Advanced bpfLog2l m call l pc m' pc')
    (hptr : PointsToKey bpfLog2l m call pc) :
    m'.dist.value (diskKey bpfLog2l call l) + dueDistAt l pc' +
        lostDist bpfLog2l m call (diskKey bpfLog2l call l) pc =
      m.dist.value (diskKey bpfLog2l call l) + dueDistAt l pc := by
  cases ha with
  | lookup _ _ _ hdist _ hlost => rw [hdist, hlost, add_zero]
  | updateDist hverbose hfree =>
      have hlost : lostDist bpfLog2l m call (diskKey bpfLog2l call l) (.updateDist l) =
          m.dist.value (diskKey bpfLog2l call l) := if_pos rfl
      have hdue : dueDistAt l (.updateDist l) = 1 := if_pos hverbose
      rw [ElementTable.value_put, if_pos rfl, hlost, hdue, add_comm]
      exact congrArg _ (add_zero 1)
  | increment hverbose counter =>
      have hdue : dueDistAt l (.increment l counter) = 1 := if_pos hverbose
      rw [ElementTable.value_modify hptr, if_pos rfl, hdue]
      exact (add_zero _).trans (add_zero _)
  | initialized _ _ =>
      rw [dueDistAt_afterCounts]
      exact add_zero _
  | late _ =>
      rw [dueDistAt_afterCounts]
      exact add_zero _
  | updateCounts _ _ =>
      rw [dueDistAt_afterCounts]
      exact add_zero _
  | _ => exact add_zero _

theorem due_eq (hl : localsOf q call = some l) (key : InfoT) (pc : Pc) :
    due q key (call, pc) = if info call l = key then dueAt call l pc else 0 := by
  unfold due
  rw [hl]

theorem dueDist_eq (hl : localsOf q call = some l) (key : DiskKey) (pc : Pc) :
    dueDist bpfLog2l q key (call, pc) =
      if diskKey bpfLog2l call l = key then dueDistAt l pc else 0 := by
  unfold dueDist
  rw [hl]

/-- **One step of a completion on `counts`**: what it adds or loses is no longer due. -/
theorem Advanced.counts (hl : localsOf q call = some l)
    (ha : Advanced bpfLog2l m call l pc m' pc') (hagrees : Agrees l pc)
    (hptr : PointsToKey bpfLog2l m call pc) (key : InfoT) :
    m'.counts.value key + due q key (call, pc') + lostCounts m call key pc =
      m.counts.value key + due q key (call, pc) := by
  rw [due_eq hl, due_eq hl]
  by_cases hkey : info call l = key
  · rw [if_pos hkey, if_pos hkey, ← hkey]
    exact ha.counts_own hptr
  · rw [if_neg hkey, if_neg hkey, ha.counts_of_ne hptr hkey, lostCounts_of_ne hkey hagrees,
      add_zero]

/-- **One step of a completion on `dist`.** -/
theorem Advanced.dist (hl : localsOf q call = some l)
    (ha : Advanced bpfLog2l m call l pc m' pc') (hagrees : Agrees l pc)
    (hptr : PointsToKey bpfLog2l m call pc) (key : DiskKey) :
    m'.dist.value key + dueDist bpfLog2l q key (call, pc') + lostDist bpfLog2l m call key pc =
      m.dist.value key + dueDist bpfLog2l q key (call, pc) := by
  rw [dueDist_eq hl, dueDist_eq hl]
  by_cases hkey : diskKey bpfLog2l call l = key
  · rw [if_pos hkey, if_pos hkey, ← hkey]
    exact ha.dist_own hptr
  · rw [if_neg hkey, if_neg hkey, ha.dist_of_ne hptr hkey, lostDist_of_ne hkey hagrees,
      add_zero]

/-! ## The other completions -/

theorem reads_init (q : Requests) : Reads q (init q) where
  nodup := List.nodup_nil
  controlMap := rfl
  start := fun _ _ => rfl
  whobyreq := fun _ _ => rfl
  calls := fun _ hx => by cases hx

/-- A request that has not completed has the entries it had at the start. -/
theorem Reads.localsOf_eq (hr : Reads q s) (hnew : call.req ∉ s.calls.map fun x => x.1.req) :
    localsOf s.tables.requests call = localsOf q call := by
  have hnone : ∀ x ∈ s.calls, x.1.req ≠ call.req := by
    intro x hx hreq
    exact hnew (List.mem_map.2 ⟨x, hx, hreq⟩)
  unfold localsOf
  rw [hr.whobyreq call.req fun x hx hreq => absurd hreq (hnone x hx),
    hr.start call.req fun x hx hreq => absurd hreq (hnone x hx), hr.controlMap]

/-- A completion finds its locals. -/
theorem Reads.finds (hr : Reads q s) (hx : (call, pc) ∈ s.calls) (hl : localsOf q call = some l)
    (hagrees : Agrees l pc) : Finds s.tables call l pc := by
  obtain ⟨hwho, hstart, hcon⟩ := localsOf_eq_some.1 hl
  have hsame : ∀ y ∈ s.calls, y.1.req = call.req → y = (call, pc) :=
    fun y hy hreq => List.inj_on_of_nodup_map hr.nodup hy hx hreq
  constructor
  · intro hkeeps
    rw [← hwho]
    exact hr.whobyreq call.req fun y hy hreq => by rw [hsame y hy hreq]; exact hkeeps
  · intro hkeeps
    rw [← hstart]
    exact hr.start call.req fun y hy hreq => by rw [hsame y hy hreq]; exact hkeeps
  · rw [hr.controlMap, hcon]
  · exact hagrees

theorem reads_complete (hr : Reads q s)
    (hnew : (localsOf s.tables.requests call).isSome ∧
      call.req ∉ s.calls.map fun x => x.1.req) :
    Reads q { s with calls := s.calls ++ [(call, .lookupWho)] } where
  nodup := by
    rw [List.map_append, List.nodup_append]
    refine ⟨hr.nodup, List.nodup_singleton _, fun req hreq req' hreq' heq => ?_⟩
    rw [List.map_singleton, List.mem_singleton] at hreq'
    rw [heq, hreq'] at hreq
    exact hnew.2 hreq
  controlMap := hr.controlMap
  start := fun req hall => hr.start req fun x hx => hall x (List.mem_append_left _ hx)
  whobyreq := fun req hall => hr.whobyreq req fun x hx => hall x (List.mem_append_left _ hx)
  calls := by
    intro x hx
    rw [List.mem_append, List.mem_singleton] at hx
    obtain hx | rfl := hx
    · exact hr.calls x hx
    · rw [hr.localsOf_eq hnew.2] at hnew
      obtain ⟨l, hl⟩ := Option.isSome_iff_exists.1 hnew.1
      exact ⟨l, hl, trivial⟩

/-- What a step of the `i`-th completion is. -/
theorem move_eq_some {i : Nat} (he : step bpfLog2l s (.move i elem) = some t) :
    ∃ call pc m' pc', s.calls[i]? = some (call, pc) ∧
      advance bpfLog2l s.tables call elem pc = some (m', pc') ∧
      t = ⟨m', s.calls.set i (call, pc')⟩ := by
  simp only [step] at he
  split at he
  · cases he
  · rename_i call pc hx
    obtain ⟨⟨m', pc'⟩, ha, ht⟩ := Option.map_eq_some_iff.1 he
    exact ⟨call, pc, m', pc', hx, ha, ht.symm⟩

theorem reads_move {i : Nat} (hr : Reads q s) (hx : s.calls[i]? = some (call, pc))
    (hl : localsOf q call = some l) (ha : Advanced bpfLog2l s.tables call l pc m' pc') :
    Reads q ⟨m', s.calls.set i (call, pc')⟩ := by
  have hi := (List.getElem?_eq_some_iff.1 hx).1
  have hframe := ha.framed
  have hmem : (call, pc') ∈ s.calls.set i (call, pc') := List.mem_set hi _
  have hold : ∀ x ∈ s.calls, x ≠ (call, pc) → x ∈ s.calls.set i (call, pc') :=
    fun x hxs hne => mem_set_of_ne hx hxs hne _
  constructor
  · have hsame : ((s.calls.set i (call, pc')).map fun x => x.1.req) =
        s.calls.map fun x => x.1.req := map_set_of_eq _ hx rfl
    show ((s.calls.set i (call, pc')).map fun x => x.1.req).Nodup
    rw [hsame]
    exact hr.nodup
  · exact hframe.controlMap.trans hr.controlMap
  · intro req hall
    rw [hframe.start req fun heq => hall _ hmem heq.symm]
    apply hr.start req
    intro x hxs hreq
    by_cases hxe : x = (call, pc)
    · subst hxe
      exact hframe.keepsStart (hall _ hmem hreq)
    · exact hall x (hold x hxs hxe) hreq
  · intro req hall
    rw [hframe.whobyreq req fun heq => hall _ hmem heq.symm]
    apply hr.whobyreq req
    intro x hxs hreq
    by_cases hxe : x = (call, pc)
    · subst hxe
      exact hframe.keepsWho (hall _ hmem hreq)
    · exact hall x (hold x hxs hxe) hreq
  · intro x hxs
    obtain hxs | rfl := List.mem_or_eq_of_mem_set hxs
    · exact hr.calls x hxs
    · exact ⟨l, hl, ha.agrees⟩

/-- A completion that moves is one that reads what was there at the start. -/
theorem Reads.advanced {i : Nat} (hr : Reads q s)
    (he : step bpfLog2l s (.move i elem) = some t) :
    ∃ call l pc m' pc', s.calls[i]? = some (call, pc) ∧ localsOf q call = some l ∧
      Agrees l pc ∧ Advanced bpfLog2l s.tables call l pc m' pc' ∧
      t = ⟨m', s.calls.set i (call, pc')⟩ := by
  obtain ⟨call, pc, m', pc', hx, ha, ht⟩ := move_eq_some he
  have hmem := List.mem_of_getElem? hx
  obtain ⟨l, hl, hagrees⟩ := hr.calls _ hmem
  have hadv := advanced_of_moved (hr.finds hmem hl hagrees) (moved_of_advance ha)
  exact ⟨call, l, pc, m', pc', hx, hl, hagrees, hadv, ht⟩

theorem complete_eq_some (he : step bpfLog2l s (.complete call) = some t) :
    ((localsOf s.tables.requests call).isSome ∧ call.req ∉ s.calls.map fun x => x.1.req) ∧
      t = { s with calls := s.calls ++ [(call, .lookupWho)] } := by
  simp only [step] at he
  split at he
  · rename_i hnew
    cases he
    exact ⟨hnew, rfl⟩
  · cases he

theorem reads_step (hr : Reads q s) (he : step bpfLog2l s e = some t) : Reads q t := by
  cases e with
  | complete call =>
      obtain ⟨hnew, rfl⟩ := complete_eq_some he
      exact reads_complete hr hnew
  | move i elem =>
      obtain ⟨call, l, pc, m', pc', hx, hl, -, ha, rfl⟩ := hr.advanced he
      exact reads_move hr hx hl ha

theorem reads_of_run : ∀ h s, run (step bpfLog2l) (init q) h = some s → Reads q s :=
  run_invariant (reads_init q) fun _ _ _ _ _ hr he => reads_step hr he

end Kmon.Ports.CompletionSteps
