import Kmon.Verified.Weight
import Kmon.Ports.BiostatRuns

/-!
# What biostat reports

The probes of biostat fill `counts` and `dist`, and `exportData` and `exportHistData`
empty them in turns (`release/bcc/biostat.c`, `src/collector/biostat.go`).  `ExportRounds`
keeps the account of one such table from the additions to it.  Here the additions are those
of the steps of completions, any number of them at a time, each with what it has found in
`whobyreq`, `start` and `control_map`.

Two things may go wrong between two steps of a completion.  An insertion finds that the key
has come to be there, and its sample is lost.  Or the element of a pointer is replaced by
another completion or deleted by the collector: what is then added is lost, and the value
that is written back to the table is an old one, of which the collector may have exported
every byte (`written_back_twice`).  `everyState_reported` is the account of all runs without
the two.

A completion that adds to the tables deletes its entry of `start`, whatever process it
charges.  So if no pointer is used that is no longer attached, a request that was handed to
the device is reported at most once, and not a byte more than its own
(`everyState_withinRequests`).
-/

namespace Kmon.Ports.BiostatTotals

open Kmon.Verified
open Kmon.Verified.Run
open Kmon.Verified.ReadReset hiding Event step
open Kmon.Verified.Pool
open Kmon.Ports.BiostatProbe (Ptr ReqStart Control InfoT ValT DiskKey)
open Kmon.Ports.CompletionSteps hiding Event step move_eq_some
open Kmon.Ports.BiostatRuns
open Kmon.Ports.ExportRounds (discipline)

/-! ## What a completion adds -/

/-- What a step adds to `counts`. -/
def addsCounts (m : Tables) (call : Call) : Pc → List (InfoT × ValT)
  | .tryInit l =>
      if m.counts.lookup (info call l) = none then [(info call l, sample call l)] else []
  | .addNs l _ => [(info call l, ⟨0, delta call l⟩)]
  | .addBytes l _ => [(info call l, ⟨l.rs.dataLen, 0⟩)]
  | _ => []

/-- What a step adds to `dist`. -/
def addsDist (bpfLog2l : BitVec 64 → BitVec 32) (call : Call) : Pc → List (DiskKey × BitVec 64)
  | .updateDist l => [(diskKey bpfLog2l call l, 1)]
  | .increment l _ => [(diskKey bpfLog2l call l, 1)]
  | _ => []

/-- What a completion is to add to `dist`. -/
def slot (bpfLog2l : BitVec 64 → BitVec 32) (call : Call) (l : Locals) :
    List (DiskKey × BitVec 64) :=
  if l.con.verbose > 1 then [(diskKey bpfLog2l call l, 1)] else []

/-- What a completion that has found its request has still to add to `counts`. -/
def pending (call : Call) : Pc → List (InfoT × ValT)
  | .lookupCounts l => [(info call l, sample call l)]
  | .tryInit l => [(info call l, sample call l)]
  | .addNs l _ => [(info call l, sample call l)]
  | .addBytes l _ => [(info call l, ⟨l.rs.dataLen, 0⟩)]
  | _ => []

/-- What it has still to add to `dist`. -/
def pendingDist (bpfLog2l : BitVec 64 → BitVec 32) (call : Call) :
    Pc → List (DiskKey × BitVec 64)
  | .lookupCounts l => slot bpfLog2l call l
  | .tryInit l => slot bpfLog2l call l
  | .addNs l _ => slot bpfLog2l call l
  | .addBytes l _ => slot bpfLog2l call l
  | .updateCounts l _ => slot bpfLog2l call l
  | .lookupDist l => [(diskKey bpfLog2l call l, 1)]
  | .updateDist l => [(diskKey bpfLog2l call l, 1)]
  | .increment l _ => [(diskKey bpfLog2l call l, 1)]
  | _ => []

/-- What a completion finds that finds its request, its start and its process in
`control_map`: known with the last of the three. -/
def found (m : Tables) : Pc → Option Locals
  | .lookupControl pid rs => (m.requests.controlMap.lookup pid).map fun con => ⟨pid, rs, con⟩
  | _ => none

/-- What a step of a machine is made of. -/
def atMove {α : Type} (f : Tables → Call → Pc → List α) (s : Collected) : Event → List α
  | .move i _ => (s.cpus.calls[i]?).elim [] fun x => f s.cpus.tables x.1 x.2
  | _ => []

/-- A completion that has found everything is to be charged. -/
def charged (s : Collected) (e : Event) : List (InfoT × ValT) :=
  atMove (fun m call pc => (found m pc).elim [] fun l => [(info call l, sample call l)]) s e

/-- And to be counted in a slot, if its record asks for that. -/
def slotted (bpfLog2l : BitVec 64 → BitVec 32) (s : Collected) (e : Event) :
    List (DiskKey × BitVec 64) :=
  atMove (fun m call pc => (found m pc).elim [] fun l => slot bpfLog2l call l) s e

/-- What the steps of completions add to `counts`. -/
def addedCounts (s : Collected) (e : Event) : List (InfoT × ValT) := atMove addsCounts s e

/-- What they add to `dist`. -/
def addedDist (bpfLog2l : BitVec 64 → BitVec 32) (s : Collected) (e : Event) :
    List (DiskKey × BitVec 64) :=
  atMove (fun _ => addsDist bpfLog2l) s e

variable {bpfLog2l : BitVec 64 → BitVec 32} {s t : Collected} {e : Event} {h : List Event}
  {m m' : Tables} {call : Call} {pc pc' : Pc} {l : Locals} {i : Nat} {elem : Elem}

theorem atMove_move {α : Type} (f : Tables → Call → Pc → List α)
    (hx : s.cpus.calls[i]? = some (call, pc)) :
    atMove f s (.move i elem) = f s.cpus.tables call pc := by
  rw [atMove, hx]
  rfl

/-! ## One step on each table -/

theorem addNs_eq_add (val : ValT) (call : Call) (l : Locals) :
    ({ val with ns := val.ns + delta call l } : ValT) = val + ⟨0, delta call l⟩ :=
  ValT.ext (add_zero val.bytes).symm rfl

theorem addBytes_eq_add (val : ValT) (l : Locals) :
    ({ val with bytes := val.bytes + l.rs.dataLen } : ValT) = val + ⟨l.rs.dataLen, 0⟩ :=
  ValT.ext rfl (add_zero val.ns).symm

/-- A step through attached pointers adds to `counts` what it adds. -/
theorem values_counts_of_moved (hm : Moved bpfLog2l m call pc m' pc')
    (hptr : PointsToKey bpfLog2l m call pc) (sent : List (InfoT × ValT))
    (round : Option (Round InfoT ValT)) :
    run (ReadReset.step (discipline .counts)) ⟨m.counts.values, sent, round⟩
      (adds (addsCounts m call pc)) = some ⟨m'.counts.values, sent, round⟩ := by
  cases hm with
  | initialized hnone hfree =>
      rw [addsCounts, if_pos hnone, values_put_new hnone (d := discipline .counts) rfl hfree]
      rfl
  | late hsome =>
      rw [addsCounts, if_neg hsome]
      rfl
  | addNs valp =>
      rw [values_modify_add hptr (discipline .counts) _ (addNs_eq_add _ call _)]
      rfl
  | addBytes valp =>
      rw [values_modify_add hptr (discipline .counts) _ (addBytes_eq_add _ _)]
      rfl
  | updateCounts valp hfree =>
      rw [ElementTable.values_put_mem hptr hfree]
      rfl
  | _ => rfl

/-- So it does to `dist`, if its insertion does not find its key. -/
theorem values_dist_of_moved (hm : Moved bpfLog2l m call pc m' pc')
    (hptr : PointsToKey bpfLog2l m call pc) (hnew : InsertsNew bpfLog2l m call pc)
    (sent : List (DiskKey × BitVec 64)) (round : Option (Round DiskKey (BitVec 64))) :
    run (ReadReset.step (discipline .dist)) ⟨m.dist.values, sent, round⟩
      (adds (addsDist bpfLog2l call pc)) = some ⟨m'.dist.values, sent, round⟩ := by
  cases hm with
  | updateDist hfree =>
      rw [values_put_new hnew (d := discipline .dist) rfl hfree]
      rfl
  | increment counter =>
      rw [values_modify_add hptr (discipline .dist) 1 rfl]
      rfl
  | _ => rfl

theorem tally_slot (bpfLog2l : BitVec 64 → BitVec 32) (call : Call) (l : Locals)
    (key : DiskKey) :
    tally (pendingDist bpfLog2l call (afterCounts l)) key = tally (slot bpfLog2l call l) key := by
  unfold afterCounts slot
  split <;> rfl

theorem tally_afterCounts (call : Call) (l : Locals) (key : InfoT) :
    tally (pending call (afterCounts l)) key = 0 := by
  unfold afterCounts
  split <;> rfl

/-- What a step adds to `counts` is no longer pending, and what it finds is. -/
theorem tally_pending (hm : Moved bpfLog2l m call pc m' pc')
    (hnew : InsertsNew bpfLog2l m call pc) (key : InfoT) :
    tally (pending call pc') key + tally (addsCounts m call pc) key =
      tally (pending call pc) key +
        tally ((found m pc).elim [] fun l => [(info call l, sample call l)]) key := by
  cases hm with
  | foundControl hcon =>
      rw [found, hcon, add_comm]
      rfl
  | missedControl hcon =>
      rw [found, hcon]
      rfl
  | initialized hnone hfree =>
      rw [addsCounts, if_pos hnone, tally_afterCounts, add_comm]
      rfl
  | late hsome => exact absurd hnew hsome
  | @addNs l valp =>
      have hsum : sample call l = ⟨l.rs.dataLen, 0⟩ + ⟨0, delta call l⟩ :=
        ValT.ext (add_zero _).symm (zero_add _).symm
      simp only [pending, addsCounts, found, tally_singleton, Option.elim_none, tally_nil,
        add_zero, hsum]
      split
      · rfl
      · rw [add_zero]
  | addBytes valp =>
      simp only [pending, addsCounts, found, tally_nil, Option.elim_none, add_zero, zero_add]
  | updateCounts valp hfree =>
      rw [tally_afterCounts]
      rfl
  | _ => rfl

/-- The same for `dist`. -/
theorem tally_pendingDist (hm : Moved bpfLog2l m call pc m' pc') (key : DiskKey) :
    tally (pendingDist bpfLog2l call pc') key + tally (addsDist bpfLog2l call pc) key =
      tally (pendingDist bpfLog2l call pc) key +
        tally ((found m pc).elim [] fun l => slot bpfLog2l call l) key := by
  cases hm with
  | foundControl hcon =>
      rw [found, hcon, add_comm]
      rfl
  | missedControl hcon =>
      rw [found, hcon]
      rfl
  | initialized hnone hfree =>
      rw [tally_slot]
      rfl
  | late hsome =>
      rw [tally_slot]
      rfl
  | updateCounts valp hfree =>
      rw [tally_slot]
      rfl
  | updateDist hfree => exact add_comm _ _
  | increment counter => exact add_comm _ _
  | _ => rfl

/-! ## Both tables in one run -/

/-- `counts` is filled by the completions and emptied by `exportData`. -/
def fillsCounts (bpfLog2l : BitVec 64 → BitVec 32) :
    Filled (step bpfLog2l) (discipline .counts) addedCounts (Orderly bpfLog2l) where
  view s := s.counts.values
  moves s
    | .exportData x => [x.event]
    | e => adds (addedCounts s e)
  sound s e t hg he := by
    cases stepped_of_step he with
    | move hx hm =>
        show run _ _ (adds (addedCounts s _)) = _
        rw [addedCounts, atMove_move addsCounts hx]
        exact values_counts_of_moved hm (hg _ hx).1 s.counted s.countRound
    | exportData hx => exact run_cons_of_step rfl (Elements.step_values rfl hx)
    | _ => rfl
  delete := rfl
  moves_eq s e := by
    cases e with
    | exportData x => exact .inr ⟨x, rfl, rfl⟩
    | _ => exact .inl rfl

/-- `dist` is filled by the completions and emptied by `exportHistData`. -/
def fillsDist (bpfLog2l : BitVec 64 → BitVec 32) :
    Filled (step bpfLog2l) (discipline .dist) (addedDist bpfLog2l) (Orderly bpfLog2l) where
  view s := s.dist.values
  moves s
    | .exportHistData x => [x.event]
    | e => adds (addedDist bpfLog2l s e)
  sound s e t hg he := by
    cases stepped_of_step he with
    | move hx hm =>
        show run _ _ (adds (addedDist bpfLog2l s _)) = _
        rw [addedDist, atMove_move _ hx]
        exact values_dist_of_moved hm (hg _ hx).1 (hg _ hx).2 s.binned s.distRound
    | exportHistData hx => exact run_cons_of_step rfl (Elements.step_values rfl hx)
    | _ => rfl
  delete := rfl
  moves_eq s e := by
    cases e with
    | exportHistData x => exact .inr ⟨x, rfl, rfl⟩
    | _ => exact .inl rfl

/-- What the completions have found is added or pending. -/
theorem emitted_add_pending {κ ν : Type} [DecidableEq κ] [AddCommMonoid ν]
    {amounts charges : Tables → Call → Pc → List (κ × ν)} {pend : Call → Pc → List (κ × ν)}
    {key : κ} (hnew : ∀ call, pend call .lookupWho = [])
    (hstep : ∀ m call pc m' pc', Moved bpfLog2l m call pc m' pc' →
      InsertsNew bpfLog2l m call pc →
      tally (pend call pc') key + tally (amounts m call pc) key =
        tally (pend call pc) key + tally (charges m call pc) key) :
    ∀ h s, Guarded (step bpfLog2l) loaded (Orderly bpfLog2l) h →
      run (step bpfLog2l) loaded h = some s →
      emitted (step bpfLog2l) loaded (atMove amounts) h key +
          (s.cpus.calls.map fun x => tally (pend x.1 x.2) key).sum =
        emitted (step bpfLog2l) loaded (atMove charges) h key := by
  intro h
  induction h with
  | nil =>
      intro s _ hs
      cases hs
      exact add_zero 0
  | cons e h ih =>
      intro t hg ht
      obtain ⟨s, hs, he⟩ := run_cons_eq_some.1 ht
      have hsum := ih s hg.1 hs
      rw [emitted_cons hs, emitted_cons hs]
      cases stepped_of_step he with
      | complete hidle =>
          rw [List.map_append, List.sum_append, List.map_singleton, List.sum_singleton, hnew,
            tally_nil, add_zero]
          show _ + 0 + _ = _ + 0
          rw [add_zero, add_zero]
          exact hsum
      | move hx hm =>
          rename_i i elem call pc pc' m'
          obtain ⟨rest, hold, hset⟩ :=
            exists_sum_map_set (fun x => tally (pend x.1 x.2) key) hx (call, pc')
          have hmoved := hstep _ _ _ _ _ hm (hg.2 s hs _ hx).2
          rw [hold] at hsum
          rw [atMove_move _ hx, atMove_move _ hx, hset, ← hsum]
          calc emitted (step bpfLog2l) loaded (atMove amounts) h key +
                  tally (amounts s.cpus.tables call pc) key +
                  (tally (pend call pc') key + rest)
              = emitted (step bpfLog2l) loaded (atMove amounts) h key + rest +
                  (tally (pend call pc') key + tally (amounts s.cpus.tables call pc) key) := by
                abel
            _ = _ := by
                rw [hmoved]
                abel
      | _ =>
          show _ + 0 + _ = _ + 0
          rw [add_zero, add_zero]
          exact hsum

/-- What is pending belongs to both sides of an account. -/
theorem add_pending {ν : Type} [AddCommMonoid ν] {sent val lost replaced sum : ν}
    (hsum : sent + val + lost + replaced = sum) (pend : ν) :
    sent + val + pend + lost + replaced = sum + pend := by
  rw [← hsum]
  abel

/-- What completions have found of a key by the time of a state between two rounds is
exported, in the table, still to be added, or was lost between the reading of the key and its
reset.  A round of `dist` may also have replaced it. -/
structure Reported (bpfLog2l : BitVec 64 → BitVec 32) (h : List Event) (s : Collected) :
    Prop where
  counts : s.countRound = none → ∀ key,
    tally s.counted key + s.cpus.tables.counts.value key +
        (s.cpus.calls.map fun x => tally (pending x.1 x.2) key).sum +
        lost ((fillsCounts bpfLog2l).trace loaded h) key =
      emitted (step bpfLog2l) loaded charged h key
  dist : s.distRound = none → ∀ key,
    tally s.binned key + s.cpus.tables.dist.value key +
        (s.cpus.calls.map fun x => tally (pendingDist bpfLog2l x.1 x.2) key).sum +
        lost ((fillsDist bpfLog2l).trace loaded h) key +
        replaced (discipline .dist) ((fillsDist bpfLog2l).trace loaded h) key =
      emitted (step bpfLog2l) loaded (slotted bpfLog2l) h key

/-- **Every completion is accounted for**, in every interleaving of the probes' steps, changes
of `control_map` and rounds of the two export functions, in which no insertion finds its key
and no pointer is used after its element was replaced or deleted. -/
theorem everyState_reported (bpfLog2l : BitVec 64 → BitVec 32) (h : List Event)
    (hg : Guarded (step bpfLog2l) loaded (Orderly bpfLog2l) h) :
    EveryState (step bpfLog2l) loaded (Reported bpfLog2l) h := by
  refine everyState_of_guarded (G := Orderly bpfLog2l)
    (fun h s hg hrun => ⟨fun hidle key => ?_, fun hidle key => ?_⟩) h hg
  · have hsum := (fillsCounts bpfLog2l).sum_emitted rfl hg hrun hidle key
    have hvalue : current s.counts.values key = s.cpus.tables.counts.value key :=
      (ElementTable.value_eq _ key).symm
    have hpend : emitted (step bpfLog2l) loaded addedCounts h key +
        (s.cpus.calls.map fun x => tally (pending x.1 x.2) key).sum =
          emitted (step bpfLog2l) loaded charged h key :=
      emitted_add_pending (fun _ => rfl) (fun _ _ _ _ _ hm hnew => tally_pending hm hnew key)
        h s hg hrun
    have hall := add_pending hsum (s.cpus.calls.map fun x => tally (pending x.1 x.2) key).sum
    rw [replaced_of_not_keyed rfl, add_zero] at hall
    rw [← hpend, ← hvalue]
    exact hall
  · have hsum := (fillsDist bpfLog2l).sum_emitted rfl hg hrun hidle key
    have hvalue : current s.dist.values key = s.cpus.tables.dist.value key :=
      (ElementTable.value_eq _ key).symm
    have hpend : emitted (step bpfLog2l) loaded (addedDist bpfLog2l) h key +
        (s.cpus.calls.map fun x => tally (pendingDist bpfLog2l x.1 x.2) key).sum =
          emitted (step bpfLog2l) loaded (slotted bpfLog2l) h key :=
      emitted_add_pending (fun _ => rfl) (fun _ _ _ _ _ hm _ => tally_pendingDist hm key)
        h s hg hrun
    rw [← hpend, ← hvalue]
    exact add_pending hsum _

/-! ## Two completions and a round -/

/-- Process 7 is traced, and issues requests 1 and 2, of 512 and 1024 bytes. -/
def issued : List Event :=
  [.traceReqStart 2 1024 300, .tracePidStart 2 30064771072, .traceReqStart 1 512 100,
    .tracePidStart 1 30064771072, .setControl 7 ⟨2, 1⟩]

def firstCall : Call := ⟨1, ⟨200, 0, 0⟩⟩

def secondCall : Call := ⟨2, ⟨400, 0, 0⟩⟩

/-- A round of `exportData` with the entry of the process. -/
def countRound (val : ValT) : List Event :=
  [.exportData .endRound, .exportData .resetEntry, .exportData (.read ⟨7, 0, 0⟩ val),
    .exportData .beginRound]

/-- The second completion has begun when the entry of the first is exported. -/
def exportedBetween : List Event :=
  List.replicate 6 (.move 1 0) ++ countRound ⟨512, 100⟩ ++ List.replicate 3 (.move 1 0) ++
    List.replicate 7 (.move 0 0) ++ [.complete secondCall, .move 0 0, .move 0 0,
      .complete firstCall] ++ issued

/-- 512 bytes are exported, and 1024 are in `counts`. -/
theorem everyState_reported_exportedBetween :
    EveryState (step fun _ => 0) loaded (Reported fun _ => 0) exportedBetween ∧
      ∃ s, run (step fun _ => 0) loaded exportedBetween = some s ∧
        tally s.counted ⟨7, 0, 0⟩ = ⟨512, 100⟩ ∧
        s.cpus.tables.counts.value ⟨7, 0, 0⟩ = ⟨1024, 100⟩ ∧
        emitted (step fun _ => 0) loaded charged exportedBetween ⟨7, 0, 0⟩ = ⟨1536, 200⟩ := by
  refine ⟨everyState_reported (fun _ => 0) exportedBetween (by decide), _, rfl, ?_, ?_, ?_⟩
  · decide
  · decide
  · decide

/-! ## No request is reported twice -/

/-- The bytes of values of `counts`. -/
def bytes : Weight InfoT ValT where
  entry _ val := val.bytes.toNat
  zero _ := rfl
  add_le _ val amount := toNat_add_le val.bytes amount.bytes

/-- The completions in values of `dist`. -/
def completions : Weight DiskKey (BitVec 64) where
  entry _ val := val.toNat
  zero _ := rfl
  add_le _ val amount := toNat_add_le val amount

/-- A step holds no more in bytes than it adds. -/
theorem held_counts_le (hg : Attached bpfLog2l s e) (he : step bpfLog2l s e = some t) :
    bytes.held t.counts.values ≤ bytes.held s.counts.values + bytes.data (addedCounts s e) := by
  cases stepped_of_step he with
  | move hx hm =>
      have hrun := values_counts_of_moved hm (hg _ hx) s.counted s.countRound
      rw [addedCounts, atMove_move addsCounts hx]
      exact bytes.held_adds_le hrun
  | exportData hx =>
      rename_i x counts
      have hle := bytes.held_step_le (Elements.step_values (d := discipline .counts) rfl hx)
      rw [bytes.event_export] at hle
      exact hle
  | _ => exact le_rfl

/-- Nor in completions: an entry that is written over weighs one. -/
theorem held_dist_le (hg : Attached bpfLog2l s e) (he : step bpfLog2l s e = some t) :
    completions.held t.dist.values ≤
      completions.held s.dist.values + completions.data (addedDist bpfLog2l s e) := by
  cases stepped_of_step he with
  | move hx hm =>
      rename_i i elem call pc pc' m'
      rw [addedDist, atMove_move _ hx]
      have hadds := fun hnew => completions.held_adds_le
        (values_dist_of_moved hm (hg _ hx) hnew s.binned s.distRound)
      cases hm with
      | updateDist hfree =>
          rename_i l elem'
          have hle := completions.held_insert_le s.dist.values (diskKey bpfLog2l call l) 1
          have hone : completions.data (addsDist bpfLog2l call (.updateDist l)) =
              completions.entry (diskKey bpfLog2l call l) 1 := List.sum_singleton
          simp only [Collected.dist, Elements.values, ElementTable.values_put, hone]
          exact hle
      | increment counter => exact hadds trivial
      | _ => exact le_rfl
  | exportHistData hx =>
      rename_i x dist
      have hle := completions.held_step_le (Elements.step_values (d := discipline .dist) rfl hx)
      rw [completions.event_export] at hle
      exact hle
  | _ => exact le_rfl

/-- What a step hands to the device. -/
def handedBy (weight : ReqStart → ℕ) : Event → ℕ
  | .traceReqStart _ dataLen now => weight ⟨dataLen.setWidth 64, now⟩
  | _ => 0

/-- What the requests of a run weigh that were handed to the device. -/
def handed (weight : ReqStart → ℕ) (h : List Event) : ℕ := (h.map (handedBy weight)).sum

/-- The request of a completion has been reported. -/
def settled (done : Pc → Bool) (calls : List (Call × Pc)) (req : Ptr) : Bool :=
  calls.any fun x => x.1.req = req && done x.2

/-- The bytes of a request are in `counts`. -/
def doneCounts : Pc → Bool
  | .updateCounts _ _ => true
  | .lookupDist _ => true
  | .updateDist _ => true
  | .increment _ _ => true
  | .deleteStart => true
  | _ => false

/-- The request has been counted in `dist`, if it is to be. -/
def doneDist : Pc → Bool
  | .deleteStart => true
  | _ => false

/-- What the requests in `start` weigh that are still to be reported. -/
def owed (weight : ReqStart → ℕ) (done : Pc → Bool) (calls : List (Call × Pc))
    (start : GoMap Ptr ReqStart) : ℕ :=
  GoMap.weigh (fun req rs => if settled done calls req then 0 else weight rs) start

/-- What a completion's own request weighs of it. -/
def ownDue (weight : ReqStart → ℕ) (done : Pc → Bool) (m : Tables) (call : Call) (pc : Pc) : ℕ :=
  (m.requests.start.lookup call.req).elim 0 fun rs => if done pc then 0 else weight rs

section Owed

variable {weight : ReqStart → ℕ} {done : Pc → Bool}

/-- A completion settles no other request. -/
theorem settled_set_of_ne (hx : s.cpus.calls[i]? = some (call, pc)) {req : Ptr}
    (hne : req ≠ call.req) :
    settled done (s.cpus.calls.set i (call, pc')) req = settled done s.cpus.calls req := by
  have hmap : (s.cpus.calls.set i (call, pc')).map
        (fun x => decide (x.1.req = req) && done x.2) =
      s.cpus.calls.map fun x => decide (x.1.req = req) && done x.2 :=
    map_set_of_eq _ hx (by simp [Ne.symm hne])
  have hany : ∀ l : List (Call × Pc), settled done l req =
      (l.map fun x => decide (x.1.req = req) && done x.2).any id := by
    intro l
    rw [List.any_map]
    rfl
  rw [hany, hany, hmap]

/-- It alone settles its own. -/
theorem settled_set_self (hs : Alone s) (hx : s.cpus.calls[i]? = some (call, pc))
    (hpc : pc ≠ .done) (hdone : done .done = false) (p : Pc) :
    settled done (s.cpus.calls.set i (call, p)) call.req = done p := by
  have hi := (List.getElem?_eq_some_iff.1 hx).1
  apply Bool.eq_iff_iff.2
  rw [settled, List.any_eq_true]
  constructor
  · rintro ⟨y, hy, hreq⟩
    rw [Bool.and_eq_true, decide_eq_true_eq] at hreq
    obtain ⟨j, hj⟩ := List.mem_iff_getElem?.1 hy
    by_cases hij : i = j
    · subst hij
      rw [List.getElem?_set_self hi] at hj
      cases hj
      exact hreq.2
    · -- another completion of the request has finished
      rw [List.getElem?_set_ne hij] at hj
      have hother := hs.done_of_ne hx hpc hj hij hreq.1
      rw [hother, hdone] at hreq
      cases hreq.2
  · intro hp
    exact ⟨(call, p), List.mem_set hi _, by simp [hp]⟩

/-- Only the part of its own request is changed by a step of a completion. -/
theorem owed_move (weight : ReqStart → ℕ) (hs : Alone s) (hx : s.cpus.calls[i]? = some (call, pc))
    (hm : Moved bpfLog2l s.cpus.tables call pc m' pc') (hdone : done .done = false) :
    ∃ rest, owed weight done s.cpus.calls s.cpus.tables.requests.start =
        ownDue weight done s.cpus.tables call pc + rest ∧
      owed weight done (s.cpus.calls.set i (call, pc')) m'.requests.start =
        ownDue weight done m' call pc' + rest := by
  have hself : s.cpus.calls.set i (call, pc) = s.cpus.calls := by
    obtain ⟨hi, hget⟩ := List.getElem?_eq_some_iff.1 hx
    rw [← hget, List.set_getElem_self hi]
  refine ⟨GoMap.weigh (fun req rs => if settled done s.cpus.calls req then 0 else weight rs)
    (s.cpus.tables.requests.start.erase call.req), ?_, ?_⟩
  · have hown := settled_set_self hs hx hm.ne_done hdone pc
    rw [hself] at hown
    rw [owed, GoMap.weigh_eq _ _ call.req, hown]
    rfl
  · have hown := settled_set_self hs hx hm.ne_done hdone pc'
    have herase : m'.requests.start.erase call.req =
        s.cpus.tables.requests.start.erase call.req := by
      refine Finmap.ext_lookup fun req => ?_
      rw [GoMap.lookup_erase_ite, GoMap.lookup_erase_ite]
      by_cases hreq : req = call.req
      · rw [if_pos hreq, if_pos hreq]
      · rw [if_neg hreq, if_neg hreq, hm.start_of_ne hreq]
    have hrest : GoMap.weigh (fun req rs =>
          if settled done (s.cpus.calls.set i (call, pc')) req then 0 else weight rs)
          (s.cpus.tables.requests.start.erase call.req) =
        GoMap.weigh (fun req rs => if settled done s.cpus.calls req then 0 else weight rs)
          (s.cpus.tables.requests.start.erase call.req) := by
      refine GoMap.weigh_congr fun req hreq rs => ?_
      rw [settled_set_of_ne hx (Finmap.mem_erase.1 hreq).1]
    rw [owed, GoMap.weigh_eq _ _ call.req, hown, herase, hrest]
    rfl

/-- A request is handed to the device. -/
theorem owed_insert_le (weight : ReqStart → ℕ) (done : Pc → Bool) (calls : List (Call × Pc))
    (start : GoMap Ptr ReqStart) (req : Ptr) (rs : ReqStart) :
    owed weight done calls (start.insert req rs) ≤ owed weight done calls start + weight rs := by
  have herase := GoMap.weigh_erase_le
    (fun req rs => if settled done calls req then 0 else weight rs) start req
  have hle : (if settled done calls req then 0 else weight rs) ≤ weight rs := by
    split
    · exact Nat.zero_le _
    · exact le_rfl
  rw [owed, GoMap.weigh_insert]
  exact (Nat.add_le_add hle herase).trans_eq (Nat.add_comm _ _)

/-- A completion that begins has settled nothing. -/
theorem owed_append (weight : ReqStart → ℕ) (hnew : done .lookupWho = false)
    (calls : List (Call × Pc)) (call : Call) (start : GoMap Ptr ReqStart) :
    owed weight done (calls ++ [(call, .lookupWho)]) start = owed weight done calls start := by
  have hsettled : settled done (calls ++ [(call, .lookupWho)]) = settled done calls := by
    funext req
    rw [settled, List.any_append, List.any_cons, hnew, Bool.and_false]
    exact Bool.or_false _
  rw [owed, hsettled]
  rfl

/-- **What is reported of a request is no longer owed.**  `hcost` is this for a step of a
completion and its own request. -/
theorem data_add_owed_le {κ ν : Type} [AddCommMonoid ν] (w : Weight κ ν)
    {amounts : Tables → Call → Pc → List (κ × ν)} (hdone : done .done = false)
    (hnew : done .lookupWho = false)
    (hcost : ∀ m call pc m' pc', Moved bpfLog2l m call pc m' pc' →
      (∀ rs, startOf pc = some rs → m.requests.start.lookup call.req = some rs) →
      w.data (amounts m call pc) + ownDue weight done m' call pc' ≤ ownDue weight done m call pc)
    (hs : Alone s) (he : step bpfLog2l s e = some t) :
    w.data (atMove amounts s e) + owed weight done t.cpus.calls t.cpus.tables.requests.start ≤
      owed weight done s.cpus.calls s.cpus.tables.requests.start + handedBy weight e := by
  cases stepped_of_step he with
  | traceReqStart hidle dataLen now =>
      exact (Nat.zero_add _).trans_le (owed_insert_le weight done _ _ _ _)
  | tracePidStart req pidTgid =>
      have hstart : (tracePidStart s.cpus.tables.requests req pidTgid).start =
          s.cpus.tables.requests.start := by
        unfold tracePidStart
        split <;> rfl
      refine (Nat.zero_add _).trans_le (le_of_eq ?_)
      exact congrArg (owed weight done s.cpus.calls) hstart
  | complete hidle =>
      exact (Nat.zero_add _).trans_le (le_of_eq (owed_append weight hnew _ _ _))
  | move hx hm =>
      obtain ⟨rest, hold, hmoved⟩ := owed_move weight hs hx hm hdone
      have hcost := hcost _ _ _ _ _ hm (hs.start (List.mem_of_getElem? hx))
      rw [atMove_move amounts hx, hold, hmoved]
      show _ ≤ _ + 0
      omega
  | _ => exact le_of_eq (Nat.zero_add _)

theorem ownDue_of_done (hdone : done pc = true) : ownDue weight done m call pc = 0 := by
  unfold ownDue
  rw [hdone]
  cases m.requests.start.lookup call.req <;> rfl

theorem ownDue_of_lookup {rs : ReqStart} (hstart : m.requests.start.lookup call.req = some rs)
    (hdone : done pc = false) : ownDue weight done m call pc = weight rs := by
  unfold ownDue
  rw [hstart, hdone]
  rfl

theorem ownDue_of_none (hstart : m.requests.start.lookup call.req = none) :
    ownDue weight done m call pc = 0 := by
  unfold ownDue
  rw [hstart]
  rfl

end Owed

theorem doneCounts_afterCounts (l : Locals) : doneCounts (afterCounts l) = true := by
  unfold afterCounts
  split <;> rfl

/-- A completion adds the bytes of its request once. -/
theorem bytes_add_ownDue_le (hm : Moved bpfLog2l m call pc m' pc')
    (hstart : ∀ rs, startOf pc = some rs → m.requests.start.lookup call.req = some rs) :
    bytes.data (addsCounts m call pc) + ownDue (fun rs => rs.dataLen.toNat) doneCounts m' call pc' ≤
      ownDue (fun rs => rs.dataLen.toNat) doneCounts m call pc := by
  have hone : ∀ (key : InfoT) (val : ValT), bytes.data [(key, val)] = val.bytes.toNat :=
    fun key val => List.sum_singleton
  cases hm with
  | skip =>
      rw [ownDue_of_none (Finmap.lookup_erase call.req m.requests.start)]
      exact Nat.zero_le _
  | deleteStart =>
      rw [ownDue_of_none (Finmap.lookup_erase call.req m.requests.start)]
      exact Nat.zero_le _
  | initialized hnone hfree =>
      rw [addsCounts, if_pos hnone, hone, ownDue_of_done (doneCounts_afterCounts _),
        ownDue_of_lookup (hstart _ rfl) rfl]
      exact le_rfl
  | late hsome =>
      rw [addsCounts, if_neg hsome, ownDue_of_done (doneCounts_afterCounts _)]
      exact Nat.zero_le _
  | addNs valp =>
      rw [addsCounts, hone]
      exact le_of_eq (Nat.zero_add _)
  | addBytes valp =>
      rw [addsCounts, hone, ownDue_of_done rfl, ownDue_of_lookup (hstart _ rfl) rfl]
      exact le_rfl
  | updateCounts valp hfree =>
      rw [ownDue_of_done (doneCounts_afterCounts _)]
      exact Nat.zero_le _
  | _ => exact le_of_eq (Nat.zero_add _)

/-- And it is counted once. -/
theorem completions_add_ownDue_le (hm : Moved bpfLog2l m call pc m' pc')
    (hstart : ∀ rs, startOf pc = some rs → m.requests.start.lookup call.req = some rs) :
    completions.data (addsDist bpfLog2l call pc) + ownDue (fun _ => 1) doneDist m' call pc' ≤
      ownDue (fun _ => 1) doneDist m call pc := by
  have hone : ∀ key : DiskKey, completions.data [(key, 1)] = 1 := fun key => List.sum_singleton
  -- without a slot, the request is only no longer due
  have hafter : ∀ l pc, doneDist pc = false →
      ownDue (fun _ => 1) doneDist m call (afterCounts l) ≤
        ownDue (fun _ => 1) doneDist m call pc := by
    intro l pc hpc
    unfold afterCounts
    split
    · unfold ownDue
      rw [hpc]
      exact le_rfl
    · rw [ownDue_of_done rfl]
      exact Nat.zero_le _
  cases hm with
  | skip =>
      rw [ownDue_of_none (Finmap.lookup_erase call.req m.requests.start)]
      exact Nat.zero_le _
  | deleteStart =>
      rw [ownDue_of_none (Finmap.lookup_erase call.req m.requests.start)]
      exact Nat.zero_le _
  | initialized hnone hfree => exact (Nat.zero_add _).trans_le (hafter _ _ rfl)
  | late hsome => exact (Nat.zero_add _).trans_le (hafter _ _ rfl)
  | updateCounts valp hfree => exact (Nat.zero_add _).trans_le (hafter _ _ rfl)
  | updateDist hfree =>
      rw [addsDist, hone, ownDue_of_done rfl, ownDue_of_lookup (hstart _ rfl) rfl]
  | increment counter =>
      rw [addsDist, hone, ownDue_of_done rfl, ownDue_of_lookup (hstart _ rfl) rfl]
  | _ => exact le_of_eq (Nat.zero_add _)

/-- What is reported of the requests of a run, and what is owed of those in `start`, is at
most what was handed to the device. -/
theorem spent_add_owed_le {κ ν : Type} [AddCommMonoid ν] (w : Weight κ ν)
    {weight : ReqStart → ℕ} {done : Pc → Bool} {amounts : Tables → Call → Pc → List (κ × ν)}
    (hdone : done .done = false) (hnew : done .lookupWho = false)
    (hcost : ∀ m call pc m' pc', Moved bpfLog2l m call pc m' pc' →
      (∀ rs, startOf pc = some rs → m.requests.start.lookup call.req = some rs) →
      w.data (amounts m call pc) + ownDue weight done m' call pc' ≤
        ownDue weight done m call pc) :
    ∀ h s, run (step bpfLog2l) loaded h = some s →
      w.spent (step bpfLog2l) loaded (atMove amounts) h +
          owed weight done s.cpus.calls s.cpus.tables.requests.start ≤
        handed weight h := by
  refine run_invariant le_rfl fun h s e t hs hle he => ?_
  have hstep := data_add_owed_le w hdone hnew hcost (alone_of_run h s hs) he
  rw [w.spent_cons hs, handed, List.map_cons, List.sum_cons, ← handed]
  omega

/-- What `counts` and its exports hold in bytes, and `dist` and its exports in completions,
is no more than the requests handed to the device. -/
structure WithinRequests (h : List Event) (s : Collected) : Prop where
  bytes : bytes.held s.counts.values ≤ handed (fun rs => rs.dataLen.toNat) h
  completions : completions.held s.dist.values ≤ handed (fun _ => 1) h

/-- **No request is reported twice**, in any interleaving in which no pointer is used after
its element was replaced or deleted: all the bytes exported for all processes together are at
most those of the requests, and the slots of all histograms count no more than there were
requests. -/
theorem everyState_withinRequests (bpfLog2l : BitVec 64 → BitVec 32) (h : List Event)
    (hg : Guarded (step bpfLog2l) loaded (Attached bpfLog2l) h) :
    EveryState (step bpfLog2l) loaded WithinRequests h := by
  refine everyState_of_guarded (G := Attached bpfLog2l) (fun h s hg hrun => ⟨?_, ?_⟩) h hg
  · have hheld : bytes.held s.counts.values ≤
        bytes.spent (step bpfLog2l) loaded (atMove addsCounts) h :=
      bytes.held_le_spent (fun s : Collected => s.counts.values) rfl
        (fun _ _ _ hg he => held_counts_le hg he) hg hrun
    have hspent : _ + owed (fun rs => rs.dataLen.toNat) doneCounts _ _ ≤ _ :=
      spent_add_owed_le bytes rfl rfl (fun _ _ _ _ _ hm hstart => bytes_add_ownDue_le hm hstart)
        h s hrun
    exact hheld.trans (le_of_add_le_left hspent)
  · have hheld : completions.held s.dist.values ≤
        completions.spent (step bpfLog2l) loaded (atMove fun _ => addsDist bpfLog2l) h :=
      completions.held_le_spent (fun s : Collected => s.dist.values) rfl
        (fun _ _ _ hg he => held_dist_le hg he) hg hrun
    have hspent : _ + owed (fun _ => 1) doneDist _ _ ≤ _ :=
      spent_add_owed_le completions rfl rfl
        (fun _ _ _ _ _ hm hstart => completions_add_ownDue_le hm hstart) h s hrun
    exact hheld.trans (le_of_add_le_left hspent)

/-- The run with the round between the steps of two completions. -/
theorem everyState_withinRequests_exportedBetween :
    ∃ s, run (step fun _ => 0) loaded exportedBetween = some s ∧
      bytes.held s.counts.values ≤ 1536 ∧ completions.held s.dist.values ≤ 2 := by
  have hwithin := (everyState_withinRequests (fun _ => 0) exportedBetween (by decide)).last _ rfl
  exact ⟨_, rfl, hwithin.bytes.trans (by decide), hwithin.completions.trans (by decide)⟩

/-- The entry of the first completion is exported when the second has looked it up, which
then puts it back. -/
def writtenBack : List Event :=
  countRound ⟨1536, 200⟩ ++ [.move 1 1, .move 1 0, .move 1 0] ++ countRound ⟨512, 100⟩ ++
    List.replicate 4 (.move 1 0) ++ List.replicate 7 (.move 0 0) ++
    [.complete secondCall, .move 0 0, .move 0 0, .complete firstCall] ++ issued

/-- **Without the condition bytes are reported twice**: 2048 of requests of 1536. -/
theorem written_back_twice :
    ¬ EveryState (step fun _ => 0) loaded WithinRequests writtenBack := by
  intro h
  exact absurd (h.last _ rfl).bytes (by decide)

end Kmon.Ports.BiostatTotals
