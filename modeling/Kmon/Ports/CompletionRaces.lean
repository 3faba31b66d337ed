import Kmon.Ports.CompletionSteps

/-!
# Completions on several CPUs

What `counts` and `dist` hold when any number of completions have finished, whose steps
were interleaved in any way (`release/bcc/biostat.c`).

`everyState_completions_accounted` says that the totals are right in every schedule in
which no insertion finds its key and no pointer is used after its element was replaced;
`accounted_iff_lost` says what the insertions cost that come too late.
-/

namespace Kmon.Ports.CompletionRaces

open Kmon.Verified
open Kmon.Verified.Run
open Kmon.Verified.Pool
open Kmon.Ports.BiostatProbe (Ptr ReqStart Control InfoT ValT DiskKey)
open Kmon.Ports.CompletionSteps

/-! ## The account -/

/-- The sum of the samples of a key. -/
def total (q : Requests) (key : InfoT) : List Event → ValT
  | [] => 0
  | .complete call :: h =>
      match localsOf q call with
      | none => total q key h
      | some l => if info call l = key then total q key h + sample call l else total q key h
  | .move _ _ :: h => total q key h

/-- The number of completions that fall into an entry of `dist`. -/
def fell (bpfLog2l : BitVec 64 → BitVec 32) (q : Requests) (key : DiskKey) : List Event → Nat
  | [] => 0
  | .complete call :: h =>
      match localsOf q call with
      | none => fell bpfLog2l q key h
      | some l =>
          if l.con.verbose > 1 ∧ diskKey bpfLog2l call l = key then fell bpfLog2l q key h + 1
          else fell bpfLog2l q key h
  | .move _ _ :: h => fell bpfLog2l q key h

/-- All completions have finished. -/
def Finished (s : Cpus) : Prop := ∀ x ∈ s.calls, x.2 = .done

instance (s : Cpus) : Decidable (Finished s) :=
  inferInstanceAs (Decidable (∀ x ∈ s.calls, x.2 = .done))

/-- The property of a state: when all completions have finished, the tables hold what
they add up to. -/
structure Accounted (bpfLog2l : BitVec 64 → BitVec 32) (q : Requests) (h : List Event)
    (s : Cpus) : Prop where
  counts : Finished s → ∀ key, s.tables.counts.value key = total q key h
  dist : Finished s → ∀ key,
    s.tables.dist.value key = BitVec.ofNat 64 (fell bpfLog2l q key h)

/-- The first half of the condition. -/
def Attached (bpfLog2l : BitVec 64 → BitVec 32) (s : Cpus) : Event → Prop
  | .complete _ => True
  | .move i _ => ∀ x, s.calls[i]? = some x → PointsToKey bpfLog2l s.tables x.1 x.2

/-- The condition: no completion inserts a key that is there, and none uses a pointer to
an element that its key no longer has. -/
def Orderly (bpfLog2l : BitVec 64 → BitVec 32) (s : Cpus) : Event → Prop
  | .complete _ => True
  | .move i _ => ∀ x, s.calls[i]? = some x →
      PointsToKey bpfLog2l s.tables x.1 x.2 ∧ InsertsNew bpfLog2l s.tables x.1 x.2

/-- What a run has lost. -/
def lostSum {ν : Type} [Zero ν] [Add ν] (bpfLog2l : BitVec 64 → BitVec 32) (q : Requests)
    (cost : Tables → Call → Pc → ν) : List Event → ν
  | [] => 0
  | .complete _ :: h => lostSum bpfLog2l q cost h
  | .move i _ :: h =>
      match run (step bpfLog2l) (init q) h with
      | none => lostSum bpfLog2l q cost h
      | some s =>
          match s.calls[i]? with
          | none => lostSum bpfLog2l q cost h
          | some x => lostSum bpfLog2l q cost h + cost s.tables x.1 x.2

/-- The account of a state. -/
structure Balanced (bpfLog2l : BitVec 64 → BitVec 32) (q : Requests) (h : List Event)
    (s : Cpus) : Prop where
  counts : ∀ key, s.tables.counts.value key + (s.calls.map (due q key)).sum +
    lostSum bpfLog2l q (fun m call pc => lostCounts m call key pc) h = total q key h
  dist : ∀ key, s.tables.dist.value key + (s.calls.map (dueDist bpfLog2l q key)).sum +
    lostSum bpfLog2l q (fun m call pc => lostDist bpfLog2l m call key pc) h =
      BitVec.ofNat 64 (fell bpfLog2l q key h)

/-! ## The account of a run -/

variable {bpfLog2l : BitVec 64 → BitVec 32} {q : Requests} {h : List Event} {s t : Cpus}
  {e : Event} {m m' : Tables} {call : Call} {l : Locals} {pc pc' : Pc} {elem : Elem}

theorem lostSum_move {ν : Type} [Zero ν] [Add ν] {cost : Tables → Call → Pc → ν} {i : Nat}
    (hrun : run (step bpfLog2l) (init q) h = some s) (hx : s.calls[i]? = some (call, pc)) :
    lostSum bpfLog2l q cost (.move i elem :: h) =
      lostSum bpfLog2l q cost h + cost s.tables call pc := by
  simp only [lostSum, hrun, hx]

/-- A new sample is due. -/
theorem add_due {ν : Type} [AddCommMonoid ν] {val dues lost sum : ν}
    (hsum : val + dues + lost = sum) (amount : ν) :
    val + (dues + amount) + lost = sum + amount := by
  rw [← hsum]
  abel

/-- What is added or lost is no longer due. -/
theorem settle_due {ν : Type} [AddCommMonoid ν] {val val' amount amount' rest lost cost sum : ν}
    (hstep : val' + amount' + cost = val + amount)
    (hsum : val + (amount + rest) + lost = sum) :
    val' + (amount' + rest) + (lost + cost) = sum := by
  calc val' + (amount' + rest) + (lost + cost)
      = (val' + amount' + cost) + (rest + lost) := by abel
    _ = (val + amount) + (rest + lost) := by rw [hstep]
    _ = val + (amount + rest) + lost := by abel
    _ = sum := hsum

theorem balanced_complete (hr : Reads q s) (hb : Balanced bpfLog2l q h s)
    (hnew : (localsOf s.tables.requests call).isSome ∧
      call.req ∉ s.calls.map fun x => x.1.req) :
    Balanced bpfLog2l q (.complete call :: h)
      { s with calls := s.calls ++ [(call, .lookupWho)] } := by
  rw [hr.localsOf_eq hnew.2] at hnew
  obtain ⟨l, hl⟩ := Option.isSome_iff_exists.1 hnew.1
  constructor
  · intro key
    simp only [List.map_append, List.sum_append, List.map_singleton, List.sum_singleton, total,
      hl, lostSum]
    rw [add_due (hb.counts key), due_eq hl]
    split
    · rfl
    · rw [add_zero]
  · intro key
    have hdue : dueDistAt l .lookupWho = if l.con.verbose > 1 then 1 else 0 := rfl
    simp only [List.map_append, List.sum_append, List.map_singleton, List.sum_singleton, fell,
      hl, lostSum]
    rw [add_due (hb.dist key), dueDist_eq hl, hdue]
    by_cases hkey : diskKey bpfLog2l call l = key
    · by_cases hverbose : l.con.verbose > 1
      · rw [if_pos hkey, if_pos hverbose, if_pos ⟨hverbose, hkey⟩, BitVec.ofNat_add]
        rfl
      · rw [if_pos hkey, if_neg hverbose, if_neg fun hand => hverbose hand.1, add_zero]
    · rw [if_neg hkey, if_neg fun hand => hkey hand.2, add_zero]

theorem balanced_move {i : Nat} (hrun : run (step bpfLog2l) (init q) h = some s)
    (hb : Balanced bpfLog2l q h s) (hx : s.calls[i]? = some (call, pc))
    (hl : localsOf q call = some l) (hagrees : Agrees l pc)
    (ha : Advanced bpfLog2l s.tables call l pc m' pc')
    (hptr : PointsToKey bpfLog2l s.tables call pc) :
    Balanced bpfLog2l q (.move i elem :: h) ⟨m', s.calls.set i (call, pc')⟩ := by
  constructor
  · intro key
    obtain ⟨rest, hsum, hset⟩ := exists_sum_map_set (due q key) hx (call, pc')
    have hkey := hb.counts key
    rw [hsum] at hkey
    rw [lostSum_move hrun hx, hset]
    exact settle_due (ha.counts hl hagrees hptr key) hkey
  · intro key
    obtain ⟨rest, hsum, hset⟩ := exists_sum_map_set (dueDist bpfLog2l q key) hx (call, pc')
    have hkey := hb.dist key
    rw [hsum] at hkey
    rw [lostSum_move hrun hx, hset]
    exact settle_due (ha.dist hl hagrees hptr key) hkey

/-- **The account.**  As long as no pointer is used after its element was replaced, what
is in the tables, what is still due and what was lost is what the completions add. -/
theorem balanced_of_attached : ∀ h s, Guarded (step bpfLog2l) (init q) (Attached bpfLog2l) h →
    run (step bpfLog2l) (init q) h = some s → Balanced bpfLog2l q h s := by
  intro h
  induction h with
  | nil =>
      intro s _ hs
      cases hs
      exact ⟨fun _ => rfl, fun _ => rfl⟩
  | cons e h ih =>
      intro t hg ht
      obtain ⟨s, hs, he⟩ := run_cons_eq_some.1 ht
      have hr := reads_of_run h s hs
      have hb := ih s hg.1 hs
      cases e with
      | complete call =>
          obtain ⟨hnew, rfl⟩ := complete_eq_some he
          exact balanced_complete hr hb hnew
      | move i elem =>
          obtain ⟨call, l, pc, m', pc', hx, hl, hagrees, ha, rfl⟩ := hr.advanced he
          exact balanced_move hs hb hx hl hagrees ha (hg.2 s hs _ hx)

/-- A finished completion owes nothing. -/
theorem sum_due_of_finished (hfin : Finished s) (key : InfoT) :
    (s.calls.map (due q key)).sum = 0 := by
  apply List.sum_eq_zero
  intro v hv
  obtain ⟨x, hx, rfl⟩ := List.mem_map.1 hv
  unfold due
  rw [hfin x hx]
  split
  · rfl
  · exact ite_self 0

theorem sum_dueDist_of_finished (hfin : Finished s) (key : DiskKey) :
    (s.calls.map (dueDist bpfLog2l q key)).sum = 0 := by
  apply List.sum_eq_zero
  intro v hv
  obtain ⟨x, hx, rfl⟩ := List.mem_map.1 hv
  unfold dueDist
  rw [hfin x hx]
  split
  · rfl
  · exact ite_self 0

theorem eq_zero_of_add_eq_left {v w : ValT} (hadd : v + w = v) : w = 0 := by
  apply ValT.ext
  · exact add_eq_left.1 (congrArg ValT.bytes hadd)
  · exact add_eq_left.1 (congrArg ValT.ns hadd)

/-- **What late insertions cost.**  When all completions have finished, the totals are
short by the samples and counters of the insertions that found their key. -/
theorem accounted_iff_lost (hg : Guarded (step bpfLog2l) (init q) (Attached bpfLog2l) h)
    (hrun : run (step bpfLog2l) (init q) h = some s) (hfin : Finished s) :
    Accounted bpfLog2l q h s ↔
      (∀ key, lostSum bpfLog2l q (fun m call pc => lostCounts m call key pc) h = 0) ∧
        ∀ key, lostSum bpfLog2l q (fun m call pc => lostDist bpfLog2l m call key pc) h = 0 := by
  have hb := balanced_of_attached h s hg hrun
  have hcounts := hb.counts
  have hdist := hb.dist
  simp only [sum_due_of_finished hfin, sum_dueDist_of_finished hfin, add_zero] at hcounts hdist
  constructor
  · intro hacc
    constructor
    · intro key
      have hkey := hcounts key
      rw [← hacc.counts hfin key] at hkey
      exact eq_zero_of_add_eq_left hkey
    · intro key
      have hkey := hdist key
      rw [← hacc.dist hfin key] at hkey
      exact add_eq_left.1 hkey
  · rintro ⟨hzero, hzero'⟩
    constructor
    · intro _ key
      rw [← hcounts key, hzero, add_zero]
    · intro _ key
      rw [← hdist key, hzero', add_zero]

/-! ## Orderly runs -/

theorem lostCounts_of_insertsNew (hnew : InsertsNew bpfLog2l m call pc) (key : InfoT) :
    lostCounts m call key pc = 0 := by
  cases pc with
  | tryInit l =>
      apply if_neg
      rintro ⟨hkey, hsome⟩
      rw [← hkey] at hsome
      exact hsome hnew
  | _ => rfl

theorem lostDist_of_insertsNew (hnew : InsertsNew bpfLog2l m call pc) (key : DiskKey) :
    lostDist bpfLog2l m call key pc = 0 := by
  cases pc with
  | updateDist l =>
      show (if _ then m.dist.value key else 0) = 0
      split
      · rename_i hkey
        rw [← hkey]
        exact ElementTable.value_of_lookup_none hnew
      · rfl
  | _ => rfl

theorem lostSum_of_orderly {ν : Type} [AddMonoid ν] {cost : Tables → Call → Pc → ν}
    (hcost : ∀ m call pc, InsertsNew bpfLog2l m call pc → cost m call pc = 0) :
    ∀ h, Guarded (step bpfLog2l) (init q) (Orderly bpfLog2l) h →
      lostSum bpfLog2l q cost h = 0 := by
  intro h
  induction h with
  | nil => exact fun _ => rfl
  | cons e h ih =>
      intro hg
      cases e with
      | complete call => exact ih hg.1
      | move i elem =>
          simp only [lostSum]
          split
          · exact ih hg.1
          · rename_i s hs
            split
            · exact ih hg.1
            · rename_i x hx
              rw [ih hg.1, hcost _ _ _ (hg.2 s hs x hx).2, add_zero]

theorem attached_of_orderly : ∀ h, Guarded (step bpfLog2l) (init q) (Orderly bpfLog2l) h →
    Guarded (step bpfLog2l) (init q) (Attached bpfLog2l) h := by
  intro h
  induction h with
  | nil => exact fun _ => trivial
  | cons e h ih =>
      intro hg
      refine ⟨ih hg.1, fun s hs => ?_⟩
      cases e with
      | complete call => trivial
      | move i elem => exact fun x hx => (hg.2 s hs x hx).1

/-- **Completions in orderly runs are all accounted**, whatever the schedule, the number
of completions and their keys. -/
theorem everyState_completions_accounted (bpfLog2l : BitVec 64 → BitVec 32) (q : Requests)
    (h : List Event) (hg : Guarded (step bpfLog2l) (init q) (Orderly bpfLog2l) h) :
    EveryState (step bpfLog2l) (init q) (Accounted bpfLog2l q) h := by
  apply everyState_of_guarded (G := Orderly bpfLog2l) ?_ h hg
  intro h s hg hrun
  by_cases hfin : Finished s
  · apply (accounted_iff_lost (attached_of_orderly h hg) hrun hfin).2
    constructor
    · intro key
      exact lostSum_of_orderly (fun _ _ _ hnew => lostCounts_of_insertsNew hnew key) h hg
    · intro key
      exact lostSum_of_orderly (fun _ _ _ hnew => lostDist_of_insertsNew hnew key) h hg
  · exact ⟨fun h => absurd h hfin, fun h => absurd h hfin⟩

/-! ## Two completions -/

/-- Requests 1 and 2 of process 7, of 512 and 1024 bytes. -/
def twoRequests : Requests where
  controlMap := (∅ : GoMap (BitVec 32) Control).insert 7 ⟨2, 1⟩
  start := ((∅ : GoMap Ptr ReqStart).insert 1 ⟨512, 100⟩).insert 2 ⟨1024, 300⟩
  whobyreq := ((∅ : GoMap Ptr (BitVec 32)).insert 1 7).insert 2 7

def firstCall : Call := ⟨1, ⟨200, 0, 0⟩⟩

def secondCall : Call := ⟨2, ⟨400, 0, 0⟩⟩

/-- Both at a time, newest step first.  The second completion begins while the first is
reading its requests, finds the entries that the first has put into `counts` and `dist`,
and adds to them through its pointers. -/
def interleaved : List Event :=
  [.move 1 0, .move 1 0, .move 1 0, .move 0 0, .move 1 0, .move 0 0, .move 1 1, .move 1 0,
    .move 0 0, .move 1 0, .move 0 0, .move 1 0, .move 1 0, .move 0 0, .move 1 0, .move 0 0,
    .move 0 0, .move 1 0, .move 0 0, .complete secondCall, .move 0 0, .complete firstCall]

/-- They are accounted in every state, and the totals in the last are those of both. -/
theorem everyState_completions_accounted_interleaved :
    EveryState (step fun _ => 0) (init twoRequests) (Accounted (fun _ => 0) twoRequests)
        interleaved ∧
      ∃ s, run (step fun _ => 0) (init twoRequests) interleaved = some s ∧ Finished s ∧
        s.tables.counts.value ⟨7, 0, 0⟩ = ⟨1536, 200⟩ ∧
        s.tables.dist.value ⟨0, 7, 0, 0⟩ = 2 := by
  have hevery : EveryState (step fun _ => 0) (init twoRequests)
      (Accounted (fun _ => 0) twoRequests) interleaved := by
    apply everyState_completions_accounted
    unfold interleaved
    refine ⟨⟨⟨⟨⟨⟨⟨⟨⟨⟨⟨⟨⟨⟨⟨⟨⟨⟨⟨⟨⟨⟨trivial, ?_⟩, ?_⟩, ?_⟩, ?_⟩, ?_⟩, ?_⟩, ?_⟩, ?_⟩, ?_⟩, ?_⟩,
      ?_⟩, ?_⟩, ?_⟩, ?_⟩, ?_⟩, ?_⟩, ?_⟩, ?_⟩, ?_⟩, ?_⟩, ?_⟩, ?_⟩
    all_goals
      intro s hs
      cases hs
      try trivial
    -- the steps of the two completions
    all_goals
      intro x hx
      cases hx
      exact ⟨by trivial, by trivial⟩
  have hacc := hevery.last _ rfl
  refine ⟨hevery, _, rfl, by decide, ?_, ?_⟩
  · exact (hacc.counts (by decide) _).trans (by decide)
  · exact (hacc.dist (by decide) _).trans (by decide)

/-- Both look up `counts` before the first has put its sample there. -/
theorem second_sample_lost :
    ¬ EveryState (step fun _ => 0) (init twoRequests) (Accounted (fun _ => 0) twoRequests)
      [.move 1 0, .move 1 0, .move 1 0, .move 1 0, .move 1 0, .move 0 0, .move 0 0, .move 0 0,
        .move 0 0, .move 0 0, .move 1 0, .move 1 0, .move 1 0, .move 1 0, .complete secondCall,
        .move 0 0, .move 0 0, .move 0 0, .move 0 0, .complete firstCall] := by
  intro hevery
  have hacc := hevery.last _ rfl
  have hfin := hacc.counts (by decide)
  exact absurd (hfin ⟨7, 0, 0⟩) (by decide)

end Kmon.Ports.CompletionRaces
