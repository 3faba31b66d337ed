import Kmon.Verified.Run
import Kmon.Ports.PidListener

/-!
# Container changes in any order

`SetContainerPIDs` stores the PIDs of a container and starts a goroutine for every
listener, with the list that was stored before and the new one
(`src/internal/info/setter.go`).  Nothing orders the goroutines of successive calls.
The listener of a `PIDLis` takes the PIDs of the old list out of `containerSet` and puts
those of the new one in (`src/collector/utils/pid.go`).

For a PID the listener calls are a sequence of writes: a call whose lists contain it
says whether it is current.  The last to run leaves its mark in `containerSet`, and the
last to be issued is the one that agrees with the store.  `everyState_converged_iff`:
once all calls have run, `containerSet` is right exactly when the two agree on every
PID.  A call that takes a PID out and runs before the one that put it in leaves the PID
behind for good.
-/

namespace Kmon.Ports.ListenerOrder

open Kmon.Verified
open Kmon.Verified.Run
open Kmon.Ports.Config
open Kmon.Ports.InfoStore
open Kmon.Ports.PidListener

/-! ## The listener and its goroutines -/

/-- No two containers share a PID. -/
def PairwiseDisjoint (containerPID : ContainerPID) : Prop :=
  ∀ name ∈ containerPID.keys, ∀ other ∈ containerPID.keys, name ≠ other →
    ∀ pid ∈ pidsOf containerPID name, pid ∉ pidsOf containerPID other

instance (containerPID : ContainerPID) : Decidable (PairwiseDisjoint containerPID) :=
  inferInstanceAs (Decidable (∀ name ∈ containerPID.keys, ∀ other ∈ containerPID.keys,
    name ≠ other → ∀ pid ∈ pidsOf containerPID name, pid ∉ pidsOf containerPID other))

/-- A container store whose containers have pairwise disjoint PID lists. -/
structure Containers where
  containerPID : ContainerPID
  disjoint : PairwiseDisjoint containerPID

/-- The store, the listener, and the calls of the listener that have not run yet. -/
structure Listening where
  containers : Containers
  lis : PIDLis
  pending : Multiset ContainerChange

/-- The steps of a run: a container is stored, of which the others share no PID; one of
the listener calls runs, whichever. -/
inductive Event where
  | setContainerPIDs (name : String) (pids : List Int)
  | containerChanged (change : ContainerChange)

def step (matchString : String → String → Bool) (s : Listening) : Event → Option Listening
  | .setContainerPIDs name pids =>
      let stored := setContainerPIDs s.containers.containerPID name pids
      if h : PairwiseDisjoint stored.1 then
        some { s with
          containers := ⟨stored.1, h⟩
          pending := stored.2 ::ₘ s.pending }
      else none
  | .containerChanged change =>
      if change ∈ s.pending then
        (containerChanged matchString s.lis change).map fun r =>
          { s with lis := r.1, pending := s.pending.erase change }
      else none

/-- A listener that `NewPIDLis` has built, after `OnConfigChange` with the configuration
it was built with. -/
def configured (matchString : String → String → Bool) (conf : ListenConfig)
    (containers : Containers) : Listening where
  containers := containers
  lis := (onConfigChange matchString containers.containerPID (newPIDLis conf) conf).1
  pending := 0

/-! ## The order of the calls -/

/-- The container store after a history. -/
def storeOf (containerPID : ContainerPID) : List Event → ContainerPID
  | [] => containerPID
  | .setContainerPIDs name pids :: h => (setContainerPIDs (storeOf containerPID h) name pids).1
  | .containerChanged _ :: h => storeOf containerPID h

/-- The listener calls that were started, newest first. -/
def issued (containerPID : ContainerPID) : List Event → List ContainerChange
  | [] => []
  | .setContainerPIDs name pids :: h =>
      (setContainerPIDs (storeOf containerPID h) name pids).2 :: issued containerPID h
  | .containerChanged _ :: h => issued containerPID h

/-- Those that have run, the last to run first. -/
def ran : List Event → List ContainerChange
  | [] => []
  | .setContainerPIDs _ _ :: h => ran h
  | .containerChanged change :: h => change :: ran h

/-- What a listener call says of a PID: whether it is current, if the container matches
and one of the two lists contains the PID. -/
def verdict (matchString : String → String → Bool) (conf : ListenConfig) (pid : Int)
    (change : ContainerChange) : Option Bool :=
  if (∃ re ∈ conf.K8sGroup, matchString re change.name = true) ∧
      (pid ∈ change.prePID ∨ pid ∈ change.curPID) then
    some (pid ∈ change.curPID)
  else none

/-- What the newest of the calls says that says anything. -/
def lastVerdict (matchString : String → String → Bool) (conf : ListenConfig) (pid : Int)
    (changes : List ContainerChange) : Option Bool :=
  changes.findSome? (verdict matchString conf pid)

/-- `containerSet` is what it should be. -/
def Converged (matchString : String → String → Bool) (conf : ListenConfig) (s : Listening) :
    Prop :=
  s.lis.containers = matching matchString s.containers.containerPID conf.K8sGroup

/-- The condition: of every PID, the call that ran last says what the call says that was
issued last. -/
def LastAgrees (matchString : String → String → Bool) (conf : ListenConfig)
    (containerPID : ContainerPID) (h : List Event) : Prop :=
  ∀ pid, lastVerdict matchString conf pid (ran h) =
    lastVerdict matchString conf pid (issued containerPID h)

/-! ## Writes to a PID -/

variable {matchString : String → String → Bool} {conf : ListenConfig}
  {containers : Containers} {h : List Event} {s t : Listening} {e : Event} {pid : Int}

/-- A call as a write: what it says of a PID, and what was so before if it says nothing. -/
theorem getD_verdict {change : ContainerChange} {before : Bool} :
    (verdict matchString conf pid change).getD before = true ↔
      if ∃ re ∈ conf.K8sGroup, matchString re change.name = true then
        pid ∈ change.curPID ∨ (before = true ∧ pid ∉ change.prePID)
      else before = true := by
  unfold verdict
  by_cases hmatch : ∃ re ∈ conf.K8sGroup, matchString re change.name = true
  · rw [if_pos hmatch]
    by_cases hlists : pid ∈ change.prePID ∨ pid ∈ change.curPID
    · rw [if_pos ⟨hmatch, hlists⟩, Option.getD_some, decide_eq_true_iff]
      tauto
    · rw [if_neg fun hand => hlists hand.2, Option.getD_none]
      tauto
  · rw [if_neg hmatch, if_neg fun hand => hmatch hand.1, Option.getD_none]

theorem getD_lastVerdict_cons (change : ContainerChange) (changes : List ContainerChange)
    (before : Bool) :
    (lastVerdict matchString conf pid (change :: changes)).getD before =
      (verdict matchString conf pid change).getD
        ((lastVerdict matchString conf pid changes).getD before) := by
  unfold lastVerdict
  rw [List.findSome?_cons]
  cases verdict matchString conf pid change with
  | none => rfl
  | some said => rfl

/-- Whether any of a list of calls says something does not depend on their order. -/
theorem lastVerdict_eq_none_of_perm {changes changes' : List ContainerChange}
    (hperm : changes.Perm changes') (hnone : lastVerdict matchString conf pid changes = none) :
    lastVerdict matchString conf pid changes' = none := by
  unfold lastVerdict at hnone ⊢
  rw [List.findSome?_eq_none_iff] at hnone ⊢
  exact fun change hchange => hnone change (hperm.mem_iff.2 hchange)

theorem mem_keys_of_mem_pidsOf {containerPID : ContainerPID} {name : String}
    (hpid : pid ∈ pidsOf containerPID name) : name ∈ containerPID.keys := by
  obtain ⟨pids, hlookup, -⟩ := mem_pidsOf.1 hpid
  exact GoMap.mem_keys_iff.2 ⟨pids, hlookup⟩

/-- A PID belongs to one container. -/
theorem Containers.eq_of_mem (containers : Containers) {name other : String}
    (hname : pid ∈ pidsOf containers.containerPID name)
    (hother : pid ∈ pidsOf containers.containerPID other) : name = other := by
  by_contra hne
  exact containers.disjoint name (mem_keys_of_mem_pidsOf hname) other
    (mem_keys_of_mem_pidsOf hother) hne pid hname hother

/-- The store as a register: a call of `SetContainerPIDs` does to the PIDs to be listened
to what its listener call says. -/
theorem mem_matching_setContainerPIDs (containers : Containers) (name : String)
    (pids : List Int) :
    pid ∈ matching matchString (setContainerPIDs containers.containerPID name pids).1
        conf.K8sGroup ↔
      (verdict matchString conf pid (setContainerPIDs containers.containerPID name pids).2).getD
        (pid ∈ matching matchString containers.containerPID conf.K8sGroup) = true := by
  let stored := setContainerPIDs containers.containerPID name pids
  have hpids : ∀ other, pidsOf stored.1 other =
      if other = name then pids else pidsOf containers.containerPID other :=
    fun other => pidsOf_setContainerPIDs containers.containerPID name other pids
  rw [getD_verdict, decide_eq_true_iff, mem_matching_iff, mem_matching_iff]
  show _ ↔ if ∃ re ∈ conf.K8sGroup, matchString re name = true then
      pid ∈ pids ∨ (_ ∧ pid ∉ pidsOf containers.containerPID name) else _
  by_cases hmatch : ∃ re ∈ conf.K8sGroup, matchString re name = true
  · rw [if_pos hmatch]
    constructor
    · rintro ⟨other, hother, hpid⟩
      rw [hpids] at hpid
      by_cases heq : other = name
      · rw [if_pos heq] at hpid
        exact Or.inl hpid
      · rw [if_neg heq] at hpid
        exact Or.inr ⟨⟨other, hother, hpid⟩, fun hpre => heq (containers.eq_of_mem hpid hpre)⟩
    · rintro (hpid | ⟨⟨other, hother, hpid⟩, hpre⟩)
      · exact ⟨name, hmatch, by rw [hpids, if_pos rfl]; exact hpid⟩
      · have hne : other ≠ name := fun heq => hpre (heq ▸ hpid)
        exact ⟨other, hother, by rw [hpids, if_neg hne]; exact hpid⟩
  · rw [if_neg hmatch]
    have hsame : ∀ other, (∃ re ∈ conf.K8sGroup, matchString re other = true) →
        pidsOf stored.1 other = pidsOf containers.containerPID other := by
      intro other hother
      have hne : other ≠ name := fun heq => hmatch (heq ▸ hother)
      rw [hpids, if_neg hne]
    constructor
    · rintro ⟨other, hother, hpid⟩
      exact ⟨other, hother, hsame other hother ▸ hpid⟩
    · rintro ⟨other, hother, hpid⟩
      exact ⟨other, hother, (hsame other hother).symm ▸ hpid⟩

/-! ## Runs -/

/-- What holds in every run: the listener has what the calls that have run say, and the
store what all calls say. -/
structure Written (matchString : String → String → Bool) (conf : ListenConfig)
    (containers : Containers) (h : List Event) (s : Listening) : Prop where
  store : s.containers.containerPID = storeOf containers.containerPID h
  kept : s.lis.conf = conf
  listener : ∃ set, s.lis.containerSet = some set ∧ ∀ pid, pid ∈ set ↔
    (lastVerdict matchString conf pid (ran h)).getD
      (pid ∈ matching matchString containers.containerPID conf.K8sGroup) = true
  stored : ∀ pid, pid ∈ matching matchString s.containers.containerPID conf.K8sGroup ↔
    (lastVerdict matchString conf pid (issued containers.containerPID h)).getD
      (pid ∈ matching matchString containers.containerPID conf.K8sGroup) = true
  calls : ((issued containers.containerPID h : List ContainerChange) :
    Multiset ContainerChange) = s.pending + (ran h : Multiset ContainerChange)

theorem written_configured (matchString : String → String → Bool) (conf : ListenConfig)
    (containers : Containers) :
    Written matchString conf containers [] (configured matchString conf containers) where
  store := rfl
  kept := onConfigChange_conf (newPIDLis conf) conf
  listener := by
    refine ⟨_, onConfigChange_containerSet (newPIDLis conf) conf, fun pid => ?_⟩
    show _ ↔ decide (pid ∈ matching matchString containers.containerPID conf.K8sGroup) = true
    rw [decide_eq_true_iff]
  stored := fun pid => by
    show _ ↔ decide (pid ∈ matching matchString containers.containerPID conf.K8sGroup) = true
    rw [decide_eq_true_iff]
    rfl
  calls := rfl

theorem written_step (hw : Written matchString conf containers h s)
    (he : step matchString s e = some t) : Written matchString conf containers (e :: h) t := by
  cases e with
  | setContainerPIDs name pids =>
      simp only [step] at he
      split at he
      · cases he
        refine ⟨?_, hw.kept, hw.listener, fun pid => ?_, ?_⟩
        · show (setContainerPIDs s.containers.containerPID name pids).1 = _
          rw [hw.store]
          rfl
        · show pid ∈ matching matchString
            (setContainerPIDs s.containers.containerPID name pids).1 conf.K8sGroup ↔ _
          have hbefore : decide (pid ∈ matching matchString s.containers.containerPID
              conf.K8sGroup) =
                (lastVerdict matchString conf pid (issued containers.containerPID h)).getD
                  (pid ∈ matching matchString containers.containerPID conf.K8sGroup) := by
            rw [Bool.eq_iff_iff, decide_eq_true_iff]
            exact hw.stored pid
          rw [mem_matching_setContainerPIDs, issued, getD_lastVerdict_cons, ← hw.store, hbefore]
        · show _ = (setContainerPIDs s.containers.containerPID name pids).2 ::ₘ s.pending +
            (ran h : Multiset ContainerChange)
          rw [hw.store, Multiset.cons_add, ← hw.calls]
          rfl
      · cases he
  | containerChanged change =>
      simp only [step] at he
      split at he
      · rename_i hpending
        obtain ⟨set, hset, hmem⟩ := hw.listener
        obtain ⟨c', deltas, hchanged, hconf, set', hset', hmem'⟩ :=
          containerChanged_of_some matchString hset change
        rw [hchanged] at he
        cases he
        refine ⟨hw.store, hconf.trans hw.kept, ⟨set', hset', fun pid => ?_⟩, hw.stored, ?_⟩
        · rw [hmem', ran, getD_lastVerdict_cons, getD_verdict, hw.kept, hmem]
        · show _ = s.pending.erase change + ((change :: ran h : List ContainerChange) : Multiset _)
          rw [← Multiset.cons_coe, Multiset.add_cons, ← Multiset.cons_add,
            Multiset.cons_erase hpending, ← hw.calls]
          rfl
      · cases he

theorem written_of_run : ∀ h s, run (step matchString) (configured matchString conf containers) h =
    some s → Written matchString conf containers h s :=
  run_invariant (written_configured matchString conf containers)
    fun _ _ _ _ _ hw he => written_step hw he

/-- Two sequences of the same calls leave the same behind exactly when they end alike. -/
theorem getD_lastVerdict_iff {changes changes' : List ContainerChange}
    (hperm : changes.Perm changes') (before : Bool) :
    ((lastVerdict matchString conf pid changes).getD before = true ↔
      (lastVerdict matchString conf pid changes').getD before = true) ↔
        lastVerdict matchString conf pid changes = lastVerdict matchString conf pid changes' := by
  cases hlast : lastVerdict matchString conf pid changes with
  | none =>
      rw [lastVerdict_eq_none_of_perm hperm hlast]
      exact iff_of_true Iff.rfl rfl
  | some said =>
      cases hlast' : lastVerdict matchString conf pid changes' with
      | none =>
          rw [lastVerdict_eq_none_of_perm hperm.symm hlast'] at hlast
          cases hlast
      | some said' =>
          rw [Option.getD_some, Option.getD_some, ← Bool.eq_iff_iff, Option.some.injEq]

/-- **Once all listener calls have run, `containerSet` is right exactly when, of every
PID, the call that ran last says what the call says that was issued last.**  In every
state of every run, for every order of the calls. -/
theorem everyState_converged_iff (matchString : String → String → Bool) (conf : ListenConfig)
    (containers : Containers) (events : List Event) :
    EveryState (step matchString) (configured matchString conf containers)
      (fun h s => s.pending = 0 →
        (Converged matchString conf s ↔
          LastAgrees matchString conf containers.containerPID h)) events := by
  apply everyState_of_run
  intro h s hrun hdone
  have hw := written_of_run h s hrun
  obtain ⟨set, hset, hmem⟩ := hw.listener
  have hperm : (ran h).Perm (issued containers.containerPID h) := by
    rw [← Multiset.coe_eq_coe, hw.calls, hdone, zero_add]
  have hcontainers : s.lis.containers = set := by
    rw [PIDLis.containers, hset, Option.getD_some]
  unfold Converged LastAgrees
  rw [hcontainers, Finset.ext_iff]
  apply forall_congr'
  intro pid
  rw [hmem, hw.stored, getD_lastVerdict_iff hperm]

/-- Container web is restarted: PID 1 comes, and then PID 2 in its place.  The second
listener call runs before the first, and PID 1 stays in the set. -/
theorem stale_pid_kept :
    let conf : ListenConfig := ⟨[], ["web"]⟩
    let matchString : String → String → Bool := fun re name => re = name
    ∃ s, run (step matchString)
        (configured matchString conf ⟨∅, by decide⟩)
        [.containerChanged ⟨"web", [], [1]⟩, .containerChanged ⟨"web", [1], [2]⟩,
          .setContainerPIDs "web" [2], .setContainerPIDs "web" [1]] = some s ∧
      s.pending = 0 ∧ ¬ Converged matchString conf s := by
  intro conf matchString
  refine ⟨_, rfl, rfl, ?_⟩
  unfold Converged
  decide

end Kmon.Ports.ListenerOrder
