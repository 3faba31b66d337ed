import Kmon.Verified.Pool
import Kmon.Ports.ContainerCache

/-!
# Cached containers and the listeners still to run

`SetContainerPIDs` updates the store under the mutex, releases it, and only then
starts a goroutine for every listener; anything may happen in between.  This
module takes the two halves of the call as two steps.  A call that has left the
critical section keeps its previous and current PIDs in `calling` until it
starts the listener, whose call then waits in `pending`.

An entry of `pidBuffer` that names a container is then never wrong unnoticed:
`positive_entries_noticed` says that its PID is in the container's list, or
that a listener which will delete the entry is still to run.  Entries with the
empty name are a different matter, see `ContainerCache`.
-/

namespace Kmon.Ports.CacheEntries

open Kmon.Verified
open Kmon.Verified.Run
open Kmon.Verified.Pool
open Kmon.Ports.InfoStore
open Kmon.Ports.ContainerCache (Getter getContainerFromPID invalidate IsOrder lookup_invalidate)

/-- The store and the cache, the calls of `SetContainerPIDs` that have not
started their listeners yet, and the listeners that have not run yet. -/
structure Cached extends Getter where
  calling : List ContainerChange

/-- `NewGetter` over the store there is, with no call under way. -/
def newGetter (containerPID : ContainerPID) : Cached := ⟨⟨containerPID, ∅, []⟩, []⟩

inductive Event where
  /-- The critical section of `SetContainerPIDs(name, pids)`. -/
  | store (name : String) (pids : List Int)
  /-- The `i`-th of the calls under way starts its listeners. -/
  | startListener (i : Nat)
  /-- The `i`-th of the started listeners takes the mutex and runs. -/
  | runListener (i : Nat)
  /-- `GetContainerFromPID(pid)`, which meets the containers in the given order. -/
  | query (pid : Int) (order : List String)

def step (s : Cached) : Event → Option Cached
  | .store name pids =>
      let stored := setContainerPIDs s.containerPID name pids
      some { s with containerPID := stored.1, calling := s.calling ++ [stored.2] }
  | .startListener i =>
      match s.calling[i]? with
      | none => none
      | some change =>
          some { s with calling := s.calling.eraseIdx i, pending := s.pending ++ [change] }
  | .runListener i =>
      match s.pending[i]? with
      | none => none
      | some change =>
          some { s with
            pidBuffer := invalidate change s.pidBuffer
            pending := s.pending.eraseIdx i }
  | .query pid order =>
      if IsOrder s.toGetter order then
        some { s with pidBuffer := (getContainerFromPID s.toGetter pid order).2 }
      else none

/-- A listener that will delete the entry of the PID is still to run. -/
def StillToRun (s : Cached) (pid : Int) : Prop :=
  ∃ change, (change ∈ s.calling ∨ change ∈ s.pending) ∧ pid ∈ change.prePID

/-- The property of a state: an entry that names a container is right, or it is
going to be deleted. -/
def PositiveEntriesNoticed (_ : List Event) (s : Cached) : Prop :=
  ∀ pid name, s.pidBuffer.lookup pid = some name → name ≠ "" →
    pid ∈ pidsOf s.containerPID name ∨ StillToRun s pid

/-! ## The steps -/

section Step

variable {s : Cached}

/-- The entries a query leaves are those of before and a right one. -/
theorem lookup_query {pid pid' : Int} {order : List String} {name : String}
    (hlookup : (getContainerFromPID s.toGetter pid order).2.lookup pid' = some name)
    (hne : name ≠ "") :
    s.pidBuffer.lookup pid' = some name ∨ pid' ∈ pidsOf s.containerPID name := by
  unfold getContainerFromPID at hlookup
  split at hlookup
  · exact Or.inl hlookup
  · split at hlookup
    · rename_i found hfind
      have hpid : pid ∈ pidsOf s.containerPID found := by
        simpa using List.find?_some hfind
      rw [GoMap.lookup_insert_ite] at hlookup
      split at hlookup
      · rename_i heq
        cases hlookup
        exact Or.inr (heq ▸ hpid)
      · exact Or.inl hlookup
    · rw [GoMap.lookup_insert_ite] at hlookup
      split at hlookup
      · exact absurd (Option.some.inj hlookup).symm hne
      · exact Or.inl hlookup

theorem noticed_store {h : List Event} (hs : PositiveEntriesNoticed h s) (name : String)
    (pids : List Int) :
    PositiveEntriesNoticed (.store name pids :: h) { s with
      containerPID := (setContainerPIDs s.containerPID name pids).1
      calling := s.calling ++ [(setContainerPIDs s.containerPID name pids).2] } := by
  intro pid name' hlookup hne
  rcases hs pid name' hlookup hne with hpid | ⟨change, hmem, hpid⟩
  · by_cases hname : name' = name
    · -- the list of the container is replaced: the call itself announces the PID
      subst hname
      right
      exact ⟨(setContainerPIDs s.containerPID name' pids).2,
        Or.inl (List.mem_append_right _ List.mem_cons_self), hpid⟩
    · left
      rw [pidsOf_setContainerPIDs, if_neg hname]
      exact hpid
  · right
    exact ⟨change, hmem.imp_left (List.mem_append_left _), hpid⟩

theorem noticed_startListener {h : List Event} (hs : PositiveEntriesNoticed h s) {i : Nat}
    {change : ContainerChange} (hi : s.calling[i]? = some change) :
    PositiveEntriesNoticed (.startListener i :: h) { s with
      calling := s.calling.eraseIdx i
      pending := s.pending ++ [change] } := by
  intro pid name hlookup hne
  rcases hs pid name hlookup hne with hpid | ⟨change', hmem, hpid⟩
  · exact Or.inl hpid
  · right
    refine ⟨change', ?_, hpid⟩
    by_cases heq : change' = change
    · right
      rw [heq]
      exact List.mem_append_right _ List.mem_cons_self
    · exact hmem.imp (fun hcalling => mem_eraseIdx_of_ne hi hcalling heq)
        (List.mem_append_left _)

theorem noticed_runListener {h : List Event} (hs : PositiveEntriesNoticed h s) {i : Nat}
    {change : ContainerChange} (hi : s.pending[i]? = some change) :
    PositiveEntriesNoticed (.runListener i :: h) { s with
      pidBuffer := invalidate change s.pidBuffer
      pending := s.pending.eraseIdx i } := by
  intro pid name hlookup hne
  rw [lookup_invalidate] at hlookup
  split at hlookup
  · cases hlookup
  · rename_i hdeleted
    rcases hs pid name hlookup hne with hpid | ⟨change', hmem, hpid⟩
    · exact Or.inl hpid
    · right
      refine ⟨change', hmem.imp_right fun hpending => ?_, hpid⟩
      apply mem_eraseIdx_of_ne hi hpending
      intro heq
      rw [heq] at hpid
      exact hdeleted hpid

theorem noticed_step {h : List Event} {e : Event} {t : Cached}
    (hs : PositiveEntriesNoticed h s) (he : step s e = some t) :
    PositiveEntriesNoticed (e :: h) t := by
  cases e with
  | store name pids =>
      cases he
      exact noticed_store hs name pids
  | startListener i =>
      simp only [step] at he
      split at he
      · cases he
      · rename_i change hi
        cases he
        exact noticed_startListener hs hi
  | runListener i =>
      simp only [step] at he
      split at he
      · cases he
      · rename_i change hi
        cases he
        exact noticed_runListener hs hi
  | query pid order =>
      simp only [step] at he
      split at he
      · cases he
        intro pid' name hlookup hne
        rcases lookup_query hlookup hne with hbefore | hright
        · exact hs pid' name hbefore hne
        · exact Or.inl hright
      · cases he

end Step

/-! ## Runs -/

theorem noticed_newGetter (containerPID : ContainerPID) :
    PositiveEntriesNoticed [] (newGetter containerPID) := by
  intro pid name hlookup
  have hempty : (newGetter containerPID).pidBuffer.lookup pid = none := Finmap.lookup_empty pid
  rw [hempty] at hlookup
  cases hlookup

/-- **No positive entry outlives its container unnoticed.**  In every state of
every run, a cached container has the PID now, or a listener that will delete
the entry is still to run. -/
theorem positive_entries_noticed (containerPID : ContainerPID) (events : List Event) :
    EveryState step (newGetter containerPID) PositiveEntriesNoticed events :=
  everyState_of_run
    (run_invariant (noticed_newGetter containerPID) fun _ _ _ _ _ hs he => noticed_step hs he)
    events

end Kmon.Ports.CacheEntries
