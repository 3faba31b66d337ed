import Kmon.Ports.InfoStore

/-!
# What the container notifications say about the store

`SetContainerPIDs` treats three things in three ways: a name the store does not
hold, whose previous list is a fresh empty slice; a nil or empty argument, which
deletes the entry; and the list it announces, which is a copy of the argument.
Here a slice is modelled with nil told from empty, so that the three ways are
visible; `abstracts_setContainerPIDs` connects this model to the one of
`InfoStore`, which the other modules use.

The callers do not write to a slice after they have passed it, so that a stored
slice and a slice handed to a listener keep their elements.

The announcements of any sequence of calls are a complete history of the store:
each one starts where the one before it for the same name ended, and together
they rebuild the store (`announced_rebuilds_store`); each names its call and carries the
argument (`map_announced`).  Sequences of calls and of
announcements are newest first.
-/

namespace Kmon.Ports.StoreHistory

open Kmon.Verified
open Kmon.Ports.InfoStore (ContainerPID)

/-- A `[]int`: nil, or a slice with its elements. -/
abbrev Pids := Option (List Int)

/-- What ranging over the slice meets. -/
def elements (pids : Pids) : List Int := pids.getD []

/-- `info.containerPID`, with the slices as they were passed in. -/
abbrev Store := GoMap String Pids

/-- The arguments of a listener registered with `RegisterContainerChange`. -/
structure Announcement where
  name : String
  prePID : Pids
  curPID : Pids
  deriving DecidableEq, Repr

/-- `SetContainerPIDs`. -/
def setContainerPIDs (containerPID : Store) (container : String) (pids : Pids) :
    Store × Announcement :=
  let prev :=
    match containerPID.lookup container with
    | some prev => prev
    | none => some []
  let containerPID' :=
    if pids = none ∨ (elements pids).length = 0 then containerPID.erase container
    else containerPID.insert container pids
  -- `make([]int, len(pids))` is never nil
  let cur := some (elements pids)
  (containerPID', ⟨container, prev, cur⟩)

/-- One call of `SetContainerPIDs`: its arguments. -/
structure Call where
  container : String
  pids : Pids

/-- `ObjectDeleted` of the container provider: `SetContainerPIDs(name, nil)`. -/
def objectDeleted (name : String) : Call := ⟨name, none⟩

/-- `ObjectUpdated` of the container provider, which appends to a slice of its
own the PIDs it finds, one for each container with a complete identifier that
runs on this host; there may be none. -/
def objectUpdated (name : String) (pids : List Int) : Call := ⟨name, some pids⟩

/-- `containerPID` after the calls. -/
def store : List Call → Store
  | [] => ∅
  | call :: calls => (setContainerPIDs (store calls) call.container call.pids).1

/-- What the calls announce. -/
def announced : List Call → List Announcement
  | [] => []
  | call :: calls =>
      (setContainerPIDs (store calls) call.container call.pids).2 :: announced calls

/-! ## What listeners may conclude -/

/-- The list the last of the announcements for the name ended with, the empty
list if there is none. -/
def lastAnnounced (name : String) : List Announcement → List Int
  | [] => []
  | announcement :: log =>
      if announcement.name = name then elements announcement.curPID else lastAnnounced name log

/-- Every announcement starts with the list the preceding one for its name ended
with. -/
def Gapless : List Announcement → Prop
  | [] => True
  | announcement :: log =>
      elements announcement.prePID = lastAnnounced announcement.name log ∧ Gapless log

/-- The map that the announced current lists build from an empty map, when a name
is dropped at an empty list. -/
def replay : List Announcement → Store
  | [] => ∅
  | announcement :: log =>
      if elements announcement.curPID = [] then (replay log).erase announcement.name
      else (replay log).insert announcement.name announcement.curPID

/-- No container is stored with an empty list. -/
def NoEmptyList (containerPID : Store) : Prop :=
  ∀ name pids, containerPID.lookup name = some pids → elements pids ≠ []

/-! ## One call -/

/-- The store holds the elements of the two levels alike. -/
def Abstracts (containerPID : Store) (containerPID' : ContainerPID) : Prop :=
  ∀ name, (containerPID.lookup name).map elements = containerPID'.lookup name

theorem elements_eq_nil_iff {pids : Pids} :
    (pids = none ∨ (elements pids).length = 0) ↔ elements pids = [] := by
  cases pids with
  | none => simp [elements]
  | some pids => simp [elements, List.length_eq_zero_iff]

/-- The entries of the store after a call. -/
theorem lookup_setContainerPIDs (containerPID : Store) (container name : String) (pids : Pids) :
    (setContainerPIDs containerPID container pids).1.lookup name =
      if name = container then
        if elements pids = [] then none else some pids
      else containerPID.lookup name := by
  unfold setContainerPIDs
  simp only [elements_eq_nil_iff]
  by_cases hpids : elements pids = []
  · rw [if_pos hpids, if_pos hpids, GoMap.lookup_erase_ite]
  · rw [if_neg hpids, if_neg hpids, GoMap.lookup_insert_ite]

/-- The previous list a call announces is what the store held. -/
theorem elements_prePID (containerPID : Store) (container : String) (pids : Pids) :
    elements (setContainerPIDs containerPID container pids).2.prePID =
      ((containerPID.lookup container).map elements).getD [] := by
  unfold setContainerPIDs
  cases containerPID.lookup container with
  | none => rfl
  | some prev => rfl

/-- A call does the same at the two levels, whether its argument is nil or
empty. -/
theorem abstracts_setContainerPIDs {containerPID : Store} {containerPID' : ContainerPID}
    (habs : Abstracts containerPID containerPID') (container : String) (pids : Pids) :
    let stored := setContainerPIDs containerPID container pids
    let stored' := InfoStore.setContainerPIDs containerPID' container (elements pids)
    Abstracts stored.1 stored'.1 ∧
      (⟨stored.2.name, elements stored.2.prePID, elements stored.2.curPID⟩ :
        InfoStore.ContainerChange) = stored'.2 := by
  intro stored stored'
  constructor
  · intro name
    show ((setContainerPIDs containerPID container pids).1.lookup name).map elements = _
    rw [lookup_setContainerPIDs]
    by_cases hpids : elements pids = []
    · rw [if_pos hpids]
      simp only [stored', InfoStore.setContainerPIDs, hpids, if_true, GoMap.lookup_erase_ite]
      split
      · rfl
      · exact habs name
    · rw [if_neg hpids]
      simp only [stored', InfoStore.setContainerPIDs, hpids, if_false, GoMap.lookup_insert_ite]
      split
      · rfl
      · exact habs name
  · have hprev : elements stored.2.prePID = stored'.2.prePID := by
      show elements (setContainerPIDs containerPID container pids).2.prePID = _
      rw [elements_prePID, habs container]
      rfl
    rw [hprev]
    rfl

/-! ## A sequence of calls -/

/-- The store holds, under each name, what was last announced for it. -/
theorem lookup_store (calls : List Call) (name : String) :
    (((store calls).lookup name).map elements).getD [] = lastAnnounced name (announced calls) := by
  induction calls with
  | nil =>
      show (((∅ : Store).lookup name).map elements).getD [] = []
      rw [Finmap.lookup_empty]
      rfl
  | cons call calls ih =>
      show ((((setContainerPIDs (store calls) call.container call.pids).1.lookup name).map
        elements).getD [] = if call.container = name then elements call.pids
          else lastAnnounced name (announced calls))
      rw [lookup_setContainerPIDs]
      by_cases hname : name = call.container
      · rw [if_pos hname, if_pos hname.symm]
        by_cases hpids : elements call.pids = []
        · rw [if_pos hpids, hpids]
          rfl
        · rw [if_neg hpids]
          rfl
      · rw [if_neg hname, if_neg (Ne.symm hname)]
        exact ih

theorem gapless_announced (calls : List Call) : Gapless (announced calls) := by
  induction calls with
  | nil => trivial
  | cons call calls ih =>
      refine ⟨?_, ih⟩
      rw [elements_prePID]
      exact lookup_store calls call.container

theorem replay_announced (calls : List Call) : replay (announced calls) = store calls := by
  induction calls with
  | nil => rfl
  | cons call calls ih =>
      apply Finmap.ext_lookup
      intro name
      show (if elements call.pids = [] then (replay (announced calls)).erase call.container
        else (replay (announced calls)).insert call.container (some (elements call.pids))).lookup
          name = (setContainerPIDs (store calls) call.container call.pids).1.lookup name
      rw [ih, lookup_setContainerPIDs]
      by_cases hpids : elements call.pids = []
      · rw [if_pos hpids, if_pos hpids, GoMap.lookup_erase_ite]
      · -- a list with elements is not nil, so that its copy is the slice itself
        have hcopy : some (elements call.pids) = call.pids := by
          cases hcall : call.pids with
          | none =>
              rw [hcall] at hpids
              exact absurd rfl hpids
          | some pids => rfl
        rw [if_neg hpids, if_neg hpids, GoMap.lookup_insert_ite, hcopy]

theorem noEmptyList_store (calls : List Call) : NoEmptyList (store calls) := by
  induction calls with
  | nil =>
      intro name pids hlookup
      have hempty : (∅ : Store).lookup name = some pids := hlookup
      rw [Finmap.lookup_empty] at hempty
      cases hempty
  | cons call calls ih =>
      intro name pids hlookup
      have hstored : (setContainerPIDs (store calls) call.container call.pids).1.lookup name =
        some pids := hlookup
      rw [lookup_setContainerPIDs] at hstored
      split at hstored
      · split at hstored
        · cases hstored
        · rename_i hpids
          cases hstored
          exact hpids
      · exact ih name pids hstored

/-- Each call announces its name, and its argument as the current list. -/
theorem map_announced (calls : List Call) :
    (announced calls).map (fun announcement => (announcement.name, announcement.curPID)) =
      calls.map fun call => (call.container, some (elements call.pids)) := by
  induction calls with
  | nil => rfl
  | cons call calls ih => exact congrArg _ ih

/-- **The announcements are a complete history of the store.**  Each starts with
the list the preceding one for its name ended with, replaying them rebuilds
`containerPID`, and `containerPID` never holds an empty list. -/
theorem announced_rebuilds_store (calls : List Call) :
    Gapless (announced calls) ∧ replay (announced calls) = store calls ∧
      NoEmptyList (store calls) :=
  ⟨gapless_announced calls, replay_announced calls, noEmptyList_store calls⟩

/-- A container that is deleted with nil and comes back is announced with an empty
previous list. -/
example :
    announced [objectUpdated "default/web" [9], objectDeleted "default/web",
      objectUpdated "default/web" [7, 8]] =
      [⟨"default/web", some [], some [9]⟩, ⟨"default/web", some [7, 8], some []⟩,
        ⟨"default/web", some [], some [7, 8]⟩] := by
  decide

end Kmon.Ports.StoreHistory
