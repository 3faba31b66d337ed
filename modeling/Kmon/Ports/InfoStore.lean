import Kmon.Verified.GoMap

/-!
# The container store

`info.containerPID` maps a container to its PIDs.  `setContainerPIDs` is the
only writer (`src/internal/info/setter.go`); the readers are in `getter.go`.
Each of them holds `info.mutex` for its whole body on the store, so one call is
one step on the store.  What `SetContainerPIDs` announces after it has released
the mutex is returned as a `ContainerChange`; who listens, and when, is up to
the modules that use it.
-/

namespace Kmon.Ports.InfoStore

open Kmon.Verified

/-- `info.containerPID`. -/
abbrev ContainerPID := GoMap String (List Int)

/-- The arguments every listener registered with `RegisterContainerChange` is
called with. -/
structure ContainerChange where
  name : String
  prePID : List Int
  curPID : List Int
  deriving DecidableEq, Repr

/-- The PIDs the store holds for a container, none when it holds no entry. -/
def pidsOf (containerPID : ContainerPID) (container : String) : List Int :=
  (containerPID.lookup container).getD []

/-- `SetContainerPIDs`.  A nil slice and an empty one are treated alike, both
are the empty list here. -/
def setContainerPIDs (containerPID : ContainerPID) (container : String)
    (pids : List Int) : ContainerPID × ContainerChange :=
  let prev := pidsOf containerPID container
  let containerPID' :=
    if pids = [] then containerPID.erase container
    else containerPID.insert container pids
  (containerPID', ⟨container, prev, pids⟩)

/-- After the call the store holds the new list under the name and is unchanged
under every other name. -/
theorem pidsOf_setContainerPIDs (containerPID : ContainerPID)
    (container name : String) (pids : List Int) :
    pidsOf (setContainerPIDs containerPID container pids).1 name =
      if name = container then pids else pidsOf containerPID name := by
  unfold pidsOf setContainerPIDs
  by_cases hp : pids = []
  · simp only [hp, if_true, GoMap.lookup_erase_ite]
    split <;> rfl
  · simp only [hp, if_false, GoMap.lookup_insert_ite]
    split <;> rfl

theorem mem_pidsOf {containerPID : ContainerPID} {name : String} {pid : Int} :
    pid ∈ pidsOf containerPID name ↔
      ∃ pids, containerPID.lookup name = some pids ∧ pid ∈ pids := by
  unfold pidsOf
  cases containerPID.lookup name with
  | none => simp
  | some pids => simp

/-! ## Reading the PIDs of the matching containers -/

/-- `GetContainerPIDsMatchRegex`: the PIDs of every container whose name the
expression matches.  `matchString` stands for the `regexp` package; an
expression that does not compile matches nothing.  The slice is filled in the
order in which the map is ranged over, so it is a multiset. -/
def getContainerPIDsMatchRegex (matchString : String → String → Bool)
    (containerPID : ContainerPID) (pattern : String) : Multiset Int :=
  (containerPID.entries.filter fun e => matchString pattern e.1).bind
    fun e => (e.2 : Multiset Int)

theorem mem_getContainerPIDsMatchRegex {matchString : String → String → Bool}
    {containerPID : ContainerPID} {pattern : String} {pid : Int} :
    pid ∈ getContainerPIDsMatchRegex matchString containerPID pattern ↔
      ∃ name, matchString pattern name = true ∧ pid ∈ pidsOf containerPID name := by
  simp only [getContainerPIDsMatchRegex, Multiset.mem_bind, Multiset.mem_filter,
    Multiset.mem_coe, mem_pidsOf]
  constructor
  · rintro ⟨⟨name, pids⟩, ⟨hmem, hmatch⟩, hpid⟩
    exact ⟨name, hmatch, pids, Finmap.lookup_eq_some_iff.2 hmem, hpid⟩
  · rintro ⟨name, hmatch, pids, hlook, hpid⟩
    exact ⟨⟨name, pids⟩, ⟨Finmap.lookup_eq_some_iff.1 hlook, hmatch⟩, hpid⟩

end Kmon.Ports.InfoStore
