import Kmon.Ports.InfoStore

/-!
# The PIDs of a pod, listed and updated

The container provider stores the PIDs of a pod twice: `Init` goes through all pods when
the program starts, and `ObjectUpdated` through the one that has changed
(`src/provider/container.go`).  Both take the runtime's prefix off the id of a container,
`ContainerID[9:]`, and ask `getPodPID` for the rest.  `ObjectUpdated` skips ids of at most
9 bytes before it slices; `Init` skips only the empty one.

A Go string is the list of its bytes here, and a slice out of range is a run-time panic,
`none`.  What `getPodPID` answers is up to the cgroup files and may differ for each
container.

`sameEntry_iff` says for which pods the two leave the same entry in the store.
-/

namespace Kmon.Ports.PodPids

open Kmon.Verified
open Kmon.Ports.InfoStore

/-- `api_v1.ContainerStatus`. -/
structure ContainerStatus where
  ContainerID : List UInt8
  deriving DecidableEq, Repr

/-- `api_v1.Pod`. -/
structure Pod where
  Namespace : String
  Name : String
  ContainerStatuses : List ContainerStatus
  deriving DecidableEq, Repr

/-- `kw_event.Event`. -/
structure Event where
  Name : String
  deriving DecidableEq, Repr

/-- A container with its place in the pod. -/
abbrev Entry := ContainerStatus × Nat

/-- What `getPodPID` answers for the container in a place of the pod, asked for an id. -/
abbrev GetPodPID := Pod → Nat → List UInt8 → Except String Int

/-- `fmt.Sprintf("%s/%s", pod.ObjectMeta.Namespace, pod.ObjectMeta.Name)`. -/
def podName (pod : Pod) : String := pod.Namespace ++ "/" ++ pod.Name

/-- `s[n:]`. -/
def sliceFrom (s : List UInt8) (n : Nat) : Option (List UInt8) :=
  if n ≤ s.length then some (s.drop n) else none

section Provider

variable (getPodPID : GetPodPID)

/-- One round of the loop of `ObjectUpdated`. -/
def updateRound (pod : Pod) (pids : List Int) (container : Entry) : Option (List Int) :=
  if container.1.ContainerID.length ≤ 9 then some pids
  else
    (sliceFrom container.1.ContainerID 9).map fun id =>
      match getPodPID pod container.2 id with
      | .error _ => pids
      | .ok pid => if pid = -1 then pids else pids ++ [pid]

/-- `ObjectUpdated`.  An object that is not a pod, or not an event, is `none`. -/
def objectUpdated (containerPID : ContainerPID) (oldObj : Option Pod) (newObj : Option Event) :
    Option ContainerPID :=
  match oldObj with
  | none => some containerPID
  | some pod =>
      (pod.ContainerStatuses.zipIdx.foldlM (updateRound getPodPID pod) []).map fun pids =>
        match newObj with
        | none => containerPID
        | some updateEvent => (setContainerPIDs containerPID updateEvent.Name pids).1

/-- One round of the inner loop of `Init`. -/
def initRound (pod : Pod) (pids : List Int) (container : Entry) : Option (List Int) :=
  if container.1.ContainerID.length > 0 then
    (sliceFrom container.1.ContainerID 9).map fun id =>
      match getPodPID pod container.2 id with
      | .ok pid => if pid ≠ -1 then pids ++ [pid] else pids
      | .error _ => pids
  else some pids

/-- One round of the outer loop of `Init`. -/
def initPod (containerPID : ContainerPID) (pod : Pod) : Option ContainerPID :=
  (pod.ContainerStatuses.zipIdx.foldlM (initRound getPodPID pod) []).map fun pids =>
    if pids.length > 0 then (setContainerPIDs containerPID (podName pod) pids).1
    else (setContainerPIDs containerPID (podName pod) []).1

/-- `Init`, once it has the pods. -/
def init (containerPID : ContainerPID) (pods : List Pod) : Option ContainerPID :=
  pods.foldlM (initPod getPodPID) containerPID

/-- Neither function panics, and they leave the same entry for the pod, whatever the store
was before. -/
def SameEntry (pod : Pod) (updateEvent : Event) : Prop :=
  ∀ s s', ∃ t t', initPod getPodPID s pod = some t ∧
    objectUpdated getPodPID s' (some pod) (some updateEvent) = some t' ∧
    t.lookup (podName pod) = t'.lookup (podName pod)

/-- The PID of a container whose id is at least as long as the prefix. -/
def pidOf (pod : Pod) (container : Entry) : Option Int :=
  match getPodPID pod container.2 (container.1.ContainerID.drop 9) with
  | .ok pid => if pid = -1 then none else some pid
  | .error _ => none

/-- An id that both functions treat alike: empty, longer than the prefix, or as long and
without a PID. -/
def Alike (pod : Pod) (container : Entry) : Prop :=
  container.1.ContainerID.length = 0 ∨ 9 < container.1.ContainerID.length ∨
    (container.1.ContainerID.length = 9 ∧ pidOf getPodPID pod container = none)

/-! ## The loops -/

/-- The PIDs of the containers whose ids have more than `n` bytes. -/
def pidsAbove (n : Nat) (pod : Pod) (containers : List Entry) : List Int :=
  (containers.filter fun c => n < c.1.ContainerID.length).filterMap (pidOf getPodPID pod)

variable {getPodPID} {pod : Pod}

theorem updateRound_eq (pids : List Int) (container : Entry) :
    updateRound getPodPID pod pids container =
      some (pids ++ pidsAbove getPodPID 9 pod [container]) := by
  unfold updateRound pidsAbove
  split
  · rename_i hshort
    rw [List.filter_cons_of_neg (by simpa using hshort), List.filter_nil, List.filterMap_nil,
      List.append_nil]
  · rename_i hlong
    rw [List.filter_cons_of_pos (by simpa using hlong), List.filter_nil, List.filterMap_cons,
      sliceFrom, if_pos (by omega), Option.map_some, pidOf]
    cases getPodPID pod container.2 (container.1.ContainerID.drop 9) with
    | error _ => simp
    | ok pid => by_cases hpid : pid = -1 <;> simp [hpid]

/-- An id that is empty or at least as long as the prefix. -/
theorem initRound_eq (pids : List Int) {container : Entry}
    (h : container.1.ContainerID.length = 0 ∨ 9 ≤ container.1.ContainerID.length) :
    initRound getPodPID pod pids container =
      some (pids ++ pidsAbove getPodPID 8 pod [container]) := by
  unfold initRound pidsAbove
  split
  · rw [List.filter_cons_of_pos (by simp; omega), List.filter_nil, List.filterMap_cons,
      sliceFrom, if_pos (by omega), Option.map_some, pidOf]
    cases getPodPID pod container.2 (container.1.ContainerID.drop 9) with
    | error _ => simp
    | ok pid => by_cases hpid : pid = -1 <;> simp [hpid]
  · rw [List.filter_cons_of_neg (by simp; omega), List.filter_nil, List.filterMap_nil,
      List.append_nil]

/-- Any other id is sliced out of range. -/
theorem initRound_eq_none (pids : List Int) {container : Entry}
    (hpos : container.1.ContainerID.length ≠ 0) (hshort : container.1.ContainerID.length < 9) :
    initRound getPodPID pod pids container = none := by
  rw [initRound, if_pos (by omega), sliceFrom, if_neg (by omega), Option.map_none]

theorem pidsAbove_cons (n : Nat) (container : Entry) (containers : List Entry) :
    pidsAbove getPodPID n pod (container :: containers) =
      pidsAbove getPodPID n pod [container] ++ pidsAbove getPodPID n pod containers := by
  unfold pidsAbove
  rw [← List.filterMap_append, ← List.filter_append, List.singleton_append]

theorem foldlM_updateRound (containers : List Entry) (pids : List Int) :
    containers.foldlM (updateRound getPodPID pod) pids =
      some (pids ++ pidsAbove getPodPID 9 pod containers) := by
  induction containers generalizing pids with
  | nil => exact congrArg some (List.append_nil pids).symm
  | cons container containers ih =>
      rw [List.foldlM_cons, updateRound_eq, Option.bind_eq_bind, Option.bind_some, ih,
        List.append_assoc, ← pidsAbove_cons]

theorem foldlM_initRound (containers : List Entry) (pids : List Int)
    (h : ∀ c ∈ containers, c.1.ContainerID.length = 0 ∨ 9 ≤ c.1.ContainerID.length) :
    containers.foldlM (initRound getPodPID pod) pids =
      some (pids ++ pidsAbove getPodPID 8 pod containers) := by
  induction containers generalizing pids with
  | nil => exact congrArg some (List.append_nil pids).symm
  | cons container containers ih =>
      rw [List.forall_mem_cons] at h
      rw [List.foldlM_cons, initRound_eq pids h.1, Option.bind_eq_bind, Option.bind_some,
        ih _ h.2, List.append_assoc, ← pidsAbove_cons]

/-- The loop of `Init` gets to its end only if no id is sliced out of range. -/
theorem lengths_of_foldlM_initRound {containers : List Entry} {pids pids' : List Int}
    (h : containers.foldlM (initRound getPodPID pod) pids = some pids') :
    ∀ c ∈ containers, c.1.ContainerID.length = 0 ∨ 9 ≤ c.1.ContainerID.length := by
  induction containers generalizing pids with
  | nil => exact fun c hc => absurd hc List.not_mem_nil
  | cons container containers ih =>
      rw [List.foldlM_cons, Option.bind_eq_bind, Option.bind_eq_some_iff] at h
      obtain ⟨pids₁, hround, hrest⟩ := h
      rw [List.forall_mem_cons]
      refine ⟨?_, ih hrest⟩
      by_contra hlen
      rw [initRound_eq_none pids (by omega) (by omega)] at hround
      cases hround

theorem length_pidsAbove_le (containers : List Entry) :
    (pidsAbove getPodPID 9 pod containers).length ≤
      (pidsAbove getPodPID 8 pod containers).length := by
  refine (List.Sublist.filterMap _ (List.monotone_filter_right _ fun c hc => ?_)).length_le
  rw [decide_eq_true_iff] at hc ⊢
  omega

/-- The two loops keep the same PIDs when no id of just the prefix has one. -/
theorem pidsAbove_eq_iff (containers : List Entry) :
    pidsAbove getPodPID 8 pod containers = pidsAbove getPodPID 9 pod containers ↔
      ∀ c ∈ containers, c.1.ContainerID.length = 9 → pidOf getPodPID pod c = none := by
  induction containers with
  | nil => exact iff_of_true rfl fun c hc => absurd hc List.not_mem_nil
  | cons container containers ih =>
      rw [pidsAbove_cons 8, pidsAbove_cons 9, List.forall_mem_cons, ← ih]
      by_cases hlen : container.1.ContainerID.length = 9
      · have hlisted : pidsAbove getPodPID 8 pod [container] =
            (pidOf getPodPID pod container).toList := by
          unfold pidsAbove
          rw [List.filter_cons_of_pos (by simp; omega), List.filter_nil, List.filterMap_cons]
          cases pidOf getPodPID pod container <;> rfl
        have hskipped : pidsAbove getPodPID 9 pod [container] = [] := by
          unfold pidsAbove
          rw [List.filter_cons_of_neg (by simp; omega), List.filter_nil, List.filterMap_nil]
        rw [hlisted, hskipped, List.nil_append]
        cases pidOf getPodPID pod container with
        | none => simp
        | some pid =>
            -- `Init` has one PID more
            have hle := @length_pidsAbove_le getPodPID pod containers
            refine iff_of_false (fun heq => ?_) fun h => by cases h.1 hlen
            have hlengths := congrArg List.length heq
            rw [List.length_append, Option.toList_some, List.length_singleton] at hlengths
            omega
      · have hsame : pidsAbove getPodPID 8 pod [container] =
            pidsAbove getPodPID 9 pod [container] := by
          unfold pidsAbove
          refine congrArg _ (List.filter_congr fun c hc => ?_)
          rw [List.mem_singleton.1 hc, decide_eq_decide]
          omega
        rw [hsame, List.append_right_inj]
        exact (and_iff_right fun h => absurd h hlen).symm

/-! ## One pod -/

/-- `Init` stores what its loop has collected; it makes no difference that it passes nil
for no PIDs. -/
theorem initPod_eq (s : ContainerPID) (pod : Pod) :
    initPod getPodPID s pod =
      (pod.ContainerStatuses.zipIdx.foldlM (initRound getPodPID pod) []).map fun pids =>
        (setContainerPIDs s (podName pod) pids).1 := by
  unfold initPod
  congr 1
  funext pids
  cases pids <;> rfl

theorem objectUpdated_eq (s : ContainerPID) (pod : Pod) (updateEvent : Event) :
    objectUpdated getPodPID s (some pod) (some updateEvent) =
      some (setContainerPIDs s updateEvent.Name
        (pidsAbove getPodPID 9 pod pod.ContainerStatuses.zipIdx)).1 := by
  unfold objectUpdated
  dsimp only
  rw [foldlM_updateRound]
  rfl

/-- A pod whose ids are all treated alike is listed as it would be updated. -/
theorem initPod_of_alike (h : ∀ c ∈ pod.ContainerStatuses.zipIdx, Alike getPodPID pod c)
    (s : ContainerPID) :
    initPod getPodPID s pod = some (setContainerPIDs s (podName pod)
      (pidsAbove getPodPID 9 pod pod.ContainerStatuses.zipIdx)).1 := by
  have hlengths : ∀ c ∈ pod.ContainerStatuses.zipIdx,
      c.1.ContainerID.length = 0 ∨ 9 ≤ c.1.ContainerID.length := by
    intro c hc
    rcases h c hc with hzero | hlong | hprefix
    · exact Or.inl hzero
    · exact Or.inr (Nat.le_of_lt hlong)
    · exact Or.inr (Nat.le_of_eq hprefix.1.symm)
  have hpids := (@pidsAbove_eq_iff getPodPID pod pod.ContainerStatuses.zipIdx).2
    fun c hc hlen => by
      rcases h c hc with hzero | hlong | hprefix
      · omega
      · omega
      · exact hprefix.2
  rw [initPod_eq, foldlM_initRound _ _ hlengths, List.nil_append, hpids, Option.map_some]

/-- **Listing a pod and updating it leave the same entry, and no id is sliced out of range,
exactly when every id is empty, longer than the prefix, or as long and without a PID.** -/
theorem sameEntry_iff (getPodPID : GetPodPID) (pod : Pod) (updateEvent : Event)
    (hname : updateEvent.Name = podName pod) :
    SameEntry getPodPID pod updateEvent ↔
      ∀ c ∈ pod.ContainerStatuses.zipIdx, Alike getPodPID pod c := by
  constructor
  · intro hsame c hc
    obtain ⟨t, t', hinit, hupdate, hentry⟩ := hsame ∅ ∅
    rw [initPod_eq, Option.map_eq_some_iff] at hinit
    obtain ⟨pids, hloop, rfl⟩ := hinit
    have hlengths := lengths_of_foldlM_initRound hloop
    rw [foldlM_initRound _ _ hlengths, List.nil_append, Option.some.injEq] at hloop
    rw [objectUpdated_eq, Option.some.injEq, hname] at hupdate
    have hpids : pidsOf _ (podName pod) = pidsOf _ (podName pod) :=
      congrArg (fun entry => entry.getD []) hentry
    rw [← hupdate, pidsOf_setContainerPIDs, pidsOf_setContainerPIDs, if_pos rfl, if_pos rfl,
      ← hloop] at hpids
    have hprefix := (pidsAbove_eq_iff _).1 hpids c hc
    rcases hlengths c hc with hzero | hlong
    · exact Or.inl hzero
    · by_cases hlen : c.1.ContainerID.length = 9
      · exact Or.inr (Or.inr ⟨hlen, hprefix hlen⟩)
      · exact Or.inr (Or.inl (by omega))
  · intro halike s s'
    refine ⟨_, _, initPod_of_alike halike s, objectUpdated_eq s' pod updateEvent, ?_⟩
    rw [hname]
    unfold setContainerPIDs
    by_cases hpids : pidsAbove getPodPID 9 pod pod.ContainerStatuses.zipIdx = []
    · simp only [hpids, if_true, Finmap.lookup_erase]
    · simp only [hpids, if_false, Finmap.lookup_insert]

/-- With such pods `Init` is one update after the other. -/
theorem init_eq_updates (pods : List Pod)
    (h : ∀ pod ∈ pods, ∀ c ∈ pod.ContainerStatuses.zipIdx, Alike getPodPID pod c)
    (s : ContainerPID) :
    init getPodPID s pods =
      pods.foldlM (fun s pod => objectUpdated getPodPID s (some pod) (some ⟨podName pod⟩)) s := by
  unfold init
  induction pods generalizing s with
  | nil => rfl
  | cons pod pods ih =>
      rw [List.forall_mem_cons] at h
      rw [List.foldlM_cons, List.foldlM_cons, initPod_of_alike h.1, objectUpdated_eq,
        Option.bind_eq_bind, Option.bind_some, Option.bind_some, ih h.2]

end Provider

/-! ## Two pods -/

/-- A pod with one container. -/
def podOf (containerID : List UInt8) : Pod := ⟨"default", "web-0", [⟨containerID⟩]⟩

/-- The id "docker://7f". -/
theorem sameEntry_docker :
    SameEntry (fun _ _ _ => .ok 4242)
      (podOf [100, 111, 99, 107, 101, 114, 58, 47, 47, 55, 102]) ⟨"default/web-0"⟩ :=
  (sameEntry_iff (fun _ _ _ => .ok 4242)
    (podOf [100, 111, 99, 107, 101, 114, 58, 47, 47, 55, 102]) ⟨"default/web-0"⟩ (by decide)).2
    fun c hc => by
      rw [List.mem_singleton.1 hc]
      exact Or.inr (Or.inl (by decide))

/-- The id "runc://" makes `Init` panic; `ObjectUpdated` skips it. -/
theorem short_id_panics :
    initPod (fun _ _ _ => .ok 4242) ∅ (podOf [114, 117, 110, 99, 58, 47, 47]) = none ∧
      ¬ SameEntry (fun _ _ _ => .ok 4242) (podOf [114, 117, 110, 99, 58, 47, 47])
        ⟨"default/web-0"⟩ := by
  have hpanic : initPod (fun _ _ _ => .ok 4242) ∅ (podOf [114, 117, 110, 99, 58, 47, 47]) = none :=
    rfl
  refine ⟨hpanic, fun hsame => ?_⟩
  obtain ⟨t, t', hinit, -, -⟩ := hsame ∅ ∅
  rw [hpanic] at hinit
  cases hinit

end Kmon.Ports.PodPids
