import Kmon.Verified.Atoi
import Kmon.Verified.Run
import Kmon.Ports.PodPids

/-!
# The PIDs of the containers on this host

`getPodPID` (`src/provider/container.go`) builds the path of a container's cgroup from the
pod and the id, and takes the first line of `cgroup.procs` for its PID.  A container of
another host has no such file, which is no error.

The kernel lists the processes of a cgroup one in a line.  With files like that
(`getPodPID_procs`) the container provider does what it is for: after the listing of all
pods and any updates and deletions, the store has for every name the first processes of the
cgroups that the latest of these events found for it (`pidsOf_of_run`).

The cgroups may be different at every event.  A byte of a file is the character with its
number.
-/

namespace Kmon.Ports.CgroupPids

open Kmon.Verified
open Kmon.Verified.Run
open Kmon.Verified.Text
open Kmon.Ports.InfoStore
open Kmon.Ports.PodPids (ContainerStatus GetPodPID Pod initPod objectUpdated pidOf pidsAbove
  podName)

/-! ## Reading a cgroup -/

/-- What the path of a cgroup is made of, beside the id of the container:
`pod.Status.QOSClass` and `pod.ObjectMeta.UID`. -/
structure PodMeta where
  QOSClass : String
  UID : String

/-- The bytes of a string. -/
def bytes (s : String) : List UInt8 := s.toUTF8.toList

/-- `pidsCgroupPath`. -/
def pidsCgroupPath (pod : PodMeta) (containerID : List UInt8) : List UInt8 :=
  bytes "/sys/fs/cgroup/pids/kubepods/" ++ bytes pod.QOSClass.toLower ++ bytes "/pod" ++
    bytes pod.UID ++ bytes "/" ++ containerID ++ bytes "/cgroup.procs"

/-- What `os.Stat` and `ioutil.ReadFile` find under a path. -/
inductive File where
  | missing
  | unreadable
  | content (output : List Char)
  deriving DecidableEq, Repr

/-- `getPodPID`.  An error is named after the function it comes from. -/
def getPodPID (podMeta : Pod → PodMeta) (files : List UInt8 → File) : GetPodPID :=
  fun pod _ containerID =>
    match files (pidsCgroupPath (podMeta pod) containerID) with
    | .missing => .ok (-1)
    | .unreadable => .error "ReadFile"
    | .content output =>
        match (trim [' ', '\n'] output).splitOn '\n' with
        | [] => .ok (-1)
        | s :: _ =>
            match atoi (trim [' ', '\n'] s) with
            | none => .error "Atoi"
            | some pid => .ok pid

/-! ## The files of the kernel -/

/-- A host at some time: what the API server says of the pods, and the processes of every
cgroup there is, by the path of its `cgroup.procs`. -/
structure Host where
  podMeta : Pod → PodMeta
  cgroups : List UInt8 → Option (List (BitVec 32))

/-- `cgroup.procs`: a process in a line. -/
def procs (pids : List (BitVec 32)) : List Char :=
  pids.flatMap fun pid => Nat.toDigits 10 pid.toNat ++ ['\n']

/-- The files of the host. -/
def Host.files (host : Host) (path : List UInt8) : File :=
  match host.cgroups path with
  | none => .missing
  | some pids => .content (procs pids)

/-- The first process of a container, if it is here. -/
def Host.firstPID (host : Host) (pod : Pod) (container : ContainerStatus) : Option Int :=
  ((host.cgroups (pidsCgroupPath (host.podMeta pod) (container.ContainerID.drop 9))).bind
    List.head?).map fun pid => (pid.toNat : Int)

/-- The first processes of the containers whose ids have more than `n` bytes. -/
def Host.firstPIDs (host : Host) (n : Nat) (pod : Pod) : List Int :=
  (pod.ContainerStatuses.filter fun c => n < c.ContainerID.length).filterMap (host.firstPID pod)

/-- **The first process is read back.**  An empty cgroup is an error, and no cgroup is no
PID. -/
theorem getPodPID_procs (host : Host) (pod : Pod) (i : Nat) (containerID : List UInt8) :
    getPodPID host.podMeta host.files pod i containerID =
      match host.cgroups (pidsCgroupPath (host.podMeta pod) containerID) with
      | none => .ok (-1)
      | some [] => .error "Atoi"
      | some (pid :: _) => .ok pid.toNat := by
  unfold getPodPID Host.files
  cases host.cgroups (pidsCgroupPath (host.podMeta pod) containerID) with
  | none => rfl
  | some pids =>
      cases pids with
      | nil => rfl
      | cons pid pids =>
          have hdigit : ∀ c ∈ Nat.toDigits 10 pid.toNat, c ∉ [' ', '\n'] := by
            intro c hc hmem
            have hisDigit := isDigit_toDigits pid.toNat c hc
            simp only [List.mem_cons, List.not_mem_nil, or_false] at hmem
            rcases hmem with rfl | rfl <;> exact absurd hisDigit (by decide)
          have hsep : '\n' ∉ Nat.toDigits 10 pid.toNat := fun hmem =>
            hdigit '\n' hmem (by simp)
          obtain ⟨parts, hparts⟩ := head_splitOn_trim (toDigits_ne_nil pid.toNat) hdigit hsep
            (procs pids)
          have hprocs : procs (pid :: pids) =
              Nat.toDigits 10 pid.toNat ++ '\n' :: procs pids := by
            rw [procs, List.flatMap_cons, List.append_assoc]
            rfl
          have hlt : pid.toNat < 2 ^ 63 := Nat.lt_trans pid.isLt (by decide)
          dsimp only
          rw [hprocs, hparts]
          dsimp only
          rw [trim_word (toDigits_ne_nil pid.toNat) hdigit, atoi_toDigits hlt]

/-- Both functions of the provider keep the first processes. -/
theorem pidOf_eq_firstPID (host : Host) (pod : Pod) (container : PodPids.Entry) :
    pidOf (getPodPID host.podMeta host.files) pod container = host.firstPID pod container.1 := by
  unfold pidOf Host.firstPID
  rw [getPodPID_procs]
  cases host.cgroups (pidsCgroupPath (host.podMeta pod) (container.1.ContainerID.drop 9)) with
  | none => rfl
  | some pids =>
      cases pids with
      | nil => rfl
      | cons pid pids =>
          have hne : (pid.toNat : Int) ≠ -1 := by omega
          show (if (pid.toNat : Int) = -1 then none else some (pid.toNat : Int)) = _
          rw [if_neg hne]
          rfl

theorem pidsAbove_eq_firstPIDs (host : Host) (n : Nat) (pod : Pod) :
    pidsAbove (getPodPID host.podMeta host.files) n pod pod.ContainerStatuses.zipIdx =
      host.firstPIDs n pod := by
  unfold pidsAbove Host.firstPIDs
  rw [funext (pidOf_eq_firstPID host pod)]
  conv_rhs => rw [← List.zipIdx_map_fst 0 pod.ContainerStatuses]
  rw [List.filter_map, List.filterMap_map]
  rfl

/-! ## The provider -/

/-- What the controller of the pods calls, on the host as it is then: `ObjectUpdated` with
what it was given, and `ObjectDeleted`.  An argument of another type is `none`. -/
inductive Event where
  | updated (host : Host) (oldObj : Option Pod) (newObj : Option PodPids.Event)
  | deleted (obj : Option PodPids.Event)

/-- `ObjectDeleted`. -/
def objectDeleted (containerPID : ContainerPID) (obj : Option PodPids.Event) : ContainerPID :=
  match obj with
  | none => containerPID
  | some deleteEvent => (setContainerPIDs containerPID deleteEvent.Name []).1

def step (s : ContainerPID) : Event → Option ContainerPID
  | .updated host oldObj newObj =>
      objectUpdated (getPodPID host.podMeta host.files) s oldObj newObj
  | .deleted obj => some (objectDeleted s obj)

/-- What the listing finds under a name. -/
def listed (host : Host) (name : String) (pids : List Int) (pods : List Pod) : List Int :=
  pods.foldl (fun pids pod => if podName pod = name then host.firstPIDs 8 pod else pids) pids

/-- What the latest event for a name has found, or the listing if there was none. -/
def found (host : Host) (pods : List Pod) : List Event → String → List Int
  | [], name => listed host name [] pods
  | .updated host' (some pod) (some updateEvent) :: h, name =>
      if updateEvent.Name = name then host'.firstPIDs 9 pod else found host pods h name
  | .deleted (some deleteEvent) :: h, name =>
      if deleteEvent.Name = name then [] else found host pods h name
  | _ :: h, name => found host pods h name

/-- An update stores the first processes under the name of the event. -/
theorem objectUpdated_eq_firstPIDs (host : Host) (s : ContainerPID) (pod : Pod)
    (updateEvent : PodPids.Event) :
    objectUpdated (getPodPID host.podMeta host.files) s (some pod) (some updateEvent) =
      some (setContainerPIDs s updateEvent.Name (host.firstPIDs 9 pod)).1 := by
  rw [PodPids.objectUpdated_eq, pidsAbove_eq_firstPIDs]

/-- No id is cut inside its prefix. -/
def Cut (pod : Pod) : Prop :=
  ∀ c ∈ pod.ContainerStatuses, c.ContainerID.length = 0 ∨ 9 ≤ c.ContainerID.length

theorem initPod_eq_firstPIDs (host : Host) (s : ContainerPID) {pod : Pod} (hcut : Cut pod) :
    initPod (getPodPID host.podMeta host.files) s pod =
      some (setContainerPIDs s (podName pod) (host.firstPIDs 8 pod)).1 := by
  have hlengths : ∀ c ∈ pod.ContainerStatuses.zipIdx,
      c.1.ContainerID.length = 0 ∨ 9 ≤ c.1.ContainerID.length := by
    intro c hc
    have hmem := List.mem_map_of_mem (f := Prod.fst) hc
    rw [List.zipIdx_map_fst] at hmem
    exact hcut c.1 hmem
  rw [PodPids.initPod_eq, PodPids.foldlM_initRound _ _ hlengths, List.nil_append, Option.map_some,
    pidsAbove_eq_firstPIDs]

/-- The listing, pod by pod. -/
theorem pidsOf_of_init (host : Host) {pods : List Pod} (hcut : ∀ pod ∈ pods, Cut pod)
    (s : ContainerPID) :
    ∃ t, PodPids.init (getPodPID host.podMeta host.files) s pods = some t ∧
      ∀ name, pidsOf t name = listed host name (pidsOf s name) pods := by
  induction pods generalizing s with
  | nil => exact ⟨s, rfl, fun _ => rfl⟩
  | cons pod pods ih =>
      obtain ⟨hpod, hrest⟩ := List.forall_mem_cons.1 hcut
      obtain ⟨t, ht, hlisted⟩ := ih hrest
        (setContainerPIDs s (podName pod) (host.firstPIDs 8 pod)).1
      refine ⟨t, ?_, fun name => ?_⟩
      · rw [PodPids.init, List.foldlM_cons, initPod_eq_firstPIDs host s hpod]
        exact ht
      · rw [hlisted, pidsOf_setContainerPIDs, listed, listed, List.foldl_cons]
        simp only [eq_comm]

/-- An event stores what it has found under its name. -/
theorem pidsOf_step (host : Host) (pods : List Pod) {h : List Event} {s : ContainerPID}
    (hs : ∀ name, pidsOf s name = found host pods h name) (e : Event) :
    ∃ t, step s e = some t ∧ ∀ name, pidsOf t name = found host pods (e :: h) name := by
  cases e with
  | updated host' oldObj newObj =>
      cases oldObj with
      | none => exact ⟨s, rfl, hs⟩
      | some pod =>
          cases newObj with
          | none =>
              refine ⟨s, ?_, hs⟩
              rw [step, objectUpdated, PodPids.foldlM_updateRound]
              rfl
          | some updateEvent =>
              refine ⟨_, objectUpdated_eq_firstPIDs host' s pod updateEvent, fun name => ?_⟩
              rw [pidsOf_setContainerPIDs, hs, found]
              simp only [eq_comm]
  | deleted obj =>
      cases obj with
      | none => exact ⟨s, rfl, hs⟩
      | some deleteEvent =>
          refine ⟨_, rfl, fun name => ?_⟩
          rw [objectDeleted, pidsOf_setContainerPIDs, hs, found]
          simp only [eq_comm]

/-- **The store has what the latest event for a name has found.**  With ids that are not cut
inside their prefix the listing does not panic, no later event does, and after any of them
the PIDs of a name are the first processes of the cgroups that there were at the latest
event for that name. -/
theorem pidsOf_of_run (host : Host) {pods : List Pod} (hcut : ∀ pod ∈ pods, Cut pod) :
    ∃ s₀, PodPids.init (getPodPID host.podMeta host.files) ∅ pods = some s₀ ∧
      ∀ h, ∃ s, run step s₀ h = some s ∧ ∀ name, pidsOf s name = found host pods h name := by
  obtain ⟨s₀, hinit, hlisted⟩ := pidsOf_of_init host hcut ∅
  refine ⟨s₀, hinit, fun h => ?_⟩
  induction h with
  | nil => exact ⟨s₀, rfl, hlisted⟩
  | cons e h ih =>
      obtain ⟨s, hrun, hs⟩ := ih
      obtain ⟨t, ht, hfound⟩ := pidsOf_step host pods hs e
      exact ⟨t, run_cons_of_step hrun ht, hfound⟩

/-- One pod with the id "docker://7f". -/
theorem pidsOf_of_run_docker :
    ∃ s₀, PodPids.init (getPodPID (fun _ => ⟨"BestEffort", "c0"⟩)
        (Host.files ⟨fun _ => ⟨"BestEffort", "c0"⟩, fun _ => some [4242, 4243]⟩)) ∅
        [PodPids.podOf [100, 111, 99, 107, 101, 114, 58, 47, 47, 55, 102]] = some s₀ ∧
      ∀ h, ∃ s, run step s₀ h = some s ∧ ∀ name, pidsOf s name =
        found ⟨fun _ => ⟨"BestEffort", "c0"⟩, fun _ => some [4242, 4243]⟩
          [PodPids.podOf [100, 111, 99, 107, 101, 114, 58, 47, 47, 55, 102]] h name := by
  refine pidsOf_of_run ⟨fun _ => ⟨"BestEffort", "c0"⟩, fun _ => some [4242, 4243]⟩ ?_
  intro pod hpod c hc
  rw [List.mem_singleton.1 hpod] at hc
  rw [List.mem_singleton.1 hc]
  exact Or.inr (by decide)

end Kmon.Ports.CgroupPids
