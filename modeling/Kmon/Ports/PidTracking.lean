import Kmon.Verified.Run
import Kmon.Ports.PidListener

/-!
# What the PID listener tracks over a run of calls

Every collector builds its listener with an empty `ListenConfig` and then calls
`OnConfigChange` (`setupTcpreqBCC` and `StartTcpreq`, and their four siblings).
A run is any sequence of later `OnConfigChange` and `SetContainerPIDs` calls,
each completed, with its listener callback and its notifications, before the
next one starts.

`OnConfigChange` never stores the configuration in the listener, so the callback
for container changes goes on ranging over the empty `K8sGroup` the listener was
built with.  The set is therefore the one of the last configuration change, and
`everyState_tracks_iff` says when that is still right: exactly when no container
change in between alters what is to be watched.
-/

namespace Kmon.Ports.PidTracking

open Kmon.Verified
open Kmon.Verified.Run
open Kmon.Ports.Config
open Kmon.Ports.InfoStore
open Kmon.Ports.PidListener

/-- A collector's listener between two calls, with the container store, the
`ListenConfig` part of `collector.conf`, and the set that a consumer of `AddCh`
and `DelCh` holds. -/
structure Listening where
  containerPID : ContainerPID
  conf : ListenConfig
  lis : PIDLis
  held : Finset Int

/-- The calls of a run. -/
inductive Call where
  | onConfigChange (conf : ListenConfig)
  | setContainerPIDs (name : String) (pids : List Int)

section MatchString

variable (matchString : String → String → Bool)

/-- One completed call. -/
def step (s : Listening) : Call → Option Listening
  | .onConfigChange conf =>
      let changed := onConfigChange matchString s.containerPID s.lis conf
      some { s with
        conf := conf
        lis := changed.1
        held := deliver changed.2 s.held }
  | .setContainerPIDs name pids =>
      let stored := setContainerPIDs s.containerPID name pids
      (containerChanged matchString s.lis stored.2).map fun changed =>
        { s with
          containerPID := stored.1
          lis := changed.1
          held := changed.2.foldl (fun held delta => deliver delta held) s.held }

/-- A collector after its first `onConfigChange(conf)`, over the containers the
store holds at that moment. -/
def start (containerPID : ContainerPID) (conf : ListenConfig) : Listening :=
  let changed := onConfigChange matchString containerPID (newPIDLis ListenConfig.zero) conf
  { containerPID := containerPID
    conf := conf
    lis := changed.1
    held := deliver changed.2 ∅ }

/-- The listener and its consumer agree with the configuration and the store. -/
structure Tracks (s : Listening) : Prop where
  listener : s.lis.tracked = watched matchString s.containerPID s.conf
  consumer : s.held = watched matchString s.containerPID s.conf

/-- A call that leaves the PIDs to be watched as they are, or computes the
listener anew: for a container that matches, its new PIDs are watched already,
and each PID it gives up stays watched through `PIDGroup` or through another
matching container. -/
def KeepsWatched (s : Listening) : Call → Prop
  | .onConfigChange _ => True
  | .setContainerPIDs name pids =>
      (∃ re ∈ s.conf.K8sGroup, matchString re name = true) →
        (∀ pid ∈ pids, pid ∈ watched matchString s.containerPID s.conf) ∧
        ∀ pid ∈ pidsOf s.containerPID name,
          pid ∈ pids ∨ pid ∈ s.conf.PIDGroup ∨
            ∃ other, other ≠ name ∧
              (∃ re ∈ s.conf.K8sGroup, matchString re other = true) ∧
              pid ∈ pidsOf s.containerPID other

variable {matchString}

/-! ## The watched set over a container change -/

/-- Split the watched set at one container name. -/
theorem mem_watched_split {containerPID : ContainerPID} {conf : ListenConfig}
    {pid : Int} (name : String) :
    pid ∈ watched matchString containerPID conf ↔
      (pid ∈ conf.PIDGroup ∨ ∃ other, other ≠ name ∧
        (∃ re ∈ conf.K8sGroup, matchString re other = true) ∧
        pid ∈ pidsOf containerPID other) ∨
      (∃ re ∈ conf.K8sGroup, matchString re name = true) ∧
        pid ∈ pidsOf containerPID name := by
  rw [mem_watched]
  constructor
  · rintro (h | ⟨other, hmatch, hpid⟩)
    · exact Or.inl (Or.inl h)
    · by_cases ho : other = name
      · subst ho
        exact Or.inr ⟨hmatch, hpid⟩
      · exact Or.inl (Or.inr ⟨other, ho, hmatch, hpid⟩)
  · rintro ((h | ⟨other, -, hmatch, hpid⟩) | ⟨hmatch, hpid⟩)
    · exact Or.inl h
    · exact Or.inr ⟨other, hmatch, hpid⟩
    · exact Or.inr ⟨name, hmatch, hpid⟩

/-- The same split after `SetContainerPIDs` on that name: only the last part is
about the new list. -/
theorem mem_watched_setContainerPIDs {containerPID : ContainerPID}
    {conf : ListenConfig} {pid : Int} (name : String) (pids : List Int) :
    pid ∈ watched matchString (setContainerPIDs containerPID name pids).1 conf ↔
      (pid ∈ conf.PIDGroup ∨ ∃ other, other ≠ name ∧
        (∃ re ∈ conf.K8sGroup, matchString re other = true) ∧
        pid ∈ pidsOf containerPID other) ∨
      (∃ re ∈ conf.K8sGroup, matchString re name = true) ∧ pid ∈ pids := by
  rw [mem_watched_split name, pidsOf_setContainerPIDs, if_pos rfl]
  have hothers : ∀ other, (other ≠ name ∧
      (∃ re ∈ conf.K8sGroup, matchString re other = true) ∧
      pid ∈ pidsOf (setContainerPIDs containerPID name pids).1 other) ↔
      (other ≠ name ∧ (∃ re ∈ conf.K8sGroup, matchString re other = true) ∧
        pid ∈ pidsOf containerPID other) := by
    intro other
    refine and_congr_right fun ho => ?_
    rw [pidsOf_setContainerPIDs, if_neg ho]
  simp only [hothers]

/-- A container change alters the watched set unless it meets the condition. -/
theorem watched_setContainerPIDs_eq_iff (s : Listening) (name : String) (pids : List Int) :
    watched matchString s.containerPID s.conf =
        watched matchString (setContainerPIDs s.containerPID name pids).1 s.conf ↔
      KeepsWatched matchString s (.setContainerPIDs name pids) := by
  constructor
  · intro heq hmatch
    constructor
    · intro pid hpid
      rw [heq]
      exact (mem_watched_setContainerPIDs name pids).2 (Or.inr ⟨hmatch, hpid⟩)
    · intro pid hpre
      have hold : pid ∈ watched matchString s.containerPID s.conf :=
        (mem_watched_split name).2 (Or.inr ⟨hmatch, hpre⟩)
      rw [heq] at hold
      rcases (mem_watched_setContainerPIDs name pids).1 hold with hrest | ⟨-, hpid⟩
      · exact Or.inr hrest
      · exact Or.inl hpid
  · intro hkeep
    ext pid
    by_cases hmatch : ∃ re ∈ s.conf.K8sGroup, matchString re name = true
    · obtain ⟨hnew, hgone⟩ := hkeep hmatch
      constructor
      · intro hold
        rw [mem_watched_setContainerPIDs]
        rcases (mem_watched_split name).1 hold with hrest | ⟨-, hpre⟩
        · exact Or.inl hrest
        · rcases hgone pid hpre with hpid | hrest
          · exact Or.inr ⟨hmatch, hpid⟩
          · exact Or.inl hrest
      · intro hpost
        rcases (mem_watched_setContainerPIDs name pids).1 hpost with hrest | ⟨-, hpid⟩
        · exact (mem_watched_split name).2 (Or.inl hrest)
        · exact hnew pid hpid
    · rw [mem_watched_split name, mem_watched_setContainerPIDs]
      simp only [hmatch, false_and, or_false]

/-! ## One call -/

/-- What holds after every call whatever the containers do: the listener was
built without expressions, and its consumer holds what it tracks. -/
structure Settled (s : Listening) : Prop where
  noExpressions : s.lis.conf.K8sGroup = []
  consumer : s.held = s.lis.tracked

/-- A consumer that holds what the listener tracks still does so after it has
received the notifications of a configuration change. -/
theorem deliver_onConfigChange (containerPID : ContainerPID) (c : PIDLis)
    (conf : ListenConfig) :
    deliver (onConfigChange matchString containerPID c conf).2 c.tracked =
      (onConfigChange matchString containerPID c conf).1.tracked := by
  ext pid
  rw [mem_deliver, tracked_onConfigChange, lookup_onConfigChange_delta]
  by_cases hw : pid ∈ watched matchString containerPID conf
  · simp [hw]
  · by_cases ht : pid ∈ c.tracked <;> simp [hw, ht]

theorem start_settled (containerPID : ContainerPID) (conf : ListenConfig) :
    Settled (start matchString containerPID conf) where
  noExpressions := rfl
  consumer := deliver_onConfigChange containerPID (newPIDLis ListenConfig.zero) conf

theorem start_tracks (containerPID : ContainerPID) (conf : ListenConfig) :
    Tracks matchString (start matchString containerPID conf) where
  listener := tracked_onConfigChange (newPIDLis ListenConfig.zero) conf
  consumer := (start_settled containerPID conf).consumer.trans
    (tracked_onConfigChange (newPIDLis ListenConfig.zero) conf)

/-- The callback for container changes does nothing, so such a call changes the
store alone. -/
theorem step_setContainerPIDs {s : Listening} (hs : Settled s) (name : String)
    (pids : List Int) :
    step matchString s (.setContainerPIDs name pids) =
      some { s with containerPID := (setContainerPIDs s.containerPID name pids).1 } := by
  simp only [step]
  rw [containerChanged_of_nil matchString s.lis _ hs.noExpressions]
  rfl

theorem step_settled {s t : Listening} {e : Call} (hs : Settled s)
    (he : step matchString s e = some t) : Settled t := by
  cases e with
  | onConfigChange conf =>
      cases he
      refine ⟨?_, ?_⟩
      · rw [← hs.noExpressions]
        exact congrArg ListenConfig.K8sGroup (onConfigChange_conf s.lis conf)
      · simp only [hs.consumer]
        exact deliver_onConfigChange s.containerPID s.lis conf
  | setContainerPIDs name pids =>
      rw [step_setContainerPIDs hs] at he
      cases he
      exact ⟨hs.noExpressions, hs.consumer⟩

/-- From a state that is right, a call leads to one that is right exactly when it
meets the condition. -/
theorem step_tracks_iff {s t : Listening} {e : Call} (hs : Settled s)
    (htracks : Tracks matchString s) (he : step matchString s e = some t) :
    Tracks matchString t ↔ KeepsWatched matchString s e := by
  have ht := step_settled hs he
  cases e with
  | onConfigChange conf =>
      cases he
      have hlis : (onConfigChange matchString s.containerPID s.lis conf).1.tracked =
          watched matchString s.containerPID conf := tracked_onConfigChange s.lis conf
      exact ⟨fun _ => trivial, fun _ => ⟨hlis, ht.consumer.trans hlis⟩⟩
  | setContainerPIDs name pids =>
      rw [step_setContainerPIDs hs] at he
      cases he
      rw [← watched_setContainerPIDs_eq_iff]
      exact ⟨fun h => htracks.listener.symm.trans h.listener,
        fun h => ⟨htracks.listener.trans h, htracks.consumer.trans h⟩⟩

/-! ## Every run -/

/-- **The listener is right in every state of a run exactly when no call of the
run changes the PIDs of a matching container in a way that alters the watched
set.** -/
theorem everyState_tracks_iff (matchString : String → String → Bool)
    (containerPID : ContainerPID) (conf : ListenConfig) (calls : List Call) :
    EveryState (step matchString) (start matchString containerPID conf)
        (fun _ => Tracks matchString) calls ↔
      Guarded (step matchString) (start matchString containerPID conf)
        (KeepsWatched matchString) calls := by
  refine everyState_iff_guarded (I := fun _ => Settled) ?_ (start_tracks containerPID conf)
    (fun _ _ _ _ hs htracks he => step_tracks_iff hs htracks he) ?_ calls
  · exact run_invariant (start_settled containerPID conf)
      fun _ _ _ _ _ hs he => step_settled hs he
  · intro _ s e hs hnone
    cases e with
    | onConfigChange conf => cases hnone
    | setContainerPIDs name pids =>
        rw [step_setContainerPIDs hs] at hnone
        cases hnone

/-- A container that starts after the configuration was read and matches one of
its expressions is not watched. -/
theorem new_container_not_tracked :
    ¬ EveryState (step fun _ _ => true) (start (fun _ _ => true) ∅ ⟨[], [".+/*"]⟩)
        (fun _ => Tracks fun _ _ => true) [.setContainerPIDs "default/web" [4242]] := by
  rintro ⟨-, hlast⟩
  have htracks := (hlast _ rfl).listener
  revert htracks
  decide

end MatchString

end Kmon.Ports.PidTracking
