import Kmon.Ports.ListenerOrder
import Kmon.Ports.PidTracking

/-!
# What the deltas of the listener announce

Either path of a `PIDLis` ends in `notifyChange`, which announces every entry of a delta
once, on `AddCh` or on `DelCh` (`src/collector/utils/pid.go`).

The function for container changes takes the previous PIDs out of `containerSet` itself,
so none of them gets into its delta as deleted, and a PID that is in both lists counts as
new.  It never looks at `pidSet`.  `announcesDifference_iff`: the announcements amount to
the difference of the two lists exactly when `PIDGroup` lists every PID the container had
and none that it has now.

`onConfigChange_sound` is about the other path, with every loop over a map in an order of
its own: the delta takes a consumer from what was tracked to what is tracked now.
-/

namespace Kmon.Ports.ListenerDeltas

open Kmon.Verified
open Kmon.Verified.Run
open Kmon.Ports.Config
open Kmon.Ports.InfoStore
open Kmon.Ports.PidListener
open Kmon.Ports.ListenerOrder (Containers PairwiseDisjoint verdict getD_verdict
  mem_keys_of_mem_pidsOf mem_matching_setContainerPIDs)

/-! ## A container change -/

/-- The store, and a listener whose calls are completed. -/
structure Listening where
  containers : Containers
  lis : PIDLis

/-- The arguments of `SetContainerPIDs`. -/
structure Change where
  name : String
  pids : List Int

/-- What `SetContainerPIDs` does to the store and tells the listeners. -/
def Change.stored (change : Change) (containerPID : ContainerPID) :
    ContainerPID × ContainerChange :=
  setContainerPIDs containerPID change.name change.pids

section MatchString

variable (matchString : String → String → Bool)

/-- A call of `SetContainerPIDs` and of the listener; the containers go on sharing no
PID. -/
def step (s : Listening) (change : Change) : Option Listening :=
  let stored := change.stored s.containers.containerPID
  if h : PairwiseDisjoint stored.1 then
    (containerChanged matchString s.lis stored.2).map fun r => ⟨⟨stored.1, h⟩, r.1⟩
  else none

/-- A listener that `NewPIDLis` has built, after `OnConfigChange` with the configuration
it was built with. -/
def configured (conf : ListenConfig) (containers : Containers) : Listening where
  containers := containers
  lis := (onConfigChange matchString containers.containerPID (newPIDLis conf) conf).1

/-- The deltas amount to the difference the change makes to a listener `c`. -/
structure Difference (c c' : PIDLis) (change : ContainerChange) (deltas : List Delta) :
    Prop where
  added : ∀ pid, told deltas pid true =
    if pid ∈ change.curPID ∧ pid ∉ c.containers ∧ pid ∉ c.pidSet then 1 else 0
  deleted : ∀ pid, told deltas pid false =
    if pid ∈ change.prePID ∧ pid ∉ change.curPID ∧ pid ∉ c.pidSet then 1 else 0
  containers : c'.containers = c.containers \ change.prePID.toFinset ∪ change.curPID.toFinset

/-- The deltas announce nothing, and the listener is as before. -/
structure Unconcerned (c c' : PIDLis) (deltas : List Delta) : Prop where
  announced : ∀ pid state, told deltas pid state = 0
  containers : c'.containers = c.containers

/-- The listener announces the difference, or nothing if no expression matches. -/
def AnnouncesDifference (c : PIDLis) (change : ContainerChange) : Prop :=
  ∃ c' deltas, containerChanged matchString c change = some (c', deltas) ∧
    ((∃ re ∈ c.conf.K8sGroup, matchString re change.name = true) →
      Difference c c' change deltas) ∧
    ((¬ ∃ re ∈ c.conf.K8sGroup, matchString re change.name = true) →
      Unconcerned c c' deltas)

/-- The condition: if an expression matches, `PIDGroup` lists every PID the container had
and none that it has now. -/
def FixedBefore (conf : ListenConfig) (change : ContainerChange) : Prop :=
  (∃ re ∈ conf.K8sGroup, matchString re change.name = true) →
    (∀ pid ∈ change.prePID, pid ∈ conf.PIDGroup) ∧ ∀ pid ∈ change.curPID, pid ∉ conf.PIDGroup

variable {matchString} {conf : ListenConfig} {containers : Containers} {s t : Listening}
  {change : Change}

/-- What holds before every change: the listener tracks what it is to track. -/
structure Synced (matchString : String → String → Bool) (conf : ListenConfig)
    (s : Listening) : Prop where
  kept : s.lis.conf = conf
  pidSet : s.lis.pidSet = conf.PIDGroup.toFinset
  containerSet : s.lis.containerSet =
    some (matching matchString s.containers.containerPID conf.K8sGroup)

theorem synced_configured : Synced matchString conf (configured matchString conf containers) where
  kept := onConfigChange_conf (newPIDLis conf) conf
  pidSet := onConfigChange_pidSet (newPIDLis conf) conf
  containerSet := onConfigChange_containerSet (newPIDLis conf) conf

theorem synced_step (hs : Synced matchString conf s)
    (he : step matchString s change = some t) : Synced matchString conf t := by
  simp only [step] at he
  split at he
  · rename_i hdisjoint
    obtain ⟨c', deltas, hchanged, happlied⟩ := containerChanged_applied matchString
      hs.containerSet (change.stored s.containers.containerPID).2
    obtain ⟨c'', deltas', hchanged', -, set, hset, hmem⟩ := containerChanged_of_some matchString
      hs.containerSet (change.stored s.containers.containerPID).2
    rw [hchanged] at he hchanged'
    cases hchanged'
    cases he
    refine ⟨?_, ?_, ?_⟩
    · rw [happlied.listener]
      exact hs.kept
    · rw [happlied.listener]
      exact hs.pidSet
    · show c'.containerSet = _
      rw [hset, Option.some.injEq]
      ext pid
      show _ ↔ pid ∈ matching matchString
        (setContainerPIDs s.containers.containerPID change.name change.pids).1 conf.K8sGroup
      rw [hmem, mem_matching_setContainerPIDs, getD_verdict, decide_eq_true_iff, hs.kept]
      rfl
  · cases he

theorem synced_of_run : ∀ h s, run (step matchString) (configured matchString conf containers) h =
    some s → Synced matchString conf s :=
  run_invariant (I := fun _ => Synced matchString conf) synced_configured
    fun _ _ _ _ _ hs he => synced_step hs he

/-- A current PID that is tracked already is one of the container's own: the others do
not share it. -/
theorem mem_prePID_of_tracked
    (hdisjoint : PairwiseDisjoint (change.stored s.containers.containerPID).1) {pid : Int}
    (hcur : pid ∈ change.pids)
    (hin : pid ∈ matching matchString s.containers.containerPID conf.K8sGroup) :
    pid ∈ pidsOf s.containers.containerPID change.name := by
  obtain ⟨other, -, hother⟩ := mem_matching_iff.1 hin
  have hpids := pidsOf_setContainerPIDs s.containers.containerPID change.name
  have hname : pid ∈ pidsOf (change.stored s.containers.containerPID).1 change.name := by
    rw [Change.stored, hpids, if_pos rfl]
    exact hcur
  by_cases heq : other = change.name
  · exact heq ▸ hother
  · have hother' : pid ∈ pidsOf (change.stored s.containers.containerPID).1 other := by
      rw [Change.stored, hpids, if_neg heq]
      exact hother
    exact absurd (Containers.eq_of_mem ⟨_, hdisjoint⟩ hother' hname) heq

/-- No expression matches. -/
theorem unconcerned_of_applied {c c' : PIDLis} {held : Finset Int} {notice : ContainerChange}
    {deltas : List Delta} (hset : c.containerSet = some held)
    (happlied : Applied c held notice 0 c' deltas) : Unconcerned c c' deltas where
  announced := fun pid state => by
    cases state with
    | true =>
        rw [happlied.added]
        split
        · split
          · rfl
          · split <;> rfl
        · rfl
    | false => exact happlied.deleted pid
  containers := by
    rw [happlied.listener, PIDLis.containers, PIDLis.containers, hset, if_pos rfl]

/-- Some expression matches, the previous PIDs are in the set, and of the current ones
only those. -/
theorem difference_iff_of_applied {c c' : PIDLis} {held : Finset Int} {notice : ContainerChange}
    {times : Nat} {deltas : List Delta} (hset : c.containerSet = some held)
    (happlied : Applied c held notice times c' deltas) (htimes : times ≠ 0)
    (hheld : ∀ pid ∈ notice.prePID, pid ∈ held)
    (hown : ∀ pid ∈ notice.curPID, pid ∈ held → pid ∈ notice.prePID) :
    Difference c c' notice deltas ↔
      (∀ pid ∈ notice.prePID, pid ∈ c.pidSet) ∧ ∀ pid ∈ notice.curPID, pid ∉ c.pidSet := by
  have hcontainers : c.containers = held := by rw [PIDLis.containers, hset, Option.getD_some]
  constructor
  · intro hdiff
    -- nothing is announced as deleted, so nothing may have to be
    have hgone : ∀ pid ∈ notice.prePID, pid ∈ notice.curPID ∨ pid ∈ c.pidSet := by
      intro pid hpre
      have hdeleted := hdiff.deleted pid
      rw [happlied.deleted] at hdeleted
      by_contra hneither
      rw [not_or] at hneither
      rw [if_pos ⟨hpre, hneither.1, hneither.2⟩] at hdeleted
      cases hdeleted
    have hapart : ∀ pid ∈ notice.curPID, pid ∉ notice.prePID := by
      intro pid hcur hpre
      have hadded := hdiff.added pid
      rw [happlied.added, if_pos hcur, if_pos hpre, hcontainers,
        if_neg fun h => h.2.1 (hheld pid hpre)] at hadded
      exact htimes hadded
    refine ⟨fun pid hpre => ?_, fun pid hcur hfixed => ?_⟩
    · rcases hgone pid hpre with hcur | hfixed
      · exact absurd hpre (hapart pid hcur)
      · exact hfixed
    · have hadded := hdiff.added pid
      rw [happlied.added, if_pos hcur, if_neg (hapart pid hcur),
        if_neg fun hin => hapart pid hcur (hown pid hcur hin),
        if_neg fun h => h.2.2 hfixed] at hadded
      omega
  · rintro ⟨hpreFixed, hcurFresh⟩
    have hapart : ∀ pid ∈ notice.curPID, pid ∉ notice.prePID :=
      fun pid hcur hpre => hcurFresh pid hcur (hpreFixed pid hpre)
    refine ⟨fun pid => ?_, fun pid => ?_, ?_⟩
    · rw [happlied.added]
      by_cases hcur : pid ∈ notice.curPID
      · have hout : pid ∉ held := fun hin => hapart pid hcur (hown pid hcur hin)
        rw [if_pos hcur, if_neg (hapart pid hcur), if_neg hout,
          if_pos ⟨hcur, hcontainers ▸ hout, hcurFresh pid hcur⟩]
        omega
      · rw [if_neg hcur, if_neg fun h => hcur h.1]
    · rw [happlied.deleted, if_neg fun h => h.2.2 (hpreFixed pid h.1)]
    · rw [happlied.listener, hcontainers, PIDLis.containers, if_neg htimes, Option.getD_some]

/-- One change to a listener that tracks what it is to track. -/
theorem announcesDifference_iff_fixedBefore (hs : Synced matchString conf s)
    (hdisjoint : PairwiseDisjoint (change.stored s.containers.containerPID).1) :
    AnnouncesDifference matchString s.lis (change.stored s.containers.containerPID).2 ↔
      FixedBefore matchString conf (change.stored s.containers.containerPID).2 := by
  let notice := (change.stored s.containers.containerPID).2
  obtain ⟨c', deltas, hchanged, happlied⟩ := containerChanged_applied matchString
    hs.containerSet notice
  rw [hs.kept] at happlied
  have hfixed : ∀ pid, pid ∈ s.lis.pidSet ↔ pid ∈ conf.PIDGroup := by
    intro pid
    rw [hs.pidSet, List.mem_toFinset]
  by_cases hmatch : ∃ re ∈ conf.K8sGroup, matchString re notice.name = true
  · have hdiff : Difference s.lis c' notice deltas ↔ _ :=
      difference_iff_of_applied hs.containerSet happlied (List.countP_pos_iff.2 hmatch).ne'
        (fun pid hpre => mem_matching_iff.2 ⟨notice.name, hmatch, hpre⟩)
        (fun pid hcur hin => mem_prePID_of_tracked hdisjoint hcur hin)
    simp only [hfixed] at hdiff
    constructor
    · rintro ⟨c'', deltas', hchanged', hmatched, -⟩ -
      rw [hchanged] at hchanged'
      cases hchanged'
      exact hdiff.1 (hmatched (hs.kept ▸ hmatch))
    · intro hbefore
      exact ⟨c', deltas, hchanged, fun _ => hdiff.2 (hbefore hmatch),
        fun hnone => absurd (hs.kept ▸ hmatch) hnone⟩
  · have hzero : (conf.K8sGroup.countP fun re => matchString re notice.name) = 0 := by
      rw [List.countP_eq_zero]
      exact fun re hre hmatches => hmatch ⟨re, hre, hmatches⟩
    rw [hzero] at happlied
    refine iff_of_true ⟨c', deltas, hchanged, fun h => absurd (hs.kept ▸ h) hmatch, fun _ => ?_⟩
      fun h => absurd h hmatch
    exact unconcerned_of_applied hs.containerSet happlied

/-- **The announcements of a container change amount to the difference it makes exactly
when `PIDGroup` lists every PID the container had and none that it has now**, or no
expression matches.  After any earlier changes, for any number of expressions. -/
theorem announcesDifference_iff (matchString : String → String → Bool) (conf : ListenConfig)
    (containers : Containers) (earlier : List Change) (change : Change) (s : Listening)
    (hrun : run (step matchString) (configured matchString conf containers) earlier = some s)
    (hdisjoint : PairwiseDisjoint (change.stored s.containers.containerPID).1) :
    AnnouncesDifference matchString s.lis (change.stored s.containers.containerPID).2 ↔
      FixedBefore matchString conf (change.stored s.containers.containerPID).2 :=
  announcesDifference_iff_fixedBefore (synced_of_run earlier s hrun) hdisjoint

/-- A container that starts as PID 1, which `PIDGroup` lists, and goes on as PID 2. -/
theorem announcesDifference_listed_pid :
    let conf : ListenConfig := ⟨[1], ["web", ".*"]⟩
    let matchString : String → String → Bool := fun _ _ => true
    ∃ s, run (step matchString) (configured matchString conf ⟨∅, by decide⟩) [⟨"web", [1]⟩] =
        some s ∧
      AnnouncesDifference matchString s.lis
        (Change.stored ⟨"web", [2]⟩ s.containers.containerPID).2 := by
  intro conf matchString
  refine ⟨_, rfl, ?_⟩
  exact (announcesDifference_iff matchString conf ⟨∅, by decide⟩ [⟨"web", [1]⟩] ⟨"web", [2]⟩ _
    rfl (by decide)).2 (by unfold FixedBefore; decide)

/-- Container web runs PID 7 and is restarted as PID 8: PID 8 is announced as added, and
PID 7 is never announced as deleted. -/
theorem replaced_pid_not_deleted :
    let conf : ListenConfig := ⟨[], ["web"]⟩
    let matchString : String → String → Bool := fun re name => re = name
    let s := configured matchString conf ⟨GoMap.put [7] "web" ∅, by decide⟩
    PairwiseDisjoint (Change.stored ⟨"web", [8]⟩ s.containers.containerPID).1 ∧
      ¬ AnnouncesDifference matchString s.lis
        (Change.stored ⟨"web", [8]⟩ s.containers.containerPID).2 := by
  intro conf matchString s
  refine ⟨by decide, ?_⟩
  rintro ⟨c', deltas, hchanged, hmatched, -⟩
  have hdeleted := (hmatched (by decide)).deleted 7
  cases hchanged
  revert hdeleted
  decide

/-! ## A configuration change, in every order -/

/-- The orders in which one call of `OnConfigChange` meets the keys of `containerSet` and
of `pidSet`, and the slices `GetContainerPIDsMatchRegex` returns for the expressions,
whose order is that of the store. -/
structure RangeOrders (matchString : String → String → Bool) (containerPID : ContainerPID)
    (c : PIDLis) (conf : ListenConfig) where
  containers : List Int
  fixed : List Int
  matched : List (List Int)
  ranges_containers : (containers : Multiset Int) = c.containers.val
  ranges_fixed : (fixed : Multiset Int) = c.pidSet.val
  ranges_matched : matched.map Multiset.ofList =
    conf.K8sGroup.map (getContainerPIDsMatchRegex matchString containerPID)

variable (matchString) in
/-- `OnConfigChange`, loop by loop. -/
def onConfigChangeIn {containerPID : ContainerPID} (c : PIDLis) (conf : ListenConfig)
    (orders : RangeOrders matchString containerPID c conf) : PIDLis × Delta :=
  let delta : Delta := orders.containers.foldl (fun delta pid => delta.insert pid false) ∅
  let delta := orders.fixed.foldl (fun delta pid => delta.insert pid false) delta
  let fixed := conf.PIDGroup.foldl
    (fun st pid => (insert pid st.1, st.2.insert pid true)) ((∅ : Finset Int), delta)
  let dynamic := orders.matched.foldl
    (fun st pids => pids.foldl (fun st pid => (insert pid st.1, st.2.insert pid true)) st)
    ((∅ : Finset Int), fixed.2)
  ({ c with pidSet := fixed.1, containerSet := some dynamic.1 }, dynamic.2)

/-- The loop over the expressions comes to the same in every order of the slices. -/
theorem foldl_matched_eq_markMatching {containerPID : ContainerPID} (group : List String)
    (results : List (List Int))
    (hresults : results.map Multiset.ofList =
      group.map (getContainerPIDsMatchRegex matchString containerPID))
    (st : Finset Int × Delta) :
    results.foldl (fun st pids => pids.foldl (fun st pid => mark pid st) st) st =
      markMatching matchString containerPID group st := by
  induction group generalizing results st with
  | nil =>
      rw [List.map_nil, List.map_eq_nil_iff] at hresults
      rw [hresults]
      rfl
  | cons re group ih =>
      cases results with
      | nil => cases hresults
      | cons pids results =>
          rw [List.map_cons, List.map_cons, List.cons.injEq] at hresults
          rw [List.foldl_cons, ih results hresults.2, ← Multiset.coe_foldr_swap, hresults.1]
          rfl

/-- The order of the loops does not matter. -/
theorem onConfigChangeIn_eq {containerPID : ContainerPID} (c : PIDLis) (conf : ListenConfig)
    (orders : RangeOrders matchString containerPID c conf) :
    onConfigChangeIn matchString c conf orders =
      onConfigChange matchString containerPID c conf := by
  have hdeleted : ∀ (pids : List Int) (delta : Delta),
      pids.foldl (fun delta pid => delta.insert pid false) delta =
        (pids : Multiset Int).foldr (GoMap.put false) delta :=
    fun pids delta => (Multiset.coe_foldr_swap (GoMap.put false) delta pids).symm
  have hmarked : ∀ st, orders.matched.foldl (fun st pids => pids.foldl
      (fun st pid => (insert pid st.1, st.2.insert pid true)) st) st =
        markMatching matchString containerPID conf.K8sGroup st :=
    foldl_matched_eq_markMatching conf.K8sGroup orders.matched orders.ranges_matched
  unfold onConfigChangeIn onConfigChange
  simp only [hdeleted, hmarked, orders.ranges_containers, orders.ranges_fixed]
  rfl

/-- What a collector does to its control map with one notification: it sets the entry of
an added PID and deletes that of a deleted one. -/
def receiveEntry {ν : Type} (delta : Delta) (value : Int → ν) (control : GoMap Int ν)
    (pid : Int) : GoMap Int ν :=
  if delta.lookup pid = some true then control.insert pid (value pid) else control.erase pid

theorem keys_receiveEntry {ν : Type} (delta : Delta) (value : Int → ν) (control : GoMap Int ν)
    (pid : Int) : (receiveEntry delta value control pid).keys = receive delta pid control.keys := by
  ext pid'
  unfold receiveEntry receive
  split
  · rw [Finmap.mem_keys, Finmap.mem_insert, Finset.mem_insert, Finmap.mem_keys]
  · rw [Finmap.mem_keys, Finmap.mem_erase, Finset.mem_erase, Finmap.mem_keys]

theorem keys_foldl_receiveEntry {ν : Type} (delta : Delta) (value : Int → ν) (pids : List Int)
    (control : GoMap Int ν) :
    (pids.foldl (receiveEntry delta value) control).keys =
      pids.foldl (fun held pid => receive delta pid held) control.keys := by
  induction pids generalizing control with
  | nil => rfl
  | cons pid pids ih => rw [List.foldl_cons, List.foldl_cons, ih, keys_receiveEntry]

/-- **A configuration change computes a sound delta.**  From any listener, store and
configuration, in every order of the loops and of the notifications: both sets are those
of the configuration, no PID is announced twice, and a control map with the PIDs tracked
before ends up with those tracked now. -/
theorem onConfigChange_sound {ν : Type} (matchString : String → String → Bool)
    (containerPID : ContainerPID) (c : PIDLis) (conf : ListenConfig)
    (orders : RangeOrders matchString containerPID c conf)
    (notified : GoMap.RangeOrder (onConfigChangeIn matchString c conf orders).2)
    (value : Int → ν) (control : GoMap Int ν) (hcontrol : control.keys = c.tracked) :
    let changed := onConfigChangeIn matchString c conf orders
    changed.1.pidSet = conf.PIDGroup.toFinset ∧
      (∀ pid, pid ∈ changed.1.containers ↔
        ∃ name, (∃ re ∈ conf.K8sGroup, matchString re name = true) ∧
          pid ∈ pidsOf containerPID name) ∧
      notified.keys.Nodup ∧
      (notified.keys.foldl (receiveEntry changed.2 value) control).keys = changed.1.tracked := by
  intro changed
  have hchanged : changed = onConfigChange matchString containerPID c conf :=
    onConfigChangeIn_eq c conf orders
  refine ⟨?_, fun pid => ?_, ?_, ?_⟩
  · rw [hchanged, onConfigChange_pidSet]
  · rw [hchanged, PIDLis.containers, onConfigChange_containerSet, Option.getD_some,
      mem_matching_iff]
  · exact notified.nodup
  · rw [keys_foldl_receiveEntry, hcontrol,
      ← GoMap.rangeKeys_eq_foldl changed.2 (receive changed.2) c.tracked notified.ranges, hchanged]
    exact PidTracking.deliver_onConfigChange containerPID c conf

/-- PID 1 stays, now as a fixed one, PID 2 goes and PID 3 comes. -/
theorem onConfigChange_sound_three_pids :
    let c : PIDLis := ⟨⟨[], []⟩, some {1}, {2}⟩
    let orders : RangeOrders (fun _ _ => true) (GoMap.put [3] "web" ∅) c ⟨[1, 1], ["web"]⟩ :=
      ⟨[1], [2], [[3]], rfl, rfl, by decide⟩
    let changed := onConfigChangeIn (fun _ _ => true) c ⟨[1, 1], ["web"]⟩ orders
    ([2, 1, 3].foldl (receiveEntry changed.2 fun _ => ())
      (GoMap.put () 1 (GoMap.put () 2 ∅))).keys = changed.1.tracked := by
  intro c orders changed
  exact (onConfigChange_sound (fun _ _ => true) (GoMap.put [3] "web" ∅) c ⟨[1, 1], ["web"]⟩
    orders ⟨[2, 1, 3], by decide⟩ (fun _ => ()) (GoMap.put () 1 (GoMap.put () 2 ∅))
    (by decide)).2.2.2

end MatchString

end Kmon.Ports.ListenerDeltas
