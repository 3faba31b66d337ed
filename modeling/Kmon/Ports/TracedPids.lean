import Kmon.Ports.CgroupPids
import Kmon.Ports.NotifyOrder

/-!
# From the cgroups of the pods to the control map of a probe

The container provider stores the PIDs it reads from the cgroups (`CgroupPids`), a
configuration change reads them from the store, the listener announces them, and the signal
loop of the collector puts them into `control_map` (`NotifyOrder`).  Here all of that runs
at once: pods are updated and deleted while `OnConfigChange` looks up its expressions, the
goroutines of `notifyChange` send and the loop receives.

`OnConfigChange` holds the mutex of the listener and is called by the loop that receives,
so that neither another call nor a receive falls into it.  The store is locked for each
expression anew: a pod may come, go or change between two of them.  Where nothing changes
in between, the call does what `PidListener.onConfigChange` does (`run_onConfigChange`).

The function that `NewPIDLis` registers for container changes is part of it, and may be
called with any change at any time.  The collectors build their listener with an empty
`ListenConfig`, so that it finds no expression and does nothing.

What the probe traces is then a function of the history (`Traced`): for each expression of
the latest configuration what the store had when it was looked up, and no pod event after
it.  The control map agrees with it whatever the interleaving, if no configuration change
drops a PID (`control_iff_traced`).  `control_map` takes every PID here; what becomes of one
that finds it full is left open (`ControlValues` has it).
-/

namespace Kmon.Ports.TracedPids

open Kmon.Verified
open Kmon.Verified.Run
open Kmon.Ports.Config
open Kmon.Ports.InfoStore
open Kmon.Ports.PodPids (Pod podName)
open Kmon.Ports.PidListener
open Kmon.Ports.CgroupPids
open Kmon.Ports.NotifyOrder (Notifying Move OnlyAdds Announces Delivered fresh uint32
  onlyAdds_fresh step_send)

/-! ## The machine -/

/-- A call of `OnConfigChange` that has set `pidSet`: what `containerSet` and `delta` are so
far, and the expressions that are still to be looked up. -/
structure Configuring where
  pidSet : Finset Int
  marked : Finset Int × Delta
  group : List String

/-- `OnConfigChange` up to the loop over the expressions. -/
def beginConfigChange (c : PIDLis) (conf : ListenConfig) : Configuring :=
  let delta : Delta := c.containers.val.foldr (GoMap.put false) ∅
  let delta := c.pidSet.val.foldr (GoMap.put false) delta
  let fixed := conf.PIDGroup.foldl (fun st pid => mark pid st) (∅, delta)
  ⟨fixed.1, (∅, fixed.2), conf.K8sGroup⟩

/-- What is behind the loop: the new listener, and the delta of the deferred call. -/
def endConfigChange (c : PIDLis) (r : Configuring) : PIDLis × Delta :=
  ({ c with pidSet := r.pidSet, containerSet := some r.marked.1 }, r.marked.2)

/-- The container store, and the listener of a collector with its goroutines, its control
map, and the call of `OnConfigChange` under way. -/
structure Tracing where
  containerPID : ContainerPID
  notifying : Notifying
  configuring : Option Configuring

/-- The steps of a run. -/
inductive Event where
  | pod (e : CgroupPids.Event)
  | containerChanged (change : ContainerChange)
  | beginConfigChange (conf : ListenConfig)
  | lookUp (re : String)
  | endConfigChange
  | send (i : Nat) (pid : Int)
  | receive (added : Bool)

/-- A receive from `AddCh` or `DelCh`, as a move of `NotifyOrder`. -/
def received (added : Bool) : Move := if added then .receiveAdd else .receiveDel

def step (matchString : String → String → Bool) (s : Tracing) : Event → Option Tracing
  | .pod e => (CgroupPids.step s.containerPID e).map fun c => { s with containerPID := c }
  | .containerChanged change =>
      (PidListener.containerChanged matchString s.notifying.lis change).map fun changed =>
        { s with
          notifying :=
            { s.notifying with
              lis := changed.1
              senders := s.notifying.senders ++ changed.2 } }
  | .beginConfigChange conf =>
      if s.configuring.isNone then
        some { s with configuring := some (beginConfigChange s.notifying.lis conf) }
      else none
  | .lookUp re =>
      match s.configuring with
      | some ⟨pidSet, marked, re' :: group⟩ =>
          if re' = re then
            let pids := getContainerPIDsMatchRegex matchString s.containerPID re
            some { s with configuring := some ⟨pidSet, pids.foldr mark marked, group⟩ }
          else none
      | _ => none
  | .endConfigChange =>
      match s.configuring with
      | some ⟨pidSet, marked, []⟩ =>
          let changed := endConfigChange s.notifying.lis ⟨pidSet, marked, []⟩
          some { s with
            configuring := none
            notifying :=
              { s.notifying with
                lis := changed.1
                senders := s.notifying.senders ++ [changed.2] } }
      | _ => none
  | .send i pid =>
      (NotifyOrder.step matchString s.containerPID s.notifying (.send i pid)).map fun n =>
        { s with notifying := n }
  | .receive added =>
      if s.configuring.isNone then
        (NotifyOrder.step matchString s.containerPID s.notifying (received added)).map fun n =>
          { s with notifying := n }
      else none

/-- The collector has built its listener, over the containers of the store. -/
def built (containerPID : ContainerPID) : Tracing := ⟨containerPID, fresh, none⟩

/-! ## A call without anything in between -/

variable {matchString : String → String → Bool}

/-- The expressions, looked up one after the other. -/
theorem run_lookUp (containerPID : ContainerPID) (n : Notifying) (pidSet : Finset Int)
    (group : List String) (marked : Finset Int × Delta) :
    run (step matchString) ⟨containerPID, n, some ⟨pidSet, marked, group⟩⟩
        (group.reverse.map Event.lookUp) =
      some ⟨containerPID, n,
        some ⟨pidSet, markMatching matchString containerPID group marked, []⟩⟩ := by
  induction group generalizing marked with
  | nil => rfl
  | cons re group ih =>
      rw [List.reverse_cons, List.map_append, List.map_singleton, run_append]
      have hfirst : run (step matchString)
          ⟨containerPID, n, some ⟨pidSet, marked, re :: group⟩⟩ [.lookUp re] =
          some ⟨containerPID, n, some ⟨pidSet,
            (getContainerPIDsMatchRegex matchString containerPID re).foldr mark marked,
              group⟩⟩ := by
        rw [run_cons, run_nil, Option.bind_some]
        simp only [step, if_pos]
      rw [hfirst, Option.bind_some, ih]
      rfl

/-- A call with nothing in between is the step of `NotifyOrder`. -/
theorem run_onConfigChange (containerPID : ContainerPID) (n : Notifying) (conf : ListenConfig) :
    run (step matchString) ⟨containerPID, n, none⟩
        (.endConfigChange :: conf.K8sGroup.reverse.map Event.lookUp ++
          [.beginConfigChange conf]) =
      (NotifyOrder.step matchString containerPID n (.onConfigChange conf)).map fun n' =>
        ⟨containerPID, n', none⟩ := by
  have hbegin : run (step matchString) ⟨containerPID, n, none⟩ [.beginConfigChange conf] =
      some ⟨containerPID, n, some (beginConfigChange n.lis conf)⟩ := rfl
  rw [List.cons_append, run_cons, run_append_of_run hbegin (run_lookUp containerPID n _ _ _)]
  rfl

/-! ## What is to be traced -/

section History

variable (matchString : String → String → Bool) (host : Host) (pods : List Pod)

/-- What happened to the pods. -/
def podEvents : List Event → List CgroupPids.Event
  | [] => []
  | .pod e :: h => e :: podEvents h
  | _ :: h => podEvents h

/-- The PIDs that the latest configuration change has asked for so far: those it lists, and
for each expression that it has looked up the first processes that had then been found for
the containers it matches. -/
def AskedFor : List Event → Int → Prop
  | [], _ => False
  | .beginConfigChange conf :: _, pid => pid ∈ conf.PIDGroup
  | .lookUp re :: h, pid => AskedFor h pid ∨
      ∃ name, matchString re name = true ∧ pid ∈ found host pods (podEvents h) name
  | _ :: h, pid => AskedFor h pid

/-- The PIDs that the latest finished configuration change has asked for. -/
def Traced : List Event → Int → Prop
  | [], _ => False
  | .endConfigChange :: h, pid => AskedFor matchString host pods h pid
  | _ :: h, pid => Traced h pid

/-- No configuration change drops a PID. -/
def NeverDrops : List Event → Prop
  | [] => True
  | .endConfigChange :: h =>
      NeverDrops h ∧ ∀ pid, Traced matchString host pods h pid →
        AskedFor matchString host pods h pid
  | _ :: h => NeverDrops h

/-- A call of `OnConfigChange` has collected what it asked for, and announces it. -/
structure Collects (h : List Event) (lis : PIDLis) (r : Configuring) : Prop where
  asked : ∀ pid, pid ∈ (endConfigChange lis r).1.tracked ↔ AskedFor matchString host pods h pid
  announces : Announces lis (endConfigChange lis r).1 (endConfigChange lis r).2

/-- What holds at any moment of a run. -/
structure Follows (h : List Event) (s : Tracing) : Prop where
  store : ∀ name, pidsOf s.containerPID name = found host pods (podEvents h) name
  conf : s.notifying.lis.conf = ListenConfig.zero
  tracked : ∀ pid, pid ∈ s.notifying.lis.tracked ↔ Traced matchString host pods h pid
  collects : ∀ r, s.configuring = some r →
    Collects matchString host pods h s.notifying.lis r
  onlyAdds : NeverDrops matchString host pods h → OnlyAdds s.notifying

end History

variable {host : Host} {pods : List Pod} {h : List Event} {s t : Tracing}

theorem follows_built {containerPID : ContainerPID}
    (hstore : ∀ name, pidsOf containerPID name = found host pods [] name) :
    Follows matchString host pods [] (built containerPID) where
  store := hstore
  conf := rfl
  tracked pid := iff_of_false (Finset.notMem_empty pid) id
  collects r hr := by cases hr
  onlyAdds _ := onlyAdds_fresh

theorem Follows.pod (hs : Follows matchString host pods h s) {e : CgroupPids.Event}
    {c : ContainerPID} (he : CgroupPids.step s.containerPID e = some c) :
    Follows matchString host pods (.pod e :: h) { s with containerPID := c } where
  store name := by
    obtain ⟨t, ht, hfound⟩ := pidsOf_step host pods hs.store e
    rw [he] at ht
    cases ht
    exact hfound name
  conf := hs.conf
  tracked := hs.tracked
  collects r hr := ⟨(hs.collects r hr).asked, (hs.collects r hr).announces⟩
  onlyAdds := hs.onlyAdds

/-- The callback of the listener does nothing. -/
theorem Follows.containerChanged (hs : Follows matchString host pods h s)
    (change : ContainerChange) :
    PidListener.containerChanged matchString s.notifying.lis change =
      some (s.notifying.lis, []) := by
  refine containerChanged_of_nil matchString s.notifying.lis change ?_
  rw [hs.conf]
  rfl

/-- A call begins: it has collected the PIDs that are listed. -/
theorem Follows.beginConfigChange (hs : Follows matchString host pods h s)
    (conf : ListenConfig) :
    Follows matchString host pods (.beginConfigChange conf :: h)
      { s with configuring := some (TracedPids.beginConfigChange s.notifying.lis conf) } where
  store := hs.store
  conf := hs.conf
  tracked := hs.tracked
  collects r hr := by
    cases hr
    -- no expression has been looked up, as if there were none
    let fixed : ListenConfig := { conf with K8sGroup := [] }
    have htracked := @tracked_onConfigChange (fun _ _ => false) s.containerPID s.notifying.lis fixed
    have hdelta := @NotifyOrder.announces_onConfigChange (fun _ _ => false) s.containerPID
      s.notifying.lis fixed
    refine ⟨fun pid => ?_, hdelta⟩
    have hmem : pid ∈ (onConfigChange (fun _ _ => false) s.containerPID s.notifying.lis
        fixed).1.tracked ↔ pid ∈ conf.PIDGroup := by
      rw [htracked, watched, Finset.mem_union, mem_matching, List.mem_toFinset]
      simp [fixed]
    exact hmem
  onlyAdds := hs.onlyAdds

/-- An expression is looked up in the store as it is. -/
theorem Collects.lookUp {lis : PIDLis} {pidSet : Finset Int} {marked : Finset Int × Delta}
    {re : String} {group : List String} {containerPID : ContainerPID}
    (hr : Collects matchString host pods h lis ⟨pidSet, marked, re :: group⟩)
    (hstore : ∀ name, pidsOf containerPID name = found host pods (podEvents h) name) :
    Collects matchString host pods (.lookUp re :: h) lis
      ⟨pidSet, (getContainerPIDsMatchRegex matchString containerPID re).foldr mark marked,
        group⟩ := by
  have hfound : ∀ pid, pid ∈ getContainerPIDsMatchRegex matchString containerPID re ↔
      ∃ name, matchString re name = true ∧ pid ∈ found host pods (podEvents h) name := by
    intro pid
    rw [mem_getContainerPIDsMatchRegex]
    simp only [hstore]
  have htracked : ∀ pid, pid ∈ (endConfigChange lis ⟨pidSet,
      (getContainerPIDsMatchRegex matchString containerPID re).foldr mark marked, group⟩).1.tracked ↔
      pid ∈ (endConfigChange lis ⟨pidSet, marked, re :: group⟩).1.tracked ∨
        pid ∈ getContainerPIDsMatchRegex matchString containerPID re := by
    intro pid
    simp only [PIDLis.mem_tracked, PIDLis.containers, endConfigChange, Option.getD_some,
      mem_foldr_mark]
    tauto
  constructor
  · intro pid
    rw [htracked, hr.asked, hfound]
    rfl
  · intro pid
    have hold := hr.announces pid
    simp only [htracked]
    have hdelta : (endConfigChange lis ⟨pidSet, (getContainerPIDsMatchRegex matchString
        containerPID re).foldr mark marked, group⟩).2.lookup pid =
        if pid ∈ getContainerPIDsMatchRegex matchString containerPID re then some true
        else (endConfigChange lis ⟨pidSet, marked, re :: group⟩).2.lookup pid :=
      lookup_foldr_mark ..
    rw [hdelta]
    by_cases hnew : pid ∈ getContainerPIDsMatchRegex matchString containerPID re
    · simp only [hnew, if_true, or_true]
    · simp only [hnew, if_false, or_false]
      exact hold

theorem Follows.lookUp (hs : Follows matchString host pods h s) {re : String}
    (he : step matchString s (.lookUp re) = some t) :
    Follows matchString host pods (.lookUp re :: h) t := by
  simp only [step] at he
  split at he
  · rename_i pidSet marked re' group hr
    split at he
    · rename_i hre
      subst hre
      cases he
      refine ⟨hs.store, hs.conf, hs.tracked, fun r hr' => ?_, hs.onlyAdds⟩
      cases hr'
      exact (hs.collects _ hr).lookUp hs.store
    · cases he
  · cases he

/-- A call ends: its PIDs are now tracked, and announced. -/
theorem Follows.endConfigChange (hs : Follows matchString host pods h s)
    (he : step matchString s .endConfigChange = some t) :
    Follows matchString host pods (.endConfigChange :: h) t := by
  simp only [step] at he
  split at he
  · rename_i pidSet marked hr
    cases he
    have hcollects := hs.collects _ hr
    refine ⟨hs.store, hs.conf, hcollects.asked, fun r hr' => (by cases hr'), fun hkeeps => ?_⟩
    refine (hs.onlyAdds hkeeps.1).announce (fun pid hpid => ?_) hcollects.announces
    exact (hcollects.asked pid).2 (hkeeps.2 pid ((hs.tracked pid).1 hpid))
  · cases he

/-- A send or a receive leaves the listener alone, and announces nothing. -/
theorem moved {n n' : Notifying} {containerPID : ContainerPID} {m : Move}
    (hm : m.conf? = none) (he : NotifyOrder.step matchString containerPID n m = some n') :
    n'.lis = n.lis ∧ (OnlyAdds n → OnlyAdds n') := by
  cases m with
  | onConfigChange conf => cases hm
  | send i pid =>
      obtain ⟨-, -, -, hlis, -, -⟩ := step_send he
      exact ⟨hlis, fun hn => hn.send he⟩
  | receiveAdd =>
      refine ⟨?_, fun hn => hn.receiveAdd he⟩
      simp only [NotifyOrder.step] at he
      split at he
      · cases he
      · cases he
        rfl
  | receiveDel =>
      refine ⟨?_, fun hn => hn.receiveDel he⟩
      simp only [NotifyOrder.step] at he
      split at he
      · cases he
      · cases he
        rfl

/-- With such a move all stays as it is. -/
theorem Follows.move (hs : Follows matchString host pods h s) {m : Move} (hm : m.conf? = none)
    {n : Notifying} (he : NotifyOrder.step matchString s.containerPID s.notifying m = some n) :
    Follows matchString host pods h { s with notifying := n } := by
  obtain ⟨hlis, hadds⟩ := moved hm he
  refine ⟨hs.store, ?_, fun pid => ?_, fun r hr => ?_, fun hkeeps => hadds (hs.onlyAdds hkeeps)⟩
  · show n.lis.conf = _
    rw [hlis]
    exact hs.conf
  · show pid ∈ n.lis.tracked ↔ _
    rw [hlis]
    exact hs.tracked pid
  · show Collects matchString host pods h n.lis r
    rw [hlis]
    exact hs.collects r hr

/-- The history of a send or a receive asks for nothing. -/
theorem Follows.quiet (hs : Follows matchString host pods h s) {e : Event}
    (hpods : podEvents (e :: h) = podEvents h)
    (hasked : AskedFor matchString host pods (e :: h) = AskedFor matchString host pods h)
    (htraced : Traced matchString host pods (e :: h) = Traced matchString host pods h)
    (hdrops : NeverDrops matchString host pods (e :: h) = NeverDrops matchString host pods h) :
    Follows matchString host pods (e :: h) s := by
  refine ⟨?_, hs.conf, ?_, fun r hr => ⟨?_, (hs.collects r hr).announces⟩, ?_⟩
  · rw [hpods]
    exact hs.store
  · rw [htraced]
    exact hs.tracked
  · rw [hasked]
    exact (hs.collects r hr).asked
  · rw [hdrops]
    exact hs.onlyAdds

theorem follows_step {e : Event} (hs : Follows matchString host pods h s)
    (he : step matchString s e = some t) : Follows matchString host pods (e :: h) t := by
  cases e with
  | pod e =>
      obtain ⟨c, hc, rfl⟩ := Option.map_eq_some_iff.1 he
      exact hs.pod hc
  | containerChanged change =>
      simp only [step, hs.containerChanged change, Option.map_some, List.append_nil] at he
      cases he
      exact hs.quiet rfl rfl rfl rfl
  | beginConfigChange conf =>
      simp only [step] at he
      split at he
      · cases he
        exact hs.beginConfigChange conf
      · cases he
  | lookUp re => exact hs.lookUp he
  | endConfigChange => exact hs.endConfigChange he
  | send i pid =>
      obtain ⟨n, hn, rfl⟩ := Option.map_eq_some_iff.1 he
      exact (hs.move rfl hn).quiet rfl rfl rfl rfl
  | receive added =>
      simp only [step] at he
      split at he
      · obtain ⟨n, hn, rfl⟩ := Option.map_eq_some_iff.1 he
        exact (hs.move (by cases added <;> rfl) hn).quiet rfl rfl rfl rfl
      · cases he

/-- **The control map has the processes of the pods.**  Pods are listed, the collector
starts, and pod events, the lookups of configuration changes, notifications and their
receipt follow in any order.  If no configuration change drops a PID, then whenever all is
delivered, the keys of the control map are the PIDs that the latest configuration listed and
the first processes of the cgroups that had been found for the containers its expressions
match when each was looked up, cut to 32 bits. -/
theorem control_iff_traced {s₀ : ContainerPID} (hcut : ∀ pod ∈ pods, Cut pod)
    (hinit : PodPids.init (getPodPID host.podMeta host.files) ∅ pods = some s₀)
    (hrun : run (step matchString) (built s₀) h = some s)
    (hkeeps : NeverDrops matchString host pods h) (hdone : Delivered s.notifying)
    (key : BitVec 32) :
    key ∈ s.notifying.control ↔ ∃ pid, Traced matchString host pods h pid ∧ uint32 pid = key := by
  obtain ⟨s', hs', hlisted⟩ := pidsOf_of_init host hcut ∅
  rw [hinit] at hs'
  cases hs'
  have hfollows : Follows matchString host pods h s :=
    run_invariant (follows_built hlisted) (fun _ _ _ _ _ hs he => follows_step hs he) h s hrun
  have hagrees : s.notifying.control = s.notifying.lis.tracked.image uint32 :=
    (hfollows.onlyAdds hkeeps).agrees hdone
  rw [hagrees, Finset.mem_image]
  simp only [hfollows.tracked]

/-- A pod with the id "docker://7f". -/
def web : Pod := PodPids.podOf [100, 111, 99, 107, 101, 114, 58, 47, 47, 55, 102]

/-- A host where its first process is 4242. -/
def node : Host := ⟨fun _ => ⟨"BestEffort", "c0"⟩, fun _ => some [4242, 4243]⟩

/-- Two expressions match the pod, which is deleted between the two lookups. -/
def deletedBetween : List Event :=
  [.receive true, .send 0 4242, .endConfigChange, .lookUp "default/.*",
    .pod (.deleted (some ⟨podName web⟩)), .lookUp "web", .beginConfigChange
      ⟨[], ["web", "default/.*"]⟩]

/-- What the pod is found to have before it is deleted. -/
theorem mem_found_web (name : String) (pid : Int) :
    pid ∈ found node [web] [] name ↔ podName web = name ∧ pid = 4242 := by
  have hfound : found node [web] [] name = if podName web = name then [4242] else [] := rfl
  rw [hfound]
  split
  · rename_i hname
    simp [hname]
  · rename_i hname
    simp [hname]

theorem traced_deletedBetween (pid : Int) :
    Traced (fun _ _ => true) node [web] deletedBetween pid ↔ pid = 4242 := by
  have hgone : ∀ name, pid ∈ found node [web] [.deleted (some ⟨podName web⟩)] name →
      pid = 4242 := by
    intro name hpid
    simp only [found] at hpid
    split at hpid
    · cases hpid
    · exact ((mem_found_web name pid).1 hpid).2
  constructor
  · rintro ((hlisted | ⟨name, -, hpid⟩) | ⟨name, -, hpid⟩)
    · cases hlisted
    · exact ((mem_found_web name pid).1 hpid).2
    · exact hgone name hpid
  · intro hpid
    exact Or.inl (Or.inr ⟨podName web, rfl, (mem_found_web _ _).2 ⟨rfl, hpid⟩⟩)

/-- Its process is traced all the same. -/
theorem control_iff_traced_deletedBetween :
    ∃ s₀ s, PodPids.init (getPodPID node.podMeta node.files) ∅ [web] = some s₀ ∧
      run (step fun _ _ => true) (built s₀) deletedBetween = some s ∧
      ∀ key, key ∈ s.notifying.control ↔ key = 4242 := by
  have hcut : ∀ pod ∈ [web], Cut pod := by
    intro pod hpod c hc
    rw [List.mem_singleton.1 hpod] at hc
    rw [List.mem_singleton.1 hc]
    exact Or.inr (by decide)
  have hinit : PodPids.init (getPodPID node.podMeta node.files) ∅ [web] =
      some (setContainerPIDs ∅ (podName web) [4242]).1 := by
    rw [PodPids.init, List.foldlM_cons, initPod_eq_firstPIDs node ∅ (hcut web (by simp))]
    rfl
  have hrun : run (step fun _ _ => true) (built (setContainerPIDs ∅ (podName web) [4242]).1)
      deletedBetween =
        some ⟨∅, ⟨⟨ListenConfig.zero, some {4242}, ∅⟩, [∅], [], [], {4242}⟩, none⟩ := by rfl
  have hkeeps : NeverDrops (fun _ _ => true) node [web] deletedBetween :=
    ⟨trivial, fun _ htraced => htraced.elim⟩
  have hdone : Delivered ⟨⟨ListenConfig.zero, some {4242}, ∅⟩, [∅], [], [], {4242}⟩ := by
    refine ⟨?_, rfl, rfl⟩
    rintro (_ | i) pid state ⟨delta, hi, hl⟩
    · cases hi
      cases hl
    · cases hi
  refine ⟨_, _, hinit, hrun, fun key => ?_⟩
  rw [control_iff_traced hcut hinit hrun hkeeps hdone]
  simp only [traced_deletedBetween, exists_eq_left]
  exact eq_comm

end Kmon.Ports.TracedPids
