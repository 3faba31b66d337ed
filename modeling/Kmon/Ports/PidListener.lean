import Kmon.Ports.Config
import Kmon.Ports.InfoStore

/-!
# The PID listener

`src/collector/utils/pid.go`.  A `PIDLis` keeps the set of PIDs a collector
watches in two parts, `pidSet` for the PIDs the configuration lists and
`containerSet` for those of the matching containers.  It is written on two
paths: `OnConfigChange` computes both parts anew, and the function `NewPIDLis`
registers for container changes updates `containerSet` by the difference.  Either
path hands the PIDs that came and went to `notifyChange`.

* `onConfigChange` and `containerChanged` are the two paths;
* `watched` is what the listener is for, in terms of a configuration and a store
  only, and `tracked_onConfigChange` says that the first path reaches it;
* `deliver` is what a complete notification does to a consumer that adds what
  arrives on `AddCh` and removes what arrives on `DelCh`.
-/

namespace Kmon.Ports.PidListener

open Kmon.Verified
open Kmon.Ports.Config
open Kmon.Ports.InfoStore

/-- The changes handed to `notifyChange`: `true` for a PID to announce on
`AddCh`, `false` for one to announce on `DelCh`. -/
abbrev Delta := GoMap Int Bool

/-- `PIDLis`, without its mutex, its getter and its two channels.  Both sets are
nil until the first `OnConfigChange`; a nil map reads as an empty one, and only
`containerSet` is ever written while it may still be nil. -/
structure PIDLis where
  conf : ListenConfig
  containerSet : Option (Finset Int)
  pidSet : Finset Int
  deriving DecidableEq

/-- `NewPIDLis`. -/
def newPIDLis (conf : ListenConfig) : PIDLis :=
  { conf := conf, containerSet := none, pidSet := ∅ }

/-- What reading `containerSet` yields. -/
def PIDLis.containers (c : PIDLis) : Finset Int := c.containerSet.getD ∅

/-- `pidSet` together with `containerSet`. -/
def PIDLis.tracked (c : PIDLis) : Finset Int := c.pidSet ∪ c.containers

theorem PIDLis.mem_tracked {c : PIDLis} {pid : Int} :
    pid ∈ c.tracked ↔ pid ∈ c.pidSet ∨ pid ∈ c.containers :=
  Finset.mem_union

@[simp] theorem tracked_newPIDLis (conf : ListenConfig) :
    (newPIDLis conf).tracked = ∅ := rfl

/-! ## A configuration change -/

/-- One round of the loops of `OnConfigChange` that collect the new PIDs:
`delta[pid] = true; set[pid] = true`. -/
def mark (pid : Int) (st : Finset Int × Delta) : Finset Int × Delta :=
  (insert pid st.1, GoMap.put true pid st.2)

instance : LeftCommutative mark where
  left_comm a b st := by
    unfold mark
    have hput : GoMap.put true a (GoMap.put true b st.2) =
        GoMap.put true b (GoMap.put true a st.2) := LeftCommutative.left_comm a b st.2
    rw [Finset.insert_comm, hput]

theorem mem_foldr_mark {pids : Multiset Int} {st : Finset Int × Delta} {pid : Int} :
    pid ∈ (pids.foldr mark st).1 ↔ pid ∈ pids ∨ pid ∈ st.1 := by
  induction pids using Multiset.induction with
  | empty => simp
  | cons a pids ih =>
      simp only [Multiset.foldr_cons, mark, Finset.mem_insert, ih,
        Multiset.mem_cons, or_assoc]

theorem lookup_foldr_mark (pids : Multiset Int) (st : Finset Int × Delta) (pid : Int) :
    (pids.foldr mark st).2.lookup pid =
      if pid ∈ pids then some true else st.2.lookup pid := by
  induction pids using Multiset.induction with
  | empty => simp
  | cons a pids ih =>
      simp only [Multiset.foldr_cons, mark, GoMap.lookup_put, ih, Multiset.mem_cons]
      by_cases ha : pid = a <;> simp [ha]

section MatchString

variable (matchString : String → String → Bool) (containerPID : ContainerPID)

/-- The loop of `OnConfigChange` over the expressions of the new configuration. -/
def markMatching (group : List String) (st : Finset Int × Delta) :
    Finset Int × Delta :=
  group.foldl
    (fun st re => (getContainerPIDsMatchRegex matchString containerPID re).foldr mark st) st

/-- `OnConfigChange`: the new listener and the delta its deferred call hands to
`notifyChange`.  The configuration itself is not stored. -/
def onConfigChange (c : PIDLis) (conf : ListenConfig) : PIDLis × Delta :=
  let delta : Delta := c.containers.val.foldr (GoMap.put false) ∅
  let delta := c.pidSet.val.foldr (GoMap.put false) delta
  let fixed := conf.PIDGroup.foldl (fun st pid => mark pid st) (∅, delta)
  let dynamic := markMatching matchString containerPID conf.K8sGroup (∅, fixed.2)
  ({ c with pidSet := fixed.1, containerSet := some dynamic.1 }, dynamic.2)

/-- The PIDs of the containers that match some expression of a group. -/
def matching (group : List String) : Finset Int :=
  ((group : Multiset String).bind
    (getContainerPIDsMatchRegex matchString containerPID)).toFinset

/-- What a listener is to track under a configuration and a container store. -/
def watched (conf : ListenConfig) : Finset Int :=
  conf.PIDGroup.toFinset ∪ matching matchString containerPID conf.K8sGroup

variable {matchString containerPID}

theorem mem_matching {group : List String} {pid : Int} :
    pid ∈ matching matchString containerPID group ↔
      ∃ re ∈ group, pid ∈ getContainerPIDsMatchRegex matchString containerPID re := by
  simp [matching]

/-- Container by container: a container counts if some expression matches its name. -/
theorem mem_matching_iff {group : List String} {pid : Int} :
    pid ∈ matching matchString containerPID group ↔
      ∃ name, (∃ re ∈ group, matchString re name = true) ∧ pid ∈ pidsOf containerPID name := by
  simp only [mem_matching, mem_getContainerPIDsMatchRegex]
  constructor
  · rintro ⟨re, hre, name, hmatch, hpid⟩
    exact ⟨name, ⟨re, hre, hmatch⟩, hpid⟩
  · rintro ⟨name, ⟨re, hre, hmatch⟩, hpid⟩
    exact ⟨re, hre, name, hmatch, hpid⟩

/-- Literally: the PIDs of `PIDGroup`, and those of every container in the store
whose name matches some expression of `K8sGroup`. -/
theorem mem_watched {conf : ListenConfig} {pid : Int} :
    pid ∈ watched matchString containerPID conf ↔
      pid ∈ conf.PIDGroup ∨
        ∃ name, (∃ re ∈ conf.K8sGroup, matchString re name = true) ∧
          pid ∈ pidsOf containerPID name := by
  rw [watched, Finset.mem_union, List.mem_toFinset, mem_matching_iff]

theorem mem_markMatching {group : List String} {st : Finset Int × Delta} {pid : Int} :
    pid ∈ (markMatching matchString containerPID group st).1 ↔
      pid ∈ matching matchString containerPID group ∨ pid ∈ st.1 := by
  rw [mem_matching]
  induction group generalizing st with
  | nil => simp [markMatching]
  | cons re group ih =>
      have htail := @ih ((getContainerPIDsMatchRegex matchString containerPID re).foldr
        mark st)
      rw [markMatching] at htail ⊢
      rw [List.foldl_cons, htail, mem_foldr_mark]
      simp only [List.mem_cons, exists_eq_or_imp]
      exact or_left_comm.trans or_assoc.symm

theorem lookup_markMatching {group : List String} {st : Finset Int × Delta} {pid : Int} :
    (markMatching matchString containerPID group st).2.lookup pid =
      if pid ∈ matching matchString containerPID group then some true
      else st.2.lookup pid := by
  simp only [mem_matching]
  induction group generalizing st with
  | nil => simp [markMatching]
  | cons re group ih =>
      have htail := @ih ((getContainerPIDsMatchRegex matchString containerPID re).foldr
        mark st)
      rw [markMatching] at htail ⊢
      rw [List.foldl_cons, htail, lookup_foldr_mark]
      simp only [List.mem_cons, exists_eq_or_imp]
      by_cases htl : ∃ re' ∈ group,
          pid ∈ getContainerPIDsMatchRegex matchString containerPID re'
      · simp [htl]
      · by_cases hhd : pid ∈ getContainerPIDsMatchRegex matchString containerPID re <;>
          simp [htl, hhd]

/-! ## What a configuration change leaves behind -/

variable (c : PIDLis) (conf : ListenConfig)

theorem onConfigChange_pidSet :
    (onConfigChange matchString containerPID c conf).1.pidSet = conf.PIDGroup.toFinset := by
  ext pid
  simp only [onConfigChange, ← Multiset.coe_foldr_swap, mem_foldr_mark,
    Multiset.mem_coe, Finset.notMem_empty, or_false, List.mem_toFinset]

theorem onConfigChange_containerSet :
    (onConfigChange matchString containerPID c conf).1.containerSet =
      some (matching matchString containerPID conf.K8sGroup) := by
  simp only [onConfigChange, Option.some.injEq]
  ext pid
  rw [mem_markMatching]
  simp

/-- The listener keeps the configuration it was built with. -/
theorem onConfigChange_conf :
    (onConfigChange matchString containerPID c conf).1.conf = c.conf := rfl

/-- A configuration change makes the listener track what it is to track. -/
theorem tracked_onConfigChange :
    (onConfigChange matchString containerPID c conf).1.tracked =
      watched matchString containerPID conf := by
  rw [PIDLis.tracked, PIDLis.containers, onConfigChange_pidSet,
    onConfigChange_containerSet, Option.getD_some, watched]

/-- The delta announces every PID now tracked as added and every PID no longer
tracked as deleted. -/
theorem lookup_onConfigChange_delta (pid : Int) :
    (onConfigChange matchString containerPID c conf).2.lookup pid =
      if pid ∈ watched matchString containerPID conf then some true
      else if pid ∈ c.tracked then some false else none := by
  have hfixed : (List.foldl (fun st pid => mark pid st)
      ((∅ : Finset Int), c.pidSet.val.foldr (GoMap.put false)
        (c.containers.val.foldr (GoMap.put false) (∅ : Delta))) conf.PIDGroup).2.lookup pid =
      if pid ∈ conf.PIDGroup then some true
      else if pid ∈ c.tracked then some false else none := by
    rw [← Multiset.coe_foldr_swap, lookup_foldr_mark, GoMap.lookup_foldr_put,
      GoMap.lookup_foldr_put]
    by_cases hs : pid ∈ c.pidSet <;> by_cases hc : pid ∈ c.containers <;>
      simp [PIDLis.mem_tracked, hs, hc]
  rw [onConfigChange, lookup_markMatching, hfixed]
  by_cases hm : pid ∈ matching matchString containerPID conf.K8sGroup <;>
    by_cases hp : pid ∈ conf.PIDGroup <;> simp [watched, hm, hp]

end MatchString

/-! ## A container change -/

/-- One round of the loop of the container listener over its delta.  The branch
for `false` is in the source although the loop before stores only `true`. -/
def confirm (pid : Int) (st : Finset Int × Delta) : Finset Int × Delta :=
  match st.2.lookup pid with
  | some true =>
      if pid ∈ st.1 then (st.1, st.2.erase pid) else (insert pid st.1, st.2)
  | some false => (st.1, st.2.insert pid false)
  | none => st

theorem mem_confirm {a pid : Int} {st : Finset Int × Delta} :
    pid ∈ (confirm a st).1 ↔ pid ∈ st.1 ∨ (pid = a ∧ st.2.lookup a = some true) := by
  unfold confirm
  rcases hl : st.2.lookup a with _ | (_ | _)
  · simp
  · simp
  · by_cases ha : a ∈ st.1
    · simp only [ha, if_true]
      constructor
      · exact Or.inl
      · rintro (h | ⟨rfl, -⟩)
        · exact h
        · exact ha
    · simp only [ha, if_false, Finset.mem_insert]
      tauto

theorem lookup_confirm (a pid : Int) (st : Finset Int × Delta) :
    (confirm a st).2.lookup pid =
      if pid = a ∧ a ∈ st.1 ∧ st.2.lookup a = some true then none
      else st.2.lookup pid := by
  unfold confirm
  rcases hl : st.2.lookup a with _ | (_ | _)
  · simp
  · simp only [GoMap.lookup_insert_ite]
    by_cases hp : pid = a
    · subst hp
      simp [hl]
    · simp [hp]
  · by_cases ha : a ∈ st.1
    · simp only [ha, if_true, GoMap.lookup_erase_ite]
      by_cases hp : pid = a <;> simp [hp]
    · simp [ha]

instance : LeftCommutative confirm where
  left_comm a b st := by
    by_cases hab : a = b
    · rw [hab]
    · have hba : b ≠ a := Ne.symm hab
      refine Prod.ext ?_ (Finmap.ext_lookup fun pid => ?_)
      · ext pid
        simp only [mem_confirm, lookup_confirm, hab, hba, false_and, if_false]
        tauto
      · simp only [lookup_confirm, mem_confirm, hab, hba, false_and, if_false, or_false]
        by_cases hpa : pid = a <;> by_cases hpb : pid = b <;>
          simp [hpa, hpb, hab, hba]

/-- One iteration of the loop of the container listener over the expressions, for
an expression that matches.  `none` is the run-time panic of a write to a nil
map. -/
def containerMatched (c : PIDLis) (prePID curPID : List Int) : Option (PIDLis × Delta) :=
  let containerSet := c.containerSet.map (GoSet.deleteAll prePID)
  let delta : Delta := GoMap.putAll true curPID ∅
  match containerSet with
  | none => if curPID = [] then some (c, delta) else none
  | some s =>
      let confirmed := GoMap.rangeKeys delta confirm (s, delta)
      some ({ c with containerSet := some confirmed.1 }, confirmed.2)

/-- The function `NewPIDLis` registers for container changes: the listener it
leaves, and the deltas it hands to `notifyChange`, in order. -/
def containerChanged (matchString : String → String → Bool) (c : PIDLis)
    (change : ContainerChange) : Option (PIDLis × List Delta) :=
  c.conf.K8sGroup.foldlM
    (fun st re =>
      if matchString re change.name then
        (containerMatched st.1 change.prePID change.curPID).map
          fun (c', delta) => (c', st.2 ++ [delta])
      else some st)
    (c, [])

theorem lookup_foldr_confirm {pids : Multiset Int} {st : Finset Int × Delta} {pid : Int}
    (h : pid ∉ pids) : (pids.foldr confirm st).2.lookup pid = st.2.lookup pid := by
  induction pids using Multiset.induction with
  | empty => rfl
  | cons a pids ih =>
      rw [Multiset.mem_cons, not_or] at h
      rw [Multiset.foldr_cons, lookup_confirm, if_neg fun hand => h.1 hand.1, ih h.2]

theorem mem_foldr_confirm {pids : Multiset Int} (hnodup : pids.Nodup)
    {st : Finset Int × Delta} {pid : Int} :
    pid ∈ (pids.foldr confirm st).1 ↔
      pid ∈ st.1 ∨ (pid ∈ pids ∧ st.2.lookup pid = some true) := by
  induction pids using Multiset.induction with
  | empty => simp
  | cons a pids ih =>
      rw [Multiset.nodup_cons] at hnodup
      rw [Multiset.foldr_cons, mem_confirm, lookup_foldr_confirm hnodup.1, ih hnodup.2,
        Multiset.mem_cons, or_assoc]
      apply or_congr_right
      by_cases ha : pid = a
      · subst ha
        simp [hnodup.1]
      · simp [ha]

/-- The loop takes out of its delta what the set contains already. -/
theorem lookup_foldr_confirm_of_nodup {pids : Multiset Int} (hnodup : pids.Nodup)
    {st : Finset Int × Delta} {pid : Int} :
    (pids.foldr confirm st).2.lookup pid =
      if pid ∈ pids ∧ pid ∈ st.1 ∧ st.2.lookup pid = some true then none
      else st.2.lookup pid := by
  induction pids using Multiset.induction with
  | empty => simp
  | cons a pids ih =>
      rw [Multiset.nodup_cons] at hnodup
      simp only [Multiset.foldr_cons, lookup_confirm, lookup_foldr_confirm hnodup.1,
        mem_foldr_confirm hnodup.2, ih hnodup.2, Multiset.mem_cons]
      by_cases ha : pid = a
      · subst ha
        simp [hnodup.1]
      · simp [ha]

/-- A matching expression takes the previous PIDs out and puts the current ones in, and
its delta announces those of the current ones that were not left in. -/
theorem containerMatched_of_some {c : PIDLis} {s : Finset Int} (hs : c.containerSet = some s)
    (prePID curPID : List Int) :
    ∃ delta, containerMatched c prePID curPID =
        some ({ c with containerSet := some (s \ prePID.toFinset ∪ curPID.toFinset) }, delta) ∧
      ∀ pid, delta.lookup pid =
        if pid ∈ curPID ∧ (pid ∈ s → pid ∈ prePID) then some true else none := by
  let delta : Delta := GoMap.putAll true curPID ∅
  let confirmed := GoMap.rangeKeys delta confirm (GoSet.deleteAll prePID s, delta)
  have hkeys : ∀ pid, pid ∈ delta.keys.val ↔ pid ∈ curPID := by
    intro pid
    rw [Finset.mem_val, GoMap.mem_keys_iff, GoMap.lookup_putAll]
    by_cases hcur : pid ∈ curPID <;> simp [hcur]
  have hlookup : ∀ pid, delta.lookup pid = if pid ∈ curPID then some true else none :=
    GoMap.lookup_putAll true ∅ curPID
  refine ⟨confirmed.2, ?_, fun pid => ?_⟩
  · have hset : confirmed.1 = s \ prePID.toFinset ∪ curPID.toFinset := by
      ext pid
      have hmem : pid ∈ confirmed.1 ↔ _ := mem_foldr_confirm delta.keys.nodup
      rw [hmem, GoSet.mem_deleteAll, hkeys, hlookup]
      by_cases hcur : pid ∈ curPID <;> simp [hcur]
    rw [containerMatched, hs, ← hset]
    rfl
  · have hconfirmed : confirmed.2.lookup pid = _ :=
      lookup_foldr_confirm_of_nodup delta.keys.nodup
    rw [hconfirmed]
    simp only [hkeys, GoSet.mem_deleteAll, hlookup]
    by_cases hcur : pid ∈ curPID <;> by_cases hin : pid ∈ s <;>
      by_cases hpre : pid ∈ prePID <;> simp [hcur, hin, hpre]

/-- How often a sequence of deltas announces a PID as added (`true`) or as deleted
(`false`). -/
def told (deltas : List Delta) (pid : Int) (state : Bool) : Nat :=
  deltas.countP fun delta => delta.lookup pid = some state

theorem told_cons (delta : Delta) (deltas : List Delta) (pid : Int) (state : Bool) :
    told (delta :: deltas) pid state =
      told deltas pid state + if delta.lookup pid = some state then 1 else 0 := by
  simp only [told, List.countP_cons, decide_eq_true_eq]

/-- What the loop over the expressions does when so many of them match.  The first leaves
the set as it is to be; each later one takes the PIDs that are in both lists out, puts
them back and announces them again. -/
structure Applied (c : PIDLis) (s : Finset Int) (change : ContainerChange) (times : Nat)
    (c' : PIDLis) (deltas : List Delta) : Prop where
  listener : c' = { c with containerSet := some (if times = 0 then s
    else s \ change.prePID.toFinset ∪ change.curPID.toFinset) }
  added : ∀ pid, told deltas pid true =
    if pid ∈ change.curPID then
      if pid ∈ change.prePID then times else if pid ∈ s then 0 else min 1 times
    else 0
  deleted : ∀ pid, told deltas pid false = 0

/-- The loop over the expressions. -/
theorem foldlM_containerMatched (matchString : String → String → Bool)
    (change : ContainerChange) (group : List String) (st : PIDLis × List Delta)
    {s : Finset Int} (hs : st.1.containerSet = some s) :
    ∃ c' deltas,
      group.foldlM (fun st re =>
        if matchString re change.name then
          (containerMatched st.1 change.prePID change.curPID).map
            fun (c', delta) => (c', st.2 ++ [delta])
        else some st) st = some (c', st.2 ++ deltas) ∧
      Applied st.1 s change (group.countP fun re => matchString re change.name) c' deltas := by
  induction group generalizing st s with
  | nil =>
      refine ⟨st.1, [], by simp, ?_, fun pid => ?_, fun _ => rfl⟩
      · simp [← hs]
      · simp [told]
  | cons re group ih =>
      rw [List.foldlM_cons]
      by_cases hmatch : matchString re change.name = true
      · obtain ⟨delta, hmatched, hdelta⟩ :=
          containerMatched_of_some hs change.prePID change.curPID
        have hcount : ((re :: group).countP fun re => matchString re change.name) =
            (group.countP fun re => matchString re change.name) + 1 :=
          List.countP_cons_of_pos hmatch
        rw [if_pos hmatch, hmatched, hcount]
        obtain ⟨c', deltas, hloop, happlied⟩ := ih
          ({ st.1 with containerSet := some (s \ change.prePID.toFinset ∪
            change.curPID.toFinset) }, st.2 ++ [delta]) rfl
        refine ⟨c', delta :: deltas, ?_, ?_, fun pid => ?_, fun pid => ?_⟩
        · rw [List.append_cons]
          exact hloop
        · rw [happlied.listener, if_neg (Nat.succ_ne_zero _)]
          -- a second expression that matches finds the set as it is to be
          congr 2
          split
          · rfl
          · ext pid
            simp only [Finset.mem_union, Finset.mem_sdiff]
            tauto
        · rw [told_cons, happlied.added, hdelta]
          by_cases hcur : pid ∈ change.curPID <;> by_cases hpre : pid ∈ change.prePID <;>
            by_cases hin : pid ∈ s <;> simp [hcur, hpre, hin]
        · rw [told_cons, happlied.deleted, hdelta]
          split <;> simp
      · have hcount : ((re :: group).countP fun re => matchString re change.name) =
            group.countP fun re => matchString re change.name :=
          List.countP_cons_of_neg hmatch
        rw [if_neg hmatch, hcount]
        exact ih st hs

/-- The function for container changes, once there has been a configuration change. -/
theorem containerChanged_applied (matchString : String → String → Bool) {c : PIDLis}
    {s : Finset Int} (hs : c.containerSet = some s) (change : ContainerChange) :
    ∃ c' deltas, containerChanged matchString c change = some (c', deltas) ∧
      Applied c s change (c.conf.K8sGroup.countP fun re => matchString re change.name)
        c' deltas :=
  foldlM_containerMatched matchString change c.conf.K8sGroup (c, []) hs

/-- **A container change**, once there has been a configuration change: it does not
panic, and if the container matches it takes the previous PIDs out and puts the current
ones in. -/
theorem containerChanged_of_some (matchString : String → String → Bool) {c : PIDLis}
    {s : Finset Int} (hs : c.containerSet = some s) (change : ContainerChange) :
    ∃ c' deltas, containerChanged matchString c change = some (c', deltas) ∧
      c'.conf = c.conf ∧ ∃ s', c'.containerSet = some s' ∧
        ∀ pid, pid ∈ s' ↔
          if ∃ re ∈ c.conf.K8sGroup, matchString re change.name = true then
            pid ∈ change.curPID ∨ (pid ∈ s ∧ pid ∉ change.prePID)
          else pid ∈ s := by
  obtain ⟨c', deltas, hchanged, happlied⟩ := containerChanged_applied matchString hs change
  refine ⟨c', deltas, hchanged, by rw [happlied.listener], _, by rw [happlied.listener],
    fun pid => ?_⟩
  have hmatch : (c.conf.K8sGroup.countP fun re => matchString re change.name) = 0 ↔
      ¬ ∃ re ∈ c.conf.K8sGroup, matchString re change.name = true := by
    simp [List.countP_eq_zero]
  by_cases hnone : (c.conf.K8sGroup.countP fun re => matchString re change.name) = 0
  · rw [if_pos hnone, if_neg (hmatch.1 hnone)]
  · rw [if_neg hnone, if_pos (Classical.not_not.1 fun h => hnone (hmatch.2 h)),
      Finset.mem_union, Finset.mem_sdiff, List.mem_toFinset, List.mem_toFinset, or_comm]

/-- A listener that was built without expressions ignores container changes. -/
theorem containerChanged_of_nil (matchString : String → String → Bool) (c : PIDLis)
    (change : ContainerChange) (h : c.conf.K8sGroup = []) :
    containerChanged matchString c change = some (c, []) := by
  rw [containerChanged, h]
  rfl

/-! ## A notification, received to its end -/

/-- What the consumer does with one entry of a delta. -/
def receive (delta : Delta) (pid : Int) (held : Finset Int) : Finset Int :=
  if delta.lookup pid = some true then insert pid held else held.erase pid

instance (delta : Delta) : LeftCommutative (receive delta) where
  left_comm a b held := by
    by_cases hab : a = b
    · rw [hab]
    · unfold receive
      ext pid
      by_cases ha : delta.lookup a = some true <;> by_cases hb : delta.lookup b = some true <;>
        simp only [ha, hb, if_true, if_false, Finset.mem_insert, Finset.mem_erase]
      all_goals
        by_cases hpa : pid = a <;> by_cases hpb : pid = b <;> simp_all

/-- The set a consumer holds once it has received every entry `notifyChange`
sends for a delta. -/
def deliver (delta : Delta) (held : Finset Int) : Finset Int :=
  GoMap.rangeKeys delta (receive delta) held

/-- A consumer holds what the delta announces as added, and keeps what the delta
does not mention. -/
theorem mem_deliver {delta : Delta} {held : Finset Int} {pid : Int} :
    pid ∈ deliver delta held ↔
      delta.lookup pid = some true ∨ (delta.lookup pid = none ∧ pid ∈ held) := by
  have hfold : ∀ pids : Multiset Int, pid ∈ pids.foldr (receive delta) held ↔
      if pid ∈ pids then delta.lookup pid = some true else pid ∈ held := by
    intro pids
    induction pids using Multiset.induction with
    | empty => simp
    | cons a pids ih =>
        rw [Multiset.foldr_cons, receive]
        by_cases hpa : pid = a
        · subst hpa
          by_cases ht : delta.lookup pid = some true <;> simp [ht]
        · split <;> simp [hpa, ih]
  rw [deliver, GoMap.rangeKeys, hfold]
  by_cases hk : pid ∈ delta.keys.val
  · rw [if_pos hk]
    obtain ⟨b, hb⟩ := GoMap.mem_keys_iff.1 hk
    simp [hb]
  · rw [if_neg hk]
    have hnone : delta.lookup pid = none := by
      rw [Finmap.lookup_eq_none, ← Finmap.mem_keys]
      exact hk
    simp [hnone]

end Kmon.Ports.PidListener
