import Kmon.Verified.Run
import Kmon.Ports.InfoStore

/-!
# The PID cache of `info.Getter`

`GetContainerFromPID` keeps its answers in `pidBuffer`, the empty string for a
PID of no container included.  The listener that `NewGetter` registers for
container changes deletes the entries of the PIDs a container had *before* the
change; it runs in a goroutine of its own, at any time after the call of
`SetContainerPIDs` that started it.

Nothing ever deletes the entry of a PID that was looked up before its container
was registered.  `agrees_of_guarded` says that this is the only flaw: without
such a registration, the cached answers agree with the store whenever no listener
is pending.
-/

namespace Kmon.Ports.ContainerCache

open Kmon.Verified
open Kmon.Verified.Run
open Kmon.Ports.InfoStore

/-- The store, the cache, and the calls of the invalidation listener that were
started and have not run yet. -/
structure Getter where
  containerPID : ContainerPID
  pidBuffer : GoMap Int String
  pending : List ContainerChange

/-- `NewGetter` over an empty store. -/
def newGetter : Getter := ⟨∅, ∅, []⟩

/-- `GetContainerFromPID`, for a loop that meets the containers in the given
order: the answer and the cache after it. -/
def getContainerFromPID (s : Getter) (pid : Int) (order : List String) :
    String × GoMap Int String :=
  match s.pidBuffer.lookup pid with
  | some name => (name, s.pidBuffer)
  | none =>
      match order.find? fun name => pid ∈ pidsOf s.containerPID name with
      | some name => (name, s.pidBuffer.insert pid name)
      | none => ("", s.pidBuffer.insert pid "")

/-- The listener: `delete(getter.pidBuffer, pid)` for each PID of `prePID`. -/
def invalidate (change : ContainerChange) (pidBuffer : GoMap Int String) : GoMap Int String :=
  change.prePID.foldl (fun pidBuffer pid => pidBuffer.erase pid) pidBuffer

/-- The steps of a run. -/
inductive Event where
  | setContainerPIDs (name : String) (pids : List Int)
  | runListener (i : Nat)
  | query (pid : Int) (order : List String)

/-- An order in which a loop over the store may meet the containers. -/
def IsOrder (s : Getter) (order : List String) : Prop :=
  (order : Multiset String) = s.containerPID.keys.val

instance (s : Getter) (order : List String) : Decidable (IsOrder s order) :=
  inferInstanceAs (Decidable (_ = _))

def step (s : Getter) : Event → Option Getter
  | .setContainerPIDs name pids =>
      let stored := setContainerPIDs s.containerPID name pids
      some { s with containerPID := stored.1, pending := s.pending ++ [stored.2] }
  | .runListener i =>
      match s.pending[i]? with
      | none => none
      | some change =>
          some { s with
            pidBuffer := invalidate change s.pidBuffer
            pending := s.pending.eraseIdx i }
  | .query pid order =>
      if IsOrder s order then some { s with pidBuffer := (getContainerFromPID s pid order).2 }
      else none

/-- Some container of the store has the PID. -/
def Held (s : Getter) (pid : Int) : Prop := ∃ name, pid ∈ pidsOf s.containerPID name

/-- Every answer is the one an uncached lookup may give: a container that has the
PID if there is one, and the empty string exactly when there is none. -/
def Agrees (s : Getter) : Prop :=
  ∀ pid order, IsOrder s order →
    (Held s pid → pid ∈ pidsOf s.containerPID (getContainerFromPID s pid order).1) ∧
      ((getContainerFromPID s pid order).1 = "" ↔ ¬ Held s pid)

/-- The property of a state. -/
def AgreesWhenIdle (_ : List Event) (s : Getter) : Prop := s.pending = [] → Agrees s

/-- A pending listener will delete the entry of the PID. -/
def Covered (s : Getter) (pid : Int) : Prop := ∃ change ∈ s.pending, pid ∈ change.prePID

/-- The condition: a call registers no PID that is cached as belonging to no
container, unless a pending listener is going to delete that entry; and no PIDs
are registered under the empty name. -/
def NotCachedAsNone (s : Getter) : Event → Prop
  | .setContainerPIDs name pids =>
      (name = "" → pids = []) ∧
        ∀ pid ∈ pids, s.pidBuffer.lookup pid = some "" → Covered s pid
  | _ => True

/-! ## The listener -/

theorem lookup_invalidate (change : ContainerChange) (pidBuffer : GoMap Int String) (pid : Int) :
    (invalidate change pidBuffer).lookup pid =
      if pid ∈ change.prePID then none else pidBuffer.lookup pid := by
  unfold invalidate
  generalize change.prePID = pids
  induction pids generalizing pidBuffer with
  | nil => simp
  | cons a pids ih =>
      rw [List.foldl_cons, ih, GoMap.lookup_erase_ite]
      by_cases hpids : pid ∈ pids <;> by_cases ha : pid = a <;> simp [hpids, ha]

/-- Once a listener has run, the PIDs it did not delete are covered by the same
other listeners. -/
theorem covered_eraseIdx {s : Getter} {i : Nat} {change : ContainerChange} {pid : Int}
    (hi : s.pending[i]? = some change) (hpid : pid ∉ change.prePID) {pidBuffer : GoMap Int String} :
    Covered ⟨s.containerPID, pidBuffer, s.pending.eraseIdx i⟩ pid ↔ Covered s pid := by
  constructor
  · rintro ⟨change', hmem, hpid'⟩
    exact ⟨change', List.mem_of_mem_eraseIdx hmem, hpid'⟩
  · rintro ⟨change', hmem, hpid'⟩
    refine ⟨change', ?_, hpid'⟩
    obtain ⟨j, hj⟩ := List.mem_iff_getElem?.1 hmem
    refine List.mem_eraseIdx_iff_getElem?.2 ⟨j, ?_, hj⟩
    rintro rfl
    rw [hi] at hj
    cases hj
    exact hpid hpid'

/-! ## The invariant -/

/-- A positive entry names a container that has the PID, and a negative one is of
a PID that no container has, except for what a pending listener will delete. -/
structure Valid (s : Getter) : Prop where
  named : pidsOf s.containerPID "" = []
  positive : ∀ pid name, s.pidBuffer.lookup pid = some name → name ≠ "" →
    pid ∈ pidsOf s.containerPID name ∨ Covered s pid
  negative : ∀ pid, s.pidBuffer.lookup pid = some "" → ¬ Held s pid ∨ Covered s pid

theorem valid_newGetter : Valid newGetter where
  named := rfl
  positive _ _ h := by
    rw [newGetter, Finmap.lookup_empty] at h
    cases h
  negative _ h := by
    rw [newGetter, Finmap.lookup_empty] at h
    cases h

section Step

variable {s : Getter}

/-- A registration keeps the invariant under the condition. -/
theorem Valid.setContainerPIDs (hs : Valid s) {name : String} {pids : List Int}
    (hguard : NotCachedAsNone s (.setContainerPIDs name pids)) :
    Valid { s with
      containerPID := (InfoStore.setContainerPIDs s.containerPID name pids).1
      pending := s.pending ++ [(InfoStore.setContainerPIDs s.containerPID name pids).2] } := by
  have hcovered : ∀ pid, Covered s pid ∨ pid ∈ pidsOf s.containerPID name →
      Covered { s with
        containerPID := (InfoStore.setContainerPIDs s.containerPID name pids).1
        pending := s.pending ++ [(InfoStore.setContainerPIDs s.containerPID name pids).2] }
        pid := by
    rintro pid (⟨change, hmem, hpid⟩ | hpid)
    · exact ⟨change, List.mem_append_left _ hmem, hpid⟩
    · exact ⟨_, List.mem_append_right _ List.mem_cons_self, hpid⟩
  refine
    { named := ?_
      positive := ?_
      negative := ?_ }
  · rw [pidsOf_setContainerPIDs]
    by_cases hname : name = ""
    · rw [if_pos hname.symm, hguard.1 hname]
    · rw [if_neg (Ne.symm hname), hs.named]
  · intro pid name' hlookup hne
    rw [pidsOf_setContainerPIDs]
    rcases hs.positive pid name' hlookup hne with hpid | hcov
    · by_cases hname : name' = name
      · subst hname
        exact Or.inr (hcovered pid (Or.inr hpid))
      · rw [if_neg hname]
        exact Or.inl hpid
    · exact Or.inr (hcovered pid (Or.inl hcov))
  · intro pid hlookup
    rcases hs.negative pid hlookup with hfree | hcov
    · by_cases hpid : pid ∈ pids
      · exact Or.inr (hcovered pid (Or.inl (hguard.2 pid hpid hlookup)))
      · left
        rintro ⟨name', hmem⟩
        rw [pidsOf_setContainerPIDs] at hmem
        split at hmem
        · exact hpid hmem
        · exact hfree ⟨name', hmem⟩
    · exact Or.inr (hcovered pid (Or.inl hcov))

theorem Valid.runListener (hs : Valid s) {i : Nat} {change : ContainerChange}
    (hi : s.pending[i]? = some change) :
    Valid { s with
      pidBuffer := invalidate change s.pidBuffer
      pending := s.pending.eraseIdx i } where
  named := hs.named
  positive pid name hlookup hne := by
    rw [lookup_invalidate] at hlookup
    split at hlookup
    · cases hlookup
    · rename_i hpid
      exact (hs.positive pid name hlookup hne).imp_right (covered_eraseIdx hi hpid).2
  negative pid hlookup := by
    rw [lookup_invalidate] at hlookup
    split at hlookup
    · cases hlookup
    · rename_i hpid
      exact (hs.negative pid hlookup).imp_right (covered_eraseIdx hi hpid).2

/-- What the loop over the containers finds. -/
theorem find_order {order : List String} (horder : IsOrder s order) (pid : Int) :
    match order.find? fun name => pid ∈ pidsOf s.containerPID name with
    | some name => pid ∈ pidsOf s.containerPID name
    | none => ¬ Held s pid := by
  split
  · rename_i name hfind
    simpa using List.find?_some hfind
  · rename_i hfind
    rintro ⟨name, hpid⟩
    have hkey : name ∈ s.containerPID.keys := by
      obtain ⟨pids, hlookup, -⟩ := mem_pidsOf.1 hpid
      exact GoMap.mem_keys_iff.2 ⟨pids, hlookup⟩
    have hmem : name ∈ order := by
      rw [← Multiset.mem_coe, horder]
      exact hkey
    have hnot := List.find?_eq_none.1 hfind name hmem
    simp [hpid] at hnot

theorem Valid.query (hs : Valid s) {pid : Int} {order : List String}
    (horder : IsOrder s order) :
    Valid { s with pidBuffer := (getContainerFromPID s pid order).2 } := by
  have hfound := find_order horder pid
  unfold getContainerFromPID
  split
  · exact hs
  · split
    · rename_i name hfind
      rw [hfind] at hfound
      refine ⟨hs.named, fun pid' name' hlookup hne => ?_, fun pid' hlookup => ?_⟩
      · rw [GoMap.lookup_insert_ite] at hlookup
        split at hlookup
        · rename_i hpid
          cases hlookup
          exact Or.inl (hpid ▸ hfound)
        · exact hs.positive pid' name' hlookup hne
      · rw [GoMap.lookup_insert_ite] at hlookup
        split at hlookup
        · cases hlookup
          have hempty : pid ∈ pidsOf s.containerPID "" := hfound
          rw [hs.named] at hempty
          cases hempty
        · exact hs.negative pid' hlookup
    · rename_i hfind
      rw [hfind] at hfound
      refine ⟨hs.named, fun pid' name' hlookup hne => ?_, fun pid' hlookup => ?_⟩
      · rw [GoMap.lookup_insert_ite] at hlookup
        split at hlookup
        · cases hlookup
          exact absurd rfl hne
        · exact hs.positive pid' name' hlookup hne
      · rw [GoMap.lookup_insert_ite] at hlookup
        split at hlookup
        · rename_i hpid
          exact Or.inl (hpid ▸ hfound)
        · exact hs.negative pid' hlookup

theorem step_valid {e : Event} {t : Getter} (hs : Valid s) (hguard : NotCachedAsNone s e)
    (he : step s e = some t) : Valid t := by
  cases e with
  | setContainerPIDs name pids =>
      cases he
      exact hs.setContainerPIDs hguard
  | runListener i =>
      simp only [step] at he
      split at he
      · cases he
      · rename_i change hi
        cases he
        exact hs.runListener hi
  | query pid order =>
      simp only [step] at he
      split at he
      · rename_i horder
        cases he
        exact hs.query horder
      · cases he

/-- With nothing pending, valid entries give right answers. -/
theorem Valid.agrees (hs : Valid s) (hidle : s.pending = []) : Agrees s := by
  have hcov : ∀ pid, ¬ Covered s pid := by
    rintro pid ⟨change, hmem, -⟩
    rw [hidle] at hmem
    cases hmem
  have hnamed : ∀ {pid : Int} {name : String}, pid ∈ pidsOf s.containerPID name → name ≠ "" := by
    rintro pid name hpid rfl
    rw [hs.named] at hpid
    cases hpid
  intro pid order horder
  have hfound := find_order horder pid
  unfold getContainerFromPID
  split
  · rename_i name hlookup
    by_cases hname : name = ""
    · subst hname
      have hfree := (hs.negative pid hlookup).resolve_right (hcov pid)
      exact ⟨fun hheld => absurd hheld hfree, fun _ => hfree, fun _ => rfl⟩
    · have hpid := (hs.positive pid name hlookup hname).resolve_right (hcov pid)
      exact ⟨fun _ => hpid, fun h => absurd h hname, fun h => absurd ⟨name, hpid⟩ h⟩
  · split
    · rename_i name hfind
      rw [hfind] at hfound
      exact ⟨fun _ => hfound, fun h => absurd h (hnamed hfound), fun h => absurd ⟨name, hfound⟩ h⟩
    · rename_i hfind
      rw [hfind] at hfound
      exact ⟨fun hheld => absurd hheld hfound, fun _ => hfound, fun _ => rfl⟩

end Step

/-! ## Runs -/

/-- **If no call registers a PID that is cached as belonging to no container,
`GetContainerFromPID` agrees with the store in every state in which no listener
is pending.** -/
theorem agrees_of_guarded (events : List Event)
    (hguard : Guarded step newGetter NotCachedAsNone events) :
    EveryState step newGetter AgreesWhenIdle events := by
  refine everyState_of_guarded (fun h s hg hrun => ?_) events hguard
  have hs : Valid s := guarded_invariant (I := fun _ => Valid) valid_newGetter
    (fun _ _ _ _ hs hg he => step_valid hs hg he) h s hg hrun
  exact hs.agrees

/-- A container that is registered before its PID is looked up is found. -/
theorem registered_container_agrees :
    EveryState step newGetter AgreesWhenIdle
      [.query 4242 ["default/web"], .runListener 0, .setContainerPIDs "default/web" [4242]] :=
  agrees_of_guarded _
    ⟨⟨⟨trivial, fun s hs => by
      cases hs
      refine ⟨by decide, fun pid _ hlookup => ?_⟩
      rw [newGetter, Finmap.lookup_empty] at hlookup
      cases hlookup⟩, fun _ _ => trivial⟩, fun _ _ => trivial⟩

/-- A PID that is looked up before its container is registered stays without a
container. -/
theorem early_query_disagrees :
    ¬ EveryState step newGetter AgreesWhenIdle
      [.runListener 0, .setContainerPIDs "default/web" [4242], .query 4242 []] := by
  intro h
  have hagrees := h.last _ rfl rfl 4242 ["default/web"] rfl
  exact absurd (hagrees.1 ⟨"default/web", by decide⟩) (by decide)

/-! ## The condition is needed -/

/-- Running the pending listeners touches no other entry. -/
theorem run_pending (n : Nat) :
    ∀ s : Getter, s.pending.length = n →
      ∃ t, run step s (List.replicate n (.runListener 0)) = some t ∧ t.pending = [] ∧
        t.containerPID = s.containerPID ∧
        ∀ pid, ¬ Covered s pid → t.pidBuffer.lookup pid = s.pidBuffer.lookup pid := by
  induction n with
  | zero => exact fun s hs => ⟨s, rfl, List.eq_nil_of_length_eq_zero hs, rfl, fun _ _ => rfl⟩
  | succ n ih =>
      intro s hs
      cases hpending : s.pending with
      | nil =>
          rw [hpending] at hs
          cases hs
      | cons change rest =>
          let u : Getter := ⟨s.containerPID, invalidate change s.pidBuffer, rest⟩
          have hu : run step s [.runListener 0] = some u := by
            simp [run, step, hpending, u]
          have hlen : u.pending.length = n := by
            rw [hpending, List.length_cons] at hs
            exact Nat.succ.inj hs
          obtain ⟨t, ht, hidle, hstore, hsame⟩ := ih u hlen
          refine ⟨t, ?_, hidle, hstore, fun pid hcov => ?_⟩
          · rw [List.replicate_succ']
            exact run_append_of_run hu ht
          · have hnot : pid ∉ change.prePID := fun hpid =>
              hcov ⟨change, by rw [hpending]; exact List.mem_cons_self, hpid⟩
            have hcov' : ¬ Covered u pid := by
              rintro ⟨change', hmem, hpid⟩
              exact hcov ⟨change', by rw [hpending]; exact List.mem_cons_of_mem _ hmem, hpid⟩
            rw [hsame pid hcov', lookup_invalidate, if_neg hnot]

/-- From a state with valid entries, a call that registers a PID cached as
belonging to no container leads to wrong answers as soon as the pending listeners
have run. -/
theorem not_agrees_of_cachedAsNone {s t : Getter} {name : String} {pids : List Int} {pid : Int}
    (hs : Valid s) (hpid : pid ∈ pids) (hlookup : s.pidBuffer.lookup pid = some "")
    (hcov : ¬ Covered s pid) (ht : step s (.setContainerPIDs name pids) = some t) :
    ∃ n u, run step t (List.replicate n (.runListener 0)) = some u ∧ u.pending = [] ∧
      ¬ Agrees u := by
  cases ht
  have hfree : ¬ Held s pid := (hs.negative pid hlookup).resolve_right hcov
  obtain ⟨u, hu, hidle, hstore, hsame⟩ := run_pending _ { s with
    containerPID := (setContainerPIDs s.containerPID name pids).1
    pending := s.pending ++ [(setContainerPIDs s.containerPID name pids).2] } rfl
  refine ⟨_, u, hu, hidle, fun hagrees => ?_⟩
  have hheld : Held u pid := by
    refine ⟨name, ?_⟩
    rw [hstore, pidsOf_setContainerPIDs, if_pos rfl]
    exact hpid
  have hentry : u.pidBuffer.lookup pid = some "" := by
    rw [hsame pid, hlookup]
    rintro ⟨change, hmem, hpre⟩
    rcases List.mem_append.1 hmem with hmem | hmem
    · exact hcov ⟨change, hmem, hpre⟩
    · obtain rfl := List.mem_singleton.1 hmem
      exact hfree ⟨name, hpre⟩
  obtain ⟨order, horder⟩ := Quot.exists_rep u.containerPID.keys.val
  have hanswer : (getContainerFromPID u pid order).1 = "" := by
    unfold getContainerFromPID
    rw [hentry]
  exact ((hagrees pid order horder).2.1 hanswer) hheld

end Kmon.Ports.ContainerCache
