import Kmon.Ports.DataRaces

/-!
# The slice of the registered functions

`append` reads the slice `programEnd`, writes behind its last element, in place or in a new
array, and stores a longer slice, with other goroutines in between.  So a slice may be stored
that lacks what another loop has registered, and a loop may write over what another has
appended.  One thing stays true: a slice that is stored, about to be stored, or ranged over
shows functions only (`registered_of_run`), so `EndProgram` does not call nil.
-/

namespace Kmon.Ports.Goroutines

open Kmon.Verified
open Kmon.Verified.GoSlice
open Kmon.Verified.LockOrder
open Kmon.Verified.Run
open Kmon.Ports.ConfigDelivery (Kind Key)

/-- The operations that have to do with the end of the program. -/
def endOp : Op Mutex Action → Bool
  | .other (.registerProgramEnd _) => true
  | .other (.appendProgramEnd _ _) => true
  | .other (.storeProgramEnd _) => true
  | .other .endProgram => true
  | .other (.callProgramEnd _ _) => true
  | .other (.handOver _) => true
  | .other .exit => true
  | _ => false

/-- The slice that an operation goes on with has a property. -/
def Has (Q : Heap Name → Slice → Prop) (arrays : Heap Name) : Op Mutex Action → Prop
  | .other (.appendProgramEnd fns _) => Q arrays fns
  | .other (.storeProgramEnd fns) => Q arrays fns
  | .other (.callProgramEnd fns k) => Q arrays fns ∧ k < fns.len
  | _ => True

/-- All slices of registered functions have it. -/
structure Registered (Q : Heap Name → Slice → Prop) (s : Program) : Prop where
  programEnd : Q s.arrays s.programEnd
  ops : ∀ t ∈ s.threads, ∀ op ∈ t.code, Has Q s.arrays op

variable {starts : Key → Bool} {s s' : Program} {e : Event} {i : Nat} {t t' : Goroutine}
variable {n : Name} {code : Code} {a : Action} {c : Collector} {ch : Choice}

/-! ## What has nothing to do with the end -/

theorem endOp_of_plain {op : Op Mutex Action} (hop : plain op = true) : endOp op = false := by
  cases op with
  | other a =>
      cases a with
      | send m => rfl
      | go job => rfl
      | access d write => rfl
      | next c table seen => rfl
      | _ => cases hop
  | _ => rfl

/-- Only an interrupt has to do with the end of the program. -/
theorem endOp_respond {x : Input} (h : respond n x = some code) (hn : n ≠ .main) :
    ∀ op ∈ code, endOp op = false := by
  intro op hop
  cases n with
  | main => exact absurd rfl hn
  | signal c => exact endOp_of_plain (plain_respond h op hop)
  | watcher =>
      cases x with
      | write conf =>
          cases h
          rw [setConfiguration, List.mem_append, mem_locked] at hop
          simp only [List.mem_singleton] at hop
          rcases hop with (rfl | rfl | rfl) | rfl <;> rfl
      | _ => cases h
  | controller =>
      cases x with
      | pods =>
          cases h
          rw [setContainerPIDs, List.mem_append, mem_locked] at hop
          simp only [List.mem_singleton] at hop
          rcases hop with (rfl | rfl | rfl) | rfl <;> rfl
      | _ => cases h
  | exporter =>
      cases x with
      | data b exporters =>
          cases h
          rw [List.eq_of_mem_replicate hop]
          rfl
      | _ => cases h
  | period c => cases x <;> cases h
  | worker => cases x <;> cases h

theorem endOp_round {op : Op Mutex Action} (hop : op ∈ round c ch) : endOp op = false := by
  rcases List.mem_append.1 hop with hop | hop
  · rcases List.mem_append.1 hop with hop | hop
    · exact endOp_of_plain (plain_exportData c ch op hop)
    · exact endOp_of_plain (Plain.locked (plain_access _ _) op hop)
  · rw [List.mem_singleton.1 hop]
    rfl

/-- The code that takes the place of another action. -/
theorem endOp_expand (ha : endOp (.other a) = false) :
    ∀ op ∈ expand starts s ch a, endOp op = false := by
  intro op hop
  cases a with
  | next c table seen => exact endOp_of_plain (plain_next op hop)
  | getConfiguration r =>
      cases r with
      | collectors =>
          obtain ⟨x, -, rfl⟩ := List.mem_map.1 hop
          rfl
      | handler =>
          obtain ⟨key, -, rfl⟩ := List.mem_map.1 hop
          rfl
      | exporters => cases hop
  | rangeConfigurationChange =>
      rw [List.eq_of_mem_replicate hop]
      rfl
  | rangeContainerPIDChange =>
      obtain ⟨fn, -, rfl⟩ := List.mem_map.1 hop
      rfl
  | startCollector c key =>
      rw [expand] at hop
      split at hop
      · rw [startCollector, List.cons_append, List.mem_cons, List.mem_append] at hop
        rcases hop with rfl | hop | hop
        · rfl
        · exact endOp_of_plain (plain_onConfigChange c ch op hop)
        · simp only [List.mem_cons, List.not_mem_nil, or_false] at hop
          rcases hop with rfl | rfl | rfl <;> rfl
      · cases hop
  | registerProgramEnd n => cases ha
  | appendProgramEnd fns n => cases ha
  | endProgram => cases ha
  | callProgramEnd fns k => cases ha
  | _ => cases hop

/-- A loop that starts has at most to register itself. -/
theorem endOp_firstCode {op : Op Mutex Action} (hop : op ∈ firstCode ch n)
    (hend : endOp op = true) : op = .other (.registerProgramEnd n) := by
  cases n with
  | period c =>
      rcases List.mem_cons.1 hop with rfl | hop
      · rfl
      · rw [endOp_round hop] at hend
        cases hend
  | signal c => exact List.mem_singleton.1 hop
  | _ => cases hop

/-- The short goroutines have nothing to do with the end of the program. -/
theorem endOp_job {held : List Mutex} {job : Job} (hpermits : permits held (.go job) = true)
    {op : Op Mutex Action} (hop : op ∈ job.code) : endOp op = false := by
  cases job with
  | loop n => cases hop
  | notifyChange c delta =>
      obtain ⟨state, -, rfl⟩ := List.mem_map.1 hop
      rfl
  | pidBuffer =>
      rw [Job.code, mem_locked, List.mem_singleton] at hop
      rcases hop with rfl | rfl | rfl <;> rfl
  | pidLis c deltas =>
      have hnil : deltas = [] := List.isEmpty_iff.1 hpermits
      subst hnil
      cases hop
  | configurationChange =>
      rw [Job.code, mem_locked, List.mem_singleton] at hop
      rcases hop with rfl | rfl | rfl <;> rfl
  | sender key =>
      rw [Job.code, List.mem_singleton] at hop
      subst hop
      rfl
  | Export b =>
      obtain ⟨d, write, rfl⟩ := mem_Export hop
      rfl

/-- What a goroutine starts with has at most a registration of its own. -/
theorem endOp_launch {held : List Mutex} {job : Job} (hpermits : permits held (.go job) = true)
    {op : Op Mutex Action} (hop : op ∈ (launch ch job).code) (hend : endOp op = true) :
    op = .other (.registerProgramEnd (launch ch job).name) := by
  cases job with
  | loop n => exact endOp_firstCode hop hend
  | _ =>
      rw [endOp_job hpermits hop] at hend
      cases hend

theorem endOp_programStart {pods : Nat} {op : Op Mutex Action} (hop : op ∈ programStart pods)
    (hend : endOp op = true) : op = .other (.registerProgramEnd .watcher) := by
  rw [programStart, List.mem_append, List.mem_append] at hop
  rcases hop with (hop | hop) | hop
  · simp only [List.mem_cons, List.not_mem_nil, or_false] at hop
    rcases hop with rfl | rfl
    · cases hend
    · rfl
  · obtain ⟨block, hblock, hmem⟩ := List.mem_flatten.1 hop
    rw [List.eq_of_mem_replicate hblock] at hmem
    rw [endOp_respond (n := .controller) (x := .pods) rfl (by decide) op hmem] at hend
    cases hend
  · simp only [List.mem_cons, List.not_mem_nil, or_false] at hop
    rcases hop with rfl | rfl | rfl | rfl | rfl <;> cases hend

/-! ## Every state of a run -/

variable {arrays : Heap Name} {fns : Slice} {Q : Heap Name → Slice → Prop}

theorem has_of_endOp {op : Op Mutex Action} (hop : endOp op = false) : Has Q arrays op := by
  cases op with
  | other a =>
      cases a with
      | appendProgramEnd fns n => cases hop
      | storeProgramEnd fns => cases hop
      | callProgramEnd fns k => cases hop
      | _ => trivial
  | _ => trivial

/-- An action leaves the others as they are. -/
theorem lasting_store (hQ : Lasting Q) (ha : Has Q s.arrays (.other a)) (h : Q s.arrays fns) :
    Q (store s ch a).arrays fns := by
  cases a with
  | appendProgramEnd fns' n => exact hQ.after _ _ ha h
  | sendConf _ | callProgramEnd _ _ =>
      simp only [Goroutines.store]
      split <;> exact h
  | _ => exact h

theorem has_store (hQ : Lasting Q) (ha : Has Q s.arrays (.other a))
    {op : Op Mutex Action} (h : Has Q s.arrays op) : Has Q (store s ch a).arrays op := by
  cases op with
  | other a' =>
      cases a' with
      | appendProgramEnd fns n => exact lasting_store hQ ha h
      | storeProgramEnd fns => exact lasting_store hQ ha h
      | callProgramEnd fns k => exact ⟨lasting_store hQ ha h.1, h.2⟩
      | _ => trivial
  | _ => trivial

/-- The slices that an action goes on with have the property. -/
theorem Registered.expand (h : Registered Q s) (hQ : Lasting Q)
    (ha : Has Q s.arrays (.other a)) :
    ∀ op ∈ expand starts s ch a, Has Q (store s ch a).arrays op := by
  intro op hop
  cases a with
  | registerProgramEnd n =>
      rw [List.mem_singleton.1 hop]
      exact h.programEnd
  | appendProgramEnd fns n =>
      rw [List.mem_singleton.1 hop]
      exact hQ.append _ _ ha
  | endProgram =>
      obtain ⟨k, hk, rfl⟩ := List.mem_map.1 hop
      exact ⟨h.programEnd, List.mem_range.1 hk⟩
  | callProgramEnd fns k =>
      obtain ⟨n, -, rfl⟩ := mem_expand_call hop
      trivial
  | storeProgramEnd fns => cases hop
  | handOver n => cases hop
  | exit => cases hop
  | _ => exact has_of_endOp (endOp_expand rfl op hop)

theorem Registered.store (h : Registered Q s) (hQ : Lasting Q)
    (ha : Has Q s.arrays (.other a)) :
    Q (store s ch a).arrays (store s ch a).programEnd := by
  cases a with
  | appendProgramEnd fns n => exact hQ.after _ _ ha h.programEnd
  | storeProgramEnd fns => exact ha
  | sendConf _ | callProgramEnd _ _ =>
      simp only [Goroutines.store]
      split <;> exact h.programEnd
  | _ => exact h.programEnd

/-- A goroutine makes a step in which nothing is appended. -/
theorem Registered.put (h : Registered Q s) (ht : ∀ op ∈ t.code, Has Q s.arrays op) :
    Registered Q (s.put i t) := by
  refine ⟨h.programEnd, fun t₀ ht₀ => ?_⟩
  rcases mem_set ht₀ with hold | rfl
  · exact h.ops t₀ hold
  · exact ht

theorem Registered.tail (h : Registered Q s) (ht : t ∈ s.threads) {op : Op Mutex Action}
    (hcode : t.code = op :: code) : ∀ op ∈ code, Has Q s.arrays op :=
  fun op' hop => h.ops t ht op' (hcode ▸ List.mem_cons_of_mem _ hop)

theorem Registered.perform (h : Registered Q s) (hQ : Lasting Q) (ht : Sound t)
    (hi : s.threads[i]? = some t) (hcode : t.code = .other a :: code) :
    Registered Q (perform starts s i t code ch a) := by
  have hmem := List.mem_of_getElem? hi
  have ha := h.ops t hmem _ (hcode ▸ List.mem_cons_self)
  refine ⟨h.store hQ ha, fun t₀ ht₀ op hop => ?_⟩
  rcases List.mem_append.1 ht₀ with hold | hnew
  · rcases mem_set hold with hold | rfl
    · exact has_store hQ ha (h.ops t₀ hold op hop)
    · rcases List.mem_append.1 hop with hfresh | hrest
      · exact h.expand hQ ha op hfresh
      · exact has_store hQ ha (h.tail hmem hcode op hrest)
  · cases a with
    | go job =>
        rw [started, List.mem_singleton] at hnew
        subst hnew
        by_cases hend : endOp op = true
        · rw [endOp_launch (ht.permits hcode).1 hop hend]
          trivial
        · exact has_of_endOp (Bool.not_eq_true _ ▸ hend)
    | _ => cases hnew

/-- **What no append takes away from a slice, no step takes away from the registered
functions.** -/
theorem Registered.step (h : Registered Q s) (hQ : Lasting Q) (hs : SoundProgram s)
    (he : Steps starts s e s') : Registered Q s' := by
  cases he with
  | lock hi hcode hfree => exact h.put (h.tail (List.mem_of_getElem? hi) hcode)
  | unlock hi hcode => exact h.put (h.tail (List.mem_of_getElem? hi) hcode)
  | action hi hcode henabled =>
      exact h.perform hQ (hs.sound _ (List.mem_of_getElem? hi)) hi hcode
  | input hi hnil hidle hfirst hcode =>
      rename_i i t x code
      have hput : Registered Q (s.put i { t with code := code }) := by
        refine h.put fun op hop => ?_
        by_cases hmain : t.name = .main
        · rw [hmain] at hcode
          cases x <;> cases hcode
          simp only [List.mem_cons, List.not_mem_nil, or_false] at hop
          rcases hop with rfl | rfl <;> trivial
        · exact has_of_endOp (endOp_respond hcode hmain op hop)
      exact ⟨hput.programEnd, hput.ops⟩
  | release hi hj hnil hreceives hcode hevent =>
      rename_i i j t t' code
      have hfirst : Registered Q (s.put i { t with phase := donePhase t }) :=
        h.put (h.ops t (List.mem_of_getElem? hi))
      exact hfirst.put (t := { t' with code := code }) (h.tail (List.mem_of_getElem? hj) hcode)
  | poll hi hnil hphase halone hnext =>
      have hcode := h.ops _ (List.mem_of_getElem? hi)
      exact h.put hcode
  | tick hi hnil hname hphase =>
      exact h.put fun op hop => has_of_endOp (endOp_round hop)

/-- **In every state of a run the slices of registered functions show functions only.** -/
theorem registered_of_run {conf : List Key} {pods : Nat} (h : List Event) (s : Program)
    (hrun : run (step starts) (start conf pods) h = some s) : Registered Filled s := by
  refine run_invariant (I := fun _ s => Registered Filled s) ?_ ?_ h s hrun
  · refine ⟨filled_nil _, fun t ht op hop => ?_⟩
    rw [List.mem_singleton.1 ht] at hop
    by_cases hend : endOp op = true
    · rw [endOp_programStart hop hend]
      trivial
    · exact has_of_endOp (Bool.not_eq_true _ ▸ hend)
  · intro h s e s' hrun hs he
    exact hs.step lasting_filled (sound_of_run h s hrun) (steps_of_run hrun he).2

/-- `EndProgram` finds a function. -/
theorem Registered.isSome_call (h : Registered Filled s) (ht : t ∈ s.threads) {k : Nat}
    (hop : .other (.callProgramEnd fns k) ∈ t.code) :
    (s.arrays.cells fns.arr k).isSome = true := by
  obtain ⟨hfilled, hk⟩ := h.ops t ht _ hop
  exact hfilled.isSome k hk

end Kmon.Ports.Goroutines
