import Kmon.Ports.LockDiscipline
import Kmon.Verified.Pool

/-!
# The order of the setup

`main` starts the parts of the program one after the other, and while it does so the parts
that are there already run.  Every operation of `main` that starts or registers something
has a place in this order (`span`, an interval, because an operation may stand for others).
What can only be there once `main` has passed a place shows that it has: a loop that has
started (`birth`), an operation that a handler or `EndProgram` has brought about (`needs`),
and a registered handler.

`staged_of_run`: in every state of a run what is left of `main` comes after all of these,
and no loop runs twice.
-/

namespace Kmon.Ports.Goroutines

open Kmon.Verified
open Kmon.Verified.GoSlice
open Kmon.Verified.LockOrder
open Kmon.Verified.Run
open Kmon.Ports.Config (ListenConfig)
open Kmon.Ports.ConfigDelivery (Kind Key)

/-- A place in the setup: a stage, a position within it, and one within that. -/
abbrev Place := Nat × Nat × Nat

/-- One place comes before another. -/
def Before (p q : Place) : Prop :=
  p.1 < q.1 ∨ p.1 = q.1 ∧ (p.2.1 < q.2.1 ∨ p.2.1 = q.2.1 ∧ p.2.2 < q.2.2)

instance (p q : Place) : Decidable (Before p q) := by
  unfold Before
  infer_instance

/-- Where a loop is started. -/
def birth : Name → Option Place
  | .watcher => some (0, 0, 0)
  | .controller => some (1, 0, 0)
  | .period c => some (2, c.index, 3)
  | .signal c => some (2, c.index, 4)
  | .exporter => some (5, 0, 0)
  | _ => none

/-- The places an operation of `main` stands for, from the first to the last. -/
def span : Op Mutex Action → Option (Place × Place)
  | .other (.go (.loop n)) => (birth n).map fun b => (b, b)
  | .other (.registerProgramEnd _) => some ((0, 0, 1), (0, 0, 1))
  | .other (.appendProgramEnd _ _) => some ((0, 0, 1), (0, 0, 1))
  | .other (.storeProgramEnd _) => some ((0, 0, 1), (0, 0, 1))
  | .other (.getConfiguration .collectors) => some ((2, 0, 0), (3, 0, 0))
  | .other (.startCollector c _) => some ((2, c.index, 0), (2, c.index, 5))
  | .other (.registerContainerChange (.pidLis c _)) =>
      some ((2, c.index, 0), (2, c.index, 0))
  | .lock (.collector c) => some ((2, c.index, 1), (2, c.index, 1))
  | .unlock (.collector c) => some ((2, c.index, 2), (2, c.index, 2))
  | .other (.setManager _ c) => some ((2, c.index, 5), (2, c.index, 5))
  | .other .registerConfigurationChange => some ((3, 0, 1), (3, 0, 1))
  | .other (.getConfiguration .exporters) => some ((4, 0, 0), (4, 0, 0))
  | .other .endProgram => some ((6, 0, 0), (6, 0, 0))
  | .other .exit => some ((7, 0, 0), (7, 0, 0))
  | _ => none

/-- The place that `main` has passed where an operation is still to be done. -/
def needs : Op Mutex Action → Option Place
  | .other (.go .configurationChange) => some (3, 0, 1)
  | .other (.getConfiguration .handler) => some (3, 0, 1)
  | .other (.go (.sender _)) => some (3, 0, 1)
  | .other (.sendConf _) => some (3, 0, 1)
  | .other (.callProgramEnd _ _) => some (6, 0, 0)
  | .other (.handOver _) => some (6, 0, 0)
  | _ => none

/-- The places that are left in the code of `main`. -/
def spans (code : Code) : List (Place × Place) := code.filterMap span

/-- Places in order. -/
def InOrder (l : List (Place × Place)) : Prop := l.Pairwise fun x y => Before x.2 y.1

instance (l : List (Place × Place)) : Decidable (InOrder l) := by
  unfold InOrder
  infer_instance

/-- What is left of `main` comes after a place. -/
def Clear (threads : List Goroutine) (p : Place) : Prop :=
  ∀ m ∈ threads, m.name = .main → ∀ q ∈ spans m.code, Before p q.1

/-- A place that `main` has passed: a loop, an operation, or one of the `handlers` for
`configurationChange` shows it. -/
inductive Passed (threads : List Goroutine) (handlers : Nat) (p : Place) : Prop where
  | born (t : Goroutine) (ht : t ∈ threads) (hbirth : birth t.name = some p)
  | needed (t : Goroutine) (ht : t ∈ threads) (op : Op Mutex Action) (hop : op ∈ t.code)
      (hneeds : needs op = some p)
  | handler (hchange : 0 < handlers) (hp : p = (3, 0, 1))

/-- `main` goes through its setup in order, and no loop is started twice. -/
structure Staged (threads : List Goroutine) (handlers : Nat) : Prop where
  unique : (threads.map Goroutine.name).Pairwise fun n n' => n = n' → n = .worker
  sorted : ∀ m ∈ threads, m.name = .main → InOrder (spans m.code)
  passed : ∀ p, Passed threads handlers p → Clear threads p

variable {starts : Key → Bool} {s s' : Program} {e : Event} {i j : Nat} {t t' m : Goroutine}
variable {n : Name} {code code' : Code} {a : Action} {c : Collector} {ch : Choice}
variable {p q : Place}

theorem Before.trans {p q r : Place} (h : Before p q) (h' : ¬Before r q) : Before p r := by
  unfold Before at *
  omega

theorem not_before_self (p : Place) : ¬Before p p := by
  unfold Before
  omega

/-! ## The code of the setup is in order -/

/-- The places within an interval, in order. -/
structure Within (b : Place × Place) (l : List (Place × Place)) : Prop where
  sorted : InOrder l
  lower : ∀ q ∈ l, ¬Before q.1 b.1
  upper : ∀ q ∈ l, ¬Before b.2 q.2

theorem InOrder.append {l l' : List (Place × Place)} {b : Place × Place} (h : Within b l)
    (h' : InOrder (b :: l')) : InOrder (l ++ l') := by
  obtain ⟨hafter, hsorted⟩ := List.pairwise_cons.1 h'
  refine List.pairwise_append.2 ⟨h.sorted, hsorted, fun x hx y hy => ?_⟩
  have hupper := h.upper x hx
  have hlt := hafter y hy
  unfold Before at *
  omega

theorem Within.nil (b : Place × Place) : Within b [] :=
  ⟨List.Pairwise.nil, fun _ h => (by cases h), fun _ h => (by cases h)⟩

/-- Code without a place in the setup. -/
theorem spans_eq_nil (h : ∀ op ∈ code, span op = none) : spans code = [] :=
  List.filterMap_eq_nil_iff.2 h

theorem spans_append (code code' : Code) : spans (code ++ code') = spans code ++ spans code' :=
  List.filterMap_append

theorem spans_cons (op : Op Mutex Action) (code : Code) :
    spans (op :: code) = (span op).toList ++ spans code := by
  rw [spans, List.filterMap_cons]
  cases span op <;> rfl

theorem span_containerPID {k : Nat} {write : Bool} {op : Op Mutex Action}
    (hop : op ∈ (List.replicate k (locked .info
      [.other (.access .containerPID write)])).flatten) :
    op = .lock .info ∨ op = .other (.access .containerPID write) ∨ op = .unlock .info := by
  obtain ⟨block, hblock, hmem⟩ := List.mem_flatten.1 hop
  rw [List.eq_of_mem_replicate hblock, mem_locked] at hmem
  simpa using hmem

/-- What is in `OnConfigChange` of a `PIDLis`. -/
theorem mem_pidLisOnConfigChange {op : Op Mutex Action}
    (hop : op ∈ pidLisOnConfigChange c ch) :
    op = .lock (.pidLis c) ∨ op = .unlock (.pidLis c) ∨ op = .lock .info ∨
      op = .unlock .info ∨ (∃ d write, op = .other (.access d write)) ∨
        op = .other (.go (.notifyChange c ch.delta)) := by
  rw [pidLisOnConfigChange, List.mem_append, mem_locked, List.mem_cons,
    List.mem_singleton] at hop
  rcases hop with (rfl | (rfl | hop) | rfl) | rfl
  · simp
  · exact .inr (.inr (.inr (.inr (.inl ⟨_, _, rfl⟩))))
  · rcases span_containerPID hop with rfl | rfl | rfl
    · simp
    · exact .inr (.inr (.inr (.inr (.inl ⟨_, _, rfl⟩))))
    · simp
  · simp
  · simp

theorem span_pidLisOnConfigChange : spans (pidLisOnConfigChange c ch) = [] := by
  apply spans_eq_nil
  intro op hop
  rcases mem_pidLisOnConfigChange hop with rfl | rfl | rfl | rfl | ⟨d, write, rfl⟩ | rfl <;> rfl

theorem spans_rewriteControl : spans (rewriteControl c) = [] := by
  rw [rewriteControl]
  cases c.kind <;> rfl

theorem spans_onConfigChange : spans (onConfigChange c ch) =
    [((2, c.index, 1), (2, c.index, 1)), ((2, c.index, 2), (2, c.index, 2))] := by
  rw [onConfigChange, locked, List.cons_append, spans_cons, spans_append, spans_append,
    span_pidLisOnConfigChange, spans_cons, spans_rewriteControl]
  rfl

theorem spans_startCollector {key : Key} : spans (startCollector c key ch) =
    [((2, c.index, 0), (2, c.index, 0)), ((2, c.index, 1), (2, c.index, 1)),
      ((2, c.index, 2), (2, c.index, 2)), ((2, c.index, 3), (2, c.index, 3)),
      ((2, c.index, 4), (2, c.index, 4)), ((2, c.index, 5), (2, c.index, 5))] := by
  rw [startCollector, List.cons_append, ← List.singleton_append, spans_append, spans_append,
    spans_onConfigChange]
  rfl

theorem within_startCollector {key : Key} :
    Within ((2, c.index, 0), (2, c.index, 5)) (spans (startCollector c key ch)) := by
  rw [spans_startCollector]
  constructor
  · simp [InOrder, Before]
  · simp [Before]
  · simp [Before]

/-- The sections of a configuration come one after the other. -/
theorem within_collectors (keys : List Key) (k : Nat) :
    Within ((2, k, 0), (3, 0, 0)) (spans ((keys.zipIdx k).map fun p =>
      (.other (.startCollector ⟨p.2, p.1.1⟩ p.1) : Op Mutex Action))) := by
  induction keys generalizing k with
  | nil => exact Within.nil _
  | cons key keys ih =>
      have hspans : spans (((key :: keys).zipIdx k).map fun p =>
          (.other (.startCollector ⟨p.2, p.1.1⟩ p.1) : Op Mutex Action)) =
            ((2, k, 0), (2, k, 5)) :: spans ((keys.zipIdx (k + 1)).map fun p =>
              .other (.startCollector ⟨p.2, p.1.1⟩ p.1)) := rfl
      obtain ⟨hsorted, hlower, hupper⟩ := ih (k + 1)
      rw [hspans]
      constructor
      · refine List.pairwise_cons.2 ⟨fun q hq => ?_, hsorted⟩
        have hq := hlower q hq
        simp only [Before] at *
        omega
      · intro q hq
        rcases List.mem_cons.1 hq with rfl | hmem
        · exact not_before_self _
        · have hq := hlower q hmem
          simp only [Before] at *
          omega
      · intro q hq
        rcases List.mem_cons.1 hq with rfl | hmem
        · simp [Before]
        · exact hupper q hmem

theorem spans_expand_endProgram : spans (expand starts s ch .endProgram) = [] := by
  apply spans_eq_nil
  intro op hop
  obtain ⟨k, -, rfl⟩ := List.mem_map.1 hop
  rfl

/-- **The code of an action stands for no other places than the action.** -/
theorem within_expand (ha : mayDo .main a = true) {b : Place × Place}
    (hspan : span (.other a) = some b) : Within b (spans (expand starts s ch a)) := by
  cases a with
  | registerProgramEnd n =>
      cases hspan
      constructor
      · exact List.pairwise_singleton _ _
      · simp [spans, expand, span, Before]
      · simp [spans, expand, span, Before]
  | appendProgramEnd fns n =>
      cases hspan
      constructor
      · exact List.pairwise_singleton _ _
      · simp [spans, expand, span, Before]
      · simp [spans, expand, span, Before]
  | next c table seen => cases hspan
  | callProgramEnd fns k => cases hspan
  | getConfiguration r =>
      cases r with
      | collectors =>
          cases hspan
          exact within_collectors _ _
      | handler => cases ha
      | exporters => exact Within.nil b
  | startCollector c key =>
      cases hspan
      rw [expand]
      split
      · exact within_startCollector
      · exact Within.nil _
  | endProgram =>
      rw [spans_expand_endProgram]
      exact Within.nil b
  | rangeConfigurationChange => cases ha
  | rangeContainerPIDChange => cases hspan
  | _ => exact Within.nil b

/-- An action without a place has code without one. -/
theorem spans_expand (ha : mayDo .main a = true) (hspan : span (.other a) = none) :
    spans (expand starts s ch a) = [] := by
  cases a with
  | rangeContainerPIDChange =>
      apply spans_eq_nil
      intro op hop
      obtain ⟨fn, -, rfl⟩ := List.mem_map.1 hop
      cases fn <;> rfl
  | next c table seen =>
      have htable : table = .controlMap := of_decide_eq_true ha
      subst htable
      rw [expand]
      split <;> rfl
  | callProgramEnd fns k =>
      rw [expand]
      cases s.arrays.cells fns.arr k <;> rfl
  | getConfiguration r =>
      cases r with
      | collectors => cases hspan
      | handler => cases ha
      | exporters => cases hspan
  | rangeConfigurationChange => cases ha
  | registerProgramEnd n => cases hspan
  | appendProgramEnd fns n => cases hspan
  | startCollector c key => cases hspan
  | endProgram => cases hspan
  | _ => rfl

theorem spans_programStart (pods : Nat) : spans (programStart pods) =
    [((0, 0, 0), (0, 0, 0)), ((0, 0, 1), (0, 0, 1)), ((1, 0, 0), (1, 0, 0)),
      ((2, 0, 0), (3, 0, 0)), ((3, 0, 1), (3, 0, 1)), ((4, 0, 0), (4, 0, 0)),
      ((5, 0, 0), (5, 0, 0))] := by
  have hpods : spans (List.replicate pods setContainerPIDs).flatten = [] := by
    apply spans_eq_nil
    intro op hop
    obtain ⟨block, hblock, hmem⟩ := List.mem_flatten.1 hop
    rw [List.eq_of_mem_replicate hblock, setContainerPIDs, List.mem_append, mem_locked] at hmem
    simp only [List.mem_singleton] at hmem
    rcases hmem with (rfl | rfl | rfl) | rfl <;> rfl
  rw [programStart, spans_append, spans_append, hpods]
  rfl

/-! ## A step of `main` -/

/-- What is left of `main` after one of its operations. -/
theorem inOrder_tail {op : Op Mutex Action} (h : InOrder (spans (op :: code))) :
    InOrder (spans code) := by
  rw [spans_cons] at h
  exact (List.pairwise_append.1 h).2.1

theorem before_tail {op : Op Mutex Action} {b : Place × Place}
    (h : InOrder (spans (op :: code))) (hspan : span op = some b) :
    ∀ q ∈ spans code, Before b.2 q.1 := by
  rw [spans_cons, hspan] at h
  exact (List.pairwise_cons.1 h).1

theorem inOrder_action (ha : mayDo .main a = true)
    (h : InOrder (spans (.other a :: code))) :
    InOrder (spans (expand starts s ch a ++ code)) := by
  rw [spans_append]
  cases hspan : span (.other a) with
  | none =>
      rw [spans_expand ha hspan]
      exact inOrder_tail h
  | some b =>
      rw [spans_cons, hspan] at h
      exact InOrder.append (within_expand ha hspan) h

/-- Every place that is left was left before, or lies within one that was. -/
theorem lower_action (ha : mayDo .main a = true) {q : Place × Place}
    (hq : q ∈ spans (expand starts s ch a ++ code)) :
    ∃ q₀ ∈ spans (.other a :: code), ¬Before q.1 q₀.1 := by
  rw [spans_cons]
  rw [spans_append] at hq
  rcases List.mem_append.1 hq with hnew | hold
  · cases hspan : span (.other a) with
    | none =>
        rw [spans_expand ha hspan] at hnew
        cases hnew
    | some b =>
        exact ⟨b, List.mem_cons_self, (within_expand ha hspan).lower q hnew⟩
  · exact ⟨q, List.mem_append_right _ hold, not_before_self _⟩

/-! ## Every state of a run -/

variable {threads : List Goroutine} {handlers : Nat}

/-- Only the short goroutines share a name. -/
theorem Staged.index_eq (h : Staged threads handlers) (hi : threads[i]? = some t)
    (hj : threads[j]? = some t') (hname : t.name = t'.name) (hloop : t.name ≠ .worker) :
    i = j := by
  have hpair : ∀ (i j : Nat) (t t' : Goroutine), threads[i]? = some t →
      threads[j]? = some t' → t.name = t'.name → t.name ≠ .worker → i < j → False := by
    intro i j t t' hi hj hname hloop hij
    obtain ⟨hi', rfl⟩ := List.getElem?_eq_some_iff.1 hi
    obtain ⟨hj', rfl⟩ := List.getElem?_eq_some_iff.1 hj
    exact hloop (List.pairwise_iff_getElem.1 (List.pairwise_map.1 h.unique) i j hi' hj' hij hname)
  rcases Nat.lt_trichotomy i j with hij | rfl | hij
  · exact (hpair i j t t' hi hj hname hloop hij).elim
  · rfl
  · exact (hpair j i t' t hj hi hname.symm (hname ▸ hloop) hij).elim

theorem Staged.eq_of_name (h : Staged threads handlers) (ht : t ∈ threads) (ht' : t' ∈ threads)
    (hname : t.name = t'.name) (hloop : t.name ≠ .worker) : t = t' := by
  obtain ⟨i, hi⟩ := List.mem_iff_getElem?.1 ht
  obtain ⟨j, hj⟩ := List.mem_iff_getElem?.1 ht'
  rw [h.index_eq hi hj hname hloop, hj] at hi
  exact (Option.some.inj hi).symm

/-- Where the goroutine that makes a step is `main`, it is the only one. -/
theorem Staged.eq_of_mem_set (h : Staged threads handlers) (hi : threads[i]? = some t)
    (ht : t.name = .main) (hm : m ∈ threads.set i t') (hmain : m.name = .main) : m = t' := by
  obtain ⟨j, hj⟩ := List.mem_iff_getElem?.1 hm
  by_cases hij : i = j
  · subst hij
    obtain ⟨hlt, -⟩ := List.getElem?_eq_some_iff.1 hi
    rw [List.getElem?_set_self hlt] at hj
    exact (Option.some.inj hj).symm
  · rw [List.getElem?_set_ne hij] at hj
    have hworker : t.name ≠ .worker := by rw [ht]; decide
    exact absurd (h.index_eq hi hj (ht.trans hmain.symm) hworker) hij

/-- What a step of a goroutine leaves of `main`: its places are in order and lie within
those it had before, or come after all that is passed. -/
structure Advances (threads : List Goroutine) (handlers : Nat) (t t' : Goroutine) : Prop where
  name : t'.name = t.name
  sorted : t.name = .main → InOrder (spans t'.code)
  lower : t.name = .main → ∀ q ∈ spans t'.code,
    (∃ q₀ ∈ spans t.code, ¬Before q.1 q₀.1) ∨ ∀ p, Passed threads handlers p → Before p q.1
  needed : ∀ op ∈ t'.code, ∀ p, needs op = some p →
    Passed threads handlers p ∨ t.name = .main ∧ ∀ q ∈ spans t'.code, Before p q.1

/-- What was passed stays passed. -/
theorem Staged.clear_set (h : Staged threads handlers) (hi : threads[i]? = some t)
    (ht : Advances threads handlers t t') {p : Place} (hp : Passed threads handlers p) :
    Clear (threads.set i t') p := by
  intro m hm hmain q hq
  rcases mem_set hm with hold | rfl
  · exact h.passed p hp m hold hmain q hq
  · have htmain : t.name = .main := ht.name ▸ hmain
    rcases ht.lower htmain q hq with ⟨q₀, hq₀, hle⟩ | hall
    · exact (h.passed p hp t (List.mem_of_getElem? hi) htmain q₀ hq₀).trans hle
    · exact hall p hp

/-- One goroutine makes a step. -/
theorem Staged.set (h : Staged threads handlers) (hi : threads[i]? = some t)
    (ht : Advances threads handlers t t') : Staged (threads.set i t') handlers := by
  constructor
  · rw [Pool.map_set_of_eq Goroutine.name hi ht.name]
    exact h.unique
  · intro m hm hmain
    rcases mem_set hm with hold | rfl
    · exact h.sorted m hold hmain
    · exact ht.sorted (ht.name ▸ hmain)
  · intro p hp
    cases hp with
    | born t₀ ht₀ hbirth =>
        rcases mem_set ht₀ with hold | rfl
        · exact h.clear_set hi ht (.born t₀ hold hbirth)
        · rw [ht.name] at hbirth
          exact h.clear_set hi ht (.born t (List.mem_of_getElem? hi) hbirth)
    | needed t₀ ht₀ op hop hneeds =>
        rcases mem_set ht₀ with hold | rfl
        · exact h.clear_set hi ht (.needed t₀ hold op hop hneeds)
        · rcases ht.needed op hop p hneeds with hpassed | ⟨htmain, hall⟩
          · exact h.clear_set hi ht hpassed
          · intro m hm hmain q hq
            rw [h.eq_of_mem_set hi htmain hm hmain] at hq
            exact hall q hq
    | handler hchange hp => exact h.clear_set hi ht (.handler hchange hp)

/-- A goroutine starts whose places `main` has passed. -/
theorem Staged.append (h : Staged threads handlers)
    (hnew : t.name ≠ .worker → ∀ t' ∈ threads, t'.name ≠ t.name) (hmain : t.name ≠ .main)
    (hbirth : ∀ p, birth t.name = some p → Clear threads p)
    (hneeds : ∀ op ∈ t.code, ∀ p, needs op = some p → Clear threads p) :
    Staged (threads ++ [t]) handlers := by
  have hclear : ∀ p, Clear threads p → Clear (threads ++ [t]) p := by
    intro p hp m hm hm' q hq
    rcases List.mem_append.1 hm with hold | hlast
    · exact hp m hold hm' q hq
    · rw [List.mem_singleton.1 hlast] at hm'
      exact absurd hm' hmain
  constructor
  · rw [List.map_append]
    refine List.pairwise_append.2 ⟨h.unique, List.pairwise_singleton _ _, ?_⟩
    intro n hn n' hn' hname
    obtain ⟨t', ht', rfl⟩ := List.mem_map.1 hn
    rw [List.map_singleton, List.mem_singleton] at hn'
    subst hn'
    by_contra hloop
    exact hnew (hname ▸ hloop) t' ht' hname
  · intro m hm hm'
    rcases List.mem_append.1 hm with hold | hlast
    · exact h.sorted m hold hm'
    · rw [List.mem_singleton.1 hlast] at hm'
      exact absurd hm' hmain
  · intro p hp
    apply hclear
    cases hp with
    | born t₀ ht₀ hb =>
        rcases List.mem_append.1 ht₀ with hold | hlast
        · exact h.passed p (.born t₀ hold hb)
        · rw [List.mem_singleton.1 hlast] at hb
          exact hbirth p hb
    | needed t₀ ht₀ op hop hn =>
        rcases List.mem_append.1 ht₀ with hold | hlast
        · exact h.passed p (.needed t₀ hold op hop hn)
        · rw [List.mem_singleton.1 hlast] at hop
          exact hneeds op hop p hn
    | handler hchange hp => exact h.passed p (.handler hchange hp)

/-- A handler is registered where `main` has passed that place. -/
theorem Staged.register (h : Staged threads handlers) (hclear : Clear threads (3, 0, 1))
    (k : Nat) : Staged threads k := by
  refine ⟨h.unique, h.sorted, fun p hp => ?_⟩
  cases hp with
  | born t ht hb => exact h.passed p (.born t ht hb)
  | needed t ht op hop hn => exact h.passed p (.needed t ht op hop hn)
  | handler hchange hp => exact hp ▸ hclear

/-! ## The kinds of steps -/

/-- A goroutine goes on with less code. -/
theorem Staged.advances_tail (h : Staged threads handlers) (hi : threads[i]? = some t)
    (hname : t'.name = t.name) (hcode : t'.code <:+ t.code) :
    Advances threads handlers t t' := by
  have ht := List.mem_of_getElem? hi
  have hsub : (spans t'.code).Sublist (spans t.code) := hcode.sublist.filterMap _
  refine ⟨hname, fun hmain => ?_, fun _ q hq => ?_, fun op hop p hneeds => ?_⟩
  · exact List.Pairwise.sublist hsub (h.sorted t ht hmain)
  · exact .inl ⟨q, hsub.subset hq, not_before_self _⟩
  · exact .inl (.needed t ht op (hcode.subset hop) hneeds)

/-- No input and no round of an export needs anything of `main`. -/
theorem needs_respond {x : Input} (h : respond n x = some code) :
    ∀ op ∈ code, needs op = none := by
  have hwords := (fits_respond h).words
  intro op hop
  cases n with
  | main =>
      cases x with
      | interrupt =>
          cases h
          simp only [List.mem_cons, List.not_mem_nil, or_false] at hop
          rcases hop with rfl | rfl <;> rfl
      | _ => cases h
  | watcher =>
      cases x with
      | write conf =>
          cases h
          rw [setConfiguration, List.mem_append, mem_locked] at hop
          simp only [List.mem_singleton] at hop
          rcases hop with (rfl | rfl | rfl) | rfl <;> rfl
      | _ => cases h
  | worker => cases x <;> cases h
  | _ =>
      have hmay := hwords op hop
      cases op with
      | other a =>
          cases a with
          | go job =>
              cases job with
              | configurationChange => cases hmay
              | sender key => cases hmay
              | _ => rfl
          | getConfiguration r => cases hmay
          | sendConf key => cases hmay
          | callProgramEnd fns k => cases hmay
          | handOver n => cases hmay
          | _ => rfl
      | _ => rfl

/-- No operation of a loop over a table, of an export or of a new configuration needs
anything of `main`. -/
theorem needs_plain {op : Op Mutex Action} (hop : plain op = true) : needs op = none := by
  cases op with
  | other a =>
      cases a with
      | go job => cases job <;> first | rfl | cases hop
      | getConfiguration r => cases hop
      | sendConf key => cases hop
      | callProgramEnd fns k => cases hop
      | handOver n => cases hop
      | _ => rfl
  | _ => rfl

theorem needs_round : ∀ op ∈ round c ch, needs op = none := by
  intro op hop
  rcases List.mem_append.1 hop with hop | hop
  · rcases List.mem_append.1 hop with hop | hop
    · exact needs_plain (plain_exportData c ch op hop)
    · exact needs_plain (Plain.locked (plain_access _ _) op hop)
  · rw [List.mem_singleton.1 hop]
    rfl

/-- An interrupt comes when the setup is over. -/
theorem passed_lt_end {p : Place} (h : Passed threads handlers p)
    (hover : ∀ t ∈ threads, ∀ op ∈ t.code, needs op ≠ some (6, 0, 0)) :
    Before p (6, 0, 0) := by
  cases h with
  | born t ht hb =>
      revert hb
      cases t.name <;> intro hb <;> cases hb <;> simp [Before]
  | needed t ht op hop hneeds =>
      cases op with
      | other a =>
          cases a with
          | callProgramEnd fns k => exact absurd rfl (hover t ht _ hop)
          | handOver n => exact absurd rfl (hover t ht _ hop)
          | go job => cases job <;> cases hneeds <;> decide
          | getConfiguration r => cases r <;> cases hneeds; decide
          | sendConf key => cases hneeds; decide
          | _ => cases hneeds
      | _ => cases hneeds
  | handler hchange hp => subst hp; decide

theorem needs_onConfigChange : ∀ op ∈ onConfigChange c ch, needs op = none :=
  fun op hop => needs_plain (plain_onConfigChange c ch op hop)

/-- `EndProgram` calls the function it finds. -/
theorem mem_expand_call {fns : Slice} {k : Nat} {op : Op Mutex Action}
    (hop : op ∈ expand starts s ch (.callProgramEnd fns k)) :
    ∃ n, s.arrays.cells fns.arr k = some n ∧ op = .other (.handOver n) := by
  rw [expand, Option.mem_toList, Option.map_eq_some_iff] at hop
  obtain ⟨n, hn, rfl⟩ := hop
  exact ⟨n, hn, rfl⟩

/-- What the code of an action needs: what the action needed, a handler that is
registered, or the end. -/
theorem needs_expand {op : Op Mutex Action} (hop : op ∈ expand starts s ch a)
    (hneeds : needs op = some p) :
    needs (.other a) = some p ∨ (0 < s.configurationChange ∧ p = (3, 0, 1)) ∨
      (a = .endProgram ∧ p = (6, 0, 0)) := by
  cases a with
  | next c table seen =>
      rw [needs_plain (plain_next op hop)] at hneeds
      cases hneeds
  | registerProgramEnd n =>
      rw [expand, List.mem_singleton] at hop
      subst hop
      cases hneeds
  | appendProgramEnd fns n =>
      rw [expand, List.mem_singleton] at hop
      subst hop
      cases hneeds
  | getConfiguration r =>
      cases r with
      | collectors =>
          obtain ⟨x, -, rfl⟩ := List.mem_map.1 hop
          cases hneeds
      | handler =>
          obtain ⟨key, -, rfl⟩ := List.mem_map.1 hop
          exact .inl hneeds
      | exporters => cases hop
  | rangeConfigurationChange =>
      obtain ⟨hpos, rfl⟩ := List.mem_replicate.1 hop
      cases hneeds
      exact .inr (.inl ⟨Nat.pos_of_ne_zero hpos, rfl⟩)
  | rangeContainerPIDChange =>
      obtain ⟨fn, -, rfl⟩ := List.mem_map.1 hop
      cases fn <;> cases hneeds
  | startCollector c key =>
      rw [expand] at hop
      split at hop
      · rw [startCollector, List.cons_append, List.mem_cons, List.mem_append] at hop
        rcases hop with rfl | hop | hop
        · cases hneeds
        · rw [needs_onConfigChange op hop] at hneeds
          cases hneeds
        · simp only [List.mem_cons, List.not_mem_nil, or_false] at hop
          rcases hop with rfl | rfl | rfl <;> cases hneeds
      · cases hop
  | endProgram =>
      obtain ⟨k, -, rfl⟩ := List.mem_map.1 hop
      cases hneeds
      exact .inr (.inr ⟨rfl, rfl⟩)
  | callProgramEnd fns k =>
      obtain ⟨n, -, rfl⟩ := mem_expand_call hop
      exact .inl hneeds
  | _ => cases hop

/-- An export only touches the batch and its points. -/
theorem mem_Export {b : Batch} {op : Op Mutex Action} (hop : op ∈ Export b) :
    ∃ d write, op = .other (.access d write) := by
  obtain ⟨block, hblock, hmem⟩ := List.mem_flatten.1 hop
  rw [List.eq_of_mem_replicate hblock] at hmem
  rcases List.mem_append.1 hmem with hmem | hmem
  · simp only [List.mem_cons, List.not_mem_nil, or_false] at hmem
    rcases hmem with rfl | rfl <;> exact ⟨_, _, rfl⟩
  · split at hmem
    · exact ⟨_, _, List.mem_singleton.1 hmem⟩
    · cases hmem

/-- A goroutine needs nothing that its start did not need. -/
theorem needs_job {held : List Mutex} {job : Job} {op : Op Mutex Action}
    (hpermits : permits held (.go job) = true) (hop : op ∈ job.code)
    (hneeds : needs op = some p) : needs (.other (.go job)) = some p := by
  cases job with
  | loop n => cases hop
  | notifyChange c delta =>
      obtain ⟨state, -, rfl⟩ := List.mem_map.1 hop
      cases hneeds
  | pidBuffer =>
      rw [Job.code, mem_locked, List.mem_singleton] at hop
      rcases hop with rfl | rfl | rfl <;> cases hneeds
  | pidLis c deltas =>
      have hnil : deltas = [] := List.isEmpty_iff.1 hpermits
      subst hnil
      cases hop
  | configurationChange =>
      rw [Job.code, mem_locked, List.mem_singleton] at hop
      rcases hop with rfl | rfl | rfl <;> cases hneeds
      rfl
  | sender key =>
      rw [Job.code, List.mem_singleton] at hop
      subst hop
      exact hneeds
  | Export b =>
      obtain ⟨d, write, rfl⟩ := mem_Export hop
      cases hneeds

/-- A goroutine with an action before it. -/
theorem Staged.advances_action (h : Staged s.threads s.configurationChange) (ht : Sound t)
    (hi : s.threads[i]? = some t) (hcode : t.code = .other a :: code) :
    Advances s.threads s.configurationChange t
      { t with code := expand starts s ch a ++ code, phase := phaseAfter ch t.phase a } := by
  have hmem := List.mem_of_getElem? hi
  obtain ⟨-, hmay, -⟩ := ht.permits hcode
  refine ⟨rfl, fun hmain => ?_, fun hmain q hq => .inl ?_, fun op hop p hneeds => ?_⟩
  · rw [hmain] at hmay
    have hsorted := h.sorted t hmem hmain
    rw [hcode] at hsorted
    exact inOrder_action hmay hsorted
  · rw [hmain] at hmay
    rw [hcode]
    exact lower_action hmay hq
  · rcases List.mem_append.1 hop with hnew | hold
    · rcases needs_expand hnew hneeds with hold | ⟨hpos, hp⟩ | ⟨rfl, rfl⟩
      · exact .inl (.needed t hmem _ (hcode ▸ List.mem_cons_self) hold)
      · exact .inl (.handler hpos hp)
      · -- the functions for the end of the program are called by `main`
        have hmain : t.name = .main := main_of_may hmay rfl
        refine .inr ⟨hmain, fun q hq => ?_⟩
        rw [hmain] at hmay
        rw [spans_append, spans_expand_endProgram, List.nil_append] at hq
        have hsorted := h.sorted t hmem hmain
        rw [hcode] at hsorted
        exact before_tail hsorted rfl q hq
    · exact .inl (.needed t hmem op (hcode ▸ List.mem_cons_of_mem _ hold) hneeds)

/-- The goroutine that `go` starts. -/
theorem Staged.launch (h : Staged s.threads s.configurationChange) (ht : Sound t)
    (hi : s.threads[i]? = some t) {job : Job} (hcode : t.code = .other (.go job) :: code)
    (hname : t'.name = t.name) (hrest : t'.code = code) :
    Staged (s.threads.set i t' ++ [Goroutines.launch ch job]) s.configurationChange := by
  have hmem := List.mem_of_getElem? hi
  obtain ⟨-, hmay, -⟩ := ht.permits hcode
  have hadvances : Advances s.threads s.configurationChange t t' := by
    apply h.advances_tail hi hname
    rw [hrest, hcode]
    exact List.suffix_cons _ _
  have hset := h.set hi hadvances
  cases job with
  | loop n =>
      have hmain : t.name = .main := main_of_may hmay rfl
      rw [hmain] at hmay
      have hn : n ≠ .main ∧ n ≠ .worker := of_decide_eq_true hmay
      have hsorted := h.sorted t hmem hmain
      rw [hcode] at hsorted
      have hclear : ∀ p, birth n = some p → Clear (s.threads.set i t') p := by
        intro p hp m hm hm' q hq
        rw [h.eq_of_mem_set hi hmain hm hm', hrest] at hq
        have hspan : span (.other (.go (.loop n))) = some (p, p) := by rw [span, hp]; rfl
        exact before_tail hsorted hspan q hq
      apply hset.append
      · intro _ t₀ ht₀ hname₀
        -- a loop of that name would show that `main` has passed this place
        obtain ⟨p, hp⟩ : ∃ p, birth n = some p := by
          cases n with
          | main => exact absurd rfl hn.1
          | worker => exact absurd rfl hn.2
          | _ => exact ⟨_, rfl⟩
        have hspan : span (.other (.go (.loop n))) = some (p, p) := by rw [span, hp]; rfl
        have hq : (p, p) ∈ spans t.code := by
          rw [hcode, spans_cons, hspan]
          exact List.mem_append_left _ (List.mem_singleton_self _)
        have hbirth : birth t₀.name = some p := by rw [hname₀]; exact hp
        rcases mem_set ht₀ with hold | rfl
        · exact not_before_self p (h.passed p (.born t₀ hold hbirth) t hmem hmain (p, p) hq)
        · rw [hname, hmain] at hbirth
          cases hbirth
      · exact hn.1
      · exact hclear
      · intro op hop p hneeds
        cases n with
        | period c =>
            rcases List.mem_cons.1 hop with rfl | hop
            · cases hneeds
            · rw [needs_round op hop] at hneeds
              cases hneeds
        | signal c =>
            rw [List.mem_singleton.1 hop] at hneeds
            cases hneeds
        | _ => cases hop
  | _ =>
      refine hset.append (fun hloop => absurd rfl hloop) (fun hmain => by cases hmain)
        (fun p hp => by cases hp) fun op hop p hneeds => ?_
      have hgo := needs_job (ht.permits hcode).1 hop hneeds
      exact h.clear_set hi hadvances (.needed t hmem _ (hcode ▸ List.mem_cons_self) hgo)

theorem started_eq_nil (ha : ∀ job, a ≠ .go job) : started ch a = [] := by
  cases a with
  | go job => exact absurd rfl (ha job)
  | _ => rfl

/-- An action registers no handler unless that is what it does. -/
theorem configurationChange_store (ha : a ≠ .registerConfigurationChange) :
    (store s ch a).configurationChange = s.configurationChange := by
  cases a with
  | registerConfigurationChange => exact absurd rfl ha
  | sendConf _ | callProgramEnd _ _ =>
      simp only [store]
      split <;> rfl
  | _ => rfl

theorem Staged.perform (h : Staged s.threads s.configurationChange) (ht : Sound t)
    (hi : s.threads[i]? = some t) (hcode : t.code = .other a :: code) :
    Staged (perform starts s i t code ch a).threads
      (perform starts s i t code ch a).configurationChange := by
  have hadvances : Advances s.threads s.configurationChange t { t with
      code := expand starts s ch a ++ code
      phase := phaseAfter ch t.phase a } := h.advances_action ht hi hcode
  by_cases hgo : ∃ job, a = .go job
  · obtain ⟨job, rfl⟩ := hgo
    exact h.launch ht hi hcode rfl rfl
  · have hnil : started ch a = [] := started_eq_nil fun job ha => hgo ⟨job, ha⟩
    simp only [Goroutines.perform, hnil, List.append_nil]
    by_cases hregister : a = .registerConfigurationChange
    · subst hregister
      refine (h.set hi hadvances).register (fun m hm hmain q hq => ?_) _
      have htmain : t.name = .main := main_of_may (ht.permits hcode).2.1 rfl
      rw [h.eq_of_mem_set hi htmain hm hmain] at hq
      have hsorted := h.sorted t (List.mem_of_getElem? hi) htmain
      rw [hcode] at hsorted
      exact before_tail hsorted rfl q hq
    · rw [configurationChange_store hregister]
      exact h.set hi hadvances

/-- Who ends the program is `main`. -/
theorem Sound.main_of_needs (h : Sound t) {op : Op Mutex Action} (hop : op ∈ t.code)
    (hneeds : needs op = some (6, 0, 0)) : t.name = .main := by
  cases op with
  | other a =>
      cases a with
      | callProgramEnd fns k => exact h.main hop rfl
      | handOver n => exact h.main hop rfl
      | go job => cases job <;> cases hneeds
      | getConfiguration r => cases r <;> cases hneeds
      | _ => cases hneeds
  | _ => cases hneeds

/-- A goroutine that has nothing to do gets code. -/
theorem Staged.advances_fresh (h : Staged threads handlers)
    (hall : ∀ t ∈ threads, Sound t) (hi : threads[i]? = some t) (hnil : t.code = [])
    (hname : t'.name = t.name) (hneeds : ∀ op ∈ t'.code, needs op = none)
    (hmain : t.name = .main → t'.code = [.other .endProgram, .other .exit]) :
    Advances threads handlers t t' := by
  refine ⟨hname, fun htmain => ?_, fun htmain q hq => .inr fun p hp => ?_,
    fun op hop p hp => ?_⟩
  · rw [hmain htmain]
    decide
  · -- only `main` ends the program, and it has nothing to do
    have hover : ∀ t₀ ∈ threads, ∀ op ∈ t₀.code, needs op ≠ some (6, 0, 0) := by
      intro t₀ ht₀ op hop hneeds
      have hmain₀ := (hall t₀ ht₀).main_of_needs hop hneeds
      obtain ⟨j, hj⟩ := List.mem_iff_getElem?.1 ht₀
      have hij := h.index_eq hi hj (htmain.trans hmain₀.symm) (by rw [htmain]; decide)
      rw [← hij, hi] at hj
      cases hj
      rw [hnil] at hop
      cases hop
    have hlt := passed_lt_end hp hover
    rw [hmain htmain] at hq
    simp only [spans, span, List.filterMap_cons, List.filterMap_nil, List.mem_cons,
      List.not_mem_nil, or_false] at hq
    rcases hq with rfl | rfl
    · exact hlt
    · exact hlt.trans (by decide)
  · rw [hneeds op hop] at hp
    cases hp

theorem Staged.step (h : Staged s.threads s.configurationChange)
    (hall : ∀ t ∈ s.threads, Sound t) (he : Steps starts s e s') :
    Staged s'.threads s'.configurationChange := by
  cases he with
  | lock hi hcode hfree =>
      exact h.set hi (h.advances_tail hi rfl (hcode ▸ List.suffix_cons _ _))
  | unlock hi hcode =>
      exact h.set hi (h.advances_tail hi rfl (hcode ▸ List.suffix_cons _ _))
  | action hi hcode henabled => exact h.perform (hall _ (List.mem_of_getElem? hi)) hi hcode
  | input hi hnil hidle hfirst hcode =>
      rename_i i t x code
      refine h.set hi (h.advances_fresh hall hi hnil rfl (needs_respond hcode) fun hmain => ?_)
      rw [hmain] at hcode
      cases x <;> cases hcode
      rfl
  | release hi hj hnil hreceives hcode hevent =>
      rename_i i j t t' code
      have hadvances : Advances s.threads s.configurationChange t
          { t with phase := donePhase t } := h.advances_tail hi rfl (List.suffix_refl _)
      have hset := h.set hi hadvances
      have hne : i ≠ j := by
        intro hij
        rw [hij, hj] at hi
        cases hi
        rw [hnil] at hcode
        cases hcode
      have hj' : (s.threads.set i { t with phase := donePhase t })[j]? = some t' := by
        rw [List.getElem?_set_ne hne, hj]
      exact hset.set hj' (hset.advances_tail hj' rfl (hcode ▸ List.suffix_cons _ _))
  | poll hi hnil hphase halone hnext =>
      exact h.set hi (h.advances_tail hi rfl (List.suffix_refl _))
  | tick hi hnil hname hphase =>
      refine h.set hi (h.advances_fresh hall hi hnil rfl needs_round fun hmain => ?_)
      rw [hname] at hmain
      cases hmain

theorem staged_start (conf : List Key) (pods : Nat) :
    Staged (start conf pods).threads (start conf pods).configurationChange := by
  refine ⟨List.pairwise_singleton _ _, fun m hm hmain => ?_, fun p hp => ?_⟩
  · rw [List.mem_singleton.1 hm, spans_programStart]
    decide
  · cases hp with
    | born t ht hb =>
        rw [List.mem_singleton.1 ht] at hb
        cases hb
    | needed t ht op hop hneeds =>
        rw [List.mem_singleton.1 ht] at hop
        have hnone : needs op = none := by
          rw [programStart, List.mem_append, List.mem_append] at hop
          rcases hop with (hop | hop) | hop
          · simp only [List.mem_cons, List.not_mem_nil, or_false] at hop
            rcases hop with rfl | rfl <;> rfl
          · obtain ⟨block, hblock, hmem⟩ := List.mem_flatten.1 hop
            rw [List.eq_of_mem_replicate hblock] at hmem
            have hrespond : respond .controller .pods = some setContainerPIDs := rfl
            exact needs_respond hrespond op hmem
          · simp only [List.mem_cons, List.not_mem_nil, or_false] at hop
            rcases hop with rfl | rfl | rfl | rfl | rfl <;> rfl
        rw [hnone] at hneeds
        cases hneeds
    | handler hchange hp => exact absurd hchange (Nat.lt_irrefl 0)

/-- **In every state of a run `main` has what it has started behind it, and no loop runs
twice.** -/
theorem staged_of_run {conf : List Key} {pods : Nat} (h : List Event) (s : Program)
    (hrun : run (step starts) (start conf pods) h = some s) :
    Staged s.threads s.configurationChange := by
  refine run_invariant (I := fun _ s => Staged s.threads s.configurationChange)
    (staged_start conf pods) ?_ h s hrun
  intro h s e s' hrun hs he
  exact hs.step (sound_of_run h s hrun).sound (steps_of_run hrun he).2

end Kmon.Ports.Goroutines
