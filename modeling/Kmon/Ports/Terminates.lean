import Mathlib.Algebra.Order.Group.Multiset
import Mathlib.Tactic.Abel
import Kmon.Ports.SetupOrder
import Kmon.Verified.Pool

/-!
# The program comes to rest

What the program does by itself, without an input from outside, ends, unless a loop over a
table of the kernel goes round for ever.  Every operation, every message in a channel and
every last sleep of `waitPeriod` is a task of some `cost`, and a step replaces one task by
cheaper ones: a section of a new configuration costs more than the sends it causes, a send
more than the message, and the message more than what the receiver does with it.  A loop over
a table comes back to where it was, so it pays for what it does with an entry out of a
number of rounds that is given beforehand.

`limited_wellFounded`: whatever the schedule, and however many such rounds there are, only a
finite number of steps follow one another.
-/

namespace Kmon.Ports.Goroutines

open Kmon.Verified
open Kmon.Verified.LockOrder
open Kmon.Verified.Run
open Kmon.Ports.ConfigDelivery (Kind Key)

/-! ## Where a goroutine waits -/

/-- The code of a period loop: nothing, or what ends with `waitPeriod`. -/
def Round (code : Code) : Prop :=
  code = [] ∨ ∃ init, code = init ++ [.other .waitPeriod] ∧ .other .waitPeriod ∉ init

/-- A goroutine that waits for something has no code left, a period loop that has none
waits in `waitPeriod`, and only loops that are told to return do so. -/
structure Waiting (t : Goroutine) : Prop where
  round : ∀ c, t.name = .period c → Round t.code
  rest : t.phase ≠ .idle → t.code = []
  returned : t.phase = .returned → t.name = .watcher ∨ ∃ c, t.name = .period c
  period : ∀ c, t.name = .period c → t.code = [] → t.phase ≠ .idle

variable {starts : Key → Bool} {s s' : Program} {e : Event} {i j : Nat} {t t' : Goroutine}
variable {n : Name} {code code' : Code} {a : Action} {c : Collector} {ch : Choice}

theorem round_round : Round (round c ch) := by
  refine .inr ⟨_, rfl, fun h => ?_⟩
  rcases List.mem_append.1 h with h | h
  · cases plain_exportData c ch _ h
  · rw [mem_locked, List.mem_singleton] at h
    rcases h with h | h | h <;> cases h

theorem Round.append (h : Round code) (hne : code ≠ []) (hnew : .other .waitPeriod ∉ code') :
    Round (code' ++ code) := by
  rcases h with rfl | ⟨init, rfl, hinit⟩
  · exact absurd rfl hne
  · refine .inr ⟨code' ++ init, (List.append_assoc _ _ _).symm, fun hmem => ?_⟩
    exact (List.mem_append.1 hmem).elim hnew hinit

/-- Behind `waitPeriod` there is nothing. -/
theorem Round.tail_wait (h : Round (.other .waitPeriod :: code)) : code = [] := by
  rcases h with h | ⟨init, hcode, hinit⟩
  · cases h
  · cases init with
    | nil =>
        rw [List.nil_append, List.cons.injEq] at hcode
        exact hcode.2
    | cons op init =>
        rw [List.cons_append, List.cons.injEq] at hcode
        exact absurd (hcode.1 ▸ List.mem_cons_self) hinit

/-- Before `waitPeriod` there is more to do. -/
theorem Round.tail {op : Op Mutex Action} (h : Round (op :: code))
    (hop : op ≠ .other .waitPeriod) : Round code ∧ code ≠ [] := by
  rcases h with h | ⟨init, hcode, hinit⟩
  · cases h
  · cases init with
    | nil =>
        rw [List.nil_append, List.cons.injEq] at hcode
        exact absurd hcode.1 hop
    | cons op' init =>
        rw [List.cons_append, List.cons.injEq] at hcode
        refine ⟨.inr ⟨init, hcode.2, fun hmem => hinit (List.mem_cons_of_mem _ hmem)⟩, ?_⟩
        rw [hcode.2]
        exact List.append_ne_nil_of_right_ne_nil _ (List.cons_ne_nil _ _)

/-- A goroutine with code left is not waiting. -/
theorem Waiting.idle (h : Waiting t) (hne : t.code ≠ []) : t.phase = .idle := by
  by_contra hphase
  exact hne (h.rest hphase)

/-- A goroutine that is no period loop only has to keep its phase. -/
theorem waiting_of_name (hn : ∀ c, t.name ≠ .period c) (hidle : t.phase = .idle) :
    Waiting t := by
  refine ⟨fun c hc => absurd hc (hn c), fun h => absurd hidle h, fun h => ?_,
    fun c hc => absurd hc (hn c)⟩
  rw [hidle] at h
  cases h

/-- One operation is done, which is not `waitPeriod`. -/
theorem Waiting.tail (h : Waiting t) {op : Op Mutex Action} (hcode : t.code = op :: code)
    (hop : op ≠ .other .waitPeriod) (hname : t'.name = t.name) (hphase : t'.phase = t.phase)
    (hcode' : ∀ c, t.name = .period c → Round code → code ≠ [] → Round t'.code ∧ t'.code ≠ []) :
    Waiting t' := by
  have hidle := h.idle (hcode ▸ List.cons_ne_nil _ _)
  rw [← hphase] at hidle
  refine ⟨fun c hc => ?_, fun hne => absurd hidle hne, fun hret => ?_, fun c hc hnil => ?_⟩
  · rw [hname] at hc
    obtain ⟨hround, hne⟩ := (hcode ▸ h.round c hc).tail hop
    exact (hcode' c hc hround hne).1
  · rw [hidle] at hret
    cases hret
  · rw [hname] at hc
    obtain ⟨hround, hne⟩ := (hcode ▸ h.round c hc).tail hop
    exact absurd hnil (hcode' c hc hround hne).2

/-- No action of a period loop leads to `waitPeriod`. -/
theorem expand_period (hmay : mayDo (.period c) a = true) :
    .other .waitPeriod ∉ expand starts s ch a := by
  intro hop
  cases a with
  | next c' table seen => cases plain_next _ hop
  | registerProgramEnd n => cases List.mem_singleton.1 hop
  | appendProgramEnd fns n => cases List.mem_singleton.1 hop
  | getConfiguration r => cases hmay
  | rangeConfigurationChange => cases hmay
  | rangeContainerPIDChange => cases hmay
  | startCollector c key => cases hmay
  | endProgram => cases hmay
  | callProgramEnd fns k => cases hmay
  | _ => cases hop

theorem Waiting.action (h : Waiting t) (ht : Sound t) (hcode : t.code = .other a :: code) :
    Waiting { t with code := expand starts s ch a ++ code, phase := phaseAfter ch t.phase a } := by
  obtain ⟨-, hmay, -⟩ := ht.permits hcode
  by_cases hwait : a = .waitPeriod
  · subst hwait
    obtain ⟨c, hc⟩ : ∃ c, t.name = .period c := by
      revert hmay
      cases t.name <;> intro hmay <;> first | exact ⟨_, rfl⟩ | cases hmay
    have hnil : code = [] := (hcode ▸ h.round c hc).tail_wait
    subst hnil
    exact ⟨fun _ _ => .inl rfl, fun _ => rfl, fun hret => (by cases hret),
      fun _ _ _ hidle => (by cases hidle)⟩
  · have hphase : phaseAfter ch t.phase a = t.phase := by
      cases a <;> first | rfl | exact absurd rfl hwait
    rw [hphase]
    refine h.tail hcode (fun hop => hwait (by cases hop; rfl)) rfl rfl
      fun c hc hround hne => ?_
    rw [hc] at hmay
    exact ⟨hround.append hne (expand_period hmay), List.append_ne_nil_of_right_ne_nil _ hne⟩

theorem waiting_launch {job : Job} : Waiting (launch ch job) := by
  cases job with
  | loop n =>
      cases n with
      | period c =>
          have hne : round c ch ≠ [] := List.append_ne_nil_of_right_ne_nil _ (List.cons_ne_nil _ _)
          refine ⟨fun c' hc' => ?_, fun h => absurd rfl h, fun h => (by cases h),
            fun c' hc' hnil => by cases hnil⟩
          have hfirst : .other .waitPeriod ∉
              ([.other (.registerProgramEnd (.period c))] : Code) := by simp
          exact round_round.append hne hfirst
      | _ => exact waiting_of_name (fun c hc => by cases hc) rfl
  | _ => exact waiting_of_name (fun c hc => by cases hc) rfl

/-- Who receives `done` may return, unless it is a signal loop. -/
theorem name_of_returned (hs : Sound t) (ht : Waiting t) (hreceives : Receives t)
    (hret : donePhase t = .returned) : t.name = .watcher ∨ ∃ c, t.name = .period c := by
  rcases hreceives with ⟨hidle, hname | ⟨c, hname⟩⟩ | ⟨period, progress, hphase⟩
  · exact .inl hname
  · rw [donePhase, hname] at hret
    exact ht.returned hret
  · exact .inr (hs.polls (by simp [hphase]) (by simp [hphase]))

theorem waiting_step (hs : SoundProgram s) (hw : ∀ t ∈ s.threads, Waiting t)
    (he : Steps starts s e s') : ∀ t ∈ s'.threads, Waiting t := by
  have hput : ∀ {i : Nat} {t' : Goroutine}, Waiting t' →
      ∀ t ∈ s.threads.set i t', Waiting t := by
    intro i t' ht' t ht
    rcases mem_set ht with hmem | rfl
    · exact hw t hmem
    · exact ht'
  cases he with
  | lock hi hcode hfree =>
      exact hput ((hw _ (List.mem_of_getElem? hi)).tail hcode (by simp) rfl rfl
        fun c _ hround hne => ⟨hround, hne⟩)
  | unlock hi hcode =>
      exact hput ((hw _ (List.mem_of_getElem? hi)).tail hcode (by simp) rfl rfl
        fun c _ hround hne => ⟨hround, hne⟩)
  | action hi hcode henabled =>
      rename_i i t a code ch
      have hmem := List.mem_of_getElem? hi
      intro t₀ ht₀
      rcases List.mem_append.1 ht₀ with hold | hnew
      · exact hput ((hw t hmem).action (hs.sound t hmem) hcode) t₀ hold
      · cases a with
        | go job =>
            rw [started, List.mem_singleton] at hnew
            subst hnew
            exact waiting_launch
        | _ => cases hnew
  | input hi hnil hidle hfirst hcode =>
      rename_i i t x code
      refine hput (waiting_of_name (fun c hc => ?_) hidle)
      have hc : t.name = .period c := hc
      rw [hc] at hcode
      cases hcode
  | release hi hj hnil hreceives hcode hevent =>
      rename_i i j t t' code
      have hmem := List.mem_of_getElem? hi
      have hmem' := List.mem_of_getElem? hj
      have hfirst : Waiting { t with phase := donePhase t } := by
        have ht := hw t hmem
        refine ⟨ht.round, fun _ => hnil, fun hret => ?_, fun c hc hnil' hidle => ?_⟩
        · have hname := name_of_returned (hs.sound t hmem) ht hreceives hret
          exact hname
        · have hc : t.name = .period c := hc
          rw [donePhase, hc] at hidle
          cases hidle
      have hsecond : Waiting { t' with code := code } := by
        refine waiting_of_name (fun c hc => ?_)
          ((hw t' hmem').idle (hcode ▸ List.cons_ne_nil _ _))
        have hmay := ((hs.sound t' hmem').permits hcode).2.1
        have hc : t'.name = .period c := hc
        rw [hc] at hmay
        cases hmay
      intro t₀ ht₀
      rcases mem_set ht₀ with hmem₀ | rfl
      · exact hput hfirst t₀ hmem₀
      · exact hsecond
  | poll hi hnil hphase halone hnext =>
      rename_i i t period progress phase
      have ht := hw t (List.mem_of_getElem? hi)
      refine hput ⟨ht.round, fun _ => hnil, fun hret => ?_, fun c hc hnil' hidle => ?_⟩
      · rcases hnext with rfl | ⟨progress', rfl⟩ <;> cases hret
      · rcases hnext with rfl | ⟨progress', rfl⟩ <;> cases hidle
  | tick hi hnil hname hphase =>
      rename_i i t c ch
      refine hput ⟨fun _ _ => round_round, fun h => absurd rfl h, fun h => (by cases h),
        fun c' _ hnil' => ?_⟩
      exact absurd hnil' (List.append_ne_nil_of_right_ne_nil _ (List.cons_ne_nil _ _))

theorem waiting_of_run {conf : List Key} {pods : Nat} (h : List Event) (s : Program)
    (hrun : run (step starts) (start conf pods) h = some s) : ∀ t ∈ s.threads, Waiting t := by
  refine run_invariant (I := fun _ s => ∀ t ∈ s.threads, Waiting t) ?_ ?_ h s hrun
  · intro t ht
    rw [List.mem_singleton.1 ht]
    exact waiting_of_name (fun c hc => by cases hc) rfl
  · intro h s e s' hrun hw he
    exact waiting_step (sound_of_run h s hrun) hw (steps_of_run hrun he).2

/-! ## Tasks -/

/-- What a message costs whoever receives it. -/
def Message.cost : Message → Nat
  | AddCh _ => 1
  | DelCh _ => 1
  | ConfCh _ => 5
  | dataCh _ => 2

/-- What an operation costs: more than everything it leads to. -/
def cost : Op Mutex Action → Nat
  | .other (.next _ _ _) => 4
  | .other (.registerProgramEnd _) => 2
  | .other (.appendProgramEnd _ _) => 1
  | .other (.send m) => m.cost + 1
  | .other (.sendConf _) => 6
  | .other (.getConfiguration .collectors) => 7
  | .other (.getConfiguration .handler) => 8
  | .other .rangeConfigurationChange => 10
  | .other .rangeContainerPIDChange => 5
  | .other (.startCollector _ _) => 6
  | .other (.go (.loop _)) => 5
  | .other (.go (.notifyChange _ _)) => 3
  | .other (.go .pidBuffer) => 1
  | .other (.go (.pidLis _ _)) => 4
  | .other (.go .configurationChange) => 9
  | .other (.go (.sender _)) => 7
  | .other (.go (.Export _)) => 1
  | .other .endProgram => 2
  | .other (.callProgramEnd _ _) => 1
  | _ => 0

/-- After the last sleep of `waitPeriod` comes another round. -/
def Phase.tasks : Phase → Multiset Nat
  | sleeping => {5}
  | _ => 0

/-- What a goroutine has still to do. -/
def Goroutine.tasks (t : Goroutine) : Multiset Nat := ↑(t.code.map cost) + t.phase.tasks

def Program.tasks (s : Program) : Multiset Nat :=
  (s.threads.map Goroutine.tasks).sum + ↑(s.queued.map Message.cost)

/-- What the program does by itself: the next operation of a goroutine, a receive, and the
polls and sleeps of a loop to which `done` is to be handed over. -/
def Internal (s : Program) : Event → Prop
  | .exec _ _ => True
  | .input _ x => ∃ n, (message n x).isSome
  | .done _ => True
  | .poll i => ∃ t ∈ s.threads[i]?, waiter s t.name ≠ none
  | .tick i _ => ∃ t ∈ s.threads[i]?, waiter s t.name ≠ none

/-- A goroutine is about to look for the next entry of a table. -/
def isNext : Op Mutex Action → Bool
  | .other (.next _ _ _) => true
  | _ => false

/-- A loop over a table finds another entry. -/
def goesRound (s : Program) : Event → Bool
  | .exec i ch => ch.more && s.threads[i]?.any fun t => t.code.head?.any isNext
  | _ => false

/-- One task is replaced by cheaper ones. -/
def Cheaper (tasks tasks' : Multiset Nat) : Prop :=
  ∃ a l, (∀ a' ∈ l, a' < a) ∧ tasks' + {a} = tasks + l

theorem Cheaper.add {l l' : Multiset Nat} (h : Cheaper l l') (rest : Multiset Nat) :
    Cheaper (l + rest) (l' + rest) := by
  obtain ⟨a, new, hlt, heq⟩ := h
  refine ⟨a, new, hlt, ?_⟩
  rw [add_right_comm, heq, add_right_comm]

/-- A goroutine makes a step, and leaves what is in the channels. -/
theorem cheaper_put (hi : s.threads[i]? = some t) (h : Cheaper t.tasks t'.tasks) :
    Cheaper s.tasks (s.put i t').tasks := by
  obtain ⟨rest, hsum, hset⟩ := Pool.exists_sum_map_set Goroutine.tasks hi t'
  rw [Program.tasks, Program.tasks, Program.put, hset, hsum, add_assoc, add_assoc]
  exact h.add _

/-- The first operation goes. -/
theorem cheaper_pop {op : Op Mutex Action} (hcode : t.code = op :: code)
    (hcode' : t'.code = code) (hphase : t'.phase = t.phase) : Cheaper t.tasks t'.tasks := by
  refine ⟨cost op, 0, fun _ h => (by simp at h), ?_⟩
  rw [Goroutine.tasks, Goroutine.tasks, hcode, hcode', hphase, List.map_cons,
    ← Multiset.cons_coe, add_zero, ← Multiset.singleton_add, add_right_comm, add_comm {_}]

/-! ## What an action leads to is cheaper -/

/-- The loops of a collector do nothing dearer than to go over a table. -/
theorem cost_plain {op : Op Mutex Action} (hop : plain op = true) : cost op ≤ 4 := by
  cases op with
  | other a =>
      cases a with
      | access d write => exact Nat.zero_le _
      | next c table seen => exact Nat.le_refl _
      | send m => cases m <;> first | exact Nat.le_of_ble_eq_true rfl | cases hop
      | go job => cases job <;> first | exact Nat.le_of_ble_eq_true rfl | cases hop
      | _ => cases hop
  | _ => exact Nat.zero_le _

theorem cost_onConfigChange : ∀ op ∈ onConfigChange c ch, cost op ≤ 4 :=
  fun op hop => cost_plain (plain_onConfigChange c ch op hop)

theorem cost_round : ∀ op ∈ round c ch, cost op ≤ 4 := by
  intro op hop
  rcases List.mem_append.1 hop with hop | hop
  · rcases List.mem_append.1 hop with hop | hop
    · exact cost_plain (plain_exportData c ch op hop)
    · exact cost_plain (Plain.locked (plain_access _ _) op hop)
  · rw [List.mem_singleton.1 hop]
    exact Nat.zero_le _

/-- A locked access costs nothing. -/
theorem cost_access {m : Mutex} {d : Datum} {write : Bool} :
    ∀ op ∈ locked m [.other (.access d write)], cost op = 0 := by
  intro op hop
  rw [mem_locked, List.mem_singleton] at hop
  rcases hop with rfl | rfl | rfl <;> rfl

theorem cost_sendData {b : Batch} : ∀ op ∈ sendData b, cost op = 3 := by
  intro op hop
  unfold sendData at hop
  split at hop
  · cases hop
  · rw [List.mem_singleton.1 hop]
    rfl

/-- Behind a loop over a table comes nothing as dear as the loop. -/
theorem cost_behind {table : Table} {seen : Nat} :
    ∀ op ∈ behind c seen ch table, cost op < 4 := by
  intro op hop
  cases table with
  | countMap => exact Nat.le_of_eq (congrArg Nat.succ (cost_sendData op hop))
  | distMap =>
      rcases List.mem_append.1 hop with hop | hop
      · obtain ⟨block, hblock, hmem⟩ := List.mem_flatten.1 hop
        rw [List.eq_of_mem_replicate hblock] at hmem
        rw [show cost op = 0 from cost_access op hmem]
        exact Nat.zero_lt_succ _
      · exact Nat.le_of_eq (congrArg Nat.succ (cost_sendData op hop))
  | controlMap => cases hop

/-- What such a loop does with an entry costs nothing. -/
theorem cost_entry {table : Table} : ∀ op ∈ entry c table, cost op = 0 := by
  intro op hop
  cases table with
  | countMap =>
      rcases List.mem_append.1 hop with hop | hop
      · exact cost_access op hop
      · rw [List.mem_singleton.1 hop]
        rfl
  | distMap =>
      rw [List.mem_singleton.1 hop]
      rfl
  | controlMap =>
      rw [List.mem_singleton.1 hop]
      rfl

theorem cost_addPID : ∀ op ∈ addPID c, cost op = 0 := by
  have haccess : ∀ write : Bool, ∀ op ∈ locked (.collector c)
      [.other (.access (.collector c) write)], cost op = 0 := fun write => cost_access
  have hread := haccess false
  have hwrite := haccess true
  have hempty : ∀ op ∈ (locked (.collector c) [] : Code), cost op = 0 := by
    intro op hop
    rw [mem_locked] at hop
    rcases hop with rfl | hop | rfl
    · rfl
    · cases hop
    · rfl
  intro op hop
  unfold addPID at hop
  split at hop
  · exact hwrite op hop
  · exact (List.mem_append.1 hop).elim (hempty op) (hwrite op)
  · exact (List.mem_append.1 hop).elim (hread op) (hwrite op)

/-- What a goroutine does with a message is cheaper than the message. -/
theorem cost_respond {x : Input} {m : Message} (h : respond n x = some code)
    (hm : message n x = some m) : ∀ op ∈ code, cost op < m.cost := by
  intro op hop
  unfold message at hm
  split at hm
  · cases hm
    cases h
    exact Nat.lt_succ_of_le (cost_onConfigChange op hop)
  · cases hm
    cases h
    rw [cost_addPID op hop]
    exact Nat.zero_lt_one
  · cases hm
    cases h
    rw [cost_access op hop]
    exact Nat.zero_lt_one
  · cases hm
    cases h
    rw [List.eq_of_mem_replicate hop]
    exact Nat.le_of_ble_eq_true rfl
  · cases hm

theorem cost_launch {held : List Mutex} {job : Job} (hpermits : permits held (.go job) = true) :
    ∀ op ∈ (launch ch job).code, cost op < cost (.other (.go job)) := by
  intro op hop
  cases job with
  | loop n =>
      cases n with
      | period c =>
          rcases List.mem_cons.1 hop with rfl | hop
          · exact Nat.le_of_ble_eq_true rfl
          · exact Nat.lt_succ_of_le (cost_round op hop)
      | signal c =>
          rw [List.mem_singleton.1 hop]
          exact Nat.le_of_ble_eq_true rfl
      | _ => cases hop
  | notifyChange c delta =>
      obtain ⟨state, -, rfl⟩ := List.mem_map.1 hop
      cases state <;> exact Nat.le_refl _
  | pidBuffer =>
      rw [show cost op = 0 from cost_access op hop]
      exact Nat.zero_lt_one
  | pidLis c deltas =>
      have hnil : deltas = [] := List.isEmpty_iff.1 hpermits
      subst hnil
      cases hop
  | configurationChange =>
      simp only [launch, Job.code, mem_locked, List.mem_singleton] at hop
      rcases hop with rfl | rfl | rfl <;> decide
  | sender key =>
      simp only [launch, Job.code, List.mem_singleton] at hop
      subst hop
      exact Nat.le_refl _
  | Export b =>
      obtain ⟨d, write, rfl⟩ := mem_Export hop
      exact Nat.zero_lt_one

theorem cost_expand (hmore : ch.more = true → isNext (.other a) = false) :
    ∀ op ∈ expand starts s ch a, cost op < cost (.other a) := by
  intro op hop
  cases a with
  | next c table seen =>
      have hlast : ch.more ≠ true := fun hmore' => by cases hmore hmore'
      rw [expand, if_neg hlast] at hop
      exact cost_behind op hop
  | registerProgramEnd n =>
      rw [List.mem_singleton.1 hop]
      exact Nat.le_of_ble_eq_true rfl
  | appendProgramEnd fns n =>
      rw [List.mem_singleton.1 hop]
      exact Nat.le_of_ble_eq_true rfl
  | getConfiguration r =>
      cases r with
      | collectors =>
          obtain ⟨x, -, rfl⟩ := List.mem_map.1 hop
          exact Nat.le_refl _
      | handler =>
          obtain ⟨key, -, rfl⟩ := List.mem_map.1 hop
          exact Nat.le_refl _
      | exporters => cases hop
  | rangeConfigurationChange =>
      rw [List.eq_of_mem_replicate hop]
      decide
  | rangeContainerPIDChange =>
      obtain ⟨fn, -, rfl⟩ := List.mem_map.1 hop
      cases fn <;> exact Nat.le_of_ble_eq_true rfl
  | startCollector c key =>
      rw [expand] at hop
      split at hop
      · rw [startCollector, List.cons_append, List.mem_cons, List.mem_append] at hop
        rcases hop with rfl | hop | hop
        · exact Nat.le_of_ble_eq_true rfl
        · exact Nat.lt_succ_of_le (Nat.le_succ_of_le (cost_onConfigChange op hop))
        · simp only [List.mem_cons, List.not_mem_nil, or_false] at hop
          rcases hop with rfl | rfl | rfl <;> exact Nat.le_of_ble_eq_true rfl
      · cases hop
  | endProgram =>
      obtain ⟨k, -, rfl⟩ := List.mem_map.1 hop
      exact Nat.le_of_ble_eq_true rfl
  | callProgramEnd fns k =>
      obtain ⟨n, -, rfl⟩ := mem_expand_call hop
      exact Nat.le_of_ble_eq_true rfl
  | _ => cases hop

theorem cost_sent : ∀ m ∈ sent s a, m.cost < cost (.other a) := by
  intro m hmem
  cases a with
  | send m' =>
      rw [sent, List.mem_singleton] at hmem
      subst hmem
      exact Nat.lt_succ_self _
  | sendConf key =>
      rw [sent, Option.mem_toList, Option.map_eq_some_iff] at hmem
      obtain ⟨c, -, rfl⟩ := hmem
      exact Nat.le_of_ble_eq_true rfl
  | _ => cases hmem

/-! ## Every step -/

/-- The goroutines that an action starts have cheaper tasks only. -/
theorem lt_started {held : List Mutex} (hpermits : permits held a = true) :
    ∀ k ∈ ((started ch a).map Goroutine.tasks).sum, k < cost (.other a) := by
  intro k hk
  cases a with
  | go job =>
      have hphase : (launch ch job).phase.tasks = 0 := by cases job <;> rfl
      rw [started, List.map_singleton, List.sum_singleton, Goroutine.tasks, hphase, add_zero,
        Multiset.mem_coe] at hk
      obtain ⟨op, hop, rfl⟩ := List.mem_map.1 hk
      exact cost_launch hpermits op hop
  | _ => simp [started] at hk

theorem cheaper_perform (ht : Sound t) (hw : Waiting t) (hi : s.threads[i]? = some t)
    (hcode : t.code = .other a :: code) (hmore : ch.more = true → isNext (.other a) = false) :
    Cheaper s.tasks (perform starts s i t code ch a).tasks := by
  obtain ⟨hpermits, -, -⟩ := ht.permits hcode
  have hidle := hw.idle (hcode ▸ List.cons_ne_nil _ _)
  have hphase : (phaseAfter ch t.phase a).tasks = 0 := by
    rw [hidle]
    cases a <;> rfl
  obtain ⟨rest, hsum, hset⟩ := Pool.exists_sum_map_set Goroutine.tasks hi
    { t with code := expand starts s ch a ++ code, phase := phaseAfter ch t.phase a }
  refine ⟨cost (.other a), ↑((expand starts s ch a).map cost) +
    ((started ch a).map Goroutine.tasks).sum + ↑((sent s a).map Message.cost), ?_, ?_⟩
  · intro k hk
    rcases Multiset.mem_add.1 hk with hk | hk
    · rcases Multiset.mem_add.1 hk with hk | hk
      · obtain ⟨op, hop, rfl⟩ := List.mem_map.1 (Multiset.mem_coe.1 hk)
        exact cost_expand hmore op hop
      · exact lt_started hpermits k hk
    · obtain ⟨m, hmem, rfl⟩ := List.mem_map.1 (Multiset.mem_coe.1 hk)
      exact cost_sent m hmem
  · have ht' : Goroutine.tasks
        { t with code := expand starts s ch a ++ code, phase := phaseAfter ch t.phase a } =
          ↑((expand starts s ch a).map cost) + ↑(code.map cost) := by
      rw [Goroutine.tasks, hphase, add_zero, List.map_append, Multiset.coe_add]
    have ht : t.tasks = {cost (.other a)} + ↑(code.map cost) := by
      have hzero : t.phase.tasks = 0 := by rw [hidle]; rfl
      rw [Goroutine.tasks, hcode, hzero, add_zero, List.map_cons, ← Multiset.cons_coe,
        Multiset.singleton_add]
    rw [Program.tasks, Program.tasks, hsum, ht]
    simp only [perform, List.map_append, List.sum_append, hset, ht']
    rw [← Multiset.coe_add]
    abel

/-- Who answers an input that is a message receives one. -/
theorem exists_message {x : Input} {n' : Name} (h : respond n x = some code)
    (hm : (message n' x).isSome = true) : ∃ m, message n x = some m := by
  cases x with
  | conf ch => cases n <;> first | exact ⟨_, rfl⟩ | cases h
  | add => cases n <;> first | exact ⟨_, rfl⟩ | cases h
  | del => cases n <;> first | exact ⟨_, rfl⟩ | cases h
  | data b exporters => cases n <;> first | exact ⟨_, rfl⟩ | cases h
  | _ => cases n' <;> cases hm

/-- A message is received. -/
theorem cheaper_receive (hi : s.threads[i]? = some t) (hnil : t.code = []) {x : Input}
    {m : Message} (hcode : respond t.name x = some code)
    (hm : message t.name x = some m) (hmem : m ∈ s.queued) :
    Cheaper s.tasks
      ({ s.put i { t with code := code } with queued := s.queued.erase m } :
        Program).tasks := by
  obtain ⟨rest, hsum, hset⟩ := Pool.exists_sum_map_set Goroutine.tasks hi { t with code := code }
  refine ⟨m.cost, ↑(code.map cost), fun k hk => ?_, ?_⟩
  · obtain ⟨op, hop, rfl⟩ := List.mem_map.1 (Multiset.mem_coe.1 hk)
    exact cost_respond hcode hm op hop
  · have hqueued : (↑(s.queued.map Message.cost) : Multiset Nat) =
        {m.cost} + ↑((s.queued.erase m).map Message.cost) := by
      rw [Multiset.singleton_add, Multiset.cons_coe, Multiset.coe_eq_coe, ← List.map_cons]
      exact (List.perm_cons_erase hmem).map _
    have ht : t.tasks = t.phase.tasks := by
      rw [Goroutine.tasks, hnil]
      exact zero_add _
    have ht' : Goroutine.tasks { t with code := code } = ↑(code.map cost) + t.phase.tasks := rfl
    simp only [Program.tasks, Program.put, hsum, hset, ht, ht', hqueued]
    abel

/-- Where a loop over a table goes round, there is only more to do that costs nothing. -/
theorem tasks_perform_next (hw : Waiting t) (hi : s.threads[i]? = some t)
    {table : Table} {seen : Nat} (hcode : t.code = .other (.next c table seen) :: code)
    (hmore : ch.more = true) : ∃ l : Multiset Nat, (∀ k ∈ l, k = 0) ∧
      (perform starts s i t code ch (.next c table seen)).tasks = s.tasks + l := by
  have hidle := hw.idle (hcode ▸ List.cons_ne_nil _ _)
  obtain ⟨rest, hsum, hset⟩ := Pool.exists_sum_map_set Goroutine.tasks hi
    { t with code := expand starts s ch (.next c table seen) ++ code }
  refine ⟨↑((entry c table).map cost), fun k hk => ?_, ?_⟩
  · obtain ⟨op, hop, rfl⟩ := List.mem_map.1 (Multiset.mem_coe.1 hk)
    exact cost_entry op hop
  · have hzero : t.phase.tasks = 0 := by rw [hidle]; rfl
    have hexpand : expand starts s ch (.next c table seen) =
        entry c table ++ [.other (.next c table (seen + 1))] := by
      rw [expand, if_pos hmore]
    have ht' : Goroutine.tasks { t with code := expand starts s ch (.next c table seen) ++ code } =
        ↑((entry c table).map cost) + ({4} + ↑(code.map cost)) := by
      rw [Goroutine.tasks, hzero, add_zero, hexpand, List.append_assoc, List.map_append,
        ← Multiset.coe_add, List.singleton_append, List.map_cons, ← Multiset.cons_coe,
        Multiset.singleton_add]
      rfl
    have ht : t.tasks = {4} + ↑(code.map cost) := by
      rw [Goroutine.tasks, hcode, hzero, add_zero, List.map_cons, ← Multiset.cons_coe,
        Multiset.singleton_add]
      rfl
    have hperform : (perform starts s i t code ch (.next c table seen)).tasks =
        ((s.threads.set i
          { t with code := expand starts s ch (.next c table seen) ++ code }).map
            Goroutine.tasks).sum + ↑(s.queued.map Message.cost) := by
      simp only [Program.tasks, perform, store, phaseAfter, started, sent, List.append_nil]
    rw [hperform, hset, ht', Program.tasks, hsum, ht]
    abel

/-- **A step of the program by itself replaces a task by cheaper ones, unless a loop over a
table goes round.** -/
theorem cheaper_step (hs : SoundProgram s) (hw : ∀ t ∈ s.threads, Waiting t)
    (he : Steps starts s e s') (hinternal : Internal s e) (hround : goesRound s e = false) :
    Cheaper s.tasks s'.tasks := by
  cases he with
  | lock hi hcode hfree => exact cheaper_put hi (cheaper_pop hcode rfl rfl)
  | unlock hi hcode => exact cheaper_put hi (cheaper_pop hcode rfl rfl)
  | action hi hcode henabled =>
      have hmem := List.mem_of_getElem? hi
      refine cheaper_perform (hs.sound _ hmem) (hw _ hmem) hi hcode fun hmore => ?_
      simpa [goesRound, hmore, hi, hcode] using hround
  | input hi hnil hidle hfirst hcode =>
      rename_i i t x code
      obtain ⟨n, hn⟩ := hinternal
      obtain ⟨m, hm⟩ := exists_message hcode hn
      rw [hm]
      exact cheaper_receive hi hnil hcode hm (List.mem_of_find?_eq_some (hfirst m hm))
  | release hi hj hnil hreceives hcode hevent =>
      rename_i i j t t' code
      have hmem := List.mem_of_getElem? hi
      have htasks : Goroutine.tasks { t with phase := donePhase t } = t.tasks := by
        have hphase : (donePhase t).tasks = t.phase.tasks := by
          rcases hreceives with ⟨hidle, hname | ⟨c, hname⟩⟩ | ⟨period, progress, hphase⟩
          · rw [donePhase, hname, hidle]
            rfl
          · rw [donePhase, hname]
          · obtain ⟨c, hc⟩ := (hs.sound t hmem).polls (by simp [hphase]) (by simp [hphase])
            rw [donePhase, hc, hphase]
            rfl
        rw [Goroutine.tasks, Goroutine.tasks, hphase]
      have hne : i ≠ j := by
        intro hij
        rw [hij, hj] at hi
        cases hi
        rw [hnil] at hcode
        cases hcode
      have hj' : (s.put i { t with phase := donePhase t }).threads[j]? = some t' := by
        rw [Program.put, List.getElem?_set_ne hne, hj]
      have hsame : (s.put i { t with phase := donePhase t }).tasks = s.tasks := by
        rw [Program.tasks, Program.put, Pool.map_set_of_eq Goroutine.tasks hi htasks]
        rfl
      have hpop : Cheaper t'.tasks (Goroutine.tasks { t' with code := code }) :=
        cheaper_pop hcode rfl rfl
      have hput := cheaper_put hj' hpop
      rwa [hsame] at hput
  | poll hi hnil hphase halone hnext =>
      obtain ⟨t', ht', hwait⟩ := hinternal
      rw [hi] at ht'
      cases ht'
      exact absurd halone hwait
  | tick hi hnil hname hphase =>
      rename_i i t c ch
      refine cheaper_put hi ⟨5, ↑((round c ch).map cost), fun k hk => ?_, ?_⟩
      · obtain ⟨op, hop, rfl⟩ := List.mem_map.1 (Multiset.mem_coe.1 hk)
        exact Nat.lt_succ_of_le (cost_round op hop)
      · have ht : t.tasks = {5} := by
          rw [Goroutine.tasks, hnil, hphase]
          rfl
        rw [ht, add_comm]
        exact congrArg ({5} + ·) (add_zero _)

/-- A state that some run reaches. -/
def Reachable (starts : Key → Bool) (conf : List Key) (pods : Nat) (s : Program) : Prop :=
  ∃ h, run (step starts) (start conf pods) h = some s

/-- A step of the program by itself, from a state that it reaches, with a number of rounds
that the loops over the tables may still make. -/
def LimitedStep (starts : Key → Bool) (conf : List Key) (pods : Nat) (q p : Program × Nat) :
    Prop :=
  Reachable starts conf pods p.1 ∧ ∃ e, Internal p.1 e ∧ step starts p.1 e = some q.1 ∧
    p.2 = q.2 + (goesRound p.1 e).toNat

/-- Such a round is a step of a goroutine that goes over a table. -/
theorem goesRound_cases (he : Steps starts s e s') (hround : goesRound s e = true) :
    ∃ i t c table seen code ch, s.threads[i]? = some t ∧
      t.code = .other (.next c table seen) :: code ∧ ch.more = true ∧
        s' = perform starts s i t code ch (.next c table seen) := by
  cases he with
  | action hi hcode henabled =>
      rename_i i t a code ch
      rw [goesRound, Bool.and_eq_true, hi] at hround
      obtain ⟨hmore, hnext⟩ := hround
      cases a with
      | next c table seen => exact ⟨i, t, c, table, seen, code, ch, hi, hcode, hmore, rfl⟩
      | _ =>
          simp only [Option.any_some, hcode, List.head?_cons] at hnext
          cases hnext
  | lock hi hcode hfree =>
      simp [goesRound, hi, hcode, isNext] at hround
  | unlock hi hcode =>
      simp [goesRound, hi, hcode, isNext] at hround
  | release hi hj hnil hreceives hcode hevent => rcases hevent with rfl | rfl <;> cases hround
  | _ => cases hround

/-- **Whatever the schedule, the program makes only a finite number of steps by itself, unless
the loops over the tables go round for ever.** -/
theorem limited_wellFounded (starts : Key → Bool) (conf : List Key) (pods : Nat) :
    WellFounded (LimitedStep starts conf pods) := by
  -- a round that is left costs more than what is done with an entry
  apply wellFounded_of_tasks fun p : Program × Nat => p.1.tasks + Multiset.replicate p.2 1
  rintro ⟨s, k⟩ ⟨s', k'⟩ ⟨⟨h, hrun⟩, e, hinternal, he, hk⟩
  have hsteps := (steps_of_run hrun he).2
  have hwaiting := waiting_of_run h s hrun
  dsimp only at *
  cases hround : goesRound s e with
  | false =>
      rw [hround, Bool.toNat_false, Nat.add_zero] at hk
      subst hk
      exact (cheaper_step (sound_of_run h s hrun) hwaiting hsteps hinternal hround).add _
  | true =>
      rw [hround, Bool.toNat_true] at hk
      subst hk
      obtain ⟨i, t, c, table, seen, code, ch, hi, hcode, hmore, rfl⟩ :=
        goesRound_cases hsteps hround
      obtain ⟨l, hzero, htasks⟩ := tasks_perform_next (s := s)
        (hwaiting t (List.mem_of_getElem? hi)) hi hcode hmore
      refine ⟨1, l, fun k hk => hzero k hk ▸ Nat.zero_lt_one, ?_⟩
      rw [htasks, Multiset.replicate_succ, ← Multiset.singleton_add]
      abel

end Kmon.Ports.Goroutines
