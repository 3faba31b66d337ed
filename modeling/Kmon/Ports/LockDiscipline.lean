import Kmon.Ports.Goroutines

/-!
# How the goroutines use their mutexes

Every piece of code of `Goroutines` locks downwards (`colMutex`, a collector, its `PIDLis`,
`info`), unlocks in the reverse order, touches what has a mutex only under that mutex, and
waits for nobody while it holds one, except that a period loop sends its batch under the
mutex of its collector (`permits`).  There is one exception, the listener of a `PIDLis`,
which takes PIDs out of `containerSet` before it locks.  That code does not run:
`NewPIDLis` is called with a `ListenConfig` without expressions.

Every goroutine has a vocabulary as well (`mayDo`, `mayLock`): what of all this its code
can contain.

`step_cases` says once what a step can do, and `sound_of_run` carries both to every state
of a run.
-/

namespace Kmon.Ports.Goroutines

open Kmon.Verified
open Kmon.Verified.LockOrder
open Kmon.Verified.Run
open Kmon.Ports.Config (ListenConfig)
open Kmon.Ports.ConfigDelivery (Kind Key)

/-! ## The rules -/

/-- What may be done while the mutexes `held` are held. -/
def permits (held : List Mutex) : Action → Bool
  | .access d _ => d.mutex.all fun m => m ∈ held
  | .next c _ _ => held = [.collector c]
  | .send (.dataCh _) => held.all fun m => 2 ≤ m.rank
  | .go (.pidLis _ deltas) => deltas.isEmpty
  | .send _ => held.isEmpty
  | .sendConf _ => held.isEmpty
  | .getConfiguration .collectors => held.isEmpty
  | .startCollector _ _ => held.isEmpty
  | .endProgram => held.isEmpty
  | .callProgramEnd _ _ => held.isEmpty
  | .handOver _ => held.isEmpty
  | _ => true

def rules : Rules Mutex Action := ⟨Mutex.rank, permits⟩

/-- The mutexes that the code of a goroutine can lock. -/
def mayLock : Name → Mutex → Bool
  | .main, m => m ≠ .colMutex
  | .watcher, m => m = .info
  | .controller, m => m = .info
  | .exporter, _ => false
  | .period c, m => m = .collector c ∨ m = .info
  | .signal c, m => m = .collector c ∨ m = .pidLis c ∨ m = .info
  | .worker, .collector _ => false
  | .worker, _ => true

/-- The variables that the code of a goroutine can touch. -/
def mayAccess : Name → Datum → Bool → Bool
  | .main, d, _ => d.mutex.isSome
  | .controller, .containerPID, _ => true
  | .period c, .collector c', _ => c' = c
  | .period _, .containerPID, _ => true
  | .signal c, .collector c', _ => c' = c
  | .signal c, .batch c', write => c' = c ∧ write = true ∧ sendsBuffer c'.kind = true
  | .signal c, .pids c', _ => c' = c
  | .signal _, .containerPID, _ => true
  | .worker, .batch _, write => !write
  | .worker, .points c, write => write = true → c.kind ≠ .ColTcpreq
  | .worker, .containerPID, _ => true
  | _, _, _ => false

/-- The actions that the code of a goroutine can contain. -/
def mayDo : Name → Action → Bool
  | .main, .access d write => mayAccess .main d write
  | .main, .next _ table _ => table = .controlMap
  | .main, .registerProgramEnd n => n = .watcher
  | .main, .appendProgramEnd _ n => n = .watcher
  | .main, .storeProgramEnd _ => true
  | .main, .registerContainerChange (.pidLis _ conf) => conf = ListenConfig.zero
  | .main, .registerConfigurationChange => true
  | .main, .getConfiguration r => r ≠ .handler
  | .main, .rangeContainerPIDChange => true
  | .main, .startCollector _ _ => true
  | .main, .setManager _ _ => true
  | .main, .go (.loop n) => n ≠ .main ∧ n ≠ .worker
  | .main, .go .configurationChange => false
  | .main, .go (.sender _) => false
  | .main, .go (.Export _) => false
  | .main, .go _ => true
  | .main, .endProgram => true
  | .main, .callProgramEnd _ _ => true
  | .main, .handOver _ => true
  | .main, .exit => true
  | .watcher, .setConfiguration _ => true
  | .watcher, .rangeConfigurationChange => true
  | .watcher, .go .configurationChange => true
  | .controller, .access d write => mayAccess .controller d write
  | .controller, .rangeContainerPIDChange => true
  | .controller, .go .pidBuffer => true
  | .controller, .go (.pidLis _ _) => true
  | .exporter, .go (.Export _) => true
  | .period c, .access d write => mayAccess (.period c) d write
  | .period c, .next c' table _ => c' = c ∧ table ≠ .controlMap
  | .period _, .send (.dataCh _) => true
  | .period c, .registerProgramEnd n => n = .period c
  | .period c, .appendProgramEnd _ n => n = .period c
  | .period _, .storeProgramEnd _ => true
  | .period _, .waitPeriod => true
  | .signal c, .access d write => mayAccess (.signal c) d write
  | .signal c, .next c' table _ => c' = c ∧ table = .controlMap
  | .signal c, .registerProgramEnd n => n = .signal c
  | .signal c, .appendProgramEnd _ n => n = .signal c
  | .signal _, .storeProgramEnd _ => true
  | .signal c, .go (.notifyChange c' _) => c' = c
  | .worker, .access d write => mayAccess .worker d write
  | .worker, .send (.dataCh _) => false
  | .worker, .send _ => true
  | .worker, .sendConf _ => true
  | .worker, .getConfiguration r => r = .handler
  | .worker, .go (.sender _) => true
  | _, _ => false

/-- What only `main` does: it starts the loops and the collectors, registers the handler of
the collectors, and ends the program. -/
def mainOnly : Action → Bool
  | .go (.loop _) => true
  | .startCollector _ _ => true
  | .getConfiguration .collectors => true
  | .registerConfigurationChange => true
  | .endProgram => true
  | .callProgramEnd _ _ => true
  | .handOver _ => true
  | .exit => true
  | _ => false

/-- The vocabulary of a goroutine. -/
def may (n : Name) : Op Mutex Action → Bool
  | .lock m => mayLock n m
  | .unlock m => mayLock n m
  | .other a => mayDo n a

/-- Code that a goroutine of that name can have, which holds the same mutexes behind it as
before. -/
structure Fits (n : Name) (held : List Mutex) (code : Code) : Prop where
  balanced : after rules held code = some held
  words : ∀ op ∈ code, may n op = true

variable {n : Name} {held : List Mutex} {code code' : Code} {m : Mutex} {a : Action}
variable {c : Collector} {ch : Choice}

theorem main_of_may (hmay : mayDo n a = true) (ha : mainOnly a = true) : n = .main := by
  cases n with
  | main => rfl
  | _ =>
      unfold mainOnly at ha
      split at ha <;> first | cases hmay | cases ha

/-! ## The code follows the rules -/

theorem Fits.nil : Fits n held [] := ⟨rfl, fun _ h => by cases h⟩

theorem Fits.append (h : Fits n held code) (h' : Fits n held code') :
    Fits n held (code ++ code') := by
  constructor
  · rw [after_append_of_balanced h.balanced, h'.balanced]
  · intro op hop
    rcases List.mem_append.1 hop with hmem | hmem
    · exact h.words op hmem
    · exact h'.words op hmem

theorem Fits.action (hpermits : permits held a = true) (hmay : mayDo n a = true) :
    Fits n held [.other a] := by
  constructor
  · exact after_other.2 ⟨hpermits, rfl⟩
  · intro op hop
    rw [List.mem_singleton.1 hop]
    exact hmay

theorem Fits.cons (hpermits : permits held a = true) (hmay : mayDo n a = true)
    (h : Fits n held code) : Fits n held (.other a :: code) :=
  (Fits.action hpermits hmay).append h

theorem Fits.locked (hrank : ∀ m' ∈ held, m.rank < m'.rank) (hmay : mayLock n m = true)
    (h : Fits n (m :: held) code) : Fits n held (locked m code) := by
  constructor
  · exact after_locked hrank h.balanced
  · intro op hop
    rw [LockOrder.locked, List.cons_append, List.mem_cons, List.mem_append,
      List.mem_singleton] at hop
    rcases hop with rfl | hop | rfl
    · exact hmay
    · exact h.words op hop
    · exact hmay

theorem Fits.flatten {blocks : List Code} (h : ∀ block ∈ blocks, Fits n held block) :
    Fits n held blocks.flatten := by
  constructor
  · exact after_flatten fun block hblock => (h block hblock).balanced
  · intro op hop
    obtain ⟨block, hblock, hmem⟩ := List.mem_flatten.1 hop
    exact (h block hblock).words op hmem

theorem Fits.replicate (h : Fits n held code) (k : Nat) :
    Fits n held (List.replicate k code).flatten :=
  Fits.flatten fun _ hblock => (List.eq_of_mem_replicate hblock) ▸ h

theorem Fits.map {β : Type} {l : List β} {f : β → Action}
    (h : ∀ b ∈ l, permits held (f b) = true ∧ mayDo n (f b) = true) :
    Fits n held (l.map fun b => .other (f b)) := by
  induction l with
  | nil => exact Fits.nil
  | cons b l ih =>
      have hb := h b List.mem_cons_self
      exact Fits.cons hb.1 hb.2 (ih fun b hb => h b (List.mem_cons_of_mem _ hb))

/-- A look at `containerPID`, by whoever may lock `info`. -/
theorem fits_containerPID {write : Bool} (hrank : ∀ m' ∈ held, 0 < m'.rank)
    (hlock : mayLock n .info = true) (hmay : mayDo n (.access .containerPID write) = true) :
    Fits n held (locked .info [.other (.access .containerPID write)]) :=
  Fits.locked hrank hlock (Fits.action (by simp [permits, Datum.mutex]) hmay)

theorem fits_sendData (b : Batch) : Fits (.period c) [.collector c] (sendData b) := by
  rw [sendData]
  split
  · exact Fits.nil
  · exact Fits.action (by simp [permits, Mutex.rank]) rfl

/-- The fields of a collector, under its mutex. -/
theorem Fits.collector {write : Bool}
    (hmay : mayDo n (.access (.collector c) write) = true)
    (h : Fits n [.collector c] code) :
    Fits n [.collector c] (.other (.access (.collector c) write) :: code) :=
  Fits.cons (by simp [permits, Datum.mutex]) hmay h

theorem Fits.underCollector (hlock : mayLock n (.collector c) = true)
    (h : Fits n [.collector c] code) : Fits n [] (LockOrder.locked (.collector c) code) :=
  Fits.locked (fun _ h => by cases h) hlock h

/-- `GetContainerFromPID` under the mutex of a collector. -/
theorem fits_getContainerFromPID (hlock : mayLock n .info = true)
    (hmay : mayDo n (.access .containerPID true) = true) :
    Fits n [.collector c] getContainerFromPID :=
  fits_containerPID (by simp [Mutex.rank]) hlock hmay

theorem fits_next {table : Table} {seen : Nat} (hmay : mayDo n (.next c table seen) = true) :
    Fits n [.collector c] [.other (.next c table seen)] :=
  Fits.action (by simp [permits]) hmay

theorem fits_exportTable {table : Table} (htable : table ≠ .controlMap) :
    Fits (.period c) [] (exportTable c table) := by
  apply Fits.underCollector (by simp [mayLock])
  exact Fits.collector (by simp [mayDo, mayAccess]) (fits_next (by simp [mayDo, htable]))

theorem fits_exportBuffer (k : Nat) : Fits (.period c) [] (exportBuffer c k) := by
  apply Fits.underCollector (by simp [mayLock])
  rw [List.cons_append]
  apply Fits.collector (by simp [mayDo, mayAccess])
  apply Fits.append (fits_sendData _)
  exact Fits.collector (by simp [mayDo, mayAccess]) Fits.nil

theorem fits_exportData (c : Collector) (ch : Choice) :
    Fits (.period c) [] (exportData c ch) := by
  rw [exportData]
  cases c.kind with
  | ColFcount => exact fits_exportTable (by decide)
  | ColTcpreq => exact fits_exportBuffer _
  | ColBiostat => exact (fits_exportTable (by decide)).append (fits_exportTable (by decide))
  | ColTcpdrop => exact fits_exportBuffer _
  | ColOffcpu => exact fits_exportTable (by decide)

theorem fits_round (c : Collector) (ch : Choice) : Fits (.period c) [] (round c ch) := by
  apply Fits.append _ (Fits.action rfl rfl)
  apply Fits.append (fits_exportData c ch)
  exact Fits.underCollector (by simp [mayLock])
    (Fits.collector (by simp [mayDo, mayAccess]) Fits.nil)

/-- Whoever may call `onConfigChange` of a collector: its signal loop, and `main`. -/
structure MayConfigure (n : Name) (c : Collector) : Prop where
  lockCollector : mayLock n (.collector c) = true
  lockPidLis : mayLock n (.pidLis c) = true
  lockInfo : mayLock n .info = true
  collector : mayDo n (.access (.collector c) true) = true
  pids : mayDo n (.access (.pids c) true) = true
  containerPID : mayDo n (.access .containerPID false) = true
  control : ∀ seen, mayDo n (.next c .controlMap seen) = true
  notify : ∀ delta, mayDo n (.go (.notifyChange c delta)) = true

theorem mayConfigure_main : MayConfigure .main c := by
  constructor <;> simp [mayLock, mayDo, mayAccess, Datum.mutex]

theorem mayConfigure_signal : MayConfigure (.signal c) c := by
  constructor <;> simp [mayLock, mayDo, mayAccess]

theorem fits_rewriteControl (hn : MayConfigure n c) :
    Fits n [.collector c] (rewriteControl c) := by
  rw [rewriteControl]
  cases c.kind with
  | ColFcount => exact Fits.nil
  | _ => exact fits_next (hn.control 0)

theorem fits_onConfigChange (hn : MayConfigure n c) (ch : Choice) :
    Fits n [] (onConfigChange c ch) := by
  apply Fits.underCollector hn.lockCollector
  apply Fits.append _ (Fits.collector hn.collector (fits_rewriteControl hn))
  apply Fits.append _ (Fits.action rfl (hn.notify _))
  apply Fits.locked (by simp [Mutex.rank]) hn.lockPidLis
  apply Fits.cons (by simp [permits, Datum.mutex]) hn.pids
  apply Fits.replicate
  exact fits_containerPID (by simp [Mutex.rank]) hn.lockInfo hn.containerPID

theorem fits_appendBuffer (c : Collector) :
    Fits (.signal c) [.collector c] (appendBuffer c) := by
  have hwrite : Fits (.signal c) [.collector c] [write (.collector c)] :=
    Fits.collector (by simp [mayDo, mayAccess]) Fits.nil
  rw [appendBuffer]
  split
  · rename_i hsends
    exact Fits.cons rfl (by simp [mayDo, mayAccess, hsends]) hwrite
  · exact hwrite

theorem fits_bufferEvent (c : Collector) : Fits (.signal c) [] (bufferEvent c) := by
  apply Fits.underCollector (by simp [mayLock])
  rw [List.cons_append]
  apply Fits.collector (by simp [mayDo, mayAccess])
  apply Fits.append _ (fits_appendBuffer c)
  exact fits_getContainerFromPID (by simp [mayLock]) (by simp [mayDo, mayAccess])

/-- One access to the fields of a collector, by its signal loop. -/
theorem fits_signal_access (c : Collector) (write : Bool) :
    Fits (.signal c) [] (locked (.collector c) [.other (.access (.collector c) write)]) :=
  Fits.underCollector (by simp [mayLock]) (Fits.collector (by simp [mayDo, mayAccess]) Fits.nil)

theorem fits_addPID (c : Collector) : Fits (.signal c) [] (addPID c) := by
  have hread := fits_signal_access c false
  have hwrite := fits_signal_access c true
  have hempty : Fits (.signal c) [] (locked (.collector c) []) :=
    Fits.underCollector (by simp [mayLock]) Fits.nil
  rw [addPID]
  cases c.kind with
  | ColFcount => exact hwrite
  | ColTcpreq => exact hread.append hwrite
  | ColBiostat => exact hread.append hwrite
  | ColTcpdrop => exact hread.append hwrite
  | ColOffcpu => exact hempty.append hwrite

theorem fits_setContainerPIDs (hlock : mayLock n .info = true)
    (hmay : mayDo n (.access .containerPID true) = true)
    (hrange : mayDo n .rangeContainerPIDChange = true) : Fits n [] setContainerPIDs :=
  (fits_containerPID (fun _ h => by cases h) hlock hmay).append (Fits.action rfl hrange)

theorem fits_setConfiguration (conf : List Key) : Fits .watcher [] (setConfiguration conf) := by
  apply Fits.append _ (Fits.action rfl rfl)
  exact Fits.locked (fun _ h => by cases h) rfl (Fits.action rfl rfl)

/-- What a goroutine does with an input. -/
theorem fits_respond {x : Input} (h : respond n x = some code) : Fits n [] code := by
  unfold respond at h
  split at h
  · cases h
    exact fits_onConfigChange mayConfigure_signal _
  · cases h
    exact fits_addPID _
  · cases h
    exact fits_signal_access _ true
  · split at h
    · cases h
      exact fits_bufferEvent _
    · cases h
  · cases h
    exact fits_setConfiguration _
  · cases h
    exact fits_setContainerPIDs rfl rfl rfl
  · rename_i b exporters
    cases h
    rw [← List.map_replicate (f := fun _ => Op.other (Action.go (.Export b))) (a := ())]
    exact Fits.map (f := fun _ => .go (.Export b)) fun _ _ => ⟨rfl, rfl⟩
  · cases h
    exact Fits.cons rfl rfl (Fits.action rfl rfl)
  · cases h

theorem fits_Export (b : Batch) : Fits .worker [] (Export b) := by
  refine Fits.replicate (Fits.append ?_ ?_) _
  · exact Fits.cons rfl rfl (Fits.action rfl (by simp [mayDo, mayAccess]))
  · split
    · rename_i hstamped
      have hkind : b.collector.kind ≠ .ColTcpreq := by
        rw [Batch.stamped, Bool.and_eq_true] at hstamped
        exact of_decide_eq_true hstamped.1
      exact Fits.action rfl (by simp [mayDo, mayAccess, hkind])
    · exact Fits.nil

/-- The goroutines that a `go` starts. -/
theorem fits_launch {job : Job} (hpermits : permits held (.go job) = true)
    (hmay : mayDo n (.go job) = true) (ch : Choice) :
    (launch ch job).held = [] ∧ Fits (launch ch job).name [] (launch ch job).code := by
  cases job with
  | loop n' =>
      refine ⟨rfl, ?_⟩
      simp only [launch]
      cases n' with
      | period c => exact Fits.cons rfl (by simp [mayDo]) (fits_round c ch)
      | signal c => exact Fits.action rfl (by simp [mayDo])
      | _ => exact Fits.nil
  | notifyChange c delta =>
      refine ⟨rfl, Fits.map fun state _ => ?_⟩
      cases state <;> exact ⟨rfl, rfl⟩
  | pidBuffer => exact ⟨rfl, fits_containerPID (fun _ h => by cases h) rfl rfl⟩
  | pidLis c deltas =>
      have hnil : deltas = [] := List.isEmpty_iff.1 hpermits
      subst hnil
      exact ⟨rfl, Fits.nil⟩
  | configurationChange =>
      exact ⟨rfl, Fits.locked (fun _ h => by cases h) rfl (Fits.action rfl rfl)⟩
  | sender key => exact ⟨rfl, Fits.action rfl rfl⟩
  | Export b => exact ⟨rfl, fits_Export b⟩

/-- The `PIDLis` listen to no expression. -/
def Unheard (s : Program) : Prop :=
  ∀ c conf, Listener.pidLis c conf ∈ s.containerPIDChange → conf = ListenConfig.zero

theorem fits_startCollector {key : Key} : Fits .main [] (startCollector c key ch) := by
  rw [startCollector, List.cons_append]
  apply Fits.cons rfl rfl
  apply Fits.append (fits_onConfigChange mayConfigure_main ch)
  exact Fits.cons rfl rfl (Fits.cons rfl rfl (Fits.action rfl rfl))

/-- Who goes over a table touches the collector. -/
theorem access_of_next {table : Table} {seen : Nat} (hmay : mayDo n (.next c table seen) = true) :
    mayDo n (.access (.collector c) true) = true := by
  cases n with
  | main => rfl
  | period c' =>
      have hc : c' = c := (of_decide_eq_true hmay : c = c' ∧ _).1.symm
      simp [mayDo, mayAccess, hc]
  | signal c' =>
      have hc : c' = c := (of_decide_eq_true hmay : c = c' ∧ _).1.symm
      simp [mayDo, mayAccess, hc]
  | _ => cases hmay

/-- Only the period loop goes over what is exported. -/
theorem period_of_next {table : Table} {seen : Nat} (hmay : mayDo n (.next c table seen) = true)
    (htable : table ≠ .controlMap) : n = .period c := by
  cases n with
  | main => exact absurd (of_decide_eq_true hmay) htable
  | period c' =>
      have hc : c' = c := (of_decide_eq_true hmay : c = c' ∧ _).1.symm
      rw [hc]
  | signal c' => exact absurd (of_decide_eq_true hmay : c = c' ∧ _).2 htable
  | _ => cases hmay

/-- The period loop looks up containers under the mutex of its collector. -/
theorem fits_period_lookup : Fits (.period c) [.collector c] getContainerFromPID :=
  fits_getContainerFromPID (by simp [mayLock]) (by simp [mayDo, mayAccess])

/-- What a loop over a table does with an entry. -/
theorem fits_entry {table : Table} {seen : Nat} (hmay : mayDo n (.next c table seen) = true) :
    Fits n [.collector c] (entry c table) := by
  have hwrite : Fits n [.collector c] [write (.collector c)] :=
    Fits.collector (access_of_next hmay) Fits.nil
  cases table with
  | countMap =>
      obtain rfl := period_of_next hmay (by decide)
      exact fits_period_lookup.append hwrite
  | distMap => exact hwrite
  | controlMap => exact hwrite

/-- What comes behind such a loop. -/
theorem fits_behind {table : Table} {seen : Nat} (hmay : mayDo n (.next c table seen) = true) :
    Fits n [.collector c] (behind c seen ch table) := by
  cases table with
  | countMap =>
      obtain rfl := period_of_next hmay (by decide)
      exact fits_sendData _
  | distMap =>
      obtain rfl := period_of_next hmay (by decide)
      exact (fits_period_lookup.replicate _).append (fits_sendData _)
  | controlMap => exact Fits.nil

/-- The code that takes the place of an action. -/
theorem fits_expand {starts : Key → Bool} {s : Program} (hs : Unheard s)
    (hpermits : permits held a = true) (hmay : mayDo n a = true) :
    Fits n held (expand starts s ch a) := by
  cases a with
  | next c table seen =>
      have hheld : held = [.collector c] := of_decide_eq_true hpermits
      subst hheld
      rw [expand]
      split
      · exact (fits_entry hmay).append (fits_next (by cases n <;> exact hmay))
      · exact fits_behind hmay
  | registerProgramEnd n' =>
      cases n <;> exact Fits.action rfl hmay
  | appendProgramEnd fns n' =>
      cases n <;> first | exact Fits.action rfl rfl | cases hmay
  | getConfiguration r =>
      cases r with
      | collectors =>
          have hmain : n = .main := main_of_may hmay rfl
          subst hmain
          exact Fits.map (f := fun p : Key × Nat => .startCollector ⟨p.2, p.1.1⟩ p.1)
            fun p _ => ⟨hpermits, rfl⟩
      | handler =>
          have hworker : n = .worker := by cases n <;> first | rfl | cases hmay
          subst hworker
          exact Fits.map (f := fun key => .go (.sender key)) fun key _ => ⟨rfl, rfl⟩
      | exporters => exact Fits.nil
  | rangeConfigurationChange =>
      have hwatcher : n = .watcher := by cases n <;> first | rfl | cases hmay
      subst hwatcher
      rw [expand, ← List.map_replicate (f := fun _ => Op.other (Action.go .configurationChange))
        (a := ())]
      exact Fits.map (f := fun _ => .go .configurationChange) fun _ _ => ⟨rfl, rfl⟩
  | rangeContainerPIDChange =>
      apply Fits.map (f := fun fn : Listener => .go (fn.job ch))
      intro fn hfn
      cases fn with
      | pidBuffer => exact ⟨rfl, by cases n <;> first | rfl | cases hmay⟩
      | pidLis c conf =>
          rw [hs c conf hfn]
          exact ⟨by simp [permits, Listener.job, ListenConfig.zero],
            by cases n <;> first | rfl | cases hmay⟩
  | startCollector c key =>
      have hmain : n = .main := main_of_may hmay rfl
      have hnil : held = [] := List.isEmpty_iff.1 hpermits
      subst hmain hnil
      rw [expand]
      split
      · exact fits_startCollector
      · exact Fits.nil
  | endProgram =>
      have hmain : n = .main := main_of_may hmay rfl
      subst hmain
      exact Fits.map (f := fun k => .callProgramEnd s.programEnd k) fun _ _ => ⟨hpermits, rfl⟩
  | callProgramEnd fns k =>
      have hmain : n = .main := main_of_may hmay rfl
      subst hmain
      rw [expand]
      cases s.arrays.cells fns.arr k with
      | none => exact Fits.nil
      | some n' => exact Fits.action hpermits rfl
  | _ => exact Fits.nil

/-! ## What the loops of a collector do -/

/-- The operations of the loops of a collector, but for `waitPeriod` and the
registration. -/
def plain : Op Mutex Action → Bool
  | .lock _ => true
  | .unlock _ => true
  | .other (.access _ _) => true
  | .other (.next _ _ _) => true
  | .other (.send (.dataCh _)) => true
  | .other (.go (.notifyChange _ _)) => true
  | _ => false

/-- Code of such operations only. -/
def Plain (code : Code) : Prop := ∀ op ∈ code, plain op = true

theorem mem_locked {op : Op Mutex Action} :
    op ∈ locked m code ↔ op = .lock m ∨ op ∈ code ∨ op = .unlock m := by
  simp [LockOrder.locked]

theorem Plain.append (h : Plain code) (h' : Plain code') : Plain (code ++ code') :=
  fun op hop => (List.mem_append.1 hop).elim (h op) (h' op)

theorem Plain.cons {op : Op Mutex Action} (hop : plain op = true) (h : Plain code) :
    Plain (op :: code) := by
  intro op' hop'
  rcases List.mem_cons.1 hop' with rfl | hmem
  · exact hop
  · exact h op' hmem

theorem plain_nil : Plain [] := fun op hop => by cases hop

theorem Plain.locked (h : Plain code) : Plain (locked m code) := by
  intro op hop
  rcases mem_locked.1 hop with rfl | hmem | rfl
  · rfl
  · exact h op hmem
  · rfl

theorem Plain.replicate (h : Plain code) (k : Nat) : Plain (List.replicate k code).flatten := by
  intro op hop
  obtain ⟨block, hblock, hmem⟩ := List.mem_flatten.1 hop
  exact h op (List.eq_of_mem_replicate hblock ▸ hmem)

theorem plain_access (d : Datum) (write : Bool) : Plain [.other (.access d write)] :=
  plain_nil.cons rfl

theorem plain_sendData (b : Batch) : Plain (sendData b) := by
  unfold sendData
  split
  · exact plain_nil
  · exact plain_nil.cons rfl

theorem plain_getContainerFromPID : Plain getContainerFromPID := (plain_access _ _).locked

theorem plain_exportTable (table : Table) : Plain (exportTable c table) :=
  Plain.locked (Plain.cons rfl (plain_nil.cons rfl))

theorem plain_exportBuffer (k : Nat) : Plain (exportBuffer c k) :=
  Plain.locked (Plain.append (Plain.cons rfl (plain_sendData _)) (plain_access _ _))

theorem plain_entry (table : Table) : Plain (entry c table) := by
  cases table with
  | countMap => exact plain_getContainerFromPID.append (plain_access _ _)
  | distMap => exact plain_access _ _
  | controlMap => exact plain_access _ _

theorem plain_behind (seen : Nat) (table : Table) : Plain (behind c seen ch table) := by
  cases table with
  | countMap => exact plain_sendData _
  | distMap => exact (plain_getContainerFromPID.replicate _).append (plain_sendData _)
  | controlMap => exact plain_nil

/-- A loop over a table stays within these operations. -/
theorem plain_next {starts : Key → Bool} {s : Program} {table : Table} {seen : Nat} :
    Plain (expand starts s ch (.next c table seen)) := by
  rw [expand]
  split
  · exact (plain_entry table).append (plain_nil.cons rfl)
  · exact plain_behind seen table

theorem plain_exportData (c : Collector) (ch : Choice) : Plain (exportData c ch) := by
  rw [exportData]
  cases c.kind with
  | ColFcount => exact plain_exportTable _
  | ColTcpreq => exact plain_exportBuffer _
  | ColBiostat => exact (plain_exportTable _).append (plain_exportTable _)
  | ColTcpdrop => exact plain_exportBuffer _
  | ColOffcpu => exact plain_exportTable _

theorem plain_rewriteControl (c : Collector) : Plain (rewriteControl c) := by
  rw [rewriteControl]
  cases c.kind with
  | ColFcount => exact plain_nil
  | _ => exact plain_nil.cons rfl

theorem plain_onConfigChange (c : Collector) (ch : Choice) : Plain (onConfigChange c ch) := by
  apply Plain.locked
  apply Plain.append _ ((plain_rewriteControl c).cons rfl)
  apply Plain.append _ (plain_nil.cons rfl)
  exact Plain.locked (Plain.cons rfl ((plain_access _ _).locked.replicate _))

theorem plain_addPID (c : Collector) : Plain (addPID c) := by
  rw [addPID]
  cases c.kind with
  | ColFcount => exact (plain_access _ _).locked
  | ColOffcpu => exact plain_nil.locked.append (plain_access _ _).locked
  | _ => exact (plain_access _ _).locked.append (plain_access _ _).locked

theorem plain_appendBuffer (c : Collector) : Plain (appendBuffer c) := by
  rw [appendBuffer]
  split
  · exact (plain_access _ _).cons rfl
  · exact plain_access _ _

/-- A signal loop does nothing else with an input. -/
theorem plain_respond {x : Input} (h : respond (.signal c) x = some code) : Plain code := by
  cases x with
  | conf ch =>
      cases h
      exact plain_onConfigChange c ch
  | add =>
      cases h
      exact plain_addPID c
  | del =>
      cases h
      exact (plain_access _ _).locked
  | event =>
      rw [respond] at h
      split at h
      · cases h
        exact Plain.locked (Plain.append (Plain.cons rfl plain_getContainerFromPID)
          (plain_appendBuffer c))
      · cases h
  | _ => cases h

/-! ## What a step does -/

/-- The phase of a goroutine that receives `done`.  A signal loop only leaves its
`select`. -/
def donePhase (t : Goroutine) : Phase :=
  match t.name with
  | .signal _ => t.phase
  | _ => .returned

/-- A goroutine that can receive `done`: a loop in its `select`, or one that polls. -/
def Receives (t : Goroutine) : Prop :=
  (t.phase = .idle ∧ (t.name = .watcher ∨ ∃ c, t.name = .signal c)) ∨
    ∃ period progress, t.phase = .polling period progress

/-- The kinds of steps. -/
inductive Steps (starts : Key → Bool) (s : Program) : Event → Program → Prop where
  | lock {i t m code ch} (hi : s.threads[i]? = some t) (hcode : t.code = .lock m :: code)
      (hfree : ∀ t' ∈ s.threads, m ∉ t'.held) :
      Steps starts s (.exec i ch) (s.put i { t with held := m :: t.held, code := code })
  | unlock {i t m code ch} (hi : s.threads[i]? = some t) (hcode : t.code = .unlock m :: code) :
      Steps starts s (.exec i ch) (s.put i { t with held := t.held.erase m, code := code })
  | action {i t a code ch} (hi : s.threads[i]? = some t) (hcode : t.code = .other a :: code)
      (henabled : enabled s a = true) :
      Steps starts s (.exec i ch) (perform starts s i t code ch a)
  | input {i t x code} (hi : s.threads[i]? = some t) (hnil : t.code = [])
      (hidle : t.phase = .idle)
      (hfirst : ∀ m ∈ message t.name x, s.queued.find? m.same = some m)
      (hcode : respond t.name x = some code) :
      Steps starts s (.input i x)
        { s.put i { t with code := code } with
          queued := (message t.name x).elim s.queued s.queued.erase }
  | release {e i j t t' code} (hi : s.threads[i]? = some t) (hj : s.threads[j]? = some t')
      (hnil : t.code = []) (hreceives : Receives t)
      (hcode : t'.code = .other (.handOver t.name) :: code)
      (hevent : e = .done i ∨ e = .poll i) :
      Steps starts s e
        ((s.put i { t with phase := donePhase t }).put j { t' with code := code })
  | poll {i t period progress phase} (hi : s.threads[i]? = some t) (hnil : t.code = [])
      (hphase : t.phase = .polling period progress) (halone : waiter s t.name = none)
      (hnext : phase = .sleeping ∨ ∃ progress', phase = .polling period progress') :
      Steps starts s (.poll i) (s.put i { t with phase := phase })
  | tick {i t c ch} (hi : s.threads[i]? = some t) (hnil : t.code = [])
      (hname : t.name = .period c) (hphase : t.phase = .sleeping) :
      Steps starts s (.tick i ch) (s.put i { t with code := round c ch, phase := .idle })

variable {starts : Key → Bool} {s s' : Program} {e : Event} {i j : Nat} {t t' : Goroutine}

/-- The goroutine that is about to hand `done` over. -/
theorem waiter_eq_some (h : waiter s n = some j) :
    ∃ t' code, s.threads[j]? = some t' ∧ t'.code = .other (.handOver n) :: code := by
  obtain ⟨hlt, hhead⟩ := List.findIdx?_eq_some_iff_getElem.1 h
  obtain ⟨hop, -⟩ := hhead
  obtain ⟨code, hcode⟩ := List.head?_eq_some_iff.1 (of_decide_eq_true hop)
  exact ⟨s.threads[j], code, List.getElem?_eq_getElem hlt, hcode⟩

theorem waiter_eq_none_iff : waiter s n = none ↔
    ∀ t' ∈ s.threads, ∀ code, t'.code ≠ .other (.handOver n) :: code := by
  rw [waiter, List.findIdx?_eq_none_iff]
  constructor
  · intro h t' ht' code hcode
    have := h t' ht'
    simp [hcode] at this
  · intro h t' ht'
    simp only [decide_eq_false_iff_not]
    intro hhead
    obtain ⟨code, hcode⟩ := List.head?_eq_some_iff.1 hhead
    exact h t' ht' code hcode

theorem release_steps (hi : s.threads[i]? = some t) (hnil : t.code = [])
    (hreceives : Receives t) {phase : Phase} (hphase : phase = donePhase t)
    (hwait : waiter s t.name = some j) (hevent : e = .done i ∨ e = .poll i)
    (h : s.release i { t with phase := phase } j = some s') : Steps starts s e s' := by
  obtain ⟨t', code, hj, hcode⟩ := waiter_eq_some hwait
  rw [Program.release, hj, Option.map_some, Option.some_inj, hcode, List.tail_cons] at h
  subst h hphase
  exact .release hi hj hnil hreceives hcode hevent

theorem exec_steps (hi : s.threads[i]? = some t) (h : exec starts s i t ch = some s') :
    Steps starts s (.exec i ch) s' := by
  unfold exec at h
  split at h
  · cases h
  · rename_i m code hcode
    split at h
    · cases h
    · rename_i hfree
      cases h
      refine .lock hi hcode fun t' ht' hheld => hfree ?_
      exact List.any_eq_true.2 ⟨t', ht', decide_eq_true hheld⟩
  · rename_i m code hcode
    cases h
    exact .unlock hi hcode
  · rename_i a code hcode
    split at h
    · rename_i henabled
      cases h
      exact .action hi hcode henabled
    · cases h

theorem input_steps {x : Input} (hi : s.threads[i]? = some t) (h : input s i t x = some s') :
    Steps starts s (.input i x) s' := by
  unfold input at h
  split at h
  · rename_i hwaits
    obtain ⟨hnil, hidle, hfirst⟩ := hwaits
    obtain ⟨code, hcode, rfl⟩ := Option.map_eq_some_iff.1 h
    exact .input hi hnil hidle hfirst hcode
  · cases h

theorem done_steps (hi : s.threads[i]? = some t) (h : done s i t = some s') :
    Steps starts s (.done i) s' := by
  unfold done at h
  split at h
  · rename_i hwaits
    obtain ⟨hnil, hidle⟩ := hwaits
    obtain ⟨j, hwait, h⟩ := Option.bind_eq_some_iff.1 h
    split at h
    · rename_i c hname
      have hphase : t.phase = donePhase t := by rw [donePhase, hname]
      exact release_steps hi hnil (.inl ⟨hidle, .inr ⟨c, hname⟩⟩) hphase hwait (.inl rfl) h
    · rename_i hname
      have hphase : Phase.returned = donePhase t := by rw [donePhase, hname]
      exact release_steps hi hnil (.inl ⟨hidle, .inl hname⟩) hphase hwait (.inl rfl) h
    · cases h
  · cases h

/-- `waitPeriod` finds a signal only where one is waiting. -/
theorem round_done {period : BitVec 64} {signalled : Bool} {p p' : WaitPeriod.Progress}
    {b : Bool} (h : WaitPeriod.round period (fun _ => signalled) p = .inr (b, p')) :
    b = signalled := by
  unfold WaitPeriod.round at h
  cases signalled with
  | true => simp_all
  | false =>
      dsimp only at h
      split at h
      · simp at h
      · simp at h
        exact h.1

theorem round_going {period : BitVec 64} {signalled : Bool} {p p' : WaitPeriod.Progress}
    (h : WaitPeriod.round period (fun _ => signalled) p = .inl p') : signalled = false := by
  unfold WaitPeriod.round at h
  cases signalled with
  | true =>
      dsimp only at h
      split at h <;> simp at h
  | false => rfl

/-- A goroutine that follows the rules, keeps to its vocabulary, and polls only if it is a
period loop. -/
structure Sound (t : Goroutine) : Prop where
  disciplined : after rules t.held t.code = some []
  words : ∀ op ∈ t.code, may t.name op = true
  locks : ∀ m ∈ t.held, mayLock t.name m = true
  polls : t.phase ≠ .idle → t.phase ≠ .returned → ∃ c, t.name = .period c

/-- Who has such an operation in its code is `main`. -/
theorem Sound.main (h : Sound t) (hop : .other a ∈ t.code) (ha : mainOnly a = true) :
    t.name = .main := main_of_may (h.words _ hop) ha

theorem poll_steps (hs : ∀ t ∈ s.threads, Sound t) (hi : s.threads[i]? = some t)
    (h : poll s i t = some s') :
    Steps starts s (.poll i) s' := by
  unfold poll at h
  split at h
  · rename_i period progress hphase
    split at h
    · rename_i hnil
      split at h
      · rename_i progress' hround
        cases h
        have halone := Option.isSome_eq_false_iff.1 (round_going hround)
        exact .poll hi hnil hphase (Option.isNone_iff_eq_none.1 halone) (.inr ⟨_, rfl⟩)
      · rename_i progress' hround
        cases h
        have halone := Option.isSome_eq_false_iff.1 (round_done hround).symm
        exact .poll hi hnil hphase (Option.isNone_iff_eq_none.1 halone) (.inl rfl)
      · obtain ⟨j, hwait, h⟩ := Option.bind_eq_some_iff.1 h
        obtain ⟨c, hname⟩ := (hs t (List.mem_of_getElem? hi)).polls (by simp [hphase])
          (by simp [hphase])
        have hdone : Phase.returned = donePhase t := by rw [donePhase, hname]
        exact release_steps hi hnil (.inr ⟨_, _, hphase⟩) hdone hwait (.inr rfl) h
    · cases h
  · cases h

theorem tick_steps (hi : s.threads[i]? = some t) (h : tick s i t ch = some s') :
    Steps starts s (.tick i ch) s' := by
  unfold tick at h
  split at h
  · rename_i c hphase hname hnil
    cases h
    exact .tick hi hnil hname hphase
  · cases h

/-- **What a step can do.** -/
theorem step_cases (hs : ∀ t ∈ s.threads, Sound t) (h : step starts s e = some s') :
    s.status = .running ∧ Steps starts s e s' := by
  unfold step at h
  split at h
  · rename_i hrunning
    refine ⟨hrunning, ?_⟩
    cases e with
    | exec i ch =>
        obtain ⟨t, hi, h⟩ := Option.bind_eq_some_iff.1 h
        exact exec_steps hi h
    | input i x =>
        obtain ⟨t, hi, h⟩ := Option.bind_eq_some_iff.1 h
        exact input_steps hi h
    | done i =>
        obtain ⟨t, hi, h⟩ := Option.bind_eq_some_iff.1 h
        exact done_steps hi h
    | poll i =>
        obtain ⟨t, hi, h⟩ := Option.bind_eq_some_iff.1 h
        exact poll_steps hs hi h
    | tick i ch =>
        obtain ⟨t, hi, h⟩ := Option.bind_eq_some_iff.1 h
        exact tick_steps hi h
  · cases h

/-! ## Every state of a run -/

/-- What a goroutine holds, and its code. -/
def Goroutine.thread (t : Goroutine) : Thread Mutex Action := (t.held, t.code)

/-- All goroutines are sound, and no mutex is held twice. -/
structure SoundProgram (s : Program) : Prop where
  sound : ∀ t ∈ s.threads, Sound t
  exclusive : Exclusive (s.threads.map Goroutine.thread)
  unheard : Unheard s

theorem mem_set {l : List Goroutine} (h : t ∈ l.set i t') : t ∈ l ∨ t = t' :=
  List.mem_or_eq_of_mem_set h

/-- A goroutine makes a step in which it takes no mutex. -/
theorem exclusive_put (h : Exclusive (s.threads.map Goroutine.thread))
    (hi : s.threads[i]? = some t) (hheld : t'.held.Sublist t.held) :
    Exclusive ((s.put i t').threads.map Goroutine.thread) := by
  have hget : (s.threads.map Goroutine.thread)[i]? = some t.thread := by
    rw [List.getElem?_map, hi]
    rfl
  rw [Program.put, List.map_set]
  exact h.set_sublist hget hheld

/-- Such a step keeps the program sound. -/
theorem SoundProgram.put (h : SoundProgram s) (hi : s.threads[i]? = some t) (ht' : Sound t')
    (hheld : t'.held.Sublist t.held) : SoundProgram (s.put i t') := by
  refine ⟨fun t₀ ht₀ => ?_, exclusive_put h.exclusive hi hheld, h.unheard⟩
  rcases mem_set ht₀ with hmem | rfl
  · exact h.sound t₀ hmem
  · exact ht'

theorem Sound.lock (h : Sound t) (hcode : t.code = .lock m :: code) :
    Sound { t with held := m :: t.held, code := code } := by
  have hafter := h.disciplined
  rw [hcode] at hafter
  refine ⟨(after_lock.1 hafter).2, fun op hop => ?_, fun m' hm' => ?_, h.polls⟩
  · exact h.words op (hcode ▸ List.mem_cons_of_mem _ hop)
  · rcases List.mem_cons.1 hm' with rfl | hmem
    · exact h.words (.lock m') (hcode ▸ List.mem_cons_self)
    · exact h.locks m' hmem

theorem Sound.unlock (h : Sound t) (hcode : t.code = .unlock m :: code) :
    Sound { t with held := t.held.erase m, code := code } := by
  have hafter := h.disciplined
  rw [hcode] at hafter
  obtain ⟨rest, hheld, hrest⟩ := after_unlock.1 hafter
  have herase : t.held.erase m = rest := by rw [hheld, List.erase_cons_head]
  refine ⟨?_, fun op hop => ?_, fun m' hm' => ?_, h.polls⟩
  · rw [← herase] at hrest
    exact hrest
  · exact h.words op (hcode ▸ List.mem_cons_of_mem _ hop)
  · exact h.locks m' (List.mem_of_mem_erase hm')

/-- Before an action the rules permit it. -/
theorem Sound.permits (h : Sound t) (hcode : t.code = .other a :: code) :
    permits t.held a = true ∧ mayDo t.name a = true ∧ after rules t.held code = some [] := by
  have hafter := h.disciplined
  rw [hcode] at hafter
  exact ⟨(after_other.1 hafter).1, h.words (.other a) (hcode ▸ List.mem_cons_self),
    (after_other.1 hafter).2⟩

theorem Sound.action (h : Sound t) (hcode : t.code = .other a :: code) (hs : Unheard s) :
    Sound { t with
      code := expand starts s ch a ++ code
      phase := phaseAfter ch t.phase a } := by
  obtain ⟨hpermits, hmay, hafter⟩ := h.permits hcode
  have hfits : Fits t.name t.held (expand starts s ch a) := fits_expand hs hpermits hmay
  refine ⟨?_, fun op hop => ?_, h.locks, fun hidle hreturned => ?_⟩
  · exact (after_append_of_balanced hfits.balanced).trans hafter
  · rcases List.mem_append.1 hop with hmem | hmem
    · exact hfits.words op hmem
    · exact h.words op (hcode ▸ List.mem_cons_of_mem _ hmem)
  · cases a with
    | waitPeriod =>
        cases hname : t.name with
        | period c => exact ⟨c, rfl⟩
        | _ =>
            rw [hname] at hmay
            cases hmay
    | _ => exact h.polls hidle hreturned

/-- A goroutine that holds nothing gets new code. -/
theorem Sound.fresh (h : Sound t) (hnil : t.code = []) (hfits : Fits t.name [] code)
    {phase : Phase} (hphase : phase = t.phase ∨ phase = .idle) :
    Sound { t with code := code, phase := phase } := by
  have hheld : t.held = [] := by
    have hafter := h.disciplined
    rw [hnil, after_nil, Option.some_inj] at hafter
    exact hafter
  refine ⟨?_, hfits.words, h.locks, fun hidle hreturned => ?_⟩
  · rw [hheld]
    exact hfits.balanced
  · rcases hphase with rfl | rfl
    · exact h.polls hidle hreturned
    · exact absurd rfl hidle

theorem unheard_store (hs : Unheard s) (hmay : mayDo n a = true) : Unheard (store s ch a) := by
  intro c conf hmem
  cases a with
  | registerContainerChange fn =>
      rcases List.mem_append.1 hmem with hold | hnew
      · exact hs c conf hold
      · rw [List.mem_singleton] at hnew
        subst hnew
        cases n with
        | main => exact of_decide_eq_true hmay
        | _ => cases hmay
  | sendConf _ | callProgramEnd _ _ =>
      simp only [store] at hmem
      split at hmem <;> exact hs c conf hmem
  | _ => exact hs c conf hmem

theorem sound_launch {job : Job} (h : Sound t) (hcode : t.code = .other (.go job) :: code)
    (ch : Choice) : Sound (launch ch job) := by
  obtain ⟨hpermits, hmay, -⟩ := h.permits hcode
  obtain ⟨hheld, hfits⟩ := fits_launch hpermits hmay ch
  refine ⟨?_, hfits.words, fun m hm => ?_, fun hidle => ?_⟩
  · rw [hheld]
    exact hfits.balanced
  · rw [hheld] at hm
    cases hm
  · exact absurd (by cases job <;> rfl) hidle

theorem SoundProgram.perform (h : SoundProgram s) (hi : s.threads[i]? = some t)
    (hcode : t.code = .other a :: code) :
    SoundProgram (perform starts s i t code ch a) := by
  have ht := h.sound t (List.mem_of_getElem? hi)
  obtain ⟨-, hmay, -⟩ := ht.permits hcode
  have hstarted : ∀ t₀ ∈ started ch a, Sound t₀ ∧ t₀.held = [] := by
    intro t₀ ht₀
    cases a with
    | go job =>
        rw [started, List.mem_singleton] at ht₀
        subst ht₀
        exact ⟨sound_launch ht hcode ch, (fits_launch (ht.permits hcode).1 hmay ch).1⟩
    | _ => cases ht₀
  constructor
  · intro t₀ ht₀
    rcases List.mem_append.1 ht₀ with hold | hnew
    · rcases mem_set hold with hmem | rfl
      · exact h.sound t₀ hmem
      · exact ht.action hcode h.unheard
    · exact (hstarted t₀ hnew).1
  · simp only [Goroutines.perform, List.map_append]
    have hput : Exclusive ((s.put i { t with
        code := expand starts s ch a ++ code
        phase := phaseAfter ch t.phase a }).threads.map Goroutine.thread) :=
      exclusive_put h.exclusive hi (List.Sublist.refl _)
    apply hput.append
    intro t₀ ht₀
    obtain ⟨t₁, ht₁, rfl⟩ := List.mem_map.1 ht₀
    exact (hstarted t₁ ht₁).2
  · exact unheard_store h.unheard hmay

theorem SoundProgram.step (h : SoundProgram s) (he : Steps starts s e s') :
    SoundProgram s' := by
  cases he with
  | lock hi hcode hfree =>
      rename_i i t m code ch
      have ht := h.sound t (List.mem_of_getElem? hi)
      have hget : (s.threads.map Goroutine.thread)[i]? = some t.thread := by
        rw [List.getElem?_map, hi]
        rfl
      refine ⟨fun t₀ ht₀ => ?_, ?_, h.unheard⟩
      · rcases mem_set ht₀ with hmem | rfl
        · exact h.sound t₀ hmem
        · exact ht.lock hcode
      · rw [Program.put, List.map_set]
        apply h.exclusive.set_lock hget rfl
        intro t₀ ht₀
        obtain ⟨t₁, ht₁, rfl⟩ := List.mem_map.1 ht₀
        exact hfree t₁ ht₁
  | unlock hi hcode =>
      have ht := h.sound _ (List.mem_of_getElem? hi)
      exact h.put hi (ht.unlock hcode) List.erase_sublist
  | action hi hcode henabled => exact h.perform hi hcode
  | input hi hnil hidle hfirst hcode =>
      have ht := h.sound _ (List.mem_of_getElem? hi)
      have hput := h.put hi (ht.fresh hnil (fits_respond hcode) (.inl rfl)) (List.Sublist.refl _)
      exact ⟨hput.sound, hput.exclusive, hput.unheard⟩
  | release hi hj hnil hreceives hcode hevent =>
      rename_i i j t t' code
      have ht := h.sound t (List.mem_of_getElem? hi)
      have ht' := h.sound t' (List.mem_of_getElem? hj)
      have hfirst : Sound { t with phase := donePhase t } := by
        refine ⟨ht.disciplined, ht.words, ht.locks, fun hidle hreturned => ?_⟩
        cases hname : t.name with
        | signal c =>
            rw [donePhase, hname] at hidle hreturned
            obtain ⟨c', hc'⟩ := ht.polls hidle hreturned
            rw [hname] at hc'
            cases hc'
        | _ =>
            rw [donePhase, hname] at hreturned
            exact absurd rfl hreturned
      have hsecond : Sound { t' with code := code } := by
        refine ⟨(ht'.permits hcode).2.2, fun op hop => ?_, ht'.locks, ht'.polls⟩
        exact ht'.words op (hcode ▸ List.mem_cons_of_mem _ hop)
      have hne : i ≠ j := by
        intro hij
        rw [hij, hj] at hi
        cases hi
        rw [hnil] at hcode
        cases hcode
      apply (h.put hi hfirst (List.Sublist.refl _)).put (t := t') _ hsecond (List.Sublist.refl _)
      rw [Program.put, List.getElem?_set_ne hne, hj]
  | poll hi hnil hphase halone hnext =>
      have ht := h.sound _ (List.mem_of_getElem? hi)
      refine h.put hi ⟨ht.disciplined, ht.words, ht.locks, fun _ _ => ?_⟩ (List.Sublist.refl _)
      exact ht.polls (by simp [hphase]) (by simp [hphase])
  | tick hi hnil hname hphase =>
      have ht := h.sound _ (List.mem_of_getElem? hi)
      exact h.put hi (ht.fresh hnil (hname ▸ fits_round _ _) (.inr rfl)) (List.Sublist.refl _)

theorem fits_programStart (pods : Nat) : Fits .main [] (programStart pods) := by
  rw [programStart]
  apply Fits.append
  · apply Fits.append (Fits.cons rfl rfl (Fits.action rfl rfl))
    exact Fits.replicate (fits_setContainerPIDs rfl rfl rfl) pods
  · exact Fits.cons rfl rfl (Fits.cons rfl rfl (Fits.cons rfl rfl
      (Fits.cons rfl rfl (Fits.action rfl rfl))))

theorem sound_start (conf : List Key) (pods : Nat) : SoundProgram (start conf pods) := by
  have hfits := fits_programStart pods
  refine ⟨fun t ht => ?_, ?_, fun c conf h => ?_⟩
  · rw [List.mem_singleton.1 ht]
    exact ⟨hfits.balanced, hfits.words, fun m hm => (by cases hm), fun h => absurd rfl h⟩
  · exact List.nodup_nil
  · cases List.mem_singleton.1 h

/-- **The goroutines keep to their rules in every state of every run.** -/
theorem sound_of_run {conf : List Key} {pods : Nat} : ∀ (h : List Event) (s : Program),
    run (step starts) (start conf pods) h = some s → SoundProgram s := by
  apply run_invariant (I := fun _ s => SoundProgram s) (sound_start conf pods)
  intro h s e s' _ hs he
  exact hs.step (step_cases hs.sound he).2

/-- Every step of a run is one of the kinds of steps. -/
theorem steps_of_run {conf : List Key} {pods : Nat} {h : List Event}
    (hs : run (step starts) (start conf pods) h = some s) (he : step starts s e = some s') :
    s.status = .running ∧ Steps starts s e s' :=
  step_cases (sound_of_run h s hs).sound he

end Kmon.Ports.Goroutines
