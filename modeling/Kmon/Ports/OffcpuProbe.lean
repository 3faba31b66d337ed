import Kmon.Ports.ExportRounds
import Kmon.Ports.StackFields

/-!
# The off-CPU intervals of oncpu

`oncpu` runs at every context switch, with the thread that left the CPU as `prev` and
the one that got it as the current thread.  It stores the time under `prev` if `prev`
is traced and the state in which it left passes the filter of its control entry.  For
the current thread, if it is traced, it takes the stored time out of `start` and adds
the time since then to `counts` (`bcc/offcpu.c`).

A switch-out that is not recorded leaves `start` alone, and so does the switch-in of a
thread that is not traced.  A time stored before a thread was untraced is therefore
still there when the thread is traced again, and the next switch-in counts from it,
whatever the thread did in between.  `everyStep_countsInterval` says that the intervals
are right in every run in which no unrecorded switch-out finds a time of its thread;
`interval_wrong_of_leftover` continues every other run to a wrong interval.

A thread is its PID, as it is for the probe.
-/

namespace Kmon.Ports.OffcpuProbe

open Kmon.Verified
open Kmon.Verified.Run
open Kmon.Ports.ExportRounds (KeyT increment)
open Kmon.Ports.TcpdropCollector (StackIds)

/-! ## The probe -/

/-- `struct control`. -/
structure Control where
  verbose : BitVec 32
  state : BitVec 32
  start : BitVec 32
  end_ : BitVec 32
  deriving DecidableEq, Repr

/-- `struct warn_event_t`. -/
structure WarnEventT where
  pid : BitVec 32
  tgid : BitVec 32
  tStart : BitVec 32
  tEnd : BitVec 32
  deriving DecidableEq, Repr

/-- The hash tables of the module, and what was submitted to `warn_events`. -/
structure Maps where
  controlMap : GoMap (BitVec 32) Control
  start : GoMap (BitVec 32) (BitVec 64)
  counts : GoMap KeyT (BitVec 64)
  warnEvents : List WarnEventT

/-- What a call of `oncpu` finds: `prev->pid` and `prev->state`, the current thread with
the ids of its stacks and its name, and the clock, which is read once for each of the
two threads. -/
structure Switch where
  prevPid : BitVec 32
  prevState : BitVec 64
  pidTgid : BitVec 64
  ids : StackIds
  comm : BitVec 256
  outTime : BitVec 64
  inTime : BitVec 64

/-- `pid` and `tgid` of the current thread. -/
def Switch.pid (sw : Switch) : BitVec 32 := sw.pidTgid.setWidth 32

def Switch.tgid (sw : Switch) : BitVec 32 := (sw.pidTgid >>> 32).setWidth 32

/-- The state filter of a control entry. -/
def passes (con : Control) (prevState : BitVec 64) : Bool :=
  (con.state = 0 ∧ prevState = 0) ∨ prevState &&& con.state.setWidth 64 ≠ 0

/-- Whether the switch-out of a thread with this control entry is recorded. -/
def recorded (con : Option Control) (prevState : BitVec 64) : Bool :=
  match con with
  | none => false
  | some con => passes con prevState

/-- The part of `oncpu` for `prev`. -/
def switchOut (m : Maps) (sw : Switch) : Maps :=
  if recorded (m.controlMap.lookup sw.prevPid) sw.prevState then
    { m with start := m.start.insert sw.prevPid sw.outTime }
  else m

/-- The key of the current thread. -/
def keyOf (con : Control) (sw : Switch) : KeyT :=
  let key : KeyT := ⟨sw.pid, sw.tgid, 0, 0, sw.comm⟩
  let key :=
    if con.verbose > 2 then { key with userStackId := sw.ids.user }
    else { key with userStackId := -1 }
  if con.verbose > 1 then { key with kernelStackId := sw.ids.kernel }
  else { key with userStackId := -1 }

/-- The part of `oncpu` for the current thread, with the `delta` it adds to `counts` if
it comes that far. -/
def switchIn (m : Maps) (sw : Switch) : Maps × Option (BitVec 64) :=
  match m.controlMap.lookup sw.pid with
  | none => (m, none)
  | some con =>
      match m.start.lookup sw.pid with
      | none => (m, none)
      | some tStart =>
          let m := { m with start := m.start.erase sw.pid }
          if tStart > sw.inTime then
            let event : WarnEventT :=
              ⟨sw.pid, sw.tgid, tStart.setWidth 32, sw.inTime.setWidth 32⟩
            ({ m with warnEvents := m.warnEvents ++ [event] }, none)
          else
            let delta := (sw.inTime - tStart) / 1000
            if delta < con.start.setWidth 64 ∨ delta > con.end_.setWidth 64 then (m, none)
            else ({ m with counts := increment m.counts (keyOf con sw) delta }, some delta)

/-- `oncpu`. -/
def oncpu (m : Maps) (sw : Switch) : Maps × Option (BitVec 64) := switchIn (switchOut m sw) sw

/-- The steps of a run: context switches, and what the collector does to `control_map`. -/
inductive Event where
  | oncpu (sw : Switch)
  | setControl (pid : BitVec 32) (con : Control)
  | deleteControl (pid : BitVec 32)

def step (m : Maps) : Event → Option Maps
  | .oncpu sw => some (oncpu m sw).1
  | .setControl pid con => some { m with controlMap := m.controlMap.insert pid con }
  | .deleteControl pid => some { m with controlMap := m.controlMap.erase pid }

/-- The tables of a module that was just loaded. -/
def empty : Maps := ⟨∅, ∅, ∅, []⟩

/-! ## The intervals of a history -/

/-- The control entry of a thread. -/
def controlOf (pid : BitVec 32) : List Event → Option Control
  | [] => none
  | .setControl pid' con :: h => if pid' = pid then some con else controlOf pid h
  | .deleteControl pid' :: h => if pid' = pid then none else controlOf pid h
  | .oncpu _ :: h => controlOf pid h

/-- The most recent switch-out of a thread: its time, and whether the thread was traced
and passed the filter. -/
def lastOut (pid : BitVec 32) : List Event → Option (BitVec 64 × Bool)
  | [] => none
  | .oncpu sw :: h =>
      if sw.prevPid = pid then some (sw.outTime, recorded (controlOf pid h) sw.prevState)
      else lastOut pid h
  | _ :: h => lastOut pid h

/-- The property of a step: what a switch adds to `counts` is the time since the most
recent switch-out of the current thread, which has passed the filter. -/
def CountsInterval (h : List Event) (m : Maps) : Event → Maps → Prop
  | .oncpu sw, m' =>
      match (oncpu m sw).2 with
      | none => m'.counts = m.counts
      | some delta =>
          ∃ tOut con, lastOut sw.pid (.oncpu sw :: h) = some (tOut, true) ∧
            tOut ≤ sw.inTime ∧
            delta.toNat = (sw.inTime.toNat - tOut.toNat) / 1000 ∧
            m'.counts = increment m.counts (keyOf con sw) delta
  | _, m' => m'.counts = m.counts

/-- The condition: a switch-out that is not recorded finds no time of its thread. -/
def NoLeftover (m : Maps) : Event → Prop
  | .oncpu sw =>
      recorded (m.controlMap.lookup sw.prevPid) sw.prevState = false →
        m.start.lookup sw.prevPid = none
  | _ => True

/-! ## One call of the probe -/

variable {h : List Event} {m m' : Maps} {e : Event} {sw : Switch} {pid : BitVec 32}

/-- The key is the one whose stacks `StackFields` renders. -/
theorem oncpuKey_eq_keyOf (con : Control) (sw : Switch) :
    StackFields.oncpuKey con.verbose sw.pid sw.tgid sw.ids sw.comm =
      let key := keyOf con sw
      ⟨key.pid, key.tgid, key.userStackId, key.kernelStackId, key.name⟩ := by
  unfold StackFields.oncpuKey keyOf
  by_cases huser : con.verbose > 2 <;> by_cases hkernel : con.verbose > 1 <;>
    simp only [huser, hkernel, if_true, if_false]

@[simp] theorem switchOut_controlMap (m : Maps) (sw : Switch) :
    (switchOut m sw).controlMap = m.controlMap := by
  unfold switchOut
  split <;> rfl

@[simp] theorem switchOut_counts (m : Maps) (sw : Switch) :
    (switchOut m sw).counts = m.counts := by
  unfold switchOut
  split <;> rfl

/-- A switch-out touches the time of its own thread only. -/
theorem lookup_start_switchOut (m : Maps) (sw : Switch) (pid : BitVec 32) :
    (switchOut m sw).start.lookup pid =
      if sw.prevPid = pid ∧ recorded (m.controlMap.lookup sw.prevPid) sw.prevState then
        some sw.outTime
      else m.start.lookup pid := by
  unfold switchOut
  split
  · rename_i hrec
    rw [GoMap.lookup_insert_ite]
    by_cases hpid : pid = sw.prevPid
    · rw [if_pos hpid, if_pos ⟨hpid.symm, hrec⟩]
    · rw [if_neg hpid, if_neg fun hand => hpid hand.1.symm]
  · rename_i hrec
    rw [if_neg fun hand => hrec hand.2]

/-- The four ways a switch-in can go. -/
inductive SwitchedIn (m : Maps) (sw : Switch) : Maps × Option (BitVec 64) → Prop
  | untouched (h : m.controlMap.lookup sw.pid = none ∨ m.start.lookup sw.pid = none) :
      SwitchedIn m sw (m, none)
  | dropped {tStart : BitVec 64} {events : List WarnEventT}
      (hstart : m.start.lookup sw.pid = some tStart) :
      SwitchedIn m sw
        ({ m with start := m.start.erase sw.pid, warnEvents := events }, none)
  | counted {con : Control} {tStart : BitVec 64}
      (hcon : m.controlMap.lookup sw.pid = some con)
      (hstart : m.start.lookup sw.pid = some tStart) (hle : tStart ≤ sw.inTime)
      (hlow : con.start.setWidth 64 ≤ (sw.inTime - tStart) / 1000)
      (hhigh : (sw.inTime - tStart) / 1000 ≤ con.end_.setWidth 64) :
      SwitchedIn m sw
        ({ m with
            start := m.start.erase sw.pid
            counts := increment m.counts (keyOf con sw) ((sw.inTime - tStart) / 1000) },
          some ((sw.inTime - tStart) / 1000))

theorem switchedIn_switchIn (m : Maps) (sw : Switch) : SwitchedIn m sw (switchIn m sw) := by
  unfold switchIn
  split
  · rename_i hcon
    exact .untouched (Or.inl hcon)
  · rename_i con hcon
    split
    · rename_i hstart
      exact .untouched (Or.inr hstart)
    · rename_i tStart hstart
      dsimp only
      split
      · exact .dropped hstart
      · rename_i hle
        split
        · exact .dropped hstart
        · rename_i hbounds
          obtain ⟨hlow, hhigh⟩ := not_or.1 hbounds
          exact .counted hcon hstart (BitVec.not_lt.1 hle) (BitVec.not_lt.1 hlow)
            (BitVec.not_lt.1 hhigh)

/-- A switch-in leaves the control entries alone and takes out no time but its own. -/
theorem switchIn_frame (m : Maps) (sw : Switch) :
    (switchIn m sw).1.controlMap = m.controlMap ∧
      ((switchIn m sw).1.start = m.start ∨ (switchIn m sw).1.start = m.start.erase sw.pid) := by
  have hin := switchedIn_switchIn m sw
  generalize switchIn m sw = r at hin ⊢
  cases hin with
  | untouched _ => exact ⟨rfl, Or.inl rfl⟩
  | dropped _ => exact ⟨rfl, Or.inr rfl⟩
  | counted _ _ _ _ _ => exact ⟨rfl, Or.inr rfl⟩

/-- It stores none. -/
theorem lookup_of_lookup_switchIn {tOut : BitVec 64}
    (hsome : (switchIn m sw).1.start.lookup pid = some tOut) :
    m.start.lookup pid = some tOut := by
  obtain hstart | hstart := (switchIn_frame m sw).2
  · rw [← hstart]
    exact hsome
  · rw [hstart, GoMap.lookup_erase_ite] at hsome
    split at hsome
    · cases hsome
    · exact hsome

theorem lookup_switchIn_of_ne (hne : pid ≠ sw.pid) :
    (switchIn m sw).1.start.lookup pid = m.start.lookup pid := by
  obtain hstart | hstart := (switchIn_frame m sw).2
  · rw [hstart]
  · rw [hstart, Finmap.lookup_erase_ne hne]

/-- A traced thread whose stored time is the present is counted with 0, if its bounds
allow for it. -/
theorem switchIn_counts_zero {con : Control} (hcon : m.controlMap.lookup sw.pid = some con)
    (hstart : m.start.lookup sw.pid = some sw.inTime) (hlow : con.start = 0) :
    (switchIn m sw).2 = some 0 := by
  have hzero : (sw.inTime - sw.inTime) / 1000 = 0 := by
    rw [BitVec.sub_self]
    rfl
  unfold switchIn
  rw [hcon, hstart]
  dsimp only
  rw [if_neg (BitVec.lt_irrefl _), hzero, hlow, if_neg]
  rintro (h | h)
  · exact BitVec.not_lt_zero h
  · exact BitVec.not_lt_zero h

/-! ## Runs without leftovers -/

/-- The control entries are those of the history, and every stored time is that of the
most recent switch-out of its thread. -/
structure Fresh (h : List Event) (m : Maps) : Prop where
  control : ∀ pid, m.controlMap.lookup pid = controlOf pid h
  start : ∀ pid tOut, m.start.lookup pid = some tOut → lastOut pid h = some (tOut, true)

theorem fresh_empty : Fresh [] empty :=
  ⟨fun _ => rfl, fun _ _ hsome => by cases hsome⟩

/-- After the part for `prev`, the stored times are up to date with the switch itself. -/
theorem fresh_switchOut (hm : Fresh h m) (hguard : NoLeftover m (.oncpu sw)) :
    Fresh (.oncpu sw :: h) (switchOut m sw) := by
  constructor
  · intro pid
    rw [switchOut_controlMap, hm.control]
    rfl
  · intro pid tOut hsome
    rw [lookup_start_switchOut] at hsome
    show (if sw.prevPid = pid then _ else lastOut pid h) = some (tOut, true)
    by_cases hpid : sw.prevPid = pid
    · rw [if_pos hpid, ← hpid, ← hm.control]
      rw [← hpid] at hsome
      cases hrec : recorded (m.controlMap.lookup sw.prevPid) sw.prevState with
      | true =>
          rw [if_pos ⟨rfl, hrec⟩] at hsome
          cases hsome
          rfl
      | false =>
          -- no new time is stored, so the old one would be a leftover
          rw [hrec, if_neg (by simp), hguard hrec] at hsome
          cases hsome
    · rw [if_neg fun hand => hpid hand.1] at hsome
      rw [if_neg hpid]
      exact hm.start pid tOut hsome

theorem fresh_switchIn (hm : Fresh h m) : Fresh h (switchIn m sw).1 := by
  constructor
  · intro pid
    rw [(switchIn_frame m sw).1, hm.control]
  · exact fun pid tOut hsome => hm.start pid tOut (lookup_of_lookup_switchIn hsome)

theorem lookup_setControl {con : Control}
    (hm : ∀ pid', m.controlMap.lookup pid' = controlOf pid' h) (pid' : BitVec 32) :
    (m.controlMap.insert pid con).lookup pid' = controlOf pid' (.setControl pid con :: h) := by
  rw [GoMap.lookup_insert_ite, hm]
  simp only [controlOf, eq_comm]

theorem lookup_deleteControl (hm : ∀ pid', m.controlMap.lookup pid' = controlOf pid' h)
    (pid' : BitVec 32) :
    (m.controlMap.erase pid).lookup pid' = controlOf pid' (.deleteControl pid :: h) := by
  rw [GoMap.lookup_erase_ite, hm]
  simp only [controlOf, eq_comm]

theorem fresh_step (hm : Fresh h m) (hguard : NoLeftover m e) (he : step m e = some m') :
    Fresh (e :: h) m' := by
  cases e with
  | oncpu sw =>
      cases he
      exact fresh_switchIn (fresh_switchOut hm hguard)
  | setControl pid con =>
      cases he
      exact ⟨lookup_setControl hm.control, hm.start⟩
  | deleteControl pid =>
      cases he
      exact ⟨lookup_deleteControl hm.control, hm.start⟩

/-- An interval in the clock's own numbers. -/
theorem toNat_interval {tOut tIn : BitVec 64} (hle : tOut ≤ tIn) :
    ((tIn - tOut) / 1000).toNat = (tIn.toNat - tOut.toNat) / 1000 := by
  rw [BitVec.toNat_udiv, BitVec.toNat_sub_of_le hle]
  rfl

theorem countsInterval_step (hm : Fresh h m) (hguard : NoLeftover m e)
    (he : step m e = some m') : CountsInterval h m e m' := by
  cases e with
  | oncpu sw =>
      cases he
      have hfresh := fresh_switchOut hm hguard
      have hcounts := switchOut_counts m sw
      show match (oncpu m sw).2 with
        | none => (oncpu m sw).1.counts = m.counts
        | some delta => _
      have hin := switchedIn_switchIn (switchOut m sw) sw
      unfold oncpu
      generalize switchIn (switchOut m sw) sw = r at hin ⊢
      cases hin with
      | untouched _ => exact hcounts
      | dropped _ => exact hcounts
      | counted hcon hstart hle hlow hhigh =>
          rename_i con tStart
          refine ⟨tStart, con, hfresh.start _ _ hstart, hle, toNat_interval hle, ?_⟩
          show increment (switchOut m sw).counts _ _ = _
          rw [hcounts]
  | setControl pid con =>
      cases he
      rfl
  | deleteControl pid =>
      cases he
      rfl

/-! ## Runs -/

/-- **In a run without leftovers, every interval starts at the most recent switch-out of
its thread.**  Threads, times, states and changes of `control_map` are arbitrary. -/
theorem everyStep_countsInterval (h : List Event) (hguard : Guarded step empty NoLeftover h) :
    EveryStep step empty CountsInterval h :=
  everyStep_of_guarded fresh_empty (fun _ _ _ _ => fresh_step)
    (fun _ _ _ _ => countsInterval_step) h hguard

/-- A control entry with which every sleep is counted. -/
def allSleeps : Control := ⟨0, 1, 0, -1⟩

/-- The switch from `prev` to another thread, with one clock for both of them. -/
def switch (prevPid : BitVec 32) (prevState : BitVec 64) (pid : BitVec 32) (time : BitVec 64) :
    Switch :=
  ⟨prevPid, prevState, pid.setWidth 64, ⟨0, 0⟩, 0, time, time⟩

/-- Thread 7 sleeps once. -/
theorem everyStep_countsInterval_sleep :
    EveryStep step empty CountsInterval
      [.oncpu (switch 8 0 7 3000000), .oncpu (switch 7 1 8 1000000), .setControl 7 allSleeps] := by
  apply everyStep_countsInterval
  refine ⟨⟨⟨trivial, fun _ _ => trivial⟩, ?_⟩, ?_⟩
  · intro m hm
    cases hm
    exact fun hrec => absurd hrec (by decide)
  · intro m hm
    cases hm
    exact fun _ => by decide

/-- Thread 7 is untraced while it sleeps, runs, is traced again, waits on the run queue,
which its filter leaves out, and runs: 8.5 ms are counted from the sleep before. -/
theorem interval_from_older_sleep :
    ¬ EveryStep step empty CountsInterval
      [.oncpu (switch 8 0 7 9500000), .oncpu (switch 7 0 8 9000000), .setControl 7 allSleeps,
        .oncpu (switch 8 0 7 2000000), .deleteControl 7, .oncpu (switch 7 1 8 1000000),
        .setControl 7 allSleeps] := by
  rintro ⟨-, hlast⟩
  obtain ⟨tOut, con, hout, -⟩ := hlast _ _ rfl rfl
  have hout : some ((9000000 : BitVec 64), false) = some (tOut, true) := hout
  cases hout

/-- In every run, whether it leaves times behind or not, the control entries are those of
the history. -/
theorem controlMap_eq_controlOf : ∀ h m, run step empty h = some m →
    ∀ pid, m.controlMap.lookup pid = controlOf pid h := by
  apply run_invariant
  · exact fresh_empty.control
  · intro h m e m' _ hm he
    cases e with
    | oncpu sw =>
        cases he
        intro pid
        show (switchIn (switchOut m sw) sw).1.controlMap.lookup pid = controlOf pid h
        rw [(switchIn_frame (switchOut m sw) sw).1, switchOut_controlMap, hm]
    | setControl pid con =>
        cases he
        exact lookup_setControl hm
    | deleteControl pid =>
        cases he
        exact lookup_deleteControl hm

/-- **A leftover can be counted.**  If a thread is switched out unrecorded and has a time
in `start`, there is a continuation in which a wrong interval is counted: the thread is
traced and switched in at the time that was left behind. -/
theorem interval_wrong_of_leftover (hrun : run step empty h = some m)
    (hleft : ¬ NoLeftover m (.oncpu sw)) (hne : sw.pid ≠ sw.prevPid) :
    ∃ h', ¬ EveryStep step empty CountsInterval (h' ++ .oncpu sw :: h) := by
  obtain ⟨hrec, hsome⟩ := Classical.not_imp.1 hleft
  obtain ⟨v, hv⟩ := Option.ne_none_iff_exists'.1 hsome
  let back : Switch := ⟨sw.prevPid + 1, 0, sw.prevPid.setWidth 64, ⟨0, 0⟩, 0, 0, v⟩
  have hback : back.pid = sw.prevPid := by
    show (sw.prevPid.setWidth 64).setWidth 32 = sw.prevPid
    simp
  have hother : back.prevPid ≠ sw.prevPid := by
    show sw.prevPid + 1 ≠ sw.prevPid
    simp
  -- the time is still there after the switch, and is read by `back`
  have hv1 : (oncpu m sw).1.start.lookup sw.prevPid = some v := by
    unfold oncpu
    rw [lookup_switchIn_of_ne (Ne.symm hne), lookup_start_switchOut, hrec, if_neg (by simp), hv]
  let traced : Maps :=
    { (oncpu m sw).1 with
      controlMap := (oncpu m sw).1.controlMap.insert sw.prevPid allSleeps }
  have hcounted : (oncpu traced back).2 = some 0 := by
    unfold oncpu
    apply switchIn_counts_zero
    · rw [switchOut_controlMap, hback]
      exact Finmap.lookup_insert _
    · rw [lookup_start_switchOut, hback, if_neg fun hand => hother hand.1]
      exact hv1
    · rfl
  refine ⟨[.oncpu back, .setControl sw.prevPid allSleeps], fun hevery => ?_⟩
  have hrun' : run step empty (.setControl sw.prevPid allSleeps :: .oncpu sw :: h) = some traced :=
    run_cons_of_step (run_cons_of_step hrun rfl) rfl
  have hcounts := hevery.2 traced _ hrun' rfl
  unfold CountsInterval at hcounts
  dsimp only at hcounts
  rw [hcounted] at hcounts
  obtain ⟨tOut, con, hout, -⟩ := hcounts
  rw [hback] at hout
  -- but the most recent switch-out is the one that was not recorded
  have hlast : lastOut sw.prevPid
      (.oncpu back :: .setControl sw.prevPid allSleeps :: .oncpu sw :: h) =
        some (sw.outTime, recorded (controlOf sw.prevPid h) sw.prevState) := by
    unfold lastOut
    rw [if_neg hother]
    unfold lastOut lastOut
    rw [if_pos rfl]
  rw [← controlMap_eq_controlOf h m hrun, hrec] at hlast
  cases hlast.symm.trans hout

end Kmon.Ports.OffcpuProbe
