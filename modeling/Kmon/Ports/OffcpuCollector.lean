import Kmon.Verified.Run
import Kmon.Verified.Layout
import Kmon.Ports.Stacks

/-!
# The collector of offcpu

`offcpu.bufferEvent` makes a point of a warning of the probe and appends it to
`cpuEventBuffer`; `exportData` makes a point of every entry of `counts`, deletes the
entry, and sends the points on `dataCh` (`src/collector/offcpu.go`).  It has no
statement about `cpuEventBuffer`, and neither has any other function: the warnings
stay in the collector.

A pointer to a point stands for the point: the `n`-th one that `bufferEvent` makes
is `Ptr.event n`, the `n`-th one that `exportData` makes is `Ptr.count n`.  What the
probe leaves in the two tables between the steps of the collector is arbitrary.

`everyState_warningsSent_iff` says that the exports of a run leave no warning behind
exactly when there is none in the buffer at any of them.
-/

namespace Kmon.Ports.OffcpuCollector

open Kmon.Verified
open Kmon.Verified.Run
open Kmon.Ports.Config
open Kmon.Ports.Points
open Kmon.Ports.Stacks

/-- `tcpWarnEvent`, the warning of offcpu. -/
structure TcpWarnEvent where
  PID : BitVec 32
  TGID : BitVec 32
  StartTime : BitVec 32
  EndTime : BitVec 32
  deriving DecidableEq, Repr

/-- `offcpuKey`.  `Name` is a `[32]byte`, a word whose byte `k` is its element `k`. -/
structure OffcpuKey where
  PID : BitVec 32
  TGID : BitVec 32
  UserStackID : BitVec 32
  StackID : BitVec 32
  Name : BitVec (8 * 32)
  deriving DecidableEq, Repr

/-- `ctypeByteToString`.  A byte of a text is the character with its number. -/
def ctypeByteToString (s : BitVec (8 * 32)) : String :=
  let bytes := (List.range 32).map fun k => Layout.byteOf (n := 32) s k
  String.ofList ((bytes.takeWhile (· ≠ 0)).map fun b => Char.ofNat b.toNat)

/-! ## The points -/

/-- The point of `bufferEvent`.  `containerName` is what `GetContainerFromPID`
answers. -/
def warnPoint (conf : ColOffcpu) (containerName : String) (e : TcpWarnEvent) : ExportData :=
  let tags := (((∅ : GoMap String String).insert "pid" (sprint e.PID)).insert
    "tgid" (sprint e.TGID)).insert "type" "warn"
  let fields := ((∅ : GoMap String Value).insert "startTime" (.uint32 e.StartTime)).insert
    "endTime" (.uint32 e.EndTime)
  ⟨conf.ExportConfig.DataName,
    if containerName ≠ "" then tags.insert "container" containerName else tags, fields⟩

/-- The fields of a point of `exportData` before those of the stacks. -/
def countFields (now : Time) (val : BitVec 64) : GoMap String Value :=
  ((∅ : GoMap String Value).insert "timestamp" (.time now)).insert "dutration(us)" (.int64 val)

/-- The point of `exportData` for an entry of `counts`. -/
def countPoint (ksym : BitVec 64 → String) (stackMap : StackTable) (conf : ColOffcpu)
    (now : Time) (containerName : String) (key : OffcpuKey) (val : BitVec 64) : ExportData :=
  let tags := (((∅ : GoMap String String).insert "pid" (sprint key.PID)).insert
    "tgid" (sprint key.TGID)).insert "name" (ctypeByteToString key.Name)
  ⟨conf.ExportConfig.DataName,
    if containerName ≠ "" then tags.insert "container" containerName else tags,
    stackFields ksym stackMap key.StackID key.UserStackID (countFields now val)⟩

/-! ## The machine -/

/-- A `*model.ExportData`. -/
inductive Ptr where
  | event (n : Nat)
  | count (n : Nat)
  deriving DecidableEq, Repr

/-- `offcpu`: the collector with its tables, the points it has made, and the
batches it has sent on `dataCh`. -/
structure Offcpu where
  conf : ColOffcpu
  countMap : GoMap OffcpuKey (BitVec 64)
  stackMap : StackTable
  events : List ExportData
  counted : List ExportData
  cpuEventBuffer : List Ptr
  dataCh : List (List Ptr × List ExporterConfig)

/-- What a call of `exportData` finds: the keys its iterator yields, in order, the
clock and the containers. -/
structure Pass where
  keys : List OffcpuKey
  now : OffcpuKey → Time
  containerName : BitVec 32 → String

/-- The steps of a run. -/
inductive Event where
  | bufferEvent (containerName : String) (e : TcpWarnEvent)
  | exportData (pass : Pass)
  | onConfigChange (conf : ColOffcpu)
  /-- The probe changes its tables. -/
  | probe (countMap : GoMap OffcpuKey (BitVec 64)) (stackMap : StackTable)

/-- A collector that was just set up. -/
def setupOffcpu (conf : ColOffcpu) : Offcpu := ⟨conf, ∅, ∅, [], [], [], []⟩

/-- `bufferEvent`. -/
def bufferEvent (s : Offcpu) (containerName : String) (e : TcpWarnEvent) : Offcpu :=
  { s with
    events := s.events ++ [warnPoint s.conf containerName e]
    cpuEventBuffer := s.cpuEventBuffer ++ [.event s.events.length] }

/-- One round of the loop of `exportData`, on the collector and on `data`. -/
def exportEntry (ksym : BitVec 64 → String) (pass : Pass) (r : Offcpu × List Ptr)
    (key : OffcpuKey) : Offcpu × List Ptr :=
  match r.1.countMap.lookup key with
  | none => r
  | some val =>
      let point := countPoint ksym r.1.stackMap r.1.conf (pass.now key)
        (pass.containerName key.PID) key val
      ({ r.1 with
          counted := r.1.counted ++ [point]
          countMap := r.1.countMap.erase key },
        r.2 ++ [.count r.1.counted.length])

/-- `exportData`. -/
def exportData (ksym : BitVec 64 → String) (s : Offcpu) (pass : Pass) : Offcpu :=
  let r := pass.keys.foldl (exportEntry ksym pass) (s, [])
  if r.2.length > 0 then
    { r.1 with dataCh := r.1.dataCh ++ [(r.2, s.conf.ExportConfig.ExporterConfig)] }
  else r.1

def step (ksym : BitVec 64 → String) (s : Offcpu) : Event → Option Offcpu
  | .bufferEvent containerName e => some (bufferEvent s containerName e)
  | .exportData pass => some (exportData ksym s pass)
  | .onConfigChange conf => some { s with conf := conf }
  | .probe countMap stackMap => some { s with countMap := countMap, stackMap := stackMap }

/-- The warnings buffered so far. -/
def warned : List Event → Nat
  | [] => 0
  | .bufferEvent _ _ :: h => warned h + 1
  | _ :: h => warned h

/-- The property of a state: after an export every warning that was buffered before
has been sent once, and the buffer is empty. -/
def WarningsSent : List Event → Offcpu → Prop
  | .exportData _ :: h, s =>
      (∀ n < warned h, (s.dataCh.flatMap Prod.fst).count (.event n) = 1) ∧
        s.cpuEventBuffer = []
  | _, _ => True

/-- The condition: no warning is waiting when an export begins. -/
def NoWarningWaiting (s : Offcpu) : Event → Prop
  | .exportData _ => s.cpuEventBuffer = []
  | _ => True

/-! ## What an export touches -/

section Export

variable (ksym : BitVec 64 → String) (pass : Pass)

/-- The loop makes points of its own. -/
theorem foldl_exportEntry (keys : List OffcpuKey) (r : Offcpu × List Ptr) :
    let r' := keys.foldl (exportEntry ksym pass) r
    r'.1.events = r.1.events ∧ r'.1.cpuEventBuffer = r.1.cpuEventBuffer ∧
      r'.1.dataCh = r.1.dataCh ∧ r'.1.conf = r.1.conf ∧
      ∀ n, Ptr.event n ∈ r'.2 → Ptr.event n ∈ r.2 := by
  induction keys generalizing r with
  | nil => exact ⟨rfl, rfl, rfl, rfl, fun _ h => h⟩
  | cons key keys ih =>
      obtain ⟨hevents, hbuffer, hsent, hconf, hdata⟩ := ih (exportEntry ksym pass r key)
      rw [List.foldl_cons]
      unfold exportEntry at hevents hbuffer hsent hconf hdata ⊢
      cases hval : r.1.countMap.lookup key with
      | none =>
          simp only [hval] at hevents hbuffer hsent hconf hdata ⊢
          exact ⟨hevents, hbuffer, hsent, hconf, hdata⟩
      | some val =>
          simp only [hval] at hevents hbuffer hsent hconf hdata ⊢
          refine ⟨hevents, hbuffer, hsent, hconf, fun n hn => ?_⟩
          rcases List.mem_append.1 (hdata n hn) with hmem | hnew
          · exact hmem
          · cases List.mem_singleton.1 hnew

/-- An export leaves the warnings where they are, and its batch holds none. -/
theorem exportData_frame (s : Offcpu) :
    (exportData ksym s pass).events = s.events ∧
      (exportData ksym s pass).cpuEventBuffer = s.cpuEventBuffer ∧
      ∀ n, Ptr.event n ∈ (exportData ksym s pass).dataCh.flatMap Prod.fst →
        Ptr.event n ∈ s.dataCh.flatMap Prod.fst := by
  obtain ⟨hevents, hbuffer, hsent, -, hdata⟩ :=
    foldl_exportEntry ksym pass pass.keys (s, [])
  unfold exportData
  dsimp only
  split
  · refine ⟨hevents, hbuffer, fun n hn => ?_⟩
    rw [hsent, List.flatMap_append] at hn
    rcases List.mem_append.1 hn with hold | hnew
    · exact hold
    · rw [List.flatMap_singleton] at hnew
      exact absurd (hdata n hnew) List.not_mem_nil
  · refine ⟨hevents, hbuffer, fun n hn => ?_⟩
    rw [hsent] at hn
    exact hn

end Export

/-! ## Runs -/

/-- What holds in every run: all warnings are in the buffer, and none has been
sent. -/
structure Kept (h : List Event) (s : Offcpu) : Prop where
  events : s.events.length = warned h
  buffer : s.cpuEventBuffer = (List.range (warned h)).map Ptr.event
  unsent : ∀ n, Ptr.event n ∉ s.dataCh.flatMap Prod.fst

theorem kept_step {ksym : BitVec 64 → String} {h : List Event} {s t : Offcpu} {e : Event}
    (hs : Kept h s) (he : step ksym s e = some t) : Kept (e :: h) t := by
  cases e with
  | bufferEvent containerName e =>
      cases he
      refine ⟨?_, ?_, hs.unsent⟩
      · show (s.events ++ [_]).length = warned h + 1
        rw [List.length_append, hs.events]
        rfl
      · show s.cpuEventBuffer ++ [Ptr.event s.events.length] =
          (List.range (warned h + 1)).map Ptr.event
        rw [List.range_succ, List.map_append, hs.buffer, hs.events]
        rfl
  | exportData pass =>
      cases he
      obtain ⟨hevents, hbuffer, hsent⟩ := exportData_frame ksym pass s
      refine ⟨?_, ?_, fun n hn => hs.unsent n (hsent n hn)⟩
      · rw [hevents]
        exact hs.events
      · rw [hbuffer]
        exact hs.buffer
  | onConfigChange conf =>
      cases he
      exact ⟨hs.events, hs.buffer, hs.unsent⟩
  | probe countMap stackMap =>
      cases he
      exact ⟨hs.events, hs.buffer, hs.unsent⟩

theorem run_kept (ksym : BitVec 64 → String) (conf : ColOffcpu) :
    ∀ h s, run (step ksym) (setupOffcpu conf) h = some s → Kept h s :=
  run_invariant ⟨rfl, rfl, fun _ => List.not_mem_nil⟩ fun _ _ _ _ _ hs he => kept_step hs he

/-- An export leaves no warning behind exactly when there was none. -/
theorem warningsSent_step_iff {ksym : BitVec 64 → String} {h : List Event} {s t : Offcpu}
    {e : Event} (hs : Kept h s) (he : step ksym s e = some t) :
    WarningsSent (e :: h) t ↔ NoWarningWaiting s e := by
  cases e with
  | exportData pass =>
      have ht : Kept (.exportData pass :: h) t := kept_step hs he
      cases he
      obtain ⟨-, hbuffer, -⟩ := exportData_frame ksym pass s
      show (_ ∧ (exportData ksym s pass).cpuEventBuffer = []) ↔ s.cpuEventBuffer = []
      rw [hbuffer]
      constructor
      · exact And.right
      · intro hempty
        refine ⟨fun n hn => ?_, hempty⟩
        -- an empty buffer means that there was no warning at all
        have hnone : warned h = 0 := by
          have hlength := congrArg List.length hs.buffer
          rw [hempty, List.length_map, List.length_range] at hlength
          exact hlength.symm
        omega
  | bufferEvent containerName e => exact Iff.rfl
  | onConfigChange conf => exact Iff.rfl
  | probe countMap stackMap => exact Iff.rfl

/-- **The exports of a run send every warning exactly when none is waiting at any of
them.** -/
theorem everyState_warningsSent_iff (ksym : BitVec 64 → String) (conf : ColOffcpu)
    (events : List Event) :
    EveryState (step ksym) (setupOffcpu conf) WarningsSent events ↔
      Guarded (step ksym) (setupOffcpu conf) NoWarningWaiting events := by
  apply everyState_iff_guarded (run_kept ksym conf) trivial
  · intro h s e t hs _ he
    exact warningsSent_step_iff hs he
  · intro h s e _ he
    cases e <;> cases he

/-- One warning and one export: the warning is still in the buffer. -/
theorem warning_not_sent :
    ¬ EveryState (step fun _ => "") (setupOffcpu ⟨"offcpu", 1, 0, 0, 0, ListenConfig.zero,
          ⟨10, "offcpu", []⟩⟩) WarningsSent
        [.exportData ⟨[], fun _ => 0, fun _ => ""⟩, .bufferEvent "" ⟨7, 7, 9, 5⟩] := by
  intro h
  exact absurd (h.last _ rfl).2 (by decide)

end Kmon.Ports.OffcpuCollector
