import Kmon.Ports.PerfRecords
import Kmon.Ports.OffcpuProbe

/-!
# The times in a warning of oncpu

`oncpu` compares two times of 64 bits and submits a warning when the switch-out of a
thread is later than its switch-in.  The record it submits has 32 bits for each time
(`release/bcc/offcpu.c`), and so has the struct that the collector casts the sample to
(`src/collector/offcpu.go`); the times of `struct msg_event` in tcpreq.c, from the same
clock, have 64.

`showsAnomaly_iff` says that the point of a warning shows the later time as the later one,
by the right difference, exactly when the two times agree above bit 32.
-/

namespace Kmon.Ports.WarnTimes

open Kmon.Verified
open Kmon.Verified.Layout
open Kmon.Ports.Config
open Kmon.Ports.Points
open Kmon.Ports.Records
open Kmon.Ports.PerfRecords
open Kmon.Ports.OffcpuCollector (TcpWarnEvent warnPoint)
open Kmon.Ports.OffcpuProbe

/-- The fields of a `struct warn_event_t`. -/
def recordOf (event : WarnEventT) : Rec warnEventT :=
  (event.pid, event.tgid, event.tStart, event.tEnd, ())

/-- `**(**tcpWarnEvent)(unsafe.Pointer(&e))`, for the sample of an event. -/
def received (event : WarnEventT) (after : Mem) : TcpWarnEvent :=
  let v : Rec Records.tcpWarnEvent := decode .offcpuWarn (sample .offcpuWarn (recordOf event) after)
  ⟨v.1, v.2.1, v.2.2.1, v.2.2.2.1⟩

/-- The point of a warning shows its two times, and these are in the order and at the
distance of the times of the kernel. -/
structure ShowsAnomaly (tStart tEnd : BitVec 64) (e : TcpWarnEvent) (p : ExportData) :
    Prop where
  startTime : p.Fields.lookup "startTime" = some (.uint32 e.StartTime)
  endTime : p.Fields.lookup "endTime" = some (.uint32 e.EndTime)
  later : e.StartTime > e.EndTime
  difference : e.StartTime.toNat - e.EndTime.toNat = tStart.toNat - tEnd.toNat

/-! ## From the probe to the point -/

variable {m : Maps} {sw : Switch} {con : Control} {tStart : BitVec 64}

/-- The warning of a switch-in before the stored switch-out. -/
theorem warnEvents_oncpu (hcon : m.controlMap.lookup sw.pid = some con)
    (hstart : (switchOut m sw).start.lookup sw.pid = some tStart) (hlater : tStart > sw.inTime) :
    (oncpu m sw).1.warnEvents =
      m.warnEvents ++ [⟨sw.pid, sw.tgid, tStart.setWidth 32, sw.inTime.setWidth 32⟩] := by
  have hevents : (switchOut m sw).warnEvents = m.warnEvents := by
    unfold switchOut
    split <;> rfl
  rw [oncpu, switchIn, switchOut_controlMap, hcon, hstart]
  dsimp only
  rw [if_pos hlater, hevents]

/-- The collector finds the fields of the event. -/
theorem received_eq (event : WarnEventT) (after : Mem) :
    received event after = ⟨event.pid, event.tgid, event.tStart, event.tEnd⟩ := by
  have hoffsets : offsets packed 0 warnEventT = offsets natural 0 Records.tcpWarnEvent := by decide
  have hsame := sameFields_of_offsets_eq hoffsets (recordOf event) after
  have hpid : event.pid = (received event after).PID := BitVec.eq_of_toNat_eq hsame.1
  have htgid : event.tgid = (received event after).TGID := BitVec.eq_of_toNat_eq hsame.2.1
  have hstart : event.tStart = (received event after).StartTime :=
    BitVec.eq_of_toNat_eq hsame.2.2.1
  have hend : event.tEnd = (received event after).EndTime :=
    BitVec.eq_of_toNat_eq hsame.2.2.2.1
  rw [hpid, htgid, hstart, hend]

theorem lookup_startTime (conf : ColOffcpu) (containerName : String) (e : TcpWarnEvent) :
    (warnPoint conf containerName e).Fields.lookup "startTime" = some (.uint32 e.StartTime) := by
  rw [warnPoint, GoMap.lookup_insert_ite, if_neg (by decide), Finmap.lookup_insert]

theorem lookup_endTime (conf : ColOffcpu) (containerName : String) (e : TcpWarnEvent) :
    (warnPoint conf containerName e).Fields.lookup "endTime" = some (.uint32 e.EndTime) := by
  rw [warnPoint, Finmap.lookup_insert]

/-- The low halves of two times are in their order and at their distance exactly when the
high halves are equal. -/
theorem setWidth_sub_iff {a b : BitVec 64} (h : a > b) :
    a.setWidth 32 > b.setWidth 32 ∧
        (a.setWidth 32).toNat - (b.setWidth 32).toNat = a.toNat - b.toNat ↔
      a >>> 32 = b >>> 32 := by
  have hlt : b.toNat < a.toNat := BitVec.lt_def.1 h
  rw [gt_iff_lt, BitVec.lt_def, BitVec.toNat_eq]
  simp only [BitVec.toNat_setWidth, BitVec.toNat_ushiftRight, Nat.shiftRight_eq_div_pow]
  omega

/-- **A warning shows the anomaly exactly when the two times agree above bit 32.** -/
theorem showsAnomaly_iff (m : Maps) (sw : Switch) (con : Control) (tStart : BitVec 64)
    (hcon : m.controlMap.lookup sw.pid = some con)
    (hstart : (switchOut m sw).start.lookup sw.pid = some tStart) (hlater : tStart > sw.inTime)
    (after : Mem) (conf : ColOffcpu) (containerName : String) :
    ∃ event, (oncpu m sw).1.warnEvents = m.warnEvents ++ [event] ∧
      (ShowsAnomaly tStart sw.inTime (received event after)
          (warnPoint conf containerName (received event after)) ↔
        tStart >>> 32 = sw.inTime >>> 32) := by
  refine ⟨_, warnEvents_oncpu hcon hstart hlater, ?_⟩
  rw [received_eq, ← setWidth_sub_iff hlater]
  constructor
  · intro hshows
    exact ⟨hshows.later, hshows.difference⟩
  · intro htimes
    exact ⟨lookup_startTime conf containerName _, lookup_endTime conf containerName _,
      htimes.1, htimes.2⟩

/-- Thread 7 left the CPU at `tStart`, and is to get it again. -/
def waiting (tStart : BitVec 64) : Maps where
  controlMap := (∅ : GoMap (BitVec 32) Control).insert 7 ⟨1, 0, 0, 0⟩
  start := (∅ : GoMap (BitVec 32) (BitVec 64)).insert 7 tStart
  counts := ∅
  warnEvents := []

/-- Thread 7 gets the CPU at `tEnd`, after thread 8. -/
def switchTo7 (tEnd : BitVec 64) : Switch :=
  ⟨8, 0, 0x700000007, ⟨0, 0⟩, 0, tEnd, tEnd⟩

/-- One second after the start of the clock. -/
theorem showsAnomaly_first_second :
    ∃ event, (oncpu (waiting 1000000500) (switchTo7 1000000000)).1.warnEvents = [] ++ [event] ∧
      ShowsAnomaly 1000000500 1000000000 (received event fun _ => 0)
        (warnPoint ⟨"offcpu", 1, 0, 0, 0, ListenConfig.zero, ⟨10, "offcpu", []⟩⟩ ""
          (received event fun _ => 0)) := by
  obtain ⟨event, hsent, hshows⟩ := showsAnomaly_iff (waiting 1000000500) (switchTo7 1000000000)
    ⟨1, 0, 0, 0⟩ 1000000500 rfl rfl (by decide) (fun _ => 0)
    ⟨"offcpu", 1, 0, 0, 0, ListenConfig.zero, ⟨10, "offcpu", []⟩⟩ ""
  exact ⟨event, hsent, hshows.2 (by decide)⟩

/-- A switch-out 16 ns later, behind a multiple of `2 ^ 32`: the warning says that it was
earlier. -/
theorem anomaly_not_shown :
    ∃ event, (oncpu (waiting 0x100000008) (switchTo7 0xfffffff8)).1.warnEvents = [event] ∧
      ¬ ShowsAnomaly 0x100000008 0xfffffff8 (received event fun _ => 0)
          (warnPoint ⟨"offcpu", 1, 0, 0, 0, ListenConfig.zero, ⟨10, "offcpu", []⟩⟩ ""
            (received event fun _ => 0)) := by
  refine ⟨⟨7, 7, 8, 0xfffffff8⟩, by decide, fun hshows => ?_⟩
  have hlater := hshows.later
  rw [received_eq] at hlater
  revert hlater
  decide

end Kmon.Ports.WarnTimes
