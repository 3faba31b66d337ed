import Kmon.Ports.BiostatCollector
import Kmon.Ports.BiostatProbe

/-!
# The direction of a request, in totals and histograms

`trace_req_completion` (`release/bcc/biostat.c`) masks the flags of a request for the key
of `counts`, where they become 0 or 1, and stores them as they are in the key of `dist`.
Both keys go through `parseRWFlag` (`src/collector/biostat.go`), which knows 0 and 1.

`sameFlagTag_iff`: the two tags agree exactly when the flags of the request are 0 or 1, an
operation without any modifier.
-/

namespace Kmon.Ports.RequestFlags

open Kmon.Verified
open Kmon.Ports.Config
open Kmon.Ports.Points
open Kmon.Ports.BiostatProbe
open Kmon.Ports.BiostatCollector

/-- The key of `counts` as `exportData` has it, field by field.  `rwflag` is an `int`. -/
def bioKeyOf (info : InfoT) : BioKey := ⟨info.pid, info.rwflag.signExtend 64, info.disk⟩

/-- The key of `dist` as `exportHistData` has it. -/
def bioHistKeyOf (key : DiskKey) : BioHistKey := ⟨key.slot, key.pid, key.flags, key.disk⟩

/-- The request is completed in full: the probe knows its process and its start, and the
process is traced at a verbosity above 1. -/
structure Completed (m : Maps) (req : Ptr) (pid : BitVec 32) (rs : ReqStart) (con : Control) :
    Prop where
  whobyreq : m.whobyreq.lookup req = some pid
  start : m.start.lookup req = some rs
  control : m.controlMap.lookup pid = some con
  verbose : con.verbose > 1

/-- The points made of the two keys have the same flag. -/
def SameFlagTag (info : InfoT) (key : DiskKey) : Prop :=
  ∀ (conf : ColBiostat) (now : Time) (containerName containerName' : String) (val : BioVal)
    (histVal : BioHistVal),
    (ioPoint conf now containerName (bioKeyOf info) val).Tags.lookup "flag" =
      (histPoint conf containerName' (bioHistKeyOf key).group histVal).Tags.lookup "flag"

theorem lookup_flag (containerName : String) (pid : BitVec 32) (flag : BitVec 64)
    (name : BitVec (8 * 32)) :
    (ioTags containerName pid flag name).lookup "flag" = some (parseRWFlag flag) := by
  rw [lookup_ioTags, if_neg (by simp), if_neg (by simp), if_pos rfl]

/-- The flag of a point of `exportData`. -/
theorem parseRWFlag_bioKeyOf (pid : BitVec 32) (c : Completion) :
    parseRWFlag (bioKeyOf (infoOf pid c)).RWFlag =
      if c.cmdFlags &&& reqOpMask = reqOpWrite then "Write" else "Read" := by
  unfold infoOf bioKeyOf
  by_cases hwrite : c.cmdFlags &&& reqOpMask = reqOpWrite
  · simp only [if_pos hwrite]
    rfl
  · simp only [if_neg hwrite]
    rfl

/-- The flag of a point of `exportHistData`. -/
theorem parseRWFlag_setWidth (cmdFlags : BitVec 32) :
    parseRWFlag (cmdFlags.setWidth 64) =
      if cmdFlags = 0 then "Read" else if cmdFlags = 1 then "Write" else "Unknown" := by
  have hsmall : ∀ n < 2, (cmdFlags.setWidth 64 = BitVec.ofNat 64 n ↔
      cmdFlags = BitVec.ofNat 32 n) := by
    intro n hn
    constructor
    · intro h
      have hnat := congrArg BitVec.toNat h
      rw [BitVec.toNat_setWidth, BitVec.toNat_ofNat] at hnat
      apply BitVec.eq_of_toNat_eq
      rw [BitVec.toNat_ofNat]
      have hlt := cmdFlags.isLt
      omega
    · rintro rfl
      apply BitVec.eq_of_toNat_eq
      rw [BitVec.toNat_setWidth, BitVec.toNat_ofNat, BitVec.toNat_ofNat]
      omega
  have hzero : cmdFlags.setWidth 64 = (0 : BitVec 64) ↔ cmdFlags = 0 := hsmall 0 (by decide)
  have hone : cmdFlags.setWidth 64 = (1 : BitVec 64) ↔ cmdFlags = 1 := hsmall 1 (by decide)
  unfold parseRWFlag
  simp only [hzero, hone]

theorem sameFlagTag_iff_flags (bpfLog2l : BitVec 64 → BitVec 32) (pid : BitVec 32)
    (con : Control) (delta : BitVec 64) (c : Completion) :
    SameFlagTag (infoOf pid c) (diskKeyOf bpfLog2l pid con delta c) ↔
      c.cmdFlags = 0 ∨ c.cmdFlags = 1 := by
  have htags : SameFlagTag (infoOf pid c) (diskKeyOf bpfLog2l pid con delta c) ↔
      parseRWFlag (bioKeyOf (infoOf pid c)).RWFlag = parseRWFlag (c.cmdFlags.setWidth 64) := by
    constructor
    · intro hsame
      have hflag := hsame ⟨"", 0, 0, ListenConfig.zero, ⟨0, "", []⟩⟩ 0 "" "" ⟨0, 0⟩ ⟨∅, 0⟩
      rw [ioPoint, histPoint, lookup_flag, lookup_flag, Option.some.injEq] at hflag
      exact hflag
    · intro hflag conf now containerName containerName' val histVal
      rw [ioPoint, histPoint, lookup_flag, lookup_flag, hflag]
      rfl
  rw [htags, parseRWFlag_bioKeyOf, parseRWFlag_setWidth]
  by_cases hzero : c.cmdFlags = 0
  · simp [hzero, reqOpMask, reqOpWrite]
  · by_cases hone : c.cmdFlags = 1
    · simp [hone, reqOpMask, reqOpWrite]
    · rw [if_neg hzero, if_neg hone]
      refine iff_of_false (fun h => ?_) (not_or.2 ⟨hzero, hone⟩)
      split at h <;> exact absurd h (by decide)

/-- **The keys that a completion writes give the same flag exactly when the flags of the
request are 0 or 1.** -/
theorem sameFlagTag_iff (bpfLog2l : BitVec 64 → BitVec 32) (m : Maps) (req : Ptr)
    (c : Completion) (pid : BitVec 32) (rs : ReqStart) (con : Control)
    (hdone : Completed m req pid rs con) :
    let delta := c.now - rs.timestamp
    let m' := traceReqCompletion bpfLog2l m req c
    (m'.counts = addCounts m.counts (infoOf pid c) delta rs.dataLen ∧
      m'.dist = addDist m.dist (diskKeyOf bpfLog2l pid con delta c)) ∧
    (SameFlagTag (infoOf pid c) (diskKeyOf bpfLog2l pid con delta c) ↔
      c.cmdFlags = 0 ∨ c.cmdFlags = 1) := by
  intro delta m'
  have hm' : m' = { m with
      counts := addCounts m.counts (infoOf pid c) delta rs.dataLen
      dist := addDist m.dist (diskKeyOf bpfLog2l pid con delta c)
      start := m.start.erase req
      whobyreq := m.whobyreq.erase req } := by
    show traceReqCompletion bpfLog2l m req c = _
    simp only [traceReqCompletion, hdone.whobyreq, hdone.start, hdone.control, hdone.verbose,
      if_true]
    rfl
  refine ⟨⟨?_, ?_⟩, sameFlagTag_iff_flags bpfLog2l pid con delta c⟩
  · rw [hm']
  · rw [hm']

/-- A write without a modifier. -/
theorem sameFlagTag_plain_write :
    let m : Maps :=
      { controlMap := (∅ : GoMap (BitVec 32) Control).insert 7 ⟨2, 1⟩, counts := ∅, dist := ∅
        start := (∅ : GoMap Ptr ReqStart).insert 1 ⟨512, 0⟩
        whobyreq := (∅ : GoMap Ptr (BitVec 32)).insert 1 7 }
    let c : Completion := ⟨100, 0, 1⟩
    Completed m 1 7 ⟨512, 0⟩ ⟨2, 1⟩ ∧
      SameFlagTag (infoOf 7 c) (diskKeyOf (fun _ => 0) 7 ⟨2, 1⟩ (100 - 0) c) := by
  intro m c
  have hdone : Completed m 1 7 ⟨512, 0⟩ ⟨2, 1⟩ := ⟨rfl, rfl, rfl, by decide⟩
  exact ⟨hdone, (sameFlagTag_iff (fun _ => 0) m 1 c 7 ⟨512, 0⟩ ⟨2, 1⟩ hdone).2.2 (by decide)⟩

/-- A write with `REQ_SYNC`: "Write" in the totals, "Unknown" in the histogram. -/
theorem sync_write_unknown :
    let m : Maps :=
      { controlMap := (∅ : GoMap (BitVec 32) Control).insert 7 ⟨2, 1⟩, counts := ∅, dist := ∅
        start := (∅ : GoMap Ptr ReqStart).insert 1 ⟨512, 0⟩
        whobyreq := (∅ : GoMap Ptr (BitVec 32)).insert 1 7 }
    let c : Completion := ⟨100, 0, 0x801⟩
    Completed m 1 7 ⟨512, 0⟩ ⟨2, 1⟩ ∧
      ¬ SameFlagTag (infoOf 7 c) (diskKeyOf (fun _ => 0) 7 ⟨2, 1⟩ (100 - 0) c) := by
  intro m c
  refine ⟨⟨rfl, rfl, rfl, by decide⟩, fun hsame => ?_⟩
  exact absurd ((sameFlagTag_iff_flags (fun _ => 0) 7 ⟨2, 1⟩ (100 - 0) c).1 hsame) (by decide)

end Kmon.Ports.RequestFlags
