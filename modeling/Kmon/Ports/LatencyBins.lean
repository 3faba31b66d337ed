import Kmon.Ports.BiostatProbe

/-!
# The latency bins of biostat

At `verbose > 1` `trace_req_completion` (`release/bcc/biostat.c`) counts a request in
`dist`, in a slot that `bpf_log2l` makes of the latency divided by `bin_scale`.  It copies
`bin_scale`, replaces a zero in the copy by 1, and then divides by the field of the record.
A configuration without `bin_scale` leaves the field at zero, and eBPF lets the quotient be
zero: every request is then counted in one slot.

`binDefined_iff` says that the bin is the right one exactly when the field is not zero.
-/

namespace Kmon.Ports.LatencyBins

open Kmon.Verified
open Kmon.Ports.BiostatProbe

/-- The local `bin_scale`, which the probe computes and does not use. -/
def scale (con : Control) : BitVec 64 := if con.binScale ≤ 0 then 1 else con.binScale

/-- A division that the language defines; `none` is a division by zero. -/
def div? (a b : BitVec 64) : Option (BitVec 64) := if b = 0 then none else some (a / b)

/-- The argument that `slot` gives to `bpf_log2l`. -/
def quotient (con : Control) (delta : BitVec 64) : Option (BitVec 64) := div? delta con.binScale

/-- One entry got one more, the one under `key`. -/
def AddsOne (dist dist' : GoMap DiskKey (BitVec 64)) (key : DiskKey) : Prop :=
  ∀ key', dist'.lookup key' =
    if key' = key then some ((dist.lookup key).getD 0 + 1) else dist.lookup key'

/-- A completion divides by no zero and adds one to the entry of its latency. -/
structure BinDefined (bpfLog2l : BitVec 64 → BitVec 32) (m : Maps) (req : Ptr) (c : Completion)
    (pid : BitVec 32) (rs : ReqStart) (con : Control) : Prop where
  divides : quotient con (c.now - rs.timestamp) ≠ none
  counts : AddsOne m.dist (traceReqCompletion bpfLog2l m req c).dist
    ⟨bpfLog2l ((c.now - rs.timestamp) / scale con), pid, c.cmdFlags.setWidth 64, c.diskName⟩

/-! ## One completion -/

theorem addsOne_addDist (dist : GoMap DiskKey (BitVec 64)) (key : DiskKey) :
    AddsOne dist (addDist dist key) key := by
  intro key'
  unfold addDist
  cases hkey : dist.lookup key with
  | none =>
      rw [GoMap.lookup_insert_ite]
      rfl
  | some counter =>
      rw [GoMap.lookup_insert_ite]
      rfl

theorem quotient_eq_none_iff (con : Control) (delta : BitVec 64) :
    quotient con delta = none ↔ con.binScale = 0 := by
  unfold quotient div?
  split
  · rename_i hzero
    exact iff_of_true rfl hzero
  · rename_i hzero
    exact iff_of_false (Option.some_ne_none _) hzero

/-- The slot of a key is made of this quotient, with zero for the one that is missing. -/
theorem slot_diskKeyOf (bpfLog2l : BitVec 64 → BitVec 32) (pid : BitVec 32) (con : Control)
    (delta : BitVec 64) (c : Completion) :
    (diskKeyOf bpfLog2l pid con delta c).slot = bpfLog2l ((quotient con delta).getD 0) := by
  unfold quotient div? diskKeyOf
  split
  · rename_i hzero
    have hudiv : delta / con.binScale = 0 := by
      rw [hzero]
      exact BitVec.udiv_zero
    rw [hudiv]
    rfl
  · rfl

/-- Of a field that is not zero the copy is left as it is. -/
theorem scale_of_ne_zero {con : Control} (h : con.binScale ≠ 0) : scale con = con.binScale :=
  if_neg fun hle => h (BitVec.le_zero_iff.1 hle)

variable {bpfLog2l : BitVec 64 → BitVec 32} {m : Maps} {req : Ptr} {c : Completion}
  {pid : BitVec 32} {rs : ReqStart} {con : Control}

/-- The histogram after a completion that the probe knows everything about. -/
theorem dist_of_known (hwho : m.whobyreq.lookup req = some pid)
    (hstart : m.start.lookup req = some rs) (hcon : m.controlMap.lookup pid = some con)
    (hverbose : con.verbose > 1) :
    (traceReqCompletion bpfLog2l m req c).dist =
      addDist m.dist (diskKeyOf bpfLog2l pid con (c.now - rs.timestamp) c) := by
  simp only [traceReqCompletion, hwho, hstart, hcon, hverbose, if_true]

/-- **A completion divides by no zero and adds one to the bin of its latency exactly when
the scale of the control record is not zero.** -/
theorem binDefined_iff (bpfLog2l : BitVec 64 → BitVec 32) (m : Maps) (req : Ptr)
    (c : Completion) (pid : BitVec 32) (rs : ReqStart) (con : Control)
    (hwho : m.whobyreq.lookup req = some pid) (hstart : m.start.lookup req = some rs)
    (hcon : m.controlMap.lookup pid = some con) (hverbose : con.verbose > 1) :
    BinDefined bpfLog2l m req c pid rs con ↔ con.binScale ≠ 0 := by
  constructor
  · intro hdefined hzero
    exact hdefined.divides ((quotient_eq_none_iff _ _).2 hzero)
  · intro hscale
    refine ⟨fun hnone => hscale ((quotient_eq_none_iff _ _).1 hnone), ?_⟩
    rw [dist_of_known hwho hstart hcon hverbose, scale_of_ne_zero hscale]
    exact addsOne_addDist _ _

/-- BCC's `bpf_log2l`: the number of binary digits, and 1 for zero. -/
def bccLog2l (v : BitVec 64) : BitVec 32 := BitVec.ofNat 32 (v.toNat.log2 + 1)

/-- Process 7 has one request under way, which took 5000 ns. -/
def oneRequest (binScale : BitVec 64) : Maps where
  controlMap := (∅ : GoMap (BitVec 32) Control).insert 7 ⟨2, binScale⟩
  counts := ∅
  dist := ∅
  start := (∅ : GoMap Ptr ReqStart).insert 1 ⟨512, 1000⟩
  whobyreq := (∅ : GoMap Ptr (BitVec 32)).insert 1 7

theorem binDefined_microseconds :
    BinDefined bccLog2l (oneRequest 1000) 1 ⟨6000, 0x616473, 0⟩ 7 ⟨512, 1000⟩ ⟨2, 1000⟩ :=
  (binDefined_iff bccLog2l (oneRequest 1000) 1 ⟨6000, 0x616473, 0⟩ 7 ⟨512, 1000⟩ ⟨2, 1000⟩
    rfl rfl rfl (by decide)).2 (by decide)

/-- Without a scale the request is counted in the slot of latency zero. -/
theorem no_scale_divides_by_zero :
    quotient ⟨2, 0⟩ (6000 - 1000) = none ∧
      ¬ BinDefined bccLog2l (oneRequest 0) 1 ⟨6000, 0x616473, 0⟩ 7 ⟨512, 1000⟩ ⟨2, 0⟩ ∧
      (traceReqCompletion bccLog2l (oneRequest 0) 1 ⟨6000, 0x616473, 0⟩).dist.lookup
        ⟨bccLog2l 0, 7, 0, 0x616473⟩ = some 1 :=
  ⟨rfl, fun hdefined => hdefined.divides rfl, by decide⟩

end Kmon.Ports.LatencyBins
