import Kmon.Ports.Config
import Kmon.Ports.Records

/-!
# Control records, from the collector to the probe

A collector with a control map writes its Go control struct under a PID when the
PID arrives on `AddCh`, and its `onConfigChange` rewrites every entry: it casts
the bytes of the leaf to the Go struct, assigns the fields and writes the struct
back.  `SetP` copies as many bytes as the C value type is long.  The probe reads
its packed `struct control` from these bytes.

`bioControlMap` puts `BinScale` at offset 8 and the probe reads `bin_scale` at 4:
it finds the padding and the lower half of the number.  `controlRead_iff` says
that the record survives for every other collector, and for biostat only with
`BinScale` 0, however often it is rewritten.
-/

namespace Kmon.Ports.ControlRecords

open Kmon.Verified.Layout
open Kmon.Ports.Config
open Kmon.Ports.Records

/-- The collectors with a control map. -/
inductive Collector where
  | biostat
  | offcpu
  | tcpreq
  | tcpdrop
  deriving DecidableEq, Repr

namespace Collector

/-- The configuration section of a collector. -/
def Conf : Collector → Type
  | biostat => ColBiostat
  | offcpu => ColOffcpu
  | tcpreq => ColTcpreq
  | tcpdrop => ColTcpdrop

/-- The `struct control` of its probe. -/
def control : Collector → Decl
  | biostat => biostatControl
  | offcpu => offcpuControl
  | tcpreq => tcpreqControl
  | tcpdrop => tcpdropControl

/-- Its own control struct. -/
def controlMap : Collector → Decl
  | biostat => bioControlMap
  | offcpu => offcpuControlMap
  | tcpreq => tcpControlMap
  | tcpdrop => tcpdropControlMap

/-- What it configures, as the fields of that struct. -/
def configured : (c : Collector) → c.Conf → Rec c.controlMap
  | biostat, conf => (conf.Verbose, conf.BinScale, ())
  | offcpu, conf => (conf.Verbose, conf.State, conf.TimeStart, conf.TimeEnd, ())
  | tcpreq, conf => (conf.Verbose, ())
  | tcpdrop, conf => (conf.Verbose, ())

/-- The struct it writes for a PID from `AddCh`.  tcpdrop uses the one of
biostat. -/
def addStruct : Collector → Decl
  | biostat => bioControlMap
  | offcpu => offcpuControlMap
  | tcpreq => tcpControlMap
  | tcpdrop => bioControlMap

/-- Its fields there. -/
def addVal : (c : Collector) → c.Conf → Rec c.addStruct
  | biostat, conf => (conf.Verbose, conf.BinScale, ())
  | offcpu, conf => (conf.Verbose, conf.State, conf.TimeStart, conf.TimeEnd, ())
  | tcpreq, conf => (conf.Verbose, ())
  | tcpdrop, conf => (conf.Verbose, 0#64, ())

end Collector

variable (c : Collector)

/-- `sizeof(struct control)`. -/
def valueSize : Nat := endOf packed 0 c.control

/-- Fresh Go memory. -/
def zero : Mem := fun _ => 0

/-- `SetP`: the value of the entry is as many bytes as the C type is long. -/
def setP (src : Mem) : Mem := fun i => if i < valueSize c then src i else 0

/-- The bytes of `iter.Leaf()`, and what lies behind the slice. -/
def leafBytes (entry beyond : Mem) : Mem := fun i => if i < valueSize c then entry i else beyond i

/-- The entry after an `AddCh`. -/
def added (conf : c.Conf) : Mem := setP c (place natural 0 c.addStruct (c.addVal conf) zero)

/-- The entry after `onConfigChange`. -/
def changed (conf : c.Conf) (entry beyond : Mem) : Mem :=
  setP c (place natural 0 c.controlMap (c.configured conf) (leafBytes c entry beyond))

/-- The entry of a PID that was added under one configuration and rewritten under
others, newest first. -/
def entry (conf : c.Conf) : List (c.Conf × Mem) → Mem
  | [] => added c conf
  | (conf', beyond) :: rewrites => changed c conf' (entry conf rewrites) beyond

/-- The configuration the entry was last written under. -/
def lastConf (conf : c.Conf) : List (c.Conf × Mem) → c.Conf
  | [] => conf
  | (conf', _) :: _ => conf'

/-- What the probe reads. -/
def lookup (entry : Mem) : Rec c.control := read packed 0 c.control entry

/-- The configurations whose record survives. -/
def ScaleKept : (c : Collector) → c.Conf → Prop
  | .biostat, conf => conf.BinScale = 0
  | _, _ => True

/-! ## The bytes of an entry -/

variable {c}

theorem setP_of_lt {src : Mem} {i : Nat} (hi : i < valueSize c) : setP c src i = src i :=
  if_pos hi

/-- tcpdrop's record for a new PID is biostat's, cut to its own length. -/
theorem added_apply (conf : c.Conf) {i : Nat} (hi : i < valueSize c) :
    added c conf i = place natural 0 c.controlMap (c.configured conf) zero i := by
  rw [added, setP_of_lt hi]
  cases c with
  | biostat => rfl
  | offcpu => rfl
  | tcpreq => rfl
  | tcpdrop =>
      have hi' : i < 4 := hi
      have hadd : place natural 0 bioControlMap (conf.Verbose, 0#64, ()) zero (0 + i) =
          byteOf (n := 4) conf.Verbose i := place_of_field _ _ hi'
      have hown : place natural 0 tcpdropControlMap (conf.Verbose, ()) zero (0 + i) =
          byteOf (n := 4) conf.Verbose i := place_of_field _ _ hi'
      rw [Nat.zero_add] at hadd hown
      exact hadd.trans hown.symm

/-- Rewriting leaves the bytes of the last configuration, and zero padding. -/
theorem entry_apply (conf : c.Conf) (rewrites : List (c.Conf × Mem)) {i : Nat}
    (hi : i < valueSize c) :
    entry c conf rewrites i =
      place natural 0 c.controlMap (c.configured (lastConf c conf rewrites)) zero i := by
  induction rewrites with
  | nil => exact added_apply conf hi
  | cons rewrite rewrites ih =>
      have hleaf : leafBytes c (entry c conf rewrites) rewrite.2 i =
          place natural 0 c.controlMap (c.configured (lastConf c conf rewrites)) zero i :=
        (if_pos hi).trans ih
      rw [entry, changed, setP_of_lt hi, place_congr _ hleaf, place_place]
      rfl

/-- So the probe reads what it would read from the Go struct itself. -/
theorem lookup_entry (conf : c.Conf) (rewrites : List (c.Conf × Mem)) :
    lookup c (entry c conf rewrites) =
      read packed 0 c.control
        (place natural 0 c.controlMap (c.configured (lastConf c conf rewrites)) zero) :=
  read_congr packed 0 c.control fun _ _ hi => entry_apply conf rewrites hi

/-! ## The scale of biostat -/

/-- The probe's `bin_scale` is the padding and the lower half of `BinScale`. -/
theorem binScale_read_iff (verbose : BitVec (8 * 4)) (scale : BitVec (8 * 8)) :
    SameFields bioControlMap biostatControl (verbose, scale, ())
        (read packed 0 biostatControl
          (place natural 0 bioControlMap (verbose, scale, ()) zero)) ↔
      scale = 0 := by
  let m : Mem := place natural 4 [("BinScale", .uint 8)] (scale, ()) zero
  have hpad : ∀ k < 4, m (4 + k) = 0 := fun k hk => if_pos (show 4 + k < 8 by omega)
  have hscale : ∀ k < 8, m (8 + k) = byteOf scale k := fun k hk => place_of_field _ _ hk
  have hread : SameFields bioControlMap biostatControl (verbose, scale, ())
      (read packed 0 biostatControl
        (place natural 0 bioControlMap (verbose, scale, ()) zero)) ↔
      ∀ k < 8, m (4 + k) = byteOf scale k :=
    (sameFields_drop_iff 1 (by decide) _ zero).trans
      ((and_iff_left trivial).trans (toNat_readWord_eq_iff rfl))
  have hshift : (∀ k < 8, m (4 + k) = byteOf scale k) ↔ ∀ k < 12, m (4 + k) = m (4 + k % 4) := by
    refine Iff.trans ?_ (shifted_eq_iff (d := 4) _ 4 8 (by decide))
    exact forall_congr' fun k => forall_congr' fun hk => by rw [← hscale k hk, eq_comm]
  rw [hread, hshift]
  have hzero : ∀ k, byteOf (0 : BitVec (8 * 8)) k = 0 := fun _ => BitVec.extractLsb'_zero
  constructor
  · intro hperiod
    refine eq_of_byteOf_eq fun k hk => ?_
    have hbyte := hperiod (k + 4) (by omega)
    rw [hpad _ (Nat.mod_lt _ (by decide)), show 4 + (k + 4) = 8 + k by omega, hscale k hk] at hbyte
    rw [hbyte, hzero]
  · rintro rfl k hk
    rw [hpad _ (Nat.mod_lt _ (by decide))]
    by_cases hlow : k < 4
    · exact hpad k hlow
    · have hbyte := hscale (k - 4) (by omega)
      rwa [show 8 + (k - 4) = 4 + k by omega, hzero] at hbyte

/-! ## Every collector -/

/-- **The probe reads the configuration the collector last wrote, through any
number of rewrites, exactly when the collector is not biostat or its `BinScale`
is 0.** -/
theorem controlRead_iff (c : Collector) (conf : c.Conf) (rewrites : List (c.Conf × Mem)) :
    SameFields c.controlMap c.control (c.configured (lastConf c conf rewrites))
        (lookup c (entry c conf rewrites)) ↔
      ScaleKept c (lastConf c conf rewrites) := by
  rw [lookup_entry]
  cases c with
  | biostat => exact binScale_read_iff _ _
  | offcpu => exact iff_of_true (sameFields_of_offsets_eq (by decide) _ zero) trivial
  | tcpreq => exact iff_of_true (sameFields_of_offsets_eq (by decide) _ zero) trivial
  | tcpdrop => exact iff_of_true (sameFields_of_offsets_eq (by decide) _ zero) trivial

/-- With a scale of 1000 the probe divides by 1000 times 2 to the 32. -/
theorem binScale_not_read :
    ¬ SameFields bioControlMap biostatControl
        (Collector.configured .biostat ⟨"biostat", 2#32, 1000#64, ⟨[], []⟩, ⟨1, "biostat", []⟩⟩)
        (lookup .biostat
          (entry .biostat ⟨"biostat", 2#32, 1000#64, ⟨[], []⟩, ⟨1, "biostat", []⟩⟩ [])) := by
  rintro ⟨-, hscale, -⟩
  exact absurd hscale (by decide)

end Kmon.Ports.ControlRecords
