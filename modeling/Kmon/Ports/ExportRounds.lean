import Mathlib.Data.BitVec
import Kmon.Verified.ReadReset
import Kmon.Ports.BiostatProbe
import Kmon.Ports.MapEntries

/-!
# Counters across export rounds

The export loops of fcount, biostat and offcpu walk over an aggregation map.  For
each key they read the leaf, append a point (`exportHistData` writes the value
into a map of maps under the key), and reset the entry: fcount with `SetP` of a
zero value, the others with `DeleteP`.  The points are sent after the loop.  The
reading and the reset are two system calls, and the probes run in between.

The tables are instances of the counters of `ReadReset`: an advance of the
iterator with the read of the leaf is `read`, `SetP` or `DeleteP` is
`resetEntry`, and the send is `endRound`.  Keys are those of the probes; what the
two declarations of a key do to it is the business of `MapEntries`.  What the
probes add between the two calls is in no export, and `everyState_accounted` is
the account that is left.
-/

namespace Kmon.Ports.ExportRounds

open Kmon.Verified
open Kmon.Verified.Run
open Kmon.Verified.ReadReset
open Kmon.Ports.BiostatProbe
open Kmon.Ports.MapEntries

/-- `struct key_t` of offcpu.c. -/
structure KeyT where
  pid : BitVec 32
  tgid : BitVec 32
  userStackId : BitVec 32
  kernelStackId : BitVec 32
  name : BitVec 256
  deriving DecidableEq, Repr

/-- `struct val` of fcount.c. -/
@[ext] structure FcountVal where
  count : BitVec 64
  retCount : BitVec 64
  deriving DecidableEq, Repr

instance : Zero FcountVal := ⟨⟨0, 0⟩⟩

instance : Add FcountVal := ⟨fun v w => ⟨v.count + w.count, v.retCount + w.retCount⟩⟩

/-- Counters of 64 bits add field by field and wrap around. -/
instance : AddCommMonoid FcountVal where
  add_assoc u v w := FcountVal.ext (add_assoc _ _ _) (add_assoc _ _ _)
  zero_add v := FcountVal.ext (zero_add _) (zero_add _)
  add_zero v := FcountVal.ext (add_zero _) (add_zero _)
  add_comm v w := FcountVal.ext (add_comm _ _) (add_comm _ _)
  nsmul := nsmulRec

instance : Zero ValT := ⟨⟨0, 0⟩⟩

instance : Add ValT := ⟨fun v w => ⟨v.bytes + w.bytes, v.ns + w.ns⟩⟩

instance : AddCommMonoid ValT where
  add_assoc u v w := ValT.ext (add_assoc _ _ _) (add_assoc _ _ _)
  zero_add v := ValT.ext (zero_add _) (zero_add _)
  add_zero v := ValT.ext (add_zero _) (add_zero _)
  add_comm v w := ValT.ext (add_comm _ _) (add_comm _ _)
  nsmul := nsmulRec

/-- The keys of a map. -/
def Key : AggMap → Type
  | .counts => InfoT
  | .dist => DiskKey
  | .offcpuCounts => KeyT
  | .data => BitVec 32

/-- The values of a map. -/
def Val : AggMap → Type
  | .counts => ValT
  | .dist => BitVec 64
  | .offcpuCounts => BitVec 64
  | .data => FcountVal

instance : (m : AggMap) → DecidableEq (Key m)
  | .counts => inferInstanceAs (DecidableEq InfoT)
  | .dist => inferInstanceAs (DecidableEq DiskKey)
  | .offcpuCounts => inferInstanceAs (DecidableEq KeyT)
  | .data => inferInstanceAs (DecidableEq (BitVec 32))

instance : (m : AggMap) → DecidableEq (Val m)
  | .counts => inferInstanceAs (DecidableEq ValT)
  | .dist => inferInstanceAs (DecidableEq (BitVec 64))
  | .offcpuCounts => inferInstanceAs (DecidableEq (BitVec 64))
  | .data => inferInstanceAs (DecidableEq FcountVal)

instance : (m : AggMap) → AddCommMonoid (Val m)
  | .counts => inferInstanceAs (AddCommMonoid ValT)
  | .dist => inferInstanceAs (AddCommMonoid (BitVec 64))
  | .offcpuCounts => inferInstanceAs (AddCommMonoid (BitVec 64))
  | .data => inferInstanceAs (AddCommMonoid FcountVal)

/-- fcount's entries are made by `SetP` for a PID from `AddCh` and reset by `SetP`;
the other tables are filled by their probes and reset by `DeleteP`.  Only
`exportHistData` keeps the data of a round by key. -/
def discipline : AggMap → Discipline
  | .counts => ⟨.delete, false⟩
  | .dist => ⟨.delete, true⟩
  | .offcpuCounts => ⟨.delete, false⟩
  | .data => ⟨.zero, false⟩

/-! ## The probes as additions -/

/-- `fcount_begin`. -/
def fcountBegin (data : GoMap (BitVec 32) FcountVal) (pidTgid : BitVec 64) :
    GoMap (BitVec 32) FcountVal :=
  match data.lookup (tgid pidTgid) with
  | none => data
  | some val => data.insert (tgid pidTgid) { val with count := val.count + 1 }

/-- `fcount_return`. -/
def fcountReturn (data : GoMap (BitVec 32) FcountVal) (pidTgid : BitVec 64) :
    GoMap (BitVec 32) FcountVal :=
  match data.lookup (tgid pidTgid) with
  | none => data
  | some val => data.insert (tgid pidTgid) { val with retCount := val.retCount + 1 }

/-- `counts.increment(key, delta)` at the end of `oncpu`. -/
def increment (counts : GoMap KeyT (BitVec 64)) (key : KeyT) (delta : BitVec 64) :
    GoMap KeyT (BitVec 64) :=
  counts.insert key ((counts.lookup key).getD 0 + delta)

theorem fcountBegin_eq_addTo (data : GoMap (BitVec 32) FcountVal) (pidTgid : BitVec 64) :
    fcountBegin data pidTgid = addTo (discipline .data) data (tgid pidTgid) ⟨1, 0⟩ := by
  unfold fcountBegin addTo
  cases data.lookup (tgid pidTgid) with
  | none => rfl
  | some val =>
      have hval : ({ val with count := val.count + 1 } : FcountVal) = val + ⟨1, 0⟩ :=
        FcountVal.ext rfl (add_zero val.retCount).symm
      exact congrArg (data.insert (tgid pidTgid)) hval

theorem fcountReturn_eq_addTo (data : GoMap (BitVec 32) FcountVal) (pidTgid : BitVec 64) :
    fcountReturn data pidTgid = addTo (discipline .data) data (tgid pidTgid) ⟨0, 1⟩ := by
  unfold fcountReturn addTo
  cases data.lookup (tgid pidTgid) with
  | none => rfl
  | some val =>
      have hval : ({ val with retCount := val.retCount + 1 } : FcountVal) = val + ⟨0, 1⟩ :=
        FcountVal.ext (add_zero val.count).symm rfl
      exact congrArg (data.insert (tgid pidTgid)) hval

theorem addCounts_eq_addTo (counts : GoMap InfoT ValT) (info : InfoT)
    (delta dataLen : BitVec 64) :
    addCounts counts info delta dataLen =
      addTo (discipline .counts) counts info ⟨dataLen, delta⟩ := by
  unfold addCounts addTo
  cases counts.lookup info with
  | none => rfl
  | some valp => rfl

theorem addDist_eq_addTo (dist : GoMap DiskKey (BitVec 64)) (key : DiskKey) :
    addDist dist key = addTo (discipline .dist) dist key 1 := by
  unfold addDist addTo
  cases dist.lookup key with
  | none => rfl
  | some counter => rfl

theorem increment_eq_addTo (counts : GoMap KeyT (BitVec 64)) (key : KeyT) (delta : BitVec 64) :
    increment counts key delta = addTo (discipline .offcpuCounts) counts key delta := by
  unfold increment addTo
  cases counts.lookup key with
  | none => exact congrArg (counts.insert key) (zero_add delta)
  | some val => rfl

/-! ## Rounds and probes in any order -/

variable (m : AggMap)

/-- Between two rounds, what was exported and what is in the table is all that the
probes added. -/
def Conserved (h : List (Event (Key m) (Val m))) (s : Exporting (Key m) (Val m)) : Prop :=
  s.round = none → ∀ key,
    tally s.sent key + current s key = added (discipline m) h key

/-- The same account with what was added between a reading and its reset, and with
what a later reading in the same round of `exportHistData` took the place of. -/
def Accounted (h : List (Event (Key m) (Val m))) (s : Exporting (Key m) (Val m)) : Prop :=
  s.round = none → ∀ key,
    tally s.sent key + current s key + lost h key + replaced (discipline m) h key =
      added (discipline m) h key

/-- **Every addition is exported, still in the table, or was made while its entry
was being reset.**  In every interleaving of probes and export rounds, between
two rounds and for every key. -/
theorem everyState_accounted (h : List (Event (Key m) (Val m))) :
    EveryState (ReadReset.step (discipline m)) ReadReset.empty (Accounted m) h :=
  everyState_of_run (fun h s hrun hidle key => sum_exported (discipline m) h s hrun hidle key) h

/-- Only in rounds of `exportHistData` is a reading ever replaced. -/
theorem replaced_of_ne_dist {m : AggMap} (hm : m ≠ .dist) (h : List (Event (Key m) (Val m)))
    (key : Key m) : replaced (discipline m) h key = 0 := by
  refine replaced_of_not_keyed ?_ h key
  cases m with
  | counts => rfl
  | dist => exact absurd rfl hm
  | offcpuCounts => rfl
  | data => rfl

/-- A call of the counted function between the reading of its PID's counter and
the reset is in no export. -/
theorem call_between_read_and_reset_lost :
    ¬ EveryState (ReadReset.step (discipline .data)) ReadReset.empty (Conserved .data)
        [.endRound, .resetEntry, .add (7 : BitVec 32) (⟨1, 0⟩ : FcountVal),
          .read (7 : BitVec 32) (⟨0, 0⟩ : FcountVal), .beginRound, .track (7 : BitVec 32)] := by
  intro h
  exact absurd (h.last _ rfl rfl (7 : BitVec 32)) (by decide)

end Kmon.Ports.ExportRounds
