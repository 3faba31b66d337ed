import Kmon.Verified.BucketTable
import Kmon.Ports.ControlRecords
import Kmon.Ports.ExportRounds

/-!
# Loops that rewrite the table they walk over

Five loops call `SetP` on the key the iterator stands on: `fcount.exportData`,
which writes a zero value, and `onConfigChange` of tcpreq, biostat, tcpdrop and
offcpu, which assign the fields of the configuration.  BCC's iterator asks the
kernel for the first key and then for the key behind the current one; the kernel
table is a `BucketTable`.  Each loop holds the collector's mutex.
-/

namespace Kmon.Ports.RewriteLoops

open Kmon.Verified
open Kmon.Verified.Layout
open Kmon.Ports.ControlRecords
open Kmon.Ports.ExportRounds

/-- The loops. -/
inductive Loop where
  | exportData
  | onConfigChange (c : Collector)
  deriving DecidableEq, Repr

namespace Loop

/-- The values of the table a loop walks over: fcount's counters, or the control
struct of the collector. -/
def Val : Loop → Type
  | exportData => FcountVal
  | onConfigChange c => Rec c.controlMap

/-- What a loop reads besides the table: `onConfigChange` has its argument. -/
def Conf : Loop → Type
  | exportData => Unit
  | onConfigChange c => c.Conf

/-- The value a loop writes back.  Every field of it is assigned in the loop. -/
def rewrite : (l : Loop) → l.Conf → BitVec 32 → l.Val → l.Val
  | exportData, _ => fun _ _ => ⟨0, 0⟩
  | onConfigChange c, conf => fun _ _ => c.configured conf

end Loop

/-- **A loop ends after visiting every key of its table once exactly when no two
keys of the table share a bucket.** -/
theorem loop_visitsAll_iff (l : Loop) (conf : l.Conf) (table : BucketTable (BitVec 32) l.Val) :
    BucketTable.VisitsAll (l.rewrite conf) table ↔ table.NoCollision :=
  BucketTable.visitsAll_iff (l.rewrite conf) table

/-- Two PIDs in a table of one bucket. -/
def crowdedTable : BucketTable (BitVec 32) FcountVal where
  size := 1
  hash _ := 0
  hash_lt _ := Nat.one_pos
  bucket i := if i = 0 then [(1, ⟨5, 0⟩), (2, ⟨3, 0⟩)] else []
  hash_of_mem i entry hmem := by
    by_cases hi : i = 0
    · exact hi.symm
    · rw [if_neg hi] at hmem
      cases hmem
  nodup i := by
    by_cases hi : i = 0
    · rw [if_pos hi]
      decide
    · rw [if_neg hi]
      exact List.nodup_nil

/-- The export loop of fcount does not end on two PIDs in one bucket. -/
theorem exportData_not_visitsAll :
    ¬ BucketTable.VisitsAll (Loop.rewrite .exportData ()) crowdedTable := by
  rintro ⟨fuel, t', visited, hloop, -, -⟩
  have hnone := BucketTable.rewriteLoop_of_crowded (Loop.rewrite .exportData ()) fuel
    crowdedTable none [] ⟨0, Nat.le_refl 2, fun key hkey => by cases hkey⟩
  rw [hnone] at hloop
  cases hloop

end Kmon.Ports.RewriteLoops
