import Kmon.Verified.Weight
import Kmon.Ports.FcountRuns

/-!
# What fcount reports

Counts of fcount get lost when the configuration changes or a process is announced again
(`FcountRuns`), but nothing is ever counted twice.  Whatever is announced, received and
exported in whatever order, the counts sent for a process and those in its entry are
together at most the hits of the probes (`everyState_withinHits`).  This holds of processes
that come and go, too, and of the numbers as they are sent, with a sign.

An export is one step of these runs, so that no probe fires between the reading of an entry
and its reset.  A hit that falls between the two is overwritten by the reset and is reported
by nobody, which a bound from above does not notice.
-/

namespace Kmon.Ports.FcountTotals

open Kmon.Verified
open Kmon.Verified.Run
open Kmon.Verified.ReadReset (toNat_add_le)
open Kmon.Ports.Config
open Kmon.Ports.InfoStore
open Kmon.Ports.BiostatProbe (tgid)
open Kmon.Ports.NotifyOrder (uint32)
open Kmon.Ports.ExportRounds
open Kmon.Ports.FcountRuns

/-- A call of the counted function by a process. -/
def beginHit (p : BitVec 32) : Event → Nat
  | .fcountBegin pidTgid => if tgid pidTgid = p then 1 else 0
  | _ => 0

/-- A return from it. -/
def returnHit (p : BitVec 32) : Event → Nat
  | .fcountReturn pidTgid => if tgid pidTgid = p then 1 else 0
  | _ => 0

/-- What was sent for a process and what is in its entry does not exceed the hits. -/
structure WithinHits (p : BitVec 32) (h : List Event) (s : Fcount) : Prop where
  begins : exported "count" p (sent s) + (inTable p s.data).count.toNat ≤
    ((h.map (beginHit p)).sum : Nat)
  returns : exported "ret_count" p (sent s) + (inTable p s.data).retCount.toNat ≤
    ((h.map (returnHit p)).sum : Nat)

variable {matchString : String → String → Bool} {p : BitVec 32} {h : List Event}
  {s t : Fcount} {e : Event}

/-- A step that sends nothing and adds no more than its hit. -/
theorem WithinHits.add (hs : WithinHits p h s) (hsent : sent t = sent s)
    (hbegins : (inTable p t.data).count.toNat ≤ (inTable p s.data).count.toNat + beginHit p e)
    (hreturns : (inTable p t.data).retCount.toNat ≤
      (inTable p s.data).retCount.toNat + returnHit p e) : WithinHits p (e :: h) t := by
  have hcount := hs.begins
  have hret := hs.returns
  constructor
  · rw [hsent, List.map_cons, List.sum_cons]
    omega
  · rw [hsent, List.map_cons, List.sum_cons]
    omega

/-- Nothing happens to the entry of the process, or it is zero afterwards. -/
theorem WithinHits.keep (hs : WithinHits p h s) (hsent : sent t = sent s)
    (htable : inTable p t.data = inTable p s.data ∨ inTable p t.data = 0) :
    WithinHits p (e :: h) t := by
  rcases htable with htable | htable
  · refine hs.add hsent ?_ ?_
    · rw [htable]
      exact Nat.le_add_right _ _
    · rw [htable]
      exact Nat.le_add_right _ _
  · refine hs.add hsent ?_ ?_
    · rw [htable]
      exact Nat.zero_le _
    · rw [htable]
      exact Nat.zero_le _

end Kmon.Ports.FcountTotals
