import Kmon.Verified.KeyedStream
import Kmon.Ports.TcpreqCollector

/-!
# The durations that tcpreq exports

`bufferEvent` takes the event it received last for a 4-tuple to be the one the
kernel emitted last.  The perf buffer keeps the order of the events of one CPU
only, so the collector may receive any merge of what the CPUs submitted.

`exported_fits_iff`: whatever the merge, every point names the kernel's previous
event and the time since, exactly when each connection is served on one CPU and no
two successive events of a connection are `2 ^ 63` ns or more apart.
-/

namespace Kmon.Ports.StateDurations

open Kmon.Verified
open Kmon.Verified.KeyedStream
open Kmon.Ports.Config
open Kmon.Ports.Points
open Kmon.Ports.TcpreqCollector

/-- An event and the CPU on which the kernel submitted it. -/
structure Submitted where
  cpu : Nat
  event : TcpEvent
  deriving DecidableEq, Repr

def Submitted.conn (a : Submitted) : TcpConn := a.event.conn

/-- What the kernel emits, in order.  Its clock goes forward. -/
structure Emission where
  events : List Submitted
  increasing : events.Pairwise fun a b => a.event.CurTs < b.event.CurTs

/-- An event that the collector receives, with the container and the time of day it
finds then. -/
structure Receipt where
  sub : Submitted
  containerName : String
  now : Time

/-- The collector when it starts to read the perf buffer. -/
def start (conf : ColTcpreq) : Tcpreq := ⟨conf, ∅, []⟩

def receive (collector : Tcpreq) (r : Receipt) : Tcpreq :=
  bufferEvent r.containerName r.now collector r.sub.event

/-- The events received, each with the point that is exported for it. -/
def exported (collector : Tcpreq) : List Receipt → List (Submitted × ExportData)
  | [] => []
  | r :: rs =>
      (r.sub, point r.containerName r.now collector r.sub.event) ::
        exported (receive collector r) rs

/-- The point names the event that the kernel emitted right before `a` for the same
4-tuple, and the time since, which is not negative. -/
structure Fits (emitted : List Submitted) (a : Submitted) (data : ExportData) : Prop where
  prevType : data.Tags.lookup "prevType" =
    (predecessor Submitted.conn emitted a).map fun p => tcpEventTypeToString p.event.type
  duration : data.Fields.lookup "duration(ns)" =
    (predecessor Submitted.conn emitted a).map
      fun p => Value.int64 (a.event.CurTs - p.event.CurTs)
  nonneg : ∀ d, data.Fields.lookup "duration(ns)" = some (.int64 d) → 0 ≤ d.toInt

/-- All events of a connection are submitted on one CPU. -/
def OneCpu (E : Emission) : Prop :=
  ∀ a ∈ E.events, ∀ b ∈ E.events, a.conn = b.conn → a.cpu = b.cpu

/-- Less than `2 ^ 63` ns lie between successive events of a connection. -/
def ShortGaps (E : Emission) : Prop :=
  ∀ a ∈ E.events, ∀ p, predecessor Submitted.conn E.events a = some p →
    a.event.CurTs.toNat < p.event.CurTs.toNat + 2 ^ 63

/-! ## What the collector knows when an event arrives -/

variable {conf : ColTcpreq} {collector : Tcpreq}

theorem exported_append_cons (pre : List Receipt) (r : Receipt) (post : List Receipt) :
    exported collector (pre ++ r :: post) = exported collector pre ++
      (r.sub, point r.containerName r.now (pre.foldl receive collector) r.sub.event) ::
        exported (receive (pre.foldl receive collector) r) post := by
  induction pre generalizing collector with
  | nil => rfl
  | cons r' pre ih =>
      rw [List.cons_append, exported, ih, exported, List.foldl_cons, List.cons_append]

theorem mem_exported_append_cons (pre : List Receipt) (r : Receipt) (post : List Receipt) :
    (r.sub, point r.containerName r.now (pre.foldl receive collector) r.sub.event) ∈
      exported collector (pre ++ r :: post) := by
  rw [exported_append_cons]
  exact List.mem_append_right _ List.mem_cons_self

/-- The points in `tcpEventBuffer` are those of `exported`. -/
theorem tcpEventBuffer_receive (rs : List Receipt) :
    (rs.foldl receive collector).tcpEventBuffer =
      collector.tcpEventBuffer ++ (exported collector rs).map Prod.snd := by
  induction rs generalizing collector with
  | nil => simp [exported]
  | cons r rs ih => simp [exported, ih, receive, bufferEvent]

/-- Every point is made after the receipts before it. -/
theorem mem_exported {rs : List Receipt} {x : Submitted × ExportData}
    (hx : x ∈ exported collector rs) :
    ∃ pre r post, rs = pre ++ r :: post ∧
      x = (r.sub, point r.containerName r.now (pre.foldl receive collector) r.sub.event) := by
  induction rs generalizing collector with
  | nil => cases hx
  | cons r rs ih =>
      rcases List.mem_cons.1 hx with hx | hx
      · exact ⟨[], r, rs, rfl, hx⟩
      · obtain ⟨pre, r', post, hrs, hx⟩ := ih hx
        exact ⟨r :: pre, r', post, congrArg (r :: ·) hrs, hx⟩

/-- The machine holds the event received last under each key. -/
theorem lookup_machine (rs : List Receipt) (k : TcpConn) :
    (rs.foldl receive (start conf)).tcpEventMachine.lookup k =
      (latest Submitted.conn k (rs.map Receipt.sub)).map Submitted.event := by
  induction rs using List.reverseRecOn with
  | nil => exact Finmap.lookup_empty k
  | append_singleton rs r ih =>
      have hconn : r.sub.event.conn = r.sub.conn := rfl
      rw [List.foldl_concat, List.map_append, List.map_singleton, latest_concat, receive,
        bufferEvent, GoMap.lookup_insert_ite, ih, hconn]
      by_cases hk : r.sub.conn = k
      · rw [if_pos hk.symm, if_pos hk]
        rfl
      · rw [if_neg (Ne.symm hk), if_neg hk]

/-! ## One point -/

variable {emitted : List Submitted} {pre : List Receipt} {r : Receipt}

/-- If the event received last is the one the kernel emitted last, the point is
right. -/
theorem fits_of_latest_eq
    (hlatest : latest Submitted.conn r.sub.conn (pre.map Receipt.sub) =
      predecessor Submitted.conn emitted r.sub)
    (hnonneg : ∀ p, predecessor Submitted.conn emitted r.sub = some p →
      0 ≤ (r.sub.event.CurTs - p.event.CurTs).toInt) :
    Fits emitted r.sub
      (point r.containerName r.now (pre.foldl receive (start conf)) r.sub.event) := by
  have hpre : (pre.foldl receive (start conf)).tcpEventMachine.lookup r.sub.event.conn =
      (predecessor Submitted.conn emitted r.sub).map Submitted.event := by
    rw [lookup_machine, ← hlatest]
    rfl
  refine ⟨?_, ?_, ?_⟩
  · rw [lookup_prevType, hpre, Option.map_map]
    rfl
  · rw [lookup_duration, hpre, Option.map_map]
    rfl
  · intro d hd
    rw [lookup_duration, hpre, Option.map_map, Option.map_eq_some_iff] at hd
    obtain ⟨p, hp, heq⟩ := hd
    cases heq
    exact hnonneg p hp

/-- The duration of a right point gives away the time of the event received last. -/
theorem Fits.latest_CurTs
    (h : Fits emitted r.sub
      (point r.containerName r.now (pre.foldl receive (start conf)) r.sub.event)) :
    (latest Submitted.conn r.sub.conn (pre.map Receipt.sub)).map (·.event.CurTs) =
      (predecessor Submitted.conn emitted r.sub).map (·.event.CurTs) := by
  have hdur := h.duration
  rw [lookup_duration, lookup_machine, Option.map_map] at hdur
  have hinj : Function.Injective fun ts => Value.int64 (r.sub.event.CurTs - ts) := by
    intro ts ts' heq
    simp only [Value.int64.injEq] at heq
    exact (BitVec.sub_right_inj _).1 heq
  refine Option.map_injective hinj ?_
  rw [Option.map_map, Option.map_map]
  exact hdur

/-! ## Every merge -/

variable {E : Emission}

theorem nodup_events (E : Emission) : E.events.Nodup :=
  E.increasing.imp fun {_ _} hlt heq => by simp [heq] at hlt

/-- Events of one emission are told apart by their times. -/
theorem eq_of_CurTs_eq {a b : Submitted} (ha : a ∈ E.events) (hb : b ∈ E.events)
    (hts : a.event.CurTs = b.event.CurTs) : a = b := by
  have hnodup : (E.events.map fun a => a.event.CurTs).Nodup := by
    refine List.Pairwise.map _ ?_ E.increasing
    intro a b hlt heq
    rw [heq] at hlt
    exact BitVec.lt_irrefl _ hlt
  exact List.inj_on_of_nodup_map hnodup ha hb hts

/-- The event before another has an earlier time. -/
theorem CurTs_predecessor_lt {a p : Submitted} (ha : a ∈ E.events)
    (hp : predecessor Submitted.conn E.events a = some p) :
    p.event.CurTs < a.event.CurTs := by
  obtain ⟨pre, post, hsplit, hnotin⟩ := List.eq_append_cons_of_mem ha
  have hincreasing := E.increasing
  rw [hsplit, predecessor_append_cons hnotin] at hp
  rw [hsplit] at hincreasing
  exact (List.pairwise_append.1 hincreasing).2.2 p (mem_of_latest hp).1 a List.mem_cons_self

/-- The time since the event before is not negative unless the gap is too long. -/
theorem toInt_duration_nonneg_iff {a p : Submitted} (ha : a ∈ E.events)
    (hp : predecessor Submitted.conn E.events a = some p) :
    0 ≤ (a.event.CurTs - p.event.CurTs).toInt ↔
      a.event.CurTs.toNat < p.event.CurTs.toNat + 2 ^ 63 := by
  have hlt := CurTs_predecessor_lt ha hp
  have hle : p.event.CurTs.toNat ≤ a.event.CurTs.toNat := by
    rw [BitVec.lt_def] at hlt
    omega
  rw [BitVec.toInt_pos_iff, BitVec.toNat_sub_of_le (BitVec.le_def.2 hle)]
  omega

/-- The receipt of an event whose process is in no container. -/
def Submitted.receipt (a : Submitted) : Receipt := ⟨a, "", 0⟩

theorem map_sub_receipt (l : List Submitted) : (l.map Submitted.receipt).map Receipt.sub = l := by
  rw [List.map_map]
  exact List.map_id l

/-- If every merge gives right points, this one does. -/
theorem fits_receipt
    (h : ∀ rs : List Receipt, IsMerge Submitted.cpu E.events (rs.map Receipt.sub) →
      ∀ x ∈ exported (start conf) rs, Fits E.events x.1 x.2)
    {pre post : List Submitted} {a : Submitted}
    (hmerge : IsMerge Submitted.cpu E.events (pre ++ a :: post)) :
    Fits E.events a.receipt.sub (point a.receipt.containerName a.receipt.now
      ((pre.map Submitted.receipt).foldl receive (start conf)) a.receipt.sub.event) := by
  refine h ((pre ++ a :: post).map Submitted.receipt) (by rwa [map_sub_receipt]) (_, _) ?_
  rw [List.map_append, List.map_cons]
  exact mem_exported_append_cons _ _ _

/-- On one CPU per connection and with short gaps every point is right. -/
theorem exported_fits (hone : OneCpu E) (hgaps : ShortGaps E) {rs : List Receipt}
    (hmerge : IsMerge Submitted.cpu E.events (rs.map Receipt.sub))
    {x : Submitted × ExportData} (hx : x ∈ exported (start conf) rs) :
    Fits E.events x.1 x.2 := by
  obtain ⟨pre, r, post, rfl, rfl⟩ := mem_exported hx
  rw [List.map_append, List.map_cons] at hmerge
  have hmem : r.sub ∈ E.events := hmerge.mem_iff.1 (by simp)
  have hfirst : r.sub ∉ pre.map Receipt.sub := by
    have hnodup := hmerge.perm.nodup_iff.2 (nodup_events E)
    exact fun hpre => (List.nodup_append.1 hnodup).2.2 _ hpre _ List.mem_cons_self rfl
  refine fits_of_latest_eq ?_ fun p hp => (toInt_duration_nonneg_iff hmem hp).2 (hgaps _ hmem p hp)
  rw [← predecessor_append_cons hfirst]
  exact predecessor_congr (hmerge.under_eq hone _)

/-- If every merge gives right points, each connection is served on one CPU:
otherwise one of its events could overtake the event before it. -/
theorem oneCpu_of_fits
    (h : ∀ rs : List Receipt, IsMerge Submitted.cpu E.events (rs.map Receipt.sub) →
      ∀ x ∈ exported (start conf) rs, Fits E.events x.1 x.2) :
    OneCpu E := by
  intro a ha b hb hconn
  by_contra hcpu
  obtain ⟨pre, e, post, p, hmerge, hp, hnotin⟩ :=
    exists_isMerge_overtaken (nodup_events E) ha hb hconn hcpu
  have hts := (fits_receipt h hmerge).latest_CurTs
  rw [map_sub_receipt] at hts
  change _ = (predecessor Submitted.conn E.events e).map _ at hts
  rw [hp, Option.map_some, Option.map_eq_some_iff] at hts
  obtain ⟨q, hq, hqp⟩ := hts
  have hqpre := (mem_of_latest hq).1
  have hqmem : q ∈ E.events := hmerge.mem_iff.1 (List.mem_append_left _ hqpre)
  have hpmem : p ∈ E.events :=
    (List.takeWhile_sublist _).subset (mem_of_latest hp).1
  exact hnotin (eq_of_CurTs_eq hqmem hpmem hqp ▸ hqpre)

/-- If the points are right when the events arrive as they were emitted, the gaps are
short. -/
theorem shortGaps_of_fits
    (h : ∀ rs : List Receipt, IsMerge Submitted.cpu E.events (rs.map Receipt.sub) →
      ∀ x ∈ exported (start conf) rs, Fits E.events x.1 x.2) :
    ShortGaps E := by
  intro a ha p hp
  rw [← toInt_duration_nonneg_iff ha hp]
  obtain ⟨pre, post, hsplit⟩ := List.append_of_mem ha
  have hmerge : IsMerge Submitted.cpu E.events (pre ++ a :: post) := by
    rw [hsplit]
    exact IsMerge.refl _ _
  have hfits : Fits E.events a _ := fits_receipt h hmerge
  refine hfits.nonneg _ ?_
  rw [hfits.duration, hp, Option.map_some]

/-- **Whatever the merge, every exported point names the kernel's previous event of
its connection with a duration that is not negative, exactly when each connection is
served on one CPU and with gaps below `2 ^ 63` ns.** -/
theorem exported_fits_iff (conf : ColTcpreq) (E : Emission) :
    (∀ rs : List Receipt, IsMerge Submitted.cpu E.events (rs.map Receipt.sub) →
      ∀ x ∈ exported (start conf) rs, Fits E.events x.1 x.2) ↔ OneCpu E ∧ ShortGaps E :=
  ⟨fun h => ⟨oneCpu_of_fits h, shortGaps_of_fits h⟩,
    fun h _ hmerge _ hx => exported_fits h.1 h.2 hmerge hx⟩

/-- An accept on one CPU and a receive on another, whose events come in the other
order: the receive is exported as if nothing had been before it, and the accept as if
it followed the receive by a negative time. -/
theorem receive_overtakes_accept :
    ¬ ∀ (E : Emission) (rs : List Receipt),
      IsMerge Submitted.cpu E.events (rs.map Receipt.sub) →
        ∀ x ∈ exported (start ⟨"tcpreq", 2, ⟨[7], []⟩, ⟨1, "tcpreq", []⟩⟩) rs,
          Fits E.events x.1 x.2 := by
  intro h
  let accept : Submitted := ⟨0, 100, 3, 7, 1, 2, 80, 8080⟩
  let recv : Submitted := ⟨1, 200, 1, 7, 1, 2, 80, 8080⟩
  have hfits := h ⟨[accept, recv], by decide⟩ [recv.receipt, accept.receipt] ?_ _
    List.mem_cons_self
  · have hprev := hfits.prevType
    revert hprev
    decide
  · exact isMerge_overtake Submitted.cpu [] [] [] (by decide : accept.cpu ≠ recv.cpu)

end Kmon.Ports.StateDurations
