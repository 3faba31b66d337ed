import Kmon.Ports.ExportRounds
import Kmon.Ports.NotifyOrder
import Kmon.Ports.Points

/-!
# The counts of fcount over a run

fcount keeps an entry of `data` for every process it listens to: the handler of `AddCh`
makes it, with a zero value, the handler of `DelCh` deletes it, the probes count in it,
and `exportData` sends its counts and sets them to zero (`src/collector/fcount.go`).

A change of the configuration announces every process again that is still listened to,
and the handler then overwrites the entry there is: what was counted since the last
export is lost.  `everyState_accounted_iff` says exactly when the counts of a process
that stays listened to are complete: when every such announcement finds its counters at
zero.  The exports have flaws of their own, which the condition names: they send a
counter as a signed number, and leave out the returns if the configuration does not ask
for them, but set them to zero all the same.

An export is one step here; what happens to an addition in the middle of one is the
business of `ExportRounds`.
-/

namespace Kmon.Ports.FcountRuns

open Kmon.Verified
open Kmon.Verified.Run
open Kmon.Verified.ReadReset (addTo lookup_addTo_self lookup_addTo_of_ne addTo_of_none
  mem_addTo_zero)
open Kmon.Ports.Config
open Kmon.Ports.InfoStore
open Kmon.Ports.PidListener
open Kmon.Ports.NotifyOrder (uint32)
open Kmon.Ports.BiostatProbe (tgid)
open Kmon.Ports.ExportRounds (FcountVal discipline fcountBegin fcountReturn
  fcountBegin_eq_addTo fcountReturn_eq_addTo)
open Kmon.Ports.Points

/-! ## The collector -/

/-- `fcount`: the collector with its listener and table, the container store, the calls
of the container listener and the announcements that are still to be received, and what
was sent on `dataCh`.  `attachedReturn` tells whether the probe of the return was
attached. -/
structure Fcount where
  attachedReturn : Bool
  conf : ColFcount
  pidLis : PIDLis
  containerPID : ContainerPID
  changes : List ContainerChange
  pending : Multiset (Int × Bool)
  data : GoMap (BitVec 32) FcountVal
  dataCh : List ExportDataWarpper

/-- What `notifyChange` will send: `true` on `AddCh`, `false` on `DelCh`. -/
def announcements (delta : Delta) : Multiset (Int × Bool) :=
  delta.entries.map fun e => (e.1, e.2)

/-- `collector.onConfigChange`. -/
def onConfigChange (matchString : String → String → Bool) (s : Fcount) (conf : ColFcount) :
    Fcount :=
  let changed := PidListener.onConfigChange matchString s.containerPID s.pidLis conf.ListenConfig
  { s with
    pidLis := changed.1
    pending := s.pending + announcements changed.2
    conf := conf }

/-- `StartFcount`, up to the start of its two goroutines. -/
def startFcount (matchString : String → String → Bool) (containerPID : ContainerPID)
    (conf : ColFcount) : Fcount :=
  onConfigChange matchString
    { attachedReturn := conf.CountReturn
      conf := ⟨"", "", false, ListenConfig.zero, ⟨0, "", []⟩⟩
      pidLis := newPIDLis ListenConfig.zero
      containerPID := containerPID
      changes := []
      pending := 0
      data := ∅
      dataCh := [] } conf

/-- What a call of `exportData` finds: the keys its iterator yields, in order, the
clock and the containers. -/
structure Pass where
  keys : List (BitVec 32)
  now : BitVec 32 → Time
  containerName : BitVec 32 → String

/-- The point of an entry. -/
def point (conf : ColFcount) (now : Time) (containerName : String) (key : BitVec 32)
    (val : FcountVal) : ExportData :=
  let tags := ((∅ : GoMap String String).insert "pid" (sprint key)).insert
    "func_name" conf.Function
  let fields := ((∅ : GoMap String Value).insert "timestamp" (.time now)).insert
    "count" (.int val.count)
  ⟨conf.ExportConfig.DataName,
    if containerName ≠ "" then tags.insert "container" containerName else tags,
    if conf.CountReturn then fields.insert "ret_count" (.int val.retCount) else fields⟩

/-- One round of the loop of `exportData`, on the table and on `data`. -/
def exportEntry (conf : ColFcount) (pass : Pass)
    (r : GoMap (BitVec 32) FcountVal × List ExportData) (key : BitVec 32) :
    GoMap (BitVec 32) FcountVal × List ExportData :=
  match r.1.lookup key with
  | none => r
  | some val =>
      (r.1.insert key 0, r.2 ++ [point conf (pass.now key) (pass.containerName key) key val])

/-- `exportData`. -/
def exportData (s : Fcount) (pass : Pass) : Fcount :=
  let r := pass.keys.foldl (exportEntry s.conf pass) (s.data, [])
  { s with
    data := r.1
    dataCh :=
      if r.2.length > 0 then s.dataCh ++ [⟨r.2, s.conf.ExportConfig.ExporterConfig⟩]
      else s.dataCh }

/-- The steps of a run. -/
inductive Event where
  | onConfigChange (conf : ColFcount)
  | setContainerPIDs (name : String) (pids : List Int)
  /-- The `i`-th call of the container listener runs. -/
  | containerChanged (i : Nat)
  /-- An announcement arrives, whichever of them. -/
  | receive (pid : Int) (state : Bool)
  | fcountBegin (pidTgid : BitVec 64)
  | fcountReturn (pidTgid : BitVec 64)
  | exportData (pass : Pass)

def step (matchString : String → String → Bool) (s : Fcount) : Event → Option Fcount
  | .onConfigChange conf => some (onConfigChange matchString s conf)
  | .setContainerPIDs name pids =>
      let stored := setContainerPIDs s.containerPID name pids
      some { s with containerPID := stored.1, changes := s.changes ++ [stored.2] }
  | .containerChanged i =>
      match s.changes[i]? with
      | none => none
      | some change =>
          (containerChanged matchString s.pidLis change).map fun r =>
            { s with
              pidLis := r.1
              changes := s.changes.eraseIdx i
              pending := s.pending + (r.2.map announcements).sum }
  | .receive pid state =>
      if (pid, state) ∈ s.pending then
        some { s with
          pending := s.pending.erase (pid, state)
          data := if state then s.data.insert (uint32 pid) 0 else s.data.erase (uint32 pid) }
      else none
  | .fcountBegin pidTgid => some { s with data := fcountBegin s.data pidTgid }
  | .fcountReturn pidTgid =>
      if s.attachedReturn then some { s with data := fcountReturn s.data pidTgid } else none
  | .exportData pass => some (exportData s pass)

/-- The numbers that denote process `p` stay in the listened set. -/
def Stays (p : BitVec 32) (s t : Fcount) : Prop :=
  ∀ pid ∈ s.pidLis.tracked, uint32 pid = p → pid ∈ t.pidLis.tracked

instance (p : BitVec 32) (s t : Fcount) : Decidable (Stays p s t) :=
  inferInstanceAs (Decidable (∀ pid ∈ s.pidLis.tracked, uint32 pid = p → pid ∈ t.pidLis.tracked))

/-- The steps of a run in which process `p` stays listened to. -/
def stepStaying (matchString : String → String → Bool) (p : BitVec 32) (s : Fcount)
    (e : Event) : Option Fcount :=
  (step matchString s e).filter fun t => Stays p s t

/-! ## The account of a process -/

/-- An announcement of process `p` has been received. -/
def added (p : BitVec 32) : List Event → Bool
  | [] => false
  | .receive pid true :: h => uint32 pid = p || added p h
  | _ :: h => added p h

/-- The hits of `fcount_begin` by `p` since it was first added. -/
def begins (p : BitVec 32) : List Event → Nat
  | [] => 0
  | .fcountBegin pidTgid :: h =>
      if tgid pidTgid = p ∧ added p h then begins p h + 1 else begins p h
  | _ :: h => begins p h

/-- The hits of `fcount_return` by `p` since it was first added. -/
def returns (p : BitVec 32) : List Event → Nat
  | [] => 0
  | .fcountReturn pidTgid :: h =>
      if tgid pidTgid = p ∧ added p h then returns p h + 1 else returns p h
  | _ :: h => returns p h

/-- The number in a field of a point, 0 if it has no such field. -/
def number (field : String) (pt : ExportData) : Int :=
  match pt.Fields.lookup field with
  | some (.int n) => n.toInt
  | _ => 0

/-- The sum of a field over the points of a process. -/
def exported (field : String) (p : BitVec 32) (points : List ExportData) : Int :=
  ((points.filter fun pt => pt.Tags.lookup "pid" = some (sprint p)).map (number field)).sum

/-- The points that were sent. -/
def sent (s : Fcount) : List ExportData := s.dataCh.flatMap ExportDataWarpper.Data

/-- The entry of a process, zero if there is none. -/
def inTable (p : BitVec 32) (data : GoMap (BitVec 32) FcountVal) : FcountVal :=
  (data.lookup p).getD 0

/-- The property of a state: no hit of `p` is missing. -/
structure Accounted (p : BitVec 32) (h : List Event) (s : Fcount) : Prop where
  begins : exported "count" p (sent s) + (inTable p s.data).count.toNat = begins p h
  returns : exported "ret_count" p (sent s) + (inTable p s.data).retCount.toNat = returns p h

/-- The condition: an announcement of `p` finds its counters at zero, no counter wraps
around, an export meets no counter from `2 ^ 63` on, and none of returns that it will
not send. -/
def Unspoiled (p : BitVec 32) (s : Fcount) : Event → Prop
  | .receive pid true => uint32 pid = p → (pid, true) ∈ s.pending → inTable p s.data = 0
  | .fcountBegin pidTgid =>
      tgid pidTgid = p → (inTable p s.data).count.toNat + 1 < 2 ^ 64
  | .fcountReturn pidTgid =>
      s.attachedReturn → tgid pidTgid = p → (inTable p s.data).retCount.toNat + 1 < 2 ^ 64
  | .exportData pass =>
      p ∈ pass.keys → (inTable p s.data).count.toNat < 2 ^ 63 ∧
        if s.conf.CountReturn then (inTable p s.data).retCount.toNat < 2 ^ 63
        else (inTable p s.data).retCount = 0
  | _ => True

/-! ## Points and tables -/

variable {p : BitVec 32}

theorem exported_append (field : String) (points points' : List ExportData) :
    exported field p (points ++ points') = exported field p points + exported field p points' := by
  simp [exported]

theorem number_count (conf : ColFcount) (now : Time) (containerName : String) (key : BitVec 32)
    (val : FcountVal) :
    number "count" (point conf now containerName key val) = val.count.toInt := by
  unfold number point
  by_cases hret : conf.CountReturn <;> simp [hret]

theorem number_ret_count (conf : ColFcount) (now : Time) (containerName : String)
    (key : BitVec 32) (val : FcountVal) :
    number "ret_count" (point conf now containerName key val) =
      if conf.CountReturn then val.retCount.toInt else 0 := by
  unfold number point
  by_cases hret : conf.CountReturn <;> simp [hret]

/-- A point belongs to the process it is made for. -/
theorem exported_point (field : String) (conf : ColFcount) (now : Time) (containerName : String)
    (key : BitVec 32) (val : FcountVal) :
    exported field p [point conf now containerName key val] =
      if key = p then number field (point conf now containerName key val) else 0 := by
  have htag : (point conf now containerName key val).Tags.lookup "pid" = some (sprint key) := by
    unfold point
    by_cases hname : containerName = "" <;> simp [hname]
  unfold exported
  by_cases hkey : key = p
  · subst hkey
    rw [if_pos rfl, List.filter_cons_of_pos (by simpa using htag)]
    simp
  · have hne : ¬ (point conf now containerName key val).Tags.lookup "pid" = some (sprint p) := by
      rw [htag]
      exact fun h => hkey (sprint_inj (Option.some.inj h))
    rw [if_neg hkey, List.filter_cons_of_neg (by simpa using hne)]
    simp

theorem inTable_insert (data : GoMap (BitVec 32) FcountVal) (key : BitVec 32) (val : FcountVal) :
    inTable p (data.insert key val) = if p = key then val else inTable p data := by
  unfold inTable
  rw [GoMap.lookup_insert_ite]
  split <;> rfl

theorem inTable_of_not_mem {data : GoMap (BitVec 32) FcountVal} (h : p ∉ data) :
    inTable p data = 0 := by
  rw [inTable, Finmap.lookup_eq_none.2 h]
  rfl

/-- One round of the loop of `exportData` on one process: if it is its entry, it is sent
and is zero afterwards. -/
theorem exportEntry_effect (conf : ColFcount) (pass : Pass) {field : String}
    (weight : FcountVal → Int) (hzero : weight 0 = 0)
    (hweight : ∀ now containerName key val,
      number field (point conf now containerName key val) = weight val)
    (r : GoMap (BitVec 32) FcountVal × List ExportData) (key : BitVec 32) :
    let r' := exportEntry conf pass r key
    (p ∈ r'.1 ↔ p ∈ r.1) ∧
      inTable p r'.1 = (if p = key then 0 else inTable p r.1) ∧
      exported field p r'.2 =
        exported field p r.2 + if p = key then weight (inTable p r.1) else 0 := by
  cases hval : r.1.lookup key with
  | none =>
      have hentry : exportEntry conf pass r key = r := by
        rw [exportEntry, hval]
      rw [hentry]
      by_cases hkey : p = key
      · -- there is no entry to send
        have hnone : inTable p r.1 = 0 := by
          rw [inTable, hkey, hval]
          rfl
        rw [if_pos hkey, if_pos hkey, hnone, hzero]
        exact ⟨Iff.rfl, hnone, (Int.add_zero _).symm⟩
      · rw [if_neg hkey, if_neg hkey]
        exact ⟨Iff.rfl, rfl, (Int.add_zero _).symm⟩
  | some val =>
      have hentry : exportEntry conf pass r key = (r.1.insert key 0,
          r.2 ++ [point conf (pass.now key) (pass.containerName key) key val]) := by
        rw [exportEntry, hval]
      rw [hentry]
      refine ⟨?_, inTable_insert r.1 key 0, ?_⟩
      · rw [Finmap.mem_insert]
        exact or_iff_right_of_imp fun h => h ▸ Finmap.mem_of_lookup_eq_some hval
      · by_cases hkey : p = key
        · have hsome : inTable p r.1 = val := by
            rw [inTable, hkey, hval]
            rfl
          rw [exported_append, exported_point, if_pos hkey, if_pos hkey.symm, hweight, hsome]
        · rw [exported_append, exported_point, if_neg hkey, if_neg (Ne.symm hkey)]

/-- The loop of `exportData` on one process: its entry, if the iterator yields it, is
sent once and is zero afterwards. -/
theorem foldl_exportEntry (conf : ColFcount) (pass : Pass) {field : String}
    (weight : FcountVal → Int) (hzero : weight 0 = 0)
    (hweight : ∀ now containerName key val,
      number field (point conf now containerName key val) = weight val)
    (keys : List (BitVec 32)) (r : GoMap (BitVec 32) FcountVal × List ExportData) :
    let r' := keys.foldl (exportEntry conf pass) r
    (p ∈ r'.1 ↔ p ∈ r.1) ∧
      inTable p r'.1 = (if p ∈ keys then 0 else inTable p r.1) ∧
      exported field p r'.2 =
        exported field p r.2 + if p ∈ keys then weight (inTable p r.1) else 0 := by
  induction keys generalizing r with
  | nil => simp
  | cons key keys ih =>
      obtain ⟨hmem, htable, hsum⟩ := ih (exportEntry conf pass r key)
      obtain ⟨hmem', htable', hsum'⟩ :=
        exportEntry_effect (p := p) conf pass weight hzero hweight r key
      rw [List.foldl_cons]
      refine ⟨hmem.trans hmem', ?_, ?_⟩
      · rw [htable, htable']
        by_cases hkey : p = key
        · simp only [hkey, if_true, ite_self, List.mem_cons, true_or]
        · simp only [hkey, if_false, List.mem_cons, false_or]
      · rw [hsum, hsum', htable']
        by_cases hkey : p = key
        · -- a second entry of the process would be zero
          simp only [hkey, if_true, hzero, ite_self, List.mem_cons, true_or, Int.add_zero]
        · simp only [hkey, if_false, List.mem_cons, false_or, Int.add_zero]

theorem sent_exportData (s : Fcount) (pass : Pass) :
    sent (exportData s pass) =
      sent s ++ (pass.keys.foldl (exportEntry s.conf pass) (s.data, [])).2 := by
  unfold sent exportData
  dsimp only
  split
  · rw [List.flatMap_append, List.flatMap_singleton]
  · rename_i hlen
    have hnil : (pass.keys.foldl (exportEntry s.conf pass) (s.data, [])).2 = [] :=
      List.eq_nil_of_length_eq_zero (by omega)
    rw [hnil, List.append_nil]

/-! ## What holds in every run -/

variable {matchString : String → String → Bool} {h : List Event} {s t : Fcount} {e : Event}

/-- fcount's listener keeps the empty configuration it was built with; no announcement
takes `p` away; and `p` has an entry from its first announcement on. -/
structure Listening (p : BitVec 32) (h : List Event) (s : Fcount) : Prop where
  conf : s.pidLis.conf = ListenConfig.zero
  kept : ∀ pid, (pid, false) ∈ s.pending → uint32 pid ≠ p
  added : added p h = true ↔ p ∈ s.data

theorem stepStaying_eq_some :
    stepStaying matchString p s e = some t ↔ step matchString s e = some t ∧ Stays p s t := by
  simp [stepStaying, Option.filter_eq_some_iff]

/-- Only numbers that leave the listened set are announced as deleted. -/
theorem mem_announcements_onConfigChange {conf : ColFcount} {pid : Int}
    (hmem : (pid, false) ∈ announcements
      (PidListener.onConfigChange matchString s.containerPID s.pidLis conf.ListenConfig).2) :
    pid ∈ s.pidLis.tracked ∧ pid ∉ (onConfigChange matchString s conf).pidLis.tracked := by
  obtain ⟨⟨pid', state⟩, hentry, heq⟩ := Multiset.mem_map.1 hmem
  obtain ⟨rfl, rfl⟩ := Prod.mk.inj heq
  have hlookup := Finmap.lookup_eq_some_iff.2 hentry
  rw [lookup_onConfigChange_delta] at hlookup
  show _ ∧ pid' ∉ (PidListener.onConfigChange matchString s.containerPID s.pidLis
    conf.ListenConfig).1.tracked
  rw [tracked_onConfigChange]
  split at hlookup
  · cases hlookup
  · rename_i hnot
    split at hlookup
    · rename_i htracked
      exact ⟨htracked, hnot⟩
    · cases hlookup

theorem listening_startFcount (containerPID : ContainerPID) (conf : ColFcount) :
    Listening p [] (startFcount matchString containerPID conf) where
  conf := rfl
  kept pid hmem := by
    rcases Multiset.mem_add.1 hmem with hold | hnew
    · exact absurd hold (Multiset.notMem_zero _)
    · exact absurd (mem_announcements_onConfigChange hnew).1 (Finset.notMem_empty pid)
  added := by
    show false = true ↔ p ∈ (∅ : GoMap (BitVec 32) FcountVal)
    exact iff_of_false Bool.false_ne_true Finmap.notMem_empty

/-- The table keeps its keys when a probe counts. -/
theorem mem_fcountBegin (data : GoMap (BitVec 32) FcountVal) (pidTgid : BitVec 64) :
    p ∈ fcountBegin data pidTgid ↔ p ∈ data := by
  rw [fcountBegin_eq_addTo]
  exact mem_addTo_zero rfl

theorem mem_fcountReturn (data : GoMap (BitVec 32) FcountVal) (pidTgid : BitVec 64) :
    p ∈ fcountReturn data pidTgid ↔ p ∈ data := by
  rw [fcountReturn_eq_addTo]
  exact mem_addTo_zero rfl

theorem mem_exportData (pass : Pass) : p ∈ (exportData s pass).data ↔ p ∈ s.data :=
  (foldl_exportEntry s.conf pass (fun val => val.count.toInt) rfl (number_count s.conf) pass.keys
    (s.data, [])).1

/-- A change of the configuration that keeps `p` listened to announces no end of it. -/
theorem listening_onConfigChange (hs : Listening p h s) {conf : ColFcount}
    (hstays : Stays p s (onConfigChange matchString s conf)) :
    Listening p (.onConfigChange conf :: h) (onConfigChange matchString s conf) := by
  refine ⟨hs.conf, fun pid hmem => ?_, hs.added⟩
  rcases Multiset.mem_add.1 hmem with hold | hnew
  · exact hs.kept pid hold
  · intro hkey
    obtain ⟨htracked, hgone⟩ := mem_announcements_onConfigChange hnew
    exact hgone (hstays pid htracked hkey)

/-- An announcement is received: it is an addition if it is about `p`. -/
theorem listening_receive (hs : Listening p h s) {pid : Int} {state : Bool}
    (hpending : (pid, state) ∈ s.pending) :
    Listening p (.receive pid state :: h)
      { s with
        pending := s.pending.erase (pid, state)
        data := if state then s.data.insert (uint32 pid) 0 else s.data.erase (uint32 pid) } := by
  refine ⟨hs.conf, fun pid' hmem => hs.kept pid' (Multiset.mem_of_mem_erase hmem), ?_⟩
  cases state with
  | true =>
      show (decide (uint32 pid = p) || added p h) = true ↔ p ∈ s.data.insert (uint32 pid) 0
      rw [Bool.or_eq_true, decide_eq_true_eq, Finmap.mem_insert, hs.added, eq_comm]
  | false =>
      show added p h = true ↔ p ∈ s.data.erase (uint32 pid)
      rw [hs.added, Finmap.mem_erase]
      exact (and_iff_right (Ne.symm (hs.kept pid hpending))).symm

theorem listening_step (hs : Listening p h s) (he : stepStaying matchString p s e = some t) :
    Listening p (e :: h) t := by
  obtain ⟨hstep, hstays⟩ := stepStaying_eq_some.1 he
  cases e with
  | onConfigChange conf =>
      cases hstep
      exact listening_onConfigChange hs hstays
  | setContainerPIDs name pids =>
      cases hstep
      exact ⟨hs.conf, hs.kept, hs.added⟩
  | containerChanged i =>
      simp only [step] at hstep
      split at hstep
      · cases hstep
      · rename_i change hi
        -- the listener has no expressions, so it does nothing
        rw [containerChanged_of_nil matchString s.pidLis change (by rw [hs.conf]; rfl)] at hstep
        cases hstep
        refine ⟨hs.conf, fun pid hmem => ?_, hs.added⟩
        rcases Multiset.mem_add.1 hmem with hold | hnew
        · exact hs.kept pid hold
        · exact absurd hnew (Multiset.notMem_zero _)
  | receive pid state =>
      simp only [step] at hstep
      split at hstep
      · rename_i hpending
        cases hstep
        exact listening_receive hs hpending
      · cases hstep
  | fcountBegin pidTgid =>
      cases hstep
      exact ⟨hs.conf, hs.kept, hs.added.trans (mem_fcountBegin s.data pidTgid).symm⟩
  | fcountReturn pidTgid =>
      simp only [step] at hstep
      split at hstep
      · cases hstep
        exact ⟨hs.conf, hs.kept, hs.added.trans (mem_fcountReturn s.data pidTgid).symm⟩
      · cases hstep
  | exportData pass =>
      cases hstep
      exact ⟨hs.conf, hs.kept, hs.added.trans (mem_exportData pass).symm⟩

/-! ## One step of the account -/

/-- A probe adds to the entry of the process it runs in, if there is one. -/
theorem inTable_addTo (data : GoMap (BitVec 32) FcountVal) (key : BitVec 32)
    (amount : FcountVal) :
    inTable p (addTo (discipline .data) data key amount) =
      if key = p ∧ p ∈ data then inTable p data + amount else inTable p data := by
  by_cases hkey : key = p
  · subst hkey
    by_cases hmem : key ∈ data
    · rw [if_pos ⟨rfl, hmem⟩]
      exact lookup_addTo_self (Or.inr hmem)
    · rw [if_neg fun h => hmem h.2, addTo_of_none rfl (Finmap.lookup_eq_none.2 hmem)]
  · rw [if_neg fun h => hkey h.1, inTable, inTable, lookup_addTo_of_ne (Ne.symm hkey)]

theorem inTable_fcountBegin (data : GoMap (BitVec 32) FcountVal) (pidTgid : BitVec 64) :
    inTable p (fcountBegin data pidTgid) =
      if tgid pidTgid = p ∧ p ∈ data then
        { inTable p data with count := (inTable p data).count + 1 }
      else inTable p data := by
  have hval : inTable p data + ⟨1, 0⟩ =
      { inTable p data with count := (inTable p data).count + 1 } :=
    FcountVal.ext rfl (BitVec.add_zero _)
  rw [fcountBegin_eq_addTo, inTable_addTo, hval]

theorem inTable_fcountReturn (data : GoMap (BitVec 32) FcountVal) (pidTgid : BitVec 64) :
    inTable p (fcountReturn data pidTgid) =
      if tgid pidTgid = p ∧ p ∈ data then
        { inTable p data with retCount := (inTable p data).retCount + 1 }
      else inTable p data := by
  have hval : inTable p data + ⟨0, 1⟩ =
      { inTable p data with retCount := (inTable p data).retCount + 1 } :=
    FcountVal.ext (BitVec.add_zero _) rfl
  rw [fcountReturn_eq_addTo, inTable_addTo, hval]

/-- A counter counts one hit unless it wraps around. -/
theorem toNat_add_one_iff (n : BitVec 64) (total hits : Int) (heq : total + n.toNat = hits) :
    total + (n + 1).toNat = hits + 1 ↔ n.toNat + 1 < 2 ^ 64 := by
  have hlt := n.isLt
  rw [BitVec.toNat_add]
  show total + ((n.toNat + 1) % 2 ^ 64 : Nat) = hits + 1 ↔ _
  omega

/-- A counter is sent as what it is unless its sign bit is set. -/
theorem toInt_eq_toNat_iff (n : BitVec 64) (total hits : Int) (heq : total + n.toNat = hits) :
    total + n.toInt + (0 : BitVec 64).toNat = hits ↔ n.toNat < 2 ^ 63 := by
  have hlt := n.isLt
  rw [BitVec.toInt_eq_toNat_cond]
  show total + _ + ((0 : Nat) : Int) = hits ↔ _
  split <;> omega

/-- A counter that is set to zero unsent. -/
theorem toNat_eq_zero_iff (n : BitVec 64) (total hits : Int) (heq : total + n.toNat = hits) :
    total + (0 : BitVec 64).toNat = hits ↔ n = 0 := by
  rw [← BitVec.toNat_inj]
  show total + ((0 : Nat) : Int) = hits ↔ n.toNat = 0
  omega

/-- The account, from its two parts. -/
theorem accounted_iff :
    Accounted p h s ↔
      exported "count" p (sent s) + (inTable p s.data).count.toNat = begins p h ∧
        exported "ret_count" p (sent s) + (inTable p s.data).retCount.toNat = returns p h :=
  ⟨fun ha => ⟨ha.begins, ha.returns⟩, fun ha => ⟨ha.1, ha.2⟩⟩

/-- A new entry for `p` keeps the account exactly when the old one is zero. -/
theorem accounted_zero_iff (ha : Accounted p h s) (hsent : sent t = sent s)
    (htable : inTable p t.data = 0) (hbegins : begins p (e :: h) = begins p h)
    (hreturns : returns p (e :: h) = returns p h) :
    Accounted p (e :: h) t ↔ inTable p s.data = 0 := by
  have hval : inTable p s.data = 0 ↔
      (inTable p s.data).count = 0 ∧ (inTable p s.data).retCount = 0 :=
    FcountVal.ext_iff
  rw [accounted_iff, hsent, htable, hbegins, hreturns, hval]
  exact and_congr (toNat_eq_zero_iff _ _ _ ha.begins) (toNat_eq_zero_iff _ _ _ ha.returns)

/-- What concerns other processes keeps the account. -/
theorem accounted_frame (ha : Accounted p h s) (hsent : sent t = sent s)
    (htable : inTable p t.data = inTable p s.data)
    (hbegins : begins p (e :: h) = begins p h) (hreturns : returns p (e :: h) = returns p h) :
    Accounted p (e :: h) t := by
  rw [accounted_iff, hsent, htable, hbegins, hreturns]
  exact ⟨ha.begins, ha.returns⟩

theorem accounted_receive_iff (hs : Listening p h s) (ha : Accounted p h s) {pid : Int}
    {state : Bool} (he : step matchString s (.receive pid state) = some t) :
    Accounted p (.receive pid state :: h) t ↔ Unspoiled p s (.receive pid state) := by
  simp only [step] at he
  split at he
  · rename_i hpending
    cases he
    cases state with
    | true =>
        by_cases hkey : p = uint32 pid
        · have htable : inTable p (s.data.insert (uint32 pid) 0) = 0 :=
            (inTable_insert s.data _ _).trans (if_pos hkey)
          refine (accounted_zero_iff ha (t := { s with
            pending := s.pending.erase (pid, true)
            data := s.data.insert (uint32 pid) 0 }) rfl htable rfl rfl).trans ?_
          exact ⟨fun hzero _ _ => hzero, fun hg => hg hkey.symm hpending⟩
        · have htable : inTable p (s.data.insert (uint32 pid) 0) = inTable p s.data :=
            (inTable_insert s.data _ _).trans (if_neg hkey)
          exact iff_of_true (accounted_frame ha rfl htable rfl rfl) fun h => absurd h.symm hkey
    | false =>
        have htable : inTable p (s.data.erase (uint32 pid)) = inTable p s.data := by
          unfold inTable
          rw [Finmap.lookup_erase_ne (Ne.symm (hs.kept pid hpending))]
        exact iff_of_true (accounted_frame ha rfl htable rfl rfl) trivial
  · cases he

theorem accounted_fcountBegin_iff (hs : Listening p h s) (ha : Accounted p h s)
    (pidTgid : BitVec 64) :
    Accounted p (.fcountBegin pidTgid :: h) { s with data := fcountBegin s.data pidTgid } ↔
      Unspoiled p s (.fcountBegin pidTgid) := by
  have htable := inTable_fcountBegin (p := p) s.data pidTgid
  have hbegins : begins p (.fcountBegin pidTgid :: h) =
      if tgid pidTgid = p ∧ added p h then begins p h + 1 else begins p h := rfl
  by_cases hhit : tgid pidTgid = p ∧ p ∈ s.data
  · rw [if_pos hhit] at htable
    rw [if_pos ⟨hhit.1, hs.added.2 hhit.2⟩] at hbegins
    rw [accounted_iff, hbegins]
    show exported "count" p (sent s) + (inTable p (fcountBegin s.data pidTgid)).count.toNat = _ ∧
      exported "ret_count" p (sent s) + (inTable p (fcountBegin s.data pidTgid)).retCount.toNat =
        returns p h ↔ (tgid pidTgid = p → _)
    rw [htable, Nat.cast_succ, toNat_add_one_iff _ _ _ ha.begins]
    exact ⟨fun hfits _ => hfits.1, fun hfits => ⟨hfits hhit.1, ha.returns⟩⟩
  · rw [if_neg hhit] at htable
    rw [if_neg fun hadded => hhit ⟨hadded.1, hs.added.1 hadded.2⟩] at hbegins
    refine iff_of_true (accounted_frame ha rfl htable hbegins rfl) fun hkey => ?_
    rw [inTable_of_not_mem fun hmem => hhit ⟨hkey, hmem⟩]
    decide

theorem accounted_fcountReturn_iff (hs : Listening p h s) (ha : Accounted p h s)
    (pidTgid : BitVec 64) (hattached : s.attachedReturn = true) :
    Accounted p (.fcountReturn pidTgid :: h) { s with data := fcountReturn s.data pidTgid } ↔
      Unspoiled p s (.fcountReturn pidTgid) := by
  have htable := inTable_fcountReturn (p := p) s.data pidTgid
  have hreturns : returns p (.fcountReturn pidTgid :: h) =
      if tgid pidTgid = p ∧ added p h then returns p h + 1 else returns p h := rfl
  by_cases hhit : tgid pidTgid = p ∧ p ∈ s.data
  · rw [if_pos hhit] at htable
    rw [if_pos ⟨hhit.1, hs.added.2 hhit.2⟩] at hreturns
    rw [accounted_iff, hreturns]
    show exported "count" p (sent s) + (inTable p (fcountReturn s.data pidTgid)).count.toNat =
        begins p h ∧ exported "ret_count" p (sent s) +
          (inTable p (fcountReturn s.data pidTgid)).retCount.toNat = _ ↔
      (_ → tgid pidTgid = p → _)
    rw [htable, Nat.cast_succ, toNat_add_one_iff _ _ _ ha.returns]
    exact ⟨fun hfits _ _ => hfits.2, fun hfits => ⟨ha.begins, hfits hattached hhit.1⟩⟩
  · rw [if_neg hhit] at htable
    rw [if_neg fun hadded => hhit ⟨hadded.1, hs.added.1 hadded.2⟩] at hreturns
    refine iff_of_true (accounted_frame ha rfl htable rfl hreturns) fun _ hkey => ?_
    rw [inTable_of_not_mem fun hmem => hhit ⟨hkey, hmem⟩]
    decide

theorem accounted_exportData_iff (ha : Accounted p h s) (pass : Pass) :
    Accounted p (.exportData pass :: h) (exportData s pass) ↔
      Unspoiled p s (.exportData pass) := by
  obtain ⟨-, htable, hcount⟩ := foldl_exportEntry (p := p) s.conf pass
    (fun val => val.count.toInt) rfl (number_count s.conf) pass.keys (s.data, [])
  obtain ⟨-, -, hret⟩ := foldl_exportEntry (p := p) s.conf pass
    (fun val => if s.conf.CountReturn then val.retCount.toInt else 0) (ite_self 0)
    (number_ret_count s.conf) pass.keys (s.data, [])
  have hnone : ∀ field, exported field p [] = 0 := fun _ => rfl
  rw [hnone, Int.zero_add] at hcount hret
  have hdata : inTable p (exportData s pass).data = if p ∈ pass.keys then 0 else inTable p s.data :=
    htable
  rw [accounted_iff, sent_exportData, exported_append, exported_append, hcount, hret, hdata]
  show _ + _ + _ = (begins p h : Int) ∧ _ + _ + _ = (returns p h : Int) ↔ (p ∈ pass.keys → _)
  by_cases hkey : p ∈ pass.keys
  · simp only [if_pos hkey]
    rw [imp_iff_right hkey]
    apply and_congr
    · exact toInt_eq_toNat_iff _ _ _ ha.begins
    · by_cases hreturn : s.conf.CountReturn
      · rw [if_pos hreturn, if_pos hreturn]
        exact toInt_eq_toNat_iff _ _ _ ha.returns
      · rw [if_neg hreturn, if_neg hreturn, Int.add_zero]
        exact toNat_eq_zero_iff _ _ _ ha.returns
  · simp only [if_neg hkey, Int.add_zero]
    exact iff_of_true ⟨ha.begins, ha.returns⟩ fun h => absurd h hkey

/-- One step keeps the account exactly when it spoils nothing. -/
theorem accounted_step_iff (hs : Listening p h s) (ha : Accounted p h s)
    (he : stepStaying matchString p s e = some t) :
    Accounted p (e :: h) t ↔ Unspoiled p s e := by
  obtain ⟨hstep, -⟩ := stepStaying_eq_some.1 he
  cases e with
  | onConfigChange conf =>
      cases hstep
      exact iff_of_true (accounted_frame ha rfl rfl rfl rfl) trivial
  | setContainerPIDs name pids =>
      cases hstep
      exact iff_of_true (accounted_frame ha rfl rfl rfl rfl) trivial
  | containerChanged i =>
      simp only [step] at hstep
      split at hstep
      · cases hstep
      · rename_i change hi
        rw [containerChanged_of_nil matchString s.pidLis change (by rw [hs.conf]; rfl)] at hstep
        cases hstep
        exact iff_of_true (accounted_frame ha rfl rfl rfl rfl) trivial
  | receive pid state => exact accounted_receive_iff hs ha hstep
  | fcountBegin pidTgid =>
      cases hstep
      exact accounted_fcountBegin_iff hs ha pidTgid
  | fcountReturn pidTgid =>
      simp only [step] at hstep
      split at hstep
      · rename_i hattached
        cases hstep
        exact accounted_fcountReturn_iff hs ha pidTgid hattached
      · cases hstep
  | exportData pass =>
      cases hstep
      exact accounted_exportData_iff ha pass

/-! ## Runs -/

/-- A step that is impossible, or that would take `p` from the listened set, spoils
nothing. -/
theorem unspoiled_of_none (he : stepStaying matchString p s e = none) : Unspoiled p s e := by
  have hsame : ∀ t, step matchString s e = some t → t.pidLis = s.pidLis → False := by
    intro t ht hlis
    have hstays : Stays p s t := by
      intro pid hpid _
      rw [hlis]
      exact hpid
    rw [stepStaying_eq_some.2 ⟨ht, hstays⟩] at he
    cases he
  cases e with
  | onConfigChange conf => trivial
  | setContainerPIDs name pids => trivial
  | containerChanged i => trivial
  | receive pid state =>
      cases state with
      | true => exact fun _ hpending => (hsame _ (if_pos hpending) rfl).elim
      | false => trivial
  | fcountBegin pidTgid => exact (hsame _ rfl rfl).elim
  | fcountReturn pidTgid => exact fun hattached => (hsame _ (if_pos hattached) rfl).elim
  | exportData pass => exact (hsame _ rfl rfl).elim

/-- **The counts of a process that stays listened to are complete in every state of a
run exactly when every step leaves them unspoiled.** -/
theorem everyState_accounted_iff (matchString : String → String → Bool)
    (containerPID : ContainerPID) (conf : ColFcount) (p : BitVec 32) (events : List Event) :
    EveryState (stepStaying matchString p) (startFcount matchString containerPID conf)
        (Accounted p) events ↔
      Guarded (stepStaying matchString p) (startFcount matchString containerPID conf)
        (Unspoiled p) events := by
  have hlistening : ∀ h s, run (stepStaying matchString p)
      (startFcount matchString containerPID conf) h = some s → Listening p h s :=
    run_invariant (listening_startFcount containerPID conf)
      fun _ _ _ _ _ hs he => listening_step hs he
  apply everyState_iff_guarded hlistening ⟨rfl, rfl⟩
  · exact fun h s e t hs ha he => accounted_step_iff hs ha he
  · exact fun h s e _ he => unspoiled_of_none he

/-- Process 7 is counted once, and the same configuration arrives again before the next
export: the hit is neither exported nor in the table. -/
theorem reannounced_count_lost :
    let conf : ColFcount := ⟨"fcount", "tcp_recvmsg", true, ⟨[7], []⟩, ⟨10, "fcount", []⟩⟩
    ¬ EveryState (stepStaying (fun _ _ => false) 7) (startFcount (fun _ _ => false) ∅ conf)
        (Accounted 7)
        [.receive 7 true, .onConfigChange conf, .fcountBegin (7 <<< 32), .receive 7 true] := by
  intro conf h
  have haccounted := h.last _ rfl
  exact absurd haccounted.begins (by decide)

end Kmon.Ports.FcountRuns
