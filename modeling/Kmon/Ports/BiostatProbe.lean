import Kmon.Verified.GoMap
import Kmon.Verified.Run

/-!
# The probes of biostat

`trace_pid_start` notes the process a block request is accounted to,
`trace_req_start` the time it was handed to the device, and
`trace_req_completion` adds the request to `counts` and `dist` under that
process (`release/bcc/biostat.c`).  Each probe is one step.  The hash tables are
finite maps without a capacity; `bpf_log2l` is BCC's and stays a parameter.

A completion has four ways to end, and three of them take the request out of
`whobyreq` and `start`.  The fourth, for a process that is no longer in
`control_map`, returns at once.  The pointer then still names the old process
when the next request comes to lie at the same address.  `everyState_charged_iff`
says that this is the only way to charge the wrong process.
-/

namespace Kmon.Ports.BiostatProbe

open Kmon.Verified
open Kmon.Verified.Run

/-- A `struct request *`. -/
abbrev Ptr := BitVec 64

/-- The bytes of a `char[DISK_NAME_LEN]`. -/
abbrev DiskName := BitVec 256

/-- `struct control`. -/
structure Control where
  verbose : BitVec 32
  binScale : BitVec 64
  deriving DecidableEq, Repr

/-- `struct info_t`. -/
structure InfoT where
  pid : BitVec 32
  rwflag : BitVec 32
  disk : DiskName
  deriving DecidableEq, Repr

/-- `struct val_t`. -/
@[ext] structure ValT where
  bytes : BitVec 64
  ns : BitVec 64
  deriving DecidableEq, Repr

/-- `disk_key_t`. -/
structure DiskKey where
  slot : BitVec 32
  pid : BitVec 32
  flags : BitVec 64
  disk : DiskName
  deriving DecidableEq, Repr

/-- `struct req_start`. -/
structure ReqStart where
  dataLen : BitVec 64
  timestamp : BitVec 64
  deriving DecidableEq, Repr

/-- The hash tables of the module. -/
structure Maps where
  controlMap : GoMap (BitVec 32) Control
  counts : GoMap InfoT ValT
  dist : GoMap DiskKey (BitVec 64)
  start : GoMap Ptr ReqStart
  whobyreq : GoMap Ptr (BitVec 32)

/-- The tables of a module that was just loaded. -/
def loaded : Maps := ⟨∅, ∅, ∅, ∅, ∅⟩

/-- What a completion finds in the kernel: the clock, the name of the disk, and
the flags of the request. -/
structure Completion where
  now : BitVec 64
  diskName : DiskName
  cmdFlags : BitVec 32
  deriving DecidableEq, Repr

/-- `REQ_OP_MASK` and `REQ_OP_WRITE` of `linux/blk_types.h`. -/
def reqOpMask : BitVec 32 := 0xff#32

def reqOpWrite : BitVec 32 := 1#32

/-! ## The probes -/

/-- `bpf_get_current_pid_tgid() >> 32` as a `u32`. -/
def tgid (pidTgid : BitVec 64) : BitVec 32 := (pidTgid >>> 32).setWidth 32

/-- `trace_pid_start`. -/
def tracePidStart (m : Maps) (req : Ptr) (pidTgid : BitVec 64) : Maps :=
  match m.controlMap.lookup (tgid pidTgid) with
  | none => m
  | some _ => { m with whobyreq := m.whobyreq.insert req (tgid pidTgid) }

/-- `trace_req_start`; `__data_len` is an `unsigned int`. -/
def traceReqStart (m : Maps) (req : Ptr) (dataLen : BitVec 32) (now : BitVec 64) : Maps :=
  { m with start := m.start.insert req ⟨dataLen.setWidth 64, now⟩ }

/-- The key of `counts`. -/
def infoOf (pid : BitVec 32) (c : Completion) : InfoT where
  pid := pid
  rwflag := if c.cmdFlags &&& reqOpMask = reqOpWrite then 1 else 0
  disk := c.diskName

/-- The part of a completion on `counts`. -/
def addCounts (counts : GoMap InfoT ValT) (info : InfoT) (delta dataLen : BitVec 64) :
    GoMap InfoT ValT :=
  match counts.lookup info with
  | none => counts.insert info ⟨dataLen, delta⟩
  | some valp => counts.insert info ⟨valp.bytes + dataLen, valp.ns + delta⟩

/-- The key of `dist`.  The probe computes a corrected `bin_scale` but divides by
the one of the record; a division by zero yields zero in eBPF. -/
def diskKeyOf (bpfLog2l : BitVec 64 → BitVec 32) (pid : BitVec 32) (con : Control)
    (delta : BitVec 64) (c : Completion) : DiskKey where
  slot := bpfLog2l (delta / con.binScale)
  pid := pid
  flags := c.cmdFlags.setWidth 64
  disk := c.diskName

/-- The part of a completion on `dist`. -/
def addDist (dist : GoMap DiskKey (BitVec 64)) (key : DiskKey) : GoMap DiskKey (BitVec 64) :=
  match dist.lookup key with
  | none => dist.insert key 1
  | some counter => dist.insert key (counter + 1)

/-- `trace_req_completion`. -/
def traceReqCompletion (bpfLog2l : BitVec 64 → BitVec 32) (m : Maps) (req : Ptr)
    (c : Completion) : Maps :=
  match m.whobyreq.lookup req with
  | none => { m with start := m.start.erase req }
  | some pid =>
      match m.start.lookup req with
      | none => { m with whobyreq := m.whobyreq.erase req }
      | some rs =>
          match m.controlMap.lookup pid with
          | none => m
          | some con =>
              let delta := c.now - rs.timestamp
              { m with
                counts := addCounts m.counts (infoOf pid c) delta rs.dataLen
                dist :=
                  if con.verbose > 1 then addDist m.dist (diskKeyOf bpfLog2l pid con delta c)
                  else m.dist
                start := m.start.erase req
                whobyreq := m.whobyreq.erase req }

/-- The steps of a run: the probes, and the collector's `SetP` and `DeleteP` on
`control_map`. -/
inductive Event where
  | tracePidStart (req : Ptr) (pidTgid : BitVec 64)
  | traceReqStart (req : Ptr) (dataLen : BitVec 32) (now : BitVec 64)
  | traceReqCompletion (req : Ptr) (c : Completion)
  | setControl (pid : BitVec 32) (con : Control)
  | deleteControl (pid : BitVec 32)

def step (bpfLog2l : BitVec 64 → BitVec 32) (m : Maps) : Event → Option Maps
  | .tracePidStart req pidTgid => some (tracePidStart m req pidTgid)
  | .traceReqStart req dataLen now => some (traceReqStart m req dataLen now)
  | .traceReqCompletion req c => some (traceReqCompletion bpfLog2l m req c)
  | .setControl pid con => some { m with controlMap := m.controlMap.insert pid con }
  | .deleteControl pid => some { m with controlMap := m.controlMap.erase pid }

/-! ## Who issued a request

Functions of the history alone. -/

/-- Whether a process was being monitored. -/
def Monitored : List Event → BitVec 32 → Prop
  | [], _ => False
  | .setControl pid' _ :: h, pid => pid = pid' ∨ Monitored h pid
  | .deleteControl pid' :: h, pid => pid ≠ pid' ∧ Monitored h pid
  | _ :: h, pid => Monitored h pid

/-- The process for which `trace_pid_start` ran on a request since the last
completion of this pointer, while it was monitored. -/
def Issued : List Event → Ptr → BitVec 32 → Prop
  | [], _, _ => False
  | .tracePidStart req' pidTgid :: h, req, pid =>
      (req = req' ∧ Monitored h (tgid pidTgid) ∧ pid = tgid pidTgid) ∨
        (¬ (req = req' ∧ Monitored h (tgid pidTgid)) ∧ Issued h req pid)
  | .traceReqCompletion req' _ :: h, req, pid => req ≠ req' ∧ Issued h req pid
  | _ :: h, req, pid => Issued h req pid

/-- The process a completion charges in a state. -/
def billed (m : Maps) (req : Ptr) : Option (BitVec 32) :=
  match m.whobyreq.lookup req, m.start.lookup req with
  | some pid, some _ => if pid ∈ m.controlMap then some pid else none
  | _, _ => none

/-- What a completion ought to do: charge the process that issued the request, add
to no entry of any other process, and forget the request. -/
structure ChargesIssuer (h : List Event) (req : Ptr) (m m' : Maps) : Prop where
  billed : ∀ pid, billed m req = some pid → Issued h req pid
  counts : ∀ key, m'.counts.lookup key ≠ m.counts.lookup key → Issued h req key.pid
  dist : ∀ key, m'.dist.lookup key ≠ m.dist.lookup key → Issued h req key.pid
  whobyreq : req ∉ m'.whobyreq
  start : req ∉ m'.start

/-- The property of a state: if a completion led to it, that was as it ought to
be. -/
def Charged (bpfLog2l : BitVec 64 → BitVec 32) : List Event → Maps → Prop
  | .traceReqCompletion req _ :: h, m' =>
      ∀ m, run (step bpfLog2l) loaded h = some m → ChargesIssuer h req m m'
  | _, _ => True

/-- The condition: a request that is known in full completes while its process is
still monitored. -/
def StillMonitored (m : Maps) : Event → Prop
  | .traceReqCompletion req _ =>
      ∀ pid, m.whobyreq.lookup req = some pid → req ∈ m.start → pid ∈ m.controlMap
  | _ => True

/-- The process is one for which `trace_pid_start` ran on this pointer after its
previous completion. -/
theorem Issued.exists_start {h : List Event} {req : Ptr} {pid : BitVec 32}
    (hi : Issued h req pid) :
    ∃ newer older pidTgid, h = newer ++ Event.tracePidStart req pidTgid :: older ∧
      pid = tgid pidTgid ∧ ∀ c, Event.traceReqCompletion req c ∉ newer := by
  induction h with
  | nil => exact hi.elim
  | cons e h ih =>
      have hpast : Issued h req pid → (∀ c, e ≠ .traceReqCompletion req c) →
          ∃ newer older pidTgid, e :: h = newer ++ Event.tracePidStart req pidTgid :: older ∧
            pid = tgid pidTgid ∧ ∀ c, Event.traceReqCompletion req c ∉ newer := by
        intro hi he
        obtain ⟨newer, older, pidTgid, rfl, hpid, hnone⟩ := ih hi
        refine ⟨e :: newer, older, pidTgid, rfl, hpid, fun c hc => ?_⟩
        rcases List.mem_cons.1 hc with hc | hc
        · exact he c hc.symm
        · exact hnone c hc
      cases e with
      | tracePidStart req' pidTgid =>
          rcases hi with ⟨rfl, -, hpid⟩ | ⟨-, hi⟩
          · exact ⟨[], h, pidTgid, rfl, hpid, fun _ hc => by cases hc⟩
          · exact hpast hi fun _ hc => by cases hc
      | traceReqStart req' dataLen now => exact hpast hi fun _ hc => by cases hc
      | traceReqCompletion req' c =>
          refine hpast hi.2 fun c' hc => ?_
          cases hc
          exact hi.1 rfl
      | setControl pid' con => exact hpast hi fun _ hc => by cases hc
      | deleteControl pid' => exact hpast hi fun _ hc => by cases hc

/-! ## One completion -/

section Completion

variable {bpfLog2l : BitVec 64 → BitVec 32} {m : Maps} {req : Ptr} {c : Completion}

/-- The four ways a completion ends. -/
theorem traceReqCompletion_cases (bpfLog2l : BitVec 64 → BitVec 32) (m : Maps) (req : Ptr)
    (c : Completion) :
    (m.whobyreq.lookup req = none ∧
        traceReqCompletion bpfLog2l m req c = { m with start := m.start.erase req }) ∨
      (∃ pid, m.whobyreq.lookup req = some pid ∧ m.start.lookup req = none ∧
        traceReqCompletion bpfLog2l m req c = { m with whobyreq := m.whobyreq.erase req }) ∨
      (∃ pid rs, m.whobyreq.lookup req = some pid ∧ m.start.lookup req = some rs ∧
        m.controlMap.lookup pid = none ∧ traceReqCompletion bpfLog2l m req c = m) ∨
      ∃ pid rs con, m.whobyreq.lookup req = some pid ∧ m.start.lookup req = some rs ∧
        m.controlMap.lookup pid = some con ∧
        traceReqCompletion bpfLog2l m req c =
          { m with
            counts := addCounts m.counts (infoOf pid c) (c.now - rs.timestamp) rs.dataLen
            dist :=
              if con.verbose > 1 then
                addDist m.dist (diskKeyOf bpfLog2l pid con (c.now - rs.timestamp) c)
              else m.dist
            start := m.start.erase req
            whobyreq := m.whobyreq.erase req } := by
  cases hwho : m.whobyreq.lookup req with
  | none =>
      refine Or.inl ⟨rfl, ?_⟩
      simp only [traceReqCompletion, hwho]
  | some pid =>
      cases hstart : m.start.lookup req with
      | none =>
          refine Or.inr (Or.inl ⟨pid, rfl, rfl, ?_⟩)
          simp only [traceReqCompletion, hwho, hstart]
      | some rs =>
          cases hcon : m.controlMap.lookup pid with
          | none =>
              refine Or.inr (Or.inr (Or.inl ⟨pid, rs, rfl, rfl, hcon, ?_⟩))
              simp only [traceReqCompletion, hwho, hstart, hcon]
          | some con =>
              refine Or.inr (Or.inr (Or.inr ⟨pid, rs, con, rfl, rfl, hcon, ?_⟩))
              simp only [traceReqCompletion, hwho, hstart, hcon]

theorem lookup_addCounts_of_ne {counts : GoMap InfoT ValT} {info key : InfoT}
    {delta dataLen : BitVec 64} (h : key ≠ info) :
    (addCounts counts info delta dataLen).lookup key = counts.lookup key := by
  unfold addCounts
  split <;> exact Finmap.lookup_insert_of_ne _ h

theorem lookup_addDist_of_ne {dist : GoMap DiskKey (BitVec 64)} {key key' : DiskKey}
    (h : key' ≠ key) : (addDist dist key).lookup key' = dist.lookup key' := by
  unfold addDist
  split <;> exact Finmap.lookup_insert_of_ne _ h

/-- A completion that does not find everything leaves both tables alone. -/
theorem traceReqCompletion_tables (bpfLog2l : BitVec 64 → BitVec 32) (m : Maps) (req : Ptr)
    (c : Completion) :
    ((traceReqCompletion bpfLog2l m req c).counts = m.counts ∧
        (traceReqCompletion bpfLog2l m req c).dist = m.dist) ∨
      ∃ (pid : BitVec 32) (rs : ReqStart) (con : Control), m.whobyreq.lookup req = some pid ∧
        (traceReqCompletion bpfLog2l m req c).counts =
          addCounts m.counts (infoOf pid c) (c.now - rs.timestamp) rs.dataLen ∧
        (traceReqCompletion bpfLog2l m req c).dist =
          if con.verbose > 1 then
            addDist m.dist (diskKeyOf bpfLog2l pid con (c.now - rs.timestamp) c)
          else m.dist := by
  rcases traceReqCompletion_cases bpfLog2l m req c with ⟨-, heq⟩ | ⟨pid, -, -, heq⟩ |
    ⟨pid, rs, -, -, -, heq⟩ | ⟨pid, rs, con, hwho, -, -, heq⟩
  · exact .inl (by rw [heq]; exact ⟨rfl, rfl⟩)
  · exact .inl (by rw [heq]; exact ⟨rfl, rfl⟩)
  · exact .inl (by rw [heq]; exact ⟨rfl, rfl⟩)
  · exact .inr ⟨pid, rs, con, hwho, by rw [heq], by rw [heq]⟩

/-- Only entries of the process in `whobyreq` change. -/
theorem counts_traceReqCompletion {key : InfoT}
    (h : (traceReqCompletion bpfLog2l m req c).counts.lookup key ≠ m.counts.lookup key) :
    m.whobyreq.lookup req = some key.pid := by
  rcases traceReqCompletion_tables bpfLog2l m req c with ⟨hcounts, -⟩ |
    ⟨pid, rs, con, hwho, hcounts, -⟩
  · exact absurd (by rw [hcounts]) h
  · rw [hcounts] at h
    by_cases hkey : key = infoOf pid c
    · rw [hkey]
      exact hwho
    · exact absurd (lookup_addCounts_of_ne hkey) h

theorem dist_traceReqCompletion {key : DiskKey}
    (h : (traceReqCompletion bpfLog2l m req c).dist.lookup key ≠ m.dist.lookup key) :
    m.whobyreq.lookup req = some key.pid := by
  rcases traceReqCompletion_tables bpfLog2l m req c with ⟨-, hdist⟩ |
    ⟨pid, rs, con, hwho, -, hdist⟩
  · exact absurd (by rw [hdist]) h
  · rw [hdist] at h
    by_cases hkey : key = diskKeyOf bpfLog2l pid con (c.now - rs.timestamp) c
    · rw [hkey]
      exact hwho
    · refine absurd ?_ h
      split
      · exact lookup_addDist_of_ne hkey
      · rfl

theorem whobyreq_of_billed {pid : BitVec 32} (h : billed m req = some pid) :
    m.whobyreq.lookup req = some pid := by
  unfold billed at h
  split at h
  · rename_i pid' rs hwho hstart
    split at h
    · rw [hwho, h]
    · cases h
  · cases h

/-- Other requests are left alone. -/
theorem whobyreq_traceReqCompletion_of_ne {req' : Ptr} (h : req' ≠ req) :
    (traceReqCompletion bpfLog2l m req c).whobyreq.lookup req' = m.whobyreq.lookup req' := by
  rcases traceReqCompletion_cases bpfLog2l m req c with ⟨-, heq⟩ | ⟨pid, -, -, heq⟩ |
    ⟨pid, rs, -, -, -, heq⟩ | ⟨pid, rs, con, -, -, -, heq⟩
  · rw [heq]
  · rw [heq]
    exact Finmap.lookup_erase_ne h
  · rw [heq]
  · rw [heq]
    exact Finmap.lookup_erase_ne h

/-- The request is forgotten exactly when the condition holds. -/
theorem forgets_iff :
    (req ∉ (traceReqCompletion bpfLog2l m req c).whobyreq ∧
        req ∉ (traceReqCompletion bpfLog2l m req c).start) ↔
      StillMonitored m (.traceReqCompletion req c) := by
  rcases traceReqCompletion_cases bpfLog2l m req c with ⟨hwho, heq⟩ | ⟨pid, hwho, hstart, heq⟩ |
    ⟨pid, rs, hwho, hstart, hcon, heq⟩ | ⟨pid, rs, con, hwho, hstart, hcon, heq⟩
  · rw [heq]
    refine iff_of_true ⟨Finmap.lookup_eq_none.1 hwho, Finmap.notMem_erase_self⟩ ?_
    intro pid hpid
    rw [hwho] at hpid
    cases hpid
  · rw [heq]
    refine iff_of_true ⟨Finmap.notMem_erase_self, Finmap.lookup_eq_none.1 hstart⟩ ?_
    intro _ _ hmem
    exact absurd hmem (Finmap.lookup_eq_none.1 hstart)
  · rw [heq]
    refine iff_of_false (fun h => h.1 (Finmap.mem_iff.2 ⟨pid, hwho⟩)) fun h => ?_
    exact Finmap.lookup_eq_none.1 hcon (h pid hwho (Finmap.mem_iff.2 ⟨rs, hstart⟩))
  · rw [heq]
    refine iff_of_true ⟨Finmap.notMem_erase_self, Finmap.notMem_erase_self⟩ ?_
    intro pid' hpid' _
    rw [hwho] at hpid'
    cases hpid'
    exact Finmap.mem_iff.2 ⟨con, hcon⟩

end Completion

/-! ## Runs -/

section Runs

variable (bpfLog2l : BitVec 64 → BitVec 32)

theorem whobyreq_tracePidStart (m : Maps) (req : Ptr) (pidTgid : BitVec 64) (req' : Ptr) :
    (tracePidStart m req pidTgid).whobyreq.lookup req' =
      if req' = req ∧ tgid pidTgid ∈ m.controlMap then some (tgid pidTgid)
      else m.whobyreq.lookup req' := by
  unfold tracePidStart
  split
  · rename_i hcon
    rw [if_neg fun h => Finmap.lookup_eq_none.1 hcon h.2]
  · rename_i con hcon
    have hmem : tgid pidTgid ∈ m.controlMap := Finmap.mem_iff.2 ⟨con, hcon⟩
    simp only [GoMap.lookup_insert_ite, hmem, and_true]

theorem controlMap_tracePidStart (m : Maps) (req : Ptr) (pidTgid : BitVec 64) :
    (tracePidStart m req pidTgid).controlMap = m.controlMap := by
  unfold tracePidStart
  split <;> rfl

theorem controlMap_traceReqCompletion (m : Maps) (req : Ptr) (c : Completion) :
    (traceReqCompletion bpfLog2l m req c).controlMap = m.controlMap := by
  rcases traceReqCompletion_cases bpfLog2l m req c with ⟨-, heq⟩ | ⟨pid, -, -, heq⟩ |
    ⟨pid, rs, -, -, -, heq⟩ | ⟨pid, rs, con, -, -, -, heq⟩ <;> rw [heq]

/-- `control_map` holds the monitored processes. -/
theorem run_monitored :
    ∀ h m, run (step bpfLog2l) loaded h = some m →
      ∀ pid, Monitored h pid ↔ pid ∈ m.controlMap := by
  refine run_invariant (fun pid => ⟨False.elim, fun h => Finmap.notMem_empty h⟩) ?_
  intro h m e m' _ hm he pid
  cases e with
  | tracePidStart req pidTgid =>
      cases he
      rw [controlMap_tracePidStart]
      exact hm pid
  | traceReqStart req dataLen now =>
      cases he
      exact hm pid
  | traceReqCompletion req c =>
      cases he
      rw [controlMap_traceReqCompletion]
      exact hm pid
  | setControl pid' con =>
      cases he
      rw [Monitored, hm pid, Finmap.mem_insert]
  | deleteControl pid' =>
      cases he
      rw [Monitored, hm pid, Finmap.mem_erase]

/-- What a request is noted under is the process that issued it. -/
def NotesIssuer (h : List Event) (m : Maps) : Prop :=
  ∀ req pid, m.whobyreq.lookup req = some pid → Issued h req pid

/-- A step that meets the condition keeps the notes right. -/
theorem step_notesIssuer {h : List Event} {m m' : Maps} {e : Event}
    (hmon : ∀ pid, Monitored h pid ↔ pid ∈ m.controlMap) (hm : NotesIssuer h m)
    (hguard : StillMonitored m e) (he : step bpfLog2l m e = some m') :
    NotesIssuer (e :: h) m' := by
  intro req pid hwho
  cases e with
  | tracePidStart req' pidTgid =>
      cases he
      rw [whobyreq_tracePidStart] at hwho
      by_cases hnote : req = req' ∧ tgid pidTgid ∈ m.controlMap
      · rw [if_pos hnote] at hwho
        cases hwho
        exact Or.inl ⟨hnote.1, (hmon _).2 hnote.2, rfl⟩
      · rw [if_neg hnote] at hwho
        exact Or.inr ⟨fun hn => hnote ⟨hn.1, (hmon _).1 hn.2⟩, hm req pid hwho⟩
  | traceReqStart req' dataLen now =>
      cases he
      exact hm req pid hwho
  | traceReqCompletion req' c =>
      cases he
      by_cases hreq : req = req'
      · subst hreq
        have hmem : req ∈ (traceReqCompletion bpfLog2l m req c).whobyreq :=
          Finmap.mem_iff.2 ⟨pid, hwho⟩
        exact absurd hmem (forgets_iff.2 hguard).1
      · rw [whobyreq_traceReqCompletion_of_ne hreq] at hwho
        exact ⟨hreq, hm req pid hwho⟩
  | setControl pid' con =>
      cases he
      exact hm req pid hwho
  | deleteControl pid' =>
      cases he
      exact hm req pid hwho

/-- With the notes right and the condition met, a completion does what it
ought to. -/
theorem chargesIssuer_of_notesIssuer {h : List Event} {m : Maps} {req : Ptr} {c : Completion}
    (hm : NotesIssuer h m) (hguard : StillMonitored m (.traceReqCompletion req c)) :
    ChargesIssuer h req m (traceReqCompletion bpfLog2l m req c) where
  billed pid hpid := hm req pid (whobyreq_of_billed hpid)
  counts key hkey := hm req key.pid (counts_traceReqCompletion hkey)
  dist key hkey := hm req key.pid (dist_traceReqCompletion hkey)
  whobyreq := (forgets_iff.2 hguard).1
  start := (forgets_iff.2 hguard).2

/-- A run with good steps ends with the notes right, and if its last step was a
completion, that was as it ought to be. -/
theorem guarded_charged :
    ∀ h m, Guarded (step bpfLog2l) loaded StillMonitored h →
      run (step bpfLog2l) loaded h = some m → NotesIssuer h m ∧ Charged bpfLog2l h m := by
  intro h
  induction h with
  | nil =>
      intro m _ hm
      cases hm
      refine ⟨fun req pid hwho => ?_, trivial⟩
      have hnone : loaded.whobyreq.lookup req = none := rfl
      rw [hnone] at hwho
      cases hwho
  | cons e h ih =>
      intro m' hg hm'
      obtain ⟨m, hm, he⟩ := run_cons_eq_some.1 hm'
      have hnotes := (ih m hg.1 hm).1
      have hguard := hg.2 m hm
      refine ⟨step_notesIssuer bpfLog2l (run_monitored bpfLog2l h m hm) hnotes hguard he, ?_⟩
      cases e with
      | traceReqCompletion req c =>
          intro m₁ hm₁
          rw [hm] at hm₁
          cases hm₁
          cases he
          exact chargesIssuer_of_notesIssuer bpfLog2l hnotes hguard
      | tracePidStart req pidTgid => trivial
      | traceReqStart req dataLen now => trivial
      | setControl pid con => trivial
      | deleteControl pid => trivial

/-- **Every completion of a run charges the process that issued the request and
forgets the request exactly when no process stops being monitored between the
issue and the completion of one of its requests.** -/
theorem everyState_charged_iff (h : List Event) :
    EveryState (step bpfLog2l) loaded (Charged bpfLog2l) h ↔
      Guarded (step bpfLog2l) loaded StillMonitored h := by
  constructor
  · refine guarded_of_everyState ?_ ?_ h
    · intro h m e m' hm _ he hcharged
      cases e with
      | traceReqCompletion req c =>
          cases he
          have hdone := hcharged m hm
          exact forgets_iff.1 ⟨hdone.whobyreq, hdone.start⟩
      | tracePidStart req pidTgid => trivial
      | traceReqStart req dataLen now => trivial
      | setControl pid con => trivial
      | deleteControl pid => trivial
    · intro h m e _ hnone
      cases e <;> cases hnone
  · exact everyState_of_guarded (fun h m hg hm => (guarded_charged bpfLog2l h m hg hm).2) h

end Runs

/-- Process 7 issues a request and is dropped before it completes; when it is
monitored again, it pays for the request that process 8 makes at the same
address. -/
theorem stale_request_charged :
    ¬ EveryState (step fun _ => 0) loaded (Charged fun _ => 0)
        [.traceReqCompletion 1 ⟨30, 0, 0⟩, .traceReqStart 1 4096 20,
          .tracePidStart 1 0x800000000, .setControl 7 ⟨1, 1⟩,
          .traceReqCompletion 1 ⟨12, 0, 0⟩, .deleteControl 7, .traceReqStart 1 512 10,
          .tracePidStart 1 0x700000000, .setControl 7 ⟨1, 1⟩] := by
  intro h
  have hlast := h.last _ rfl _ rfl
  have hissued := hlast.billed 7 (by decide)
  simp only [Issued] at hissued
  exact absurd rfl (hissued.elim (fun h => by simp [Monitored, tgid] at h) fun h => h.2.1)

end Kmon.Ports.BiostatProbe
