import Mathlib.Data.Fintype.Basic
import Mathlib.Data.Multiset.Count
import Kmon.Ports.BiostatProbe

/-!
# Opened files and their descriptors

`detect_file_open` (`ebpf/src/file_reader.c`) runs where a thread enters `do_sys_open`
and stores the name of the file in `tmp_map`, under the process.  `detect_file_open_ret`
runs where the thread leaves it, takes the name that lies under the process, and sends
it with the descriptor.  Two threads of a process that open files at the same time
share the one entry.

Beside the table the machine below keeps the calls under way, each with its own name
and with whether `tmp_map` could take it.  `everyStep_pairs` says that names and
descriptors belong together as long as no call begins while a name lies under its
process; for runs in which all calls return it says that this is the exact condition.
The reason is a balance: a name that is written over is missing in the end.
-/

namespace Kmon.Ports.FileReader

open Kmon.Verified
open Kmon.Verified.Run
open Kmon.Ports.BiostatProbe (tgid)

/-- A `char[MAX_FILE_NAME]`. -/
abbrev Filename := Fin 64 → BitVec 8

/-- `struct open_event_t`. -/
structure OpenEventT where
  pid : BitVec 32
  fd : BitVec 32
  filename : Filename
  deriving DecidableEq

/-- `pid_filter`, an array of `PID_FILTER_SIZE` elements. -/
abbrev PidFilter := Fin 32 → BitVec 32

/-- The loop over `pid_filter` finds the process. -/
def Filtered (pidFilter : PidFilter) (pid : BitVec 32) : Prop := ∃ id, pid = pidFilter id

instance (pidFilter : PidFilter) (pid : BitVec 32) : Decidable (Filtered pidFilter pid) :=
  inferInstanceAs (Decidable (∃ id, pid = pidFilter id))

/-- `tmp_map`. -/
abbrev TmpMap := GoMap (BitVec 32) Filename

/-- `max_entries` of `tmp_map`. -/
def maxEntries : Nat := 32

/-- `bpf_map_update_elem` finds room: the key is there, or the table is not full. -/
def HasRoom (tmpMap : TmpMap) (pid : BitVec 32) : Prop :=
  pid ∈ tmpMap ∨ tmpMap.keys.card < maxEntries

instance (tmpMap : TmpMap) (pid : BitVec 32) : Decidable (HasRoom tmpMap pid) :=
  inferInstanceAs (Decidable (pid ∈ tmpMap ∨ tmpMap.keys.card < maxEntries))

/-- `detect_file_open`.  `filename` is what `bpf_probe_read` reads at the argument. -/
def detectFileOpen (pidFilter : PidFilter) (tmpMap : TmpMap) (pidTgid : BitVec 64)
    (filename : Filename) : TmpMap :=
  let pid := tgid pidTgid
  if Filtered pidFilter pid then
    if HasRoom tmpMap pid then tmpMap.insert pid filename else tmpMap
  else tmpMap

/-- `detect_file_open_ret`: the table, and the event that is sent. -/
def detectFileOpenRet (tmpMap : TmpMap) (pidTgid : BitVec 64) (ret : BitVec 32) :
    TmpMap × Option OpenEventT :=
  let pid := tgid pidTgid
  match tmpMap.lookup pid with
  | none => (tmpMap, none)
  | some filename => (tmpMap.erase pid, some ⟨pid, ret, filename⟩)

/-- A call of `do_sys_open` under way.  `noted`: its process is filtered, and `tmp_map`
had room when it began. -/
structure OpenCall where
  pidTgid : BitVec 64
  filename : Filename
  noted : Bool
  deriving DecidableEq

def OpenCall.pid (call : OpenCall) : BitVec 32 := tgid call.pidTgid

/-- The table, the events that were sent, and the calls under way. -/
structure Reading where
  tmpMap : TmpMap
  eventsOpen : List OpenEventT
  calls : Multiset OpenCall

/-- A thread enters `do_sys_open`, or one of the calls under way returns. -/
inductive Event where
  | enter (pidTgid : BitVec 64) (filename : Filename)
  | leave (call : OpenCall) (ret : BitVec 32)

def step (pidFilter : PidFilter) (s : Reading) : Event → Option Reading
  | .enter pidTgid filename =>
      if ∀ call ∈ s.calls, call.pidTgid ≠ pidTgid then
        some { s with
          tmpMap := detectFileOpen pidFilter s.tmpMap pidTgid filename
          calls := ⟨pidTgid, filename,
            Filtered pidFilter (tgid pidTgid) ∧ HasRoom s.tmpMap (tgid pidTgid)⟩ ::ₘ s.calls }
      else none
  | .leave call ret =>
      if call ∈ s.calls then
        let r := detectFileOpenRet s.tmpMap call.pidTgid ret
        some ⟨r.1, s.eventsOpen ++ r.2.toList, s.calls.erase call⟩
      else none

/-- The program is loaded, and no thread is in `do_sys_open`. -/
def start : Reading := ⟨∅, [], 0⟩

/-- The property of a step: an event carries the name and the descriptor of the call
that returns, and a call that was noted yields one. -/
def Pairs (_ : List Event) (s : Reading) : Event → Reading → Prop
  | .enter _ _, t => t.eventsOpen = s.eventsOpen
  | .leave call ret, t => ∃ emitted, t.eventsOpen = s.eventsOpen ++ emitted ∧
      (∀ ev ∈ emitted, ev = ⟨call.pid, ret, call.filename⟩) ∧
      (call.noted → emitted.length = 1)

/-- The condition: no call of a filtered process begins, and none that was not noted
ends, while a name lies under its process. -/
def NoneWaiting (pidFilter : PidFilter) (s : Reading) : Event → Prop
  | .enter pidTgid _ => Filtered pidFilter (tgid pidTgid) → tgid pidTgid ∉ s.tmpMap
  | .leave call _ => call.noted = false → call.pid ∉ s.tmpMap

instance (pidFilter : PidFilter) (s : Reading) : DecidablePred (NoneWaiting pidFilter s)
  | .enter pidTgid _ =>
      inferInstanceAs (Decidable (Filtered pidFilter (tgid pidTgid) → tgid pidTgid ∉ s.tmpMap))
  | .leave call _ => inferInstanceAs (Decidable (call.noted = false → call.pid ∉ s.tmpMap))

/-! ## Names and calls -/

/-- The calls of a process that were noted. -/
def notedCalls (pid : BitVec 32) (s : Reading) : Nat :=
  s.calls.countP fun call => call.noted ∧ call.pid = pid

/-- The names that lie under a process. -/
def names (pid : BitVec 32) (s : Reading) : Nat := if pid ∈ s.tmpMap then 1 else 0

variable {pidFilter : PidFilter} {pid : BitVec 32} {h : List Event} {s t : Reading} {e : Event}

/-- An entry adds a call and, if the process is filtered and there is room, makes the
name of the process the one of this call. -/
theorem step_enter {pidTgid : BitVec 64} {filename : Filename}
    (he : step pidFilter s (.enter pidTgid filename) = some t) :
    ∃ noted : Bool, t.calls = ⟨pidTgid, filename, noted⟩ ::ₘ s.calls ∧
      t.eventsOpen = s.eventsOpen ∧ (noted → Filtered pidFilter (tgid pidTgid)) ∧
      (Filtered pidFilter (tgid pidTgid) → tgid pidTgid ∈ s.tmpMap → noted) ∧
      t.tmpMap = if noted then s.tmpMap.insert (tgid pidTgid) filename else s.tmpMap := by
  simp only [step] at he
  split at he
  · cases he
    refine ⟨_, rfl, rfl, fun h => (of_decide_eq_true h).1,
      fun hfilter hmem => decide_eq_true ⟨hfilter, Or.inl hmem⟩, ?_⟩
    unfold detectFileOpen
    by_cases hfilter : Filtered pidFilter (tgid pidTgid)
    · by_cases hroom : HasRoom s.tmpMap (tgid pidTgid)
      · simp [hfilter, hroom]
      · simp [hfilter, hroom]
    · simp [hfilter]
  · cases he

/-- A return takes the name that lies under the process, if any does, and sends it with
the descriptor. -/
theorem detectFileOpenRet_eq (tmpMap : TmpMap) (pidTgid : BitVec 64) (ret : BitVec 32) :
    detectFileOpenRet tmpMap pidTgid ret =
      (tmpMap.erase (tgid pidTgid),
        (tmpMap.lookup (tgid pidTgid)).map fun filename => ⟨tgid pidTgid, ret, filename⟩) := by
  unfold detectFileOpenRet
  dsimp only
  cases hname : tmpMap.lookup (tgid pidTgid) with
  | none => rw [GoMap.erase_of_notMem (Finmap.lookup_eq_none.1 hname), Option.map_none]
  | some filename => rfl

theorem step_leave {call : OpenCall} {ret : BitVec 32}
    (he : step pidFilter s (.leave call ret) = some t) :
    call ∈ s.calls ∧ t.calls = s.calls.erase call ∧ t.tmpMap = s.tmpMap.erase call.pid ∧
      t.eventsOpen = s.eventsOpen ++
        ((s.tmpMap.lookup call.pid).map fun filename => ⟨call.pid, ret, filename⟩).toList := by
  simp only [step, detectFileOpenRet_eq] at he
  split at he
  · rename_i hcall
    cases he
    exact ⟨hcall, rfl, rfl, rfl⟩
  · cases he

theorem notedCalls_enter {pidTgid : BitVec 64} {filename : Filename} {noted : Bool}
    (hcalls : t.calls = ⟨pidTgid, filename, noted⟩ ::ₘ s.calls) :
    notedCalls pid t = notedCalls pid s + if noted ∧ tgid pidTgid = pid then 1 else 0 := by
  unfold notedCalls
  rw [hcalls, Multiset.countP_cons]
  rfl

theorem notedCalls_leave (pid : BitVec 32) {call : OpenCall} (hcall : call ∈ s.calls)
    (hcalls : t.calls = s.calls.erase call) :
    notedCalls pid s = notedCalls pid t + if call.noted ∧ call.pid = pid then 1 else 0 := by
  unfold notedCalls
  rw [hcalls, ← Multiset.countP_cons, Multiset.cons_erase hcall]

theorem names_enter {pidTgid : BitVec 64} {filename : Filename} {noted : Bool}
    (hmap : t.tmpMap = if noted then s.tmpMap.insert (tgid pidTgid) filename else s.tmpMap) :
    names pid t = if noted ∧ tgid pidTgid = pid then 1 else names pid s := by
  unfold names
  rw [hmap]
  cases noted with
  | false => simp
  | true =>
      simp only [if_true, true_and, Finmap.mem_insert]
      by_cases hpid : tgid pidTgid = pid
      · rw [if_pos hpid, if_pos (Or.inl hpid.symm)]
      · rw [if_neg hpid]
        simp only [Ne.symm hpid, false_or]

theorem names_leave {call : OpenCall} (hmap : t.tmpMap = s.tmpMap.erase call.pid) :
    names pid t = if call.pid = pid then 0 else names pid s := by
  unfold names
  rw [hmap]
  simp only [Finmap.mem_erase]
  by_cases hpid : call.pid = pid
  · rw [if_pos hpid, if_neg fun h => h.1 hpid.symm]
  · rw [if_neg hpid]
    simp only [Ne.symm hpid, ne_eq, not_false_eq_true, true_and]

/-- A return pairs a name with its descriptor if the name under the process is that of
the call, and is there when the call was noted. -/
theorem pairs_leave_iff {call : OpenCall} {ret : BitVec 32}
    (he : step pidFilter s (.leave call ret) = some t) :
    Pairs h s (.leave call ret) t ↔
      (∀ filename, s.tmpMap.lookup call.pid = some filename → filename = call.filename) ∧
        (call.noted → call.pid ∈ s.tmpMap) := by
  obtain ⟨-, -, -, hevents⟩ := step_leave he
  show (∃ emitted, t.eventsOpen = s.eventsOpen ++ emitted ∧
    (∀ ev ∈ emitted, ev = ⟨call.pid, ret, call.filename⟩) ∧
      (call.noted → emitted.length = 1)) ↔ _
  rw [hevents]
  cases hname : s.tmpMap.lookup call.pid with
  | none =>
      have hnone : call.pid ∉ s.tmpMap := Finmap.lookup_eq_none.1 hname
      constructor
      · rintro ⟨emitted, heq, -, hone⟩
        rw [← List.append_cancel_left heq] at hone
        refine ⟨fun filename hsome => (by cases hsome), fun hnoted => ?_⟩
        exact absurd (hone hnoted) Nat.zero_ne_one
      · rintro ⟨-, hnoted⟩
        exact ⟨[], rfl, fun _ hev => absurd hev List.not_mem_nil,
          fun hcall => absurd (hnoted hcall) hnone⟩
  | some filename =>
      have hmem : call.pid ∈ s.tmpMap := Finmap.mem_of_lookup_eq_some hname
      constructor
      · rintro ⟨emitted, heq, hown, -⟩
        rw [← List.append_cancel_left heq] at hown
        refine ⟨fun filename' hsome => ?_, fun _ => hmem⟩
        cases hsome
        exact congrArg OpenEventT.filename (hown _ List.mem_cons_self)
      · rintro ⟨hown, -⟩
        refine ⟨[⟨call.pid, ret, filename⟩], rfl, fun ev hev => ?_, fun _ => rfl⟩
        rw [List.mem_singleton.1 hev, hown filename rfl]

/-! ## Enough -/

/-- Every noted call has its name under its process, and no process has two. -/
structure Matched (s : Reading) : Prop where
  own : ∀ call ∈ s.calls, call.noted → s.tmpMap.lookup call.pid = some call.filename
  balance : ∀ pid, notedCalls pid s = names pid s

theorem matched_start : Matched start where
  own call hcall := absurd hcall (Multiset.notMem_zero call)
  balance _ := rfl

theorem matched_enter {pidTgid : BitVec 64} {filename : Filename} (hs : Matched s)
    (hguard : NoneWaiting pidFilter s (.enter pidTgid filename))
    (he : step pidFilter s (.enter pidTgid filename) = some t) : Matched t := by
  obtain ⟨noted, hcalls, -, hfilter, -, hmap⟩ := step_enter he
  have hfree : noted → tgid pidTgid ∉ s.tmpMap := fun hnoted => hguard (hfilter hnoted)
  constructor
  · intro call hcall hnoted
    rw [hcalls, Multiset.mem_cons] at hcall
    rcases hcall with rfl | hcall
    · rw [hmap, if_pos hnoted]
      exact Finmap.lookup_insert _
    · have hown := hs.own call hcall hnoted
      cases noted with
      | false => rw [hmap, if_neg Bool.false_ne_true, hown]
      | true =>
          have hne : call.pid ≠ tgid pidTgid := by
            intro hpid
            exact hfree rfl (hpid ▸ Finmap.mem_of_lookup_eq_some hown)
          rw [hmap, if_pos rfl, Finmap.lookup_insert_of_ne _ hne, hown]
  · intro pid
    rw [notedCalls_enter hcalls, names_enter hmap, hs.balance]
    by_cases hnew : noted = true ∧ tgid pidTgid = pid
    · have hnone : names pid s = 0 := if_neg (hnew.2 ▸ hfree hnew.1)
      rw [if_pos hnew, if_pos hnew, hnone]
    · rw [if_neg hnew, if_neg hnew, Nat.add_zero]

theorem matched_leave {call : OpenCall} {ret : BitVec 32} (hs : Matched s)
    (hguard : NoneWaiting pidFilter s (.leave call ret))
    (he : step pidFilter s (.leave call ret) = some t) : Matched t := by
  obtain ⟨hcall, hcalls, hmap, -⟩ := step_leave he
  have hbalance : ∀ pid, notedCalls pid t = names pid t := by
    intro pid
    have hcount := notedCalls_leave pid hcall hcalls
    rw [hs.balance] at hcount
    rw [names_leave hmap]
    by_cases hpid : call.pid = pid
    · cases hnoted : call.noted with
      | true =>
          have hone : names pid s = 1 :=
            if_pos (hpid ▸ Finmap.mem_of_lookup_eq_some (hs.own call hcall hnoted))
          rw [hnoted, hone, if_pos ⟨rfl, hpid⟩] at hcount
          rw [if_pos hpid]
          omega
      | false =>
          have hnone : names pid s = 0 := if_neg (hpid ▸ hguard hnoted)
          rw [hnoted, hnone, if_neg fun h => Bool.false_ne_true h.1] at hcount
          rw [if_pos hpid]
          omega
    · rw [if_neg fun h => hpid h.2] at hcount
      rw [if_neg hpid]
      exact hcount.symm
  constructor
  · intro other hother hnoted
    have hne : other.pid ≠ call.pid := by
      intro hpid
      -- the process has no name any more, and so no noted call
      have hnone : notedCalls other.pid t = 0 := by
        rw [hbalance, names_leave hmap, if_pos hpid.symm]
      exact Multiset.countP_eq_zero.1 hnone other hother ⟨hnoted, rfl⟩
    rw [hmap, Finmap.lookup_erase_ne hne]
    rw [hcalls] at hother
    exact hs.own other (Multiset.mem_of_mem_erase hother) hnoted
  · exact hbalance

theorem matched_step (hs : Matched s) (hguard : NoneWaiting pidFilter s e)
    (he : step pidFilter s e = some t) : Matched t := by
  cases e with
  | enter pidTgid filename => exact matched_enter hs hguard he
  | leave call ret => exact matched_leave hs hguard he

theorem pairs_of_matched (hs : Matched s) (hguard : NoneWaiting pidFilter s e)
    (he : step pidFilter s e = some t) : Pairs h s e t := by
  cases e with
  | enter pidTgid filename =>
      obtain ⟨-, -, hevents, -⟩ := step_enter he
      exact hevents
  | leave call ret =>
      obtain ⟨hcall, -⟩ := step_leave he
      rw [pairs_leave_iff he]
      cases hnoted : call.noted with
      | true =>
          have hown := hs.own call hcall hnoted
          refine ⟨fun filename hsome => ?_, fun _ => Finmap.mem_of_lookup_eq_some hown⟩
          exact (Option.some.inj (hown.symm.trans hsome)).symm
      | false =>
          refine ⟨fun filename hsome => ?_, fun h => absurd h Bool.false_ne_true⟩
          exact absurd (Finmap.mem_of_lookup_eq_some hsome) (hguard hnoted)

/-! ## And needed -/

/-- A step that pairs as it ought to adds no name without a noted call, and takes no
noted call away without a name; it keeps the balance only if it meets the condition. -/
theorem balance_step (hpairs : Pairs h s e t) (he : step pidFilter s e = some t) :
    (∀ pid, names pid t + notedCalls pid s ≤ names pid s + notedCalls pid t) ∧
      ((∀ pid, names pid t + notedCalls pid s = names pid s + notedCalls pid t) →
        NoneWaiting pidFilter s e) := by
  cases e with
  | enter pidTgid filename =>
      obtain ⟨noted, hcalls, -, -, hnoted, hmap⟩ := step_enter he
      constructor
      · intro pid
        rw [notedCalls_enter hcalls, names_enter hmap]
        split <;> omega
      · intro heq hfilter hmem
        have hpid := heq (tgid pidTgid)
        rw [notedCalls_enter hcalls, names_enter hmap, if_pos ⟨hnoted hfilter hmem, rfl⟩,
          if_pos ⟨hnoted hfilter hmem, rfl⟩, names, if_pos hmem] at hpid
        omega
  | leave call ret =>
      obtain ⟨hcall, hcalls, hmap, -⟩ := step_leave he
      have hname := ((pairs_leave_iff he).1 hpairs).2
      constructor
      · intro pid
        rw [notedCalls_leave pid hcall hcalls, names_leave hmap]
        by_cases hpid : call.pid = pid
        · rw [if_pos hpid]
          by_cases hnoted : call.noted = true
          · have hone : names pid s = 1 := if_pos (hpid ▸ hname hnoted)
            rw [if_pos ⟨hnoted, hpid⟩, hone]
            omega
          · rw [if_neg fun h => hnoted h.1]
            omega
        · rw [if_neg hpid, if_neg fun h => hpid h.2]
          omega
      · intro heq hnoted hmem
        have hpid := heq call.pid
        rw [notedCalls_leave call.pid hcall hcalls, names_leave hmap, if_pos rfl,
          hnoted, if_neg fun h => Bool.false_ne_true h.1, names, if_pos hmem] at hpid
        omega

/-- Names that are written over stay missing. -/
theorem guarded_of_pairs :
    ∀ h s, EveryStep (step pidFilter) start Pairs h → run (step pidFilter) start h = some s →
      (∀ pid, names pid s ≤ notedCalls pid s) ∧
        ((∀ pid, names pid s = notedCalls pid s) →
          Guarded (step pidFilter) start (NoneWaiting pidFilter) h) := by
  intro h
  induction h with
  | nil =>
      intro s _ hs
      cases hs
      exact ⟨fun _ => Nat.le_refl 0, fun _ => trivial⟩
  | cons e h ih =>
      intro t hpairs ht
      obtain ⟨s, hs, he⟩ := run_cons_eq_some.1 ht
      obtain ⟨hle, hguarded⟩ := ih s hpairs.1 hs
      obtain ⟨hstep, hwaiting⟩ := balance_step (hpairs.2 s t hs he) he
      refine ⟨fun pid => by have := hstep pid; have := hle pid; omega, fun heq => ?_⟩
      have hsame : ∀ pid, names pid s = notedCalls pid s := by
        intro pid
        have := hstep pid
        have := hle pid
        have := heq pid
        omega
      refine ⟨hguarded hsame, fun s' hs' => ?_⟩
      cases hs.symm.trans hs'
      exact hwaiting fun pid => by have := heq pid; have := hsame pid; omega

/-- **Names and descriptors belong together in every run in which no call of a filtered
process begins, and none that was not noted ends, while a name lies under the process;
and of the runs in which all calls return only in these.** -/
theorem everyStep_pairs (pidFilter : PidFilter) (events : List Event) :
    (Guarded (step pidFilter) start (NoneWaiting pidFilter) events →
        EveryStep (step pidFilter) start Pairs events) ∧
      ∀ s, run (step pidFilter) start events = some s → s.calls = 0 →
        EveryStep (step pidFilter) start Pairs events →
          Guarded (step pidFilter) start (NoneWaiting pidFilter) events := by
  constructor
  · apply everyStep_of_guarded (I := fun _ => Matched) matched_start
    · exact fun h s e t hs hguard he => matched_step hs hguard he
    · exact fun h s e t hs hguard he => pairs_of_matched hs hguard he
  · intro s hs hcalls hpairs
    obtain ⟨hle, hguarded⟩ := guarded_of_pairs events s hpairs hs
    refine hguarded fun pid => ?_
    have hnone : notedCalls pid s = 0 := by
      rw [notedCalls, hcalls]
      rfl
    have := hle pid
    omega

/-- The name of one character. -/
def named (c : BitVec 8) : Filename := fun k => if k = 0 then c else 0

/-- Two threads of process 7 open the files a and b, and one of process 9 the file c. -/
def openA : OpenCall := ⟨0x700000007, named 0x61, true⟩

def openB : OpenCall := ⟨0x700000008, named 0x62, true⟩

def openC : OpenCall := ⟨0x900000009, named 0x63, true⟩

/-- Both processes are filtered. -/
def sevenAndNine : PidFilter := fun id => if id = 0 then 7 else 9

/-- Newest first: the threads of process 7 open their files one after the other, and
process 9 is in its own call while the first returns and the second enters. -/
def twoProcesses : List Event :=
  [.leave openB 4, .leave openC 5, .enter openB.pidTgid openB.filename, .leave openA 3,
    .enter openC.pidTgid openC.filename, .enter openA.pidTgid openA.filename]

/-- Each of the three calls yields one event with its own name and descriptor. -/
theorem everyStep_pairs_twoProcesses :
    EveryStep (step sevenAndNine) start Pairs twoProcesses ∧
      ∃ s, run (step sevenAndNine) start twoProcesses = some s ∧
        s.eventsOpen = [⟨7, 3, named 0x61⟩, ⟨9, 5, named 0x63⟩, ⟨7, 4, named 0x62⟩] := by
  refine ⟨(everyStep_pairs _ _).1 ?_, _, rfl, rfl⟩
  unfold twoProcesses
  refine ⟨⟨⟨⟨⟨⟨trivial, ?_⟩, ?_⟩, ?_⟩, ?_⟩, ?_⟩, ?_⟩
  all_goals
    intro s hs
    cases hs
    decide

/-- The first thread gets descriptor 3 after the second has begun. -/
theorem name_of_other_call :
    ¬ EveryStep (step fun _ => 7) start Pairs
        [.leave openA 3, .enter openB.pidTgid openB.filename,
          .enter openA.pidTgid openA.filename] := by
  intro h
  let opened : Reading :=
    { tmpMap := ((∅ : TmpMap).insert 7 openA.filename).insert 7 openB.filename
      eventsOpen := []
      calls := openB ::ₘ openA ::ₘ 0 }
  have hrun : run (step fun _ => 7) start
      [.enter openB.pidTgid openB.filename, .enter openA.pidTgid openA.filename] =
        some opened := rfl
  have hcall : openA ∈ opened.calls := by
    show openA ∈ openB ::ₘ openA ::ₘ 0
    simp
  obtain ⟨t, hleave⟩ : ∃ t, step (fun _ => 7) opened (.leave openA 3) = some t :=
    ⟨_, by rw [step, if_pos hcall]⟩
  have hown := (pairs_leave_iff hleave).1 (h.2 opened t hrun hleave)
  have hname := congrFun (hown.1 openB.filename (Finmap.lookup_insert _)) 0
  exact absurd hname (by decide)

end Kmon.Ports.FileReader
