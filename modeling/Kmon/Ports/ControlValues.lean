import Kmon.Verified.Run
import Kmon.Ports.NotifyOrder

/-!
# The values in the control maps

The signal loops of tcpreq, biostat, tcpdrop and offcpu (`src/collector`) write
`control_map` on two paths: a PID from `AddCh` gets a new record, and
`onConfigChange` assigns the fields of every record there is.  The loops differ in
their types and in what they write, so they share one definition, `SignalLoop`.

On both paths tcpreq, biostat and tcpdrop take the values from `collector.conf`.
The loop of offcpu takes those for a new PID from `conf`, which is there the variable
of `StartOffcpu`: the `conf` of the select case before is another variable.

A record is its fields here; for its bytes see `ControlRecords`.  The PIDs may come
in any order, whatever the listener announced.
-/

namespace Kmon.Ports.ControlValues

open Kmon.Verified
open Kmon.Verified.Run
open Kmon.Ports.Config
open Kmon.Ports.InfoStore
open Kmon.Ports.PidListener (PIDLis newPIDLis Delta)
open Kmon.Ports.NotifyOrder (uint32)

/-! ## The records -/

/-- `tcpControlMap`. -/
structure TcpControlMap where
  Verbose : BitVec 32
  deriving DecidableEq, Repr

/-- `bioControlMap`. -/
structure BioControlMap where
  Verbose : BitVec 32
  BinScale : BitVec 64
  deriving DecidableEq, Repr

/-- `tcpdropControlMap`. -/
structure TcpdropControlMap where
  Verbose : BitVec 32
  deriving DecidableEq, Repr

/-- `offcpuControlMap`. -/
structure OffcpuControlMap where
  Verbose : BitVec 32
  State : BitVec 32
  TimeStart : BitVec 32
  TimeEnd : BitVec 32
  deriving DecidableEq, Repr

/-- What `SetP` copies of a `bioControlMap` into the shorter record of tcpdrop. -/
def BioControlMap.cut (con : BioControlMap) : TcpdropControlMap := ⟨con.Verbose⟩

/-! ## The loops -/

/-- What the loops differ in.  `added` is the record for a new PID, given the `conf` of
the enclosing function and `collector.conf`; `assign` is the body of the loop of
`onConfigChange`, which leaves nothing of the old record. -/
structure SignalLoop (Conf Rec : Type) where
  zero : Conf
  listenConfig : Conf → ListenConfig
  added : Conf → Conf → Rec
  assign : Conf → Rec → Rec
  record : Conf → Rec
  assign_eq : ∀ conf val, assign conf val = record conf

/-- `config.ExportConfig{}`. -/
def noExport : ExportConfig := ⟨0, "", []⟩

/-- The loop of `StartTcpreq`. -/
def tcpreq : SignalLoop ColTcpreq TcpControlMap where
  zero := ⟨"", 0, ListenConfig.zero, noExport⟩
  listenConfig := ColTcpreq.ListenConfig
  added _ current := ⟨current.Verbose⟩
  assign conf val := { val with Verbose := conf.Verbose }
  record conf := ⟨conf.Verbose⟩
  assign_eq _ _ := rfl

/-- The loop of `StartBiostat`. -/
def biostat : SignalLoop ColBiostat BioControlMap where
  zero := ⟨"", 0, 0, ListenConfig.zero, noExport⟩
  listenConfig := ColBiostat.ListenConfig
  added _ current := ⟨current.Verbose, current.BinScale⟩
  assign conf val := { val with Verbose := conf.Verbose, BinScale := conf.BinScale }
  record conf := ⟨conf.Verbose, conf.BinScale⟩
  assign_eq _ _ := rfl

/-- The loop of `StartTcpdrop`, which writes a `bioControlMap` for a new PID. -/
def tcpdrop : SignalLoop ColTcpdrop TcpdropControlMap where
  zero := ⟨"", 0, ListenConfig.zero, noExport⟩
  listenConfig := ColTcpdrop.ListenConfig
  added _ current := BioControlMap.cut ⟨current.Verbose, 0⟩
  assign conf val := { val with Verbose := conf.Verbose }
  record conf := ⟨conf.Verbose⟩
  assign_eq _ _ := rfl

/-- The loop of `StartOffcpu`. -/
def offcpu : SignalLoop ColOffcpu OffcpuControlMap where
  zero := ⟨"", 0, 0, 0, 0, ListenConfig.zero, noExport⟩
  listenConfig := ColOffcpu.ListenConfig
  added startConf _ :=
    ⟨startConf.Verbose, startConf.State, startConf.TimeStart, startConf.TimeEnd⟩
  assign conf val :=
    { val with
      Verbose := conf.Verbose
      State := conf.State
      TimeStart := conf.TimeStart
      TimeEnd := conf.TimeEnd }
  record conf := ⟨conf.Verbose, conf.State, conf.TimeStart, conf.TimeEnd⟩
  assign_eq _ _ := rfl

/-! ## The machine -/

variable {Conf Rec : Type}

/-- A collector, as far as its signal loop reads and writes it. -/
structure Collector (Conf Rec : Type) where
  conf : Conf
  pidLis : PIDLis
  controlMap : GoMap (BitVec 32) Rec

/-- What the loop receives.  A new configuration comes with the container store of that
moment and the keys in the order in which the table iterator visits them; an added PID
with whether the table takes a new key. -/
inductive Signal (Conf : Type) where
  | confCh (conf : Conf) (containerPID : ContainerPID) (order : List (BitVec 32))
  | addCh (addPID : Int) (room : Bool)
  | delCh (delPID : Int)

/-- `SetP`.  Nobody looks at the error of a full table. -/
def setP (m : GoMap (BitVec 32) Rec) (key : BitVec 32) (val : Rec) (room : Bool) :
    GoMap (BitVec 32) Rec :=
  if key ∈ m ∨ room = true then m.insert key val else m

/-- One round of the loop of `onConfigChange`. -/
def rewrite (L : SignalLoop Conf Rec) (conf : Conf) (m : GoMap (BitVec 32) Rec)
    (key : BitVec 32) : GoMap (BitVec 32) Rec :=
  match m.lookup key with
  | none => m
  | some val => m.insert key (L.assign conf val)

section MatchString

variable (matchString : String → String → Bool) (L : SignalLoop Conf Rec)

/-- `onConfigChange`, with the delta the listener announces. -/
def onConfigChange (containerPID : ContainerPID) (order : List (BitVec 32))
    (collector : Collector Conf Rec) (conf : Conf) : Collector Conf Rec × Delta :=
  let changed := PidListener.onConfigChange matchString containerPID collector.pidLis
    (L.listenConfig conf)
  ({ conf := conf
     pidLis := changed.1
     controlMap := order.foldl (rewrite L conf) collector.controlMap }, changed.2)

/-- The collector that the set-up function returns. -/
def setup : Collector Conf Rec :=
  { conf := L.zero, pidLis := newPIDLis ListenConfig.zero, controlMap := ∅ }

/-- The collector when the loop starts.  The table is still empty. -/
def start (conf : Conf) (containerPID : ContainerPID) : Collector Conf Rec :=
  (onConfigChange matchString L containerPID [] (setup L) conf).1

/-- One round of the loop of the function that was started with `conf`.  The iterator
visits the keys of the table and no others. -/
def step (conf : Conf) (collector : Collector Conf Rec) :
    Signal Conf → Option (Collector Conf Rec)
  | .confCh conf' containerPID order =>
      if order.toFinset = collector.controlMap.keys then
        some (onConfigChange matchString L containerPID order collector conf').1
      else none
  | .addCh addPID room =>
      some { collector with
        controlMap :=
          setP collector.controlMap (uint32 addPID) (L.added conf collector.conf) room }
  | .delCh delPID =>
      some { collector with controlMap := collector.controlMap.erase (uint32 delPID) }

end MatchString

/-- Every record is that of `collector.conf`. -/
def Current (L : SignalLoop Conf Rec) (collector : Collector Conf Rec) : Prop :=
  ∀ key val, collector.controlMap.lookup key = some val → val = L.record collector.conf

/-- Every record agrees with `collector.conf`. -/
def Agree (agrees : Conf → Rec → Prop) (collector : Collector Conf Rec) : Prop :=
  ∀ key val, collector.controlMap.lookup key = some val → agrees collector.conf val

/-- The record for a PID that is added is that of `collector.conf`. -/
def AddsCurrent (L : SignalLoop Conf Rec) (conf : Conf) (collector : Collector Conf Rec) :
    Signal Conf → Prop
  | .addCh addPID room => uint32 addPID ∈ collector.controlMap ∨ room = true →
      L.added conf collector.conf = L.record collector.conf
  | _ => True

/-- A configuration change adds and removes no key; an added or deleted PID concerns no
other key. -/
def KeepsKeys (_ : List (Signal Conf)) (s : Collector Conf Rec) (e : Signal Conf)
    (t : Collector Conf Rec) : Prop :=
  match e with
  | .confCh _ _ _ => t.controlMap.keys = s.controlMap.keys
  | .addCh pid _ | .delCh pid =>
      ∀ key, key ≠ uint32 pid → t.controlMap.lookup key = s.controlMap.lookup key

/-- The configuration received last, or the one at the start. -/
def latest (conf : Conf) : List (Signal Conf) → Conf
  | [] => conf
  | .confCh conf' _ _ :: _ => conf'
  | _ :: signals => latest conf signals

/-! ## One round -/

variable {matchString : String → String → Bool} {L : SignalLoop Conf Rec}

theorem lookup_rewrite (conf : Conf) (m : GoMap (BitVec 32) Rec) (key key' : BitVec 32) :
    (rewrite L conf m key).lookup key' =
      if key' = key then (m.lookup key').map fun _ => L.record conf else m.lookup key' := by
  unfold rewrite
  cases hlook : m.lookup key with
  | none =>
      by_cases hk : key' = key
      · rw [if_pos hk, hk, hlook, Option.map_none]
      · rw [if_neg hk]
  | some val =>
      rw [GoMap.lookup_insert_ite, L.assign_eq]
      by_cases hk : key' = key
      · rw [if_pos hk, if_pos hk, hk, hlook, Option.map_some]
      · rw [if_neg hk, if_neg hk]

/-- The loop of `onConfigChange` writes the new record under the keys it visits. -/
theorem lookup_foldl_rewrite (conf : Conf) (order : List (BitVec 32))
    (m : GoMap (BitVec 32) Rec) (key : BitVec 32) :
    (order.foldl (rewrite L conf) m).lookup key =
      if key ∈ order then (m.lookup key).map fun _ => L.record conf else m.lookup key := by
  induction order generalizing m with
  | nil => simp
  | cons key' order ih =>
      rw [List.foldl_cons, ih, lookup_rewrite]
      by_cases hk : key = key'
      · simp [hk, Function.comp_def]
      · simp [hk]

/-- After a configuration change every key holds the new record. -/
theorem lookup_onConfigChange {containerPID : ContainerPID} {order : List (BitVec 32)}
    {collector : Collector Conf Rec} (horder : order.toFinset = collector.controlMap.keys)
    (conf : Conf) (key : BitVec 32) :
    (onConfigChange matchString L containerPID order collector conf).1.controlMap.lookup key =
      (collector.controlMap.lookup key).map fun _ => L.record conf := by
  rw [onConfigChange, lookup_foldl_rewrite]
  by_cases hk : key ∈ order
  · rw [if_pos hk]
  · have hnone : collector.controlMap.lookup key = none := by
      rw [Finmap.lookup_eq_none, ← Finmap.mem_keys, ← horder, List.mem_toFinset]
      exact hk
    rw [if_neg hk, hnone, Option.map_none]

theorem current_onConfigChange {containerPID : ContainerPID} {order : List (BitVec 32)}
    {collector : Collector Conf Rec} (horder : order.toFinset = collector.controlMap.keys)
    (conf : Conf) :
    Current L (onConfigChange matchString L containerPID order collector conf).1 := by
  intro key val hval
  rw [lookup_onConfigChange horder, Option.map_eq_some_iff] at hval
  obtain ⟨_, _, heq⟩ := hval
  exact heq.symm

theorem current_start (conf : Conf) (containerPID : ContainerPID) :
    Current L (start matchString L conf containerPID) :=
  current_onConfigChange (by rfl) conf

/-- One round keeps the records current exactly when it adds a current one. -/
theorem current_step_iff {conf : Conf} {s t : Collector Conf Rec} {e : Signal Conf}
    (hs : Current L s) (he : step matchString L conf s e = some t) :
    Current L t ↔ AddsCurrent L conf s e := by
  cases e with
  | confCh conf' containerPID order =>
      rw [step] at he
      split at he
      · cases he
        exact iff_of_true (current_onConfigChange ‹_› conf') trivial
      · cases he
  | addCh addPID room =>
      cases he
      unfold Current AddsCurrent setP
      by_cases htaken : uint32 addPID ∈ s.controlMap ∨ room = true
      · simp only [if_pos htaken]
        constructor
        · exact fun hcur _ => hcur _ _ (Finmap.lookup_insert _)
        · intro hnew key val hval
          rw [GoMap.lookup_insert_ite] at hval
          split at hval
          · cases hval
            exact hnew htaken
          · exact hs key val hval
      · simp only [if_neg htaken]
        exact iff_of_true hs fun h => absurd h htaken
  | delCh delPID =>
      cases he
      refine iff_of_true (fun key val hval => ?_) trivial
      rw [GoMap.lookup_erase_ite] at hval
      split at hval
      · cases hval
      · exact hs key val hval

theorem keepsKeys_step {conf : Conf} {signals : List (Signal Conf)} {s t : Collector Conf Rec}
    {e : Signal Conf} (he : step matchString L conf s e = some t) : KeepsKeys signals s e t := by
  cases e with
  | confCh conf' containerPID order =>
      rw [step] at he
      split at he
      · cases he
        ext key
        rw [GoMap.mem_keys_iff, GoMap.mem_keys_iff, lookup_onConfigChange ‹_›]
        simp
      · cases he
  | addCh addPID room =>
      cases he
      intro key hkey
      dsimp only [setP]
      split
      · exact Finmap.lookup_insert_of_ne _ hkey
      · rfl
  | delCh delPID =>
      cases he
      exact fun key hkey => Finmap.lookup_erase_ne hkey

/-! ## Every run -/

/-- The records are current throughout a run exactly when every added one is. -/
theorem everyState_current_iff (conf : Conf) (containerPID : ContainerPID)
    (signals : List (Signal Conf)) :
    EveryState (step matchString L conf) (start matchString L conf containerPID)
        (fun _ => Current L) signals ↔
      Guarded (step matchString L conf) (start matchString L conf containerPID)
        (AddsCurrent L conf) signals := by
  refine everyState_iff_guarded (I := fun _ _ => True) (fun _ _ _ => trivial) ?_ ?_ ?_ signals
  · exact current_start conf containerPID
  · exact fun _ s e t _ hs he => current_step_iff hs he
  · intro _ s e _ hnone
    cases e with
    | addCh addPID room => cases hnone
    | _ => trivial

/-- The property in terms of the fields of a record. -/
theorem current_eq_agree {agrees : Conf → Rec → Prop}
    (h : ∀ conf val, agrees conf val ↔ val = L.record conf) : Current L = Agree agrees := by
  funext collector
  refine propext (forall_congr' fun key => forall_congr' fun val => ?_)
  rw [h]

/-- A loop that takes the values for a new PID from `collector.conf` keeps the records
current in every run. -/
theorem everyState_agree {agrees : Conf → Rec → Prop}
    (hagrees : ∀ conf val, agrees conf val ↔ val = L.record conf)
    (hadded : ∀ startConf current, L.added startConf current = L.record current)
    (conf : Conf) (containerPID : ContainerPID) (signals : List (Signal Conf)) :
    EveryState (step matchString L conf) (start matchString L conf containerPID)
      (fun _ => Agree agrees) signals := by
  rw [← current_eq_agree hagrees, everyState_current_iff]
  refine guarded_of_forall (fun s e => ?_) signals
  cases e with
  | addCh addPID room => exact fun _ => hadded conf s.conf
  | _ => trivial

/-- `collector.conf` is the configuration received last. -/
theorem everyState_conf (conf : Conf) (containerPID : ContainerPID)
    (signals : List (Signal Conf)) :
    EveryState (step matchString L conf) (start matchString L conf containerPID)
      (fun signals collector => collector.conf = latest conf signals) signals := by
  refine everyState_of_run (run_invariant ?_ ?_) signals
  · rfl
  intro h s e t _ hconf he
  cases e with
  | confCh conf' containerPID order =>
      simp only [step] at he
      split at he
      · cases he
        rfl
      · cases he
  | addCh addPID room =>
      cases he
      exact hconf
  | delCh delPID =>
      cases he
      exact hconf

theorem everyStep_keepsKeys (conf : Conf) (containerPID : ContainerPID)
    (signals : List (Signal Conf)) :
    EveryStep (step matchString L conf) (start matchString L conf containerPID) KeepsKeys
      signals := by
  refine everyStep_of_invariant (I := fun _ _ => True) (fun _ _ _ => trivial) ?_ signals
  exact fun _ s e t _ he => keepsKeys_step he

/-! ## The four collectors -/

/-- **tcpreq, biostat and tcpdrop: in every run every record carries the current
configuration, a configuration change adds and removes no key, and the other steps leave
the other keys alone.** -/
theorem everyState_controlCurrent (matchString : String → String → Bool) :
    (∀ conf containerPID signals,
      EveryState (step matchString tcpreq conf) (start matchString tcpreq conf containerPID)
          (fun _ => Agree fun conf val => val.Verbose = conf.Verbose) signals ∧
        EveryStep (step matchString tcpreq conf) (start matchString tcpreq conf containerPID)
          KeepsKeys signals) ∧
    (∀ conf containerPID signals,
      EveryState (step matchString biostat conf) (start matchString biostat conf containerPID)
          (fun _ => Agree fun conf val =>
            val.Verbose = conf.Verbose ∧ val.BinScale = conf.BinScale) signals ∧
        EveryStep (step matchString biostat conf) (start matchString biostat conf containerPID)
          KeepsKeys signals) ∧
    (∀ conf containerPID signals,
      EveryState (step matchString tcpdrop conf) (start matchString tcpdrop conf containerPID)
          (fun _ => Agree fun conf val => val.Verbose = conf.Verbose) signals ∧
        EveryStep (step matchString tcpdrop conf) (start matchString tcpdrop conf containerPID)
          KeepsKeys signals) := by
  refine ⟨fun conf containerPID signals => ⟨?_, everyStep_keepsKeys _ _ _⟩,
    fun conf containerPID signals => ⟨?_, everyStep_keepsKeys _ _ _⟩,
    fun conf containerPID signals => ⟨?_, everyStep_keepsKeys _ _ _⟩⟩
  · exact everyState_agree (fun conf val => by cases val; simp [tcpreq]) (fun _ _ => rfl) _ _ _
  · exact everyState_agree (fun conf val => by cases val; simp [biostat]) (fun _ _ => rfl) _ _ _
  · exact everyState_agree (fun conf val => by cases val; simp [tcpdrop]) (fun _ _ => rfl) _ _ _

/-- The four parameters in a record of offcpu. -/
def OffcpuAgrees (conf : ColOffcpu) (val : OffcpuControlMap) : Prop :=
  val.Verbose = conf.Verbose ∧ val.State = conf.State ∧
    val.TimeStart = conf.TimeStart ∧ val.TimeEnd = conf.TimeEnd

/-- The four parameters of the two configurations are equal. -/
def SameParameters (conf conf' : ColOffcpu) : Prop :=
  conf.Verbose = conf'.Verbose ∧ conf.State = conf'.State ∧
    conf.TimeStart = conf'.TimeStart ∧ conf.TimeEnd = conf'.TimeEnd

/-- The condition: when a PID is added, the configuration has the parameters of the one
at start-up again, or still. -/
def AddsAtStartup (conf : ColOffcpu) (collector : Collector ColOffcpu OffcpuControlMap) :
    Signal ColOffcpu → Prop
  | .addCh addPID room => uint32 addPID ∈ collector.controlMap ∨ room = true →
      SameParameters conf collector.conf
  | _ => True

theorem addsCurrent_offcpu (conf : ColOffcpu) :
    AddsCurrent offcpu conf = AddsAtStartup conf := by
  funext collector e
  cases e with
  | addCh addPID room =>
      simp only [AddsCurrent, AddsAtStartup, SameParameters, offcpu, OffcpuControlMap.mk.injEq]
  | _ => rfl

/-- **offcpu: the records carry the current configuration throughout a run exactly when
no PID is added while the parameters differ from those at start-up.** -/
theorem everyState_offcpu_iff (matchString : String → String → Bool) (conf : ColOffcpu)
    (containerPID : ContainerPID) (signals : List (Signal ColOffcpu)) :
    EveryState (step matchString offcpu conf) (start matchString offcpu conf containerPID)
        (fun _ => Agree OffcpuAgrees) signals ↔
      Guarded (step matchString offcpu conf) (start matchString offcpu conf containerPID)
        (AddsAtStartup conf) signals := by
  have hagrees : ∀ conf val, OffcpuAgrees conf val ↔ val = offcpu.record conf := by
    intro conf val
    cases val
    simp [OffcpuAgrees, offcpu]
  rw [← current_eq_agree hagrees, ← addsCurrent_offcpu]
  exact everyState_current_iff conf containerPID signals

/-- The verbosity is raised and the listener announces PID 7 again: its record goes back
to the verbosity of the start. -/
theorem announced_again_reverted :
    ¬ EveryState
        (step (fun _ _ => false) offcpu
          ⟨"offcpu", 2, 0, 1, 9, ⟨[7], []⟩, ⟨1, "offcpu", []⟩⟩)
        (start (fun _ _ => false) offcpu
          ⟨"offcpu", 2, 0, 1, 9, ⟨[7], []⟩, ⟨1, "offcpu", []⟩⟩ ∅)
        (fun _ => Agree OffcpuAgrees)
        [.addCh 7 true, .confCh ⟨"offcpu", 3, 0, 1, 9, ⟨[7], []⟩, ⟨1, "offcpu", []⟩⟩ ∅ [7],
          .addCh 7 true] := by
  intro h
  have hverbose := (h.last _ rfl 7 ⟨2, 0, 1, 9⟩ rfl).1
  revert hverbose
  decide

end Kmon.Ports.ControlValues
