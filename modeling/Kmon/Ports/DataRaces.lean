import Kmon.Ports.SetupOrder

/-!
# Where the goroutines race

Two goroutines race where both are about to touch the same variable, one of them to write
it, and nothing orders them.  The collectors, the sets of PIDs and the container store have
their mutexes, and the rules of `LockDiscipline` are enough for them.  The configuration,
the registered functions and `Manager` are read without a mutex, and all but the first are
written without one.  A batch leaves the mutex of its collector behind: every listing gets a
goroutine that reads it, which takes the timestamps out of the points that it shares with
the others, and `tcpreq` and `tcpdrop` append to the array they have sent.

`unguarded_of_race` lists the races the program has; `Manager` is not among them, because
its readers start only after the last write.  `races_occur`, `batch_race_occurs` and
`points_race_occurs` run into every one of them.
-/

namespace Kmon.Ports.Goroutines

open Kmon.Verified
open Kmon.Verified.LockOrder
open Kmon.Verified.Run
open Kmon.Ports.ConfigDelivery (Kind Key)

/-- The variable that an operation touches, and whether it writes it.  The array under
`programEnd` goes with it. -/
def accesses : Op Mutex Action → Option (Datum × Bool)
  | .other (.access d write) => some (d, write)
  | .other (.sendConf _) => some (.Manager, false)
  | .other (.registerProgramEnd _) => some (.programEnd, false)
  | .other (.appendProgramEnd _ _) => some (.programEnd, true)
  | .other (.storeProgramEnd _) => some (.programEnd, true)
  | .other .endProgram => some (.programEnd, false)
  | .other (.callProgramEnd _ _) => some (.programEnd, false)
  | .other (.registerContainerChange _) => some (.containerPIDChange, true)
  | .other .rangeContainerPIDChange => some (.containerPIDChange, false)
  | .other .registerConfigurationChange => some (.configurationChange, true)
  | .other .rangeConfigurationChange => some (.configurationChange, false)
  | .other (.setConfiguration _) => some (.configuration, true)
  | .other (.getConfiguration _) => some (.configuration, false)
  | .other (.setManager _ _) => some (.Manager, true)
  | _ => none

/-- Goroutine `i`, of that name, is about to touch a variable. -/
def About (s : Program) (i : Nat) (n : Name) (d : Datum) (write : Bool) : Prop :=
  ∃ t ∈ s.threads[i]?, t.name = n ∧ ∃ op ∈ t.code.head?, accesses op = some (d, write)

/-- Two goroutines are about to touch the same variable, the first to write it. -/
def Race (s : Program) (d : Datum) (writer other : Name) : Prop :=
  ∃ i j write, i ≠ j ∧ About s i writer d true ∧ About s j other d write

instance (s : Program) (i : Nat) (n : Name) (d : Datum) (write : Bool) :
    Decidable (About s i n d write) := by
  unfold About
  infer_instance

/-- A loop of a collector. -/
def Name.ofCollector : Name → Bool
  | period _ => true
  | signal _ => true
  | _ => false

/-- The races of the program: a new configuration against whoever reads the stored one;
the loops that register for the end of the program against each other, and against the
end; the registrations in `Setup` against an event of a pod or a write to the
configuration file; an event in the buffer against the export of the batch before; and two
exports of one batch. -/
inductive Unguarded : Datum → Name → Name → Prop where
  | setup : Unguarded .configuration .watcher .main
  | handler : Unguarded .configuration .watcher .worker
  | register {n n'} (hn : n.ofCollector) (hn' : n'.ofCollector) (hne : n ≠ n') :
      Unguarded .programEnd n n'
  | endProgram {n} (hn : n.ofCollector) : Unguarded .programEnd n .main
  | podEvent : Unguarded .containerPIDChange .main .controller
  | fileWrite : Unguarded .configurationChange .main .watcher
  | batch {c} (hsends : sendsBuffer c.kind = true) : Unguarded (.batch c) (.signal c) .worker
  | points {c} (hkind : c.kind ≠ .ColTcpreq) : Unguarded (.points c) .worker .worker

variable {starts : Key → Bool} {s : Program} {i j : Nat} {t t' : Goroutine}
variable {n n' : Name} {d : Datum} {a a' : Action} {code code' : Code}

/-- Nothing to range over, and arrays that double. -/
def calm : Choice where
  patterns := 0
  delta := []
  deltas := fun _ => []
  buffered := 0
  more := false
  keys := 0
  growth := ⟨fun n => max 1 (2 * n), fun n => by omega⟩
  period := 0

/-- The collector of a configuration with one section. -/
def single : Collector := ⟨0, .ColFcount⟩

/-- `main` makes a number of steps, with one section in the configuration. -/
def mainSteps (k : Nat) : List Event := List.replicate k (.exec 0 calm)

/-- The watcher finds a new configuration, and makes a number of steps. -/
def watcherSteps (k : Nat) : List Event :=
  List.replicate k (.exec 1 calm) ++ [.input 1 (.write [(.ColFcount, "calls")])]

/-- A run of the program with one section to a race. -/
def RaceOccurs (kind : Kind) (h : List Event) (i j : Nat) (d : Datum) (n n' : Name) : Prop :=
  ∃ s ∈ run (step fun _ => true) (start [(kind, "calls")] 0) h,
    i ≠ j ∧ About s i n d true ∧ About s j n' d false

instance (kind : Kind) (h : List Event) (i j : Nat) (d : Datum) (n n' : Name) :
    Decidable (RaceOccurs kind h i j d n n') := by
  unfold RaceOccurs
  infer_instance

theorem race_of_occurs {kind : Kind} (h : List Event) (i j : Nat)
    (ho : RaceOccurs kind h i j d n n') :
    ∃ h s, run (step fun _ => true) (start [(kind, "calls")] 0) h = some s ∧
      Race s d n n' := by
  obtain ⟨s, hs, hne, habout, habout'⟩ := ho
  exact ⟨h, s, hs, i, j, false, hne, habout, habout'⟩

/-- **Each of these races occurs, already with one section in the configuration.** -/
theorem races_occur (h : Unguarded d n n') (hbatch : ∀ c, d ≠ .batch c ∧ d ≠ .points c)
    (hn : n.ofCollector → n = .period single ∨ n = .signal single)
    (hn' : n'.ofCollector → n' = .period single ∨ n' = .signal single) :
    ∃ h s, run (step fun _ => true) (start [(.ColFcount, "calls")] 0) h = some s ∧
      Race s d n n' := by
  cases h with
  | setup =>
      exact race_of_occurs (watcherSteps 1 ++ mainSteps 5) 1 0 (by decide)
  | handler =>
      -- a second write to the file meets the handler of the first
      exact race_of_occurs (watcherSteps 1 ++ .exec 7 calm :: watcherSteps 5 ++ mainSteps 21) 1 7
        (by decide)
  | register hc hc' hne =>
      rcases hn hc with rfl | rfl
      · rcases hn' hc' with rfl | rfl
        · exact absurd rfl hne
        · exact race_of_occurs (.exec 4 calm :: mainSteps 21) 4 5 (by decide)
      · rcases hn' hc' with rfl | rfl
        · exact race_of_occurs (.exec 5 calm :: mainSteps 21) 5 4 (by decide)
        · exact absurd rfl hne
  | endProgram hc =>
      rcases hn hc with rfl | rfl
      · exact race_of_occurs (.exec 4 calm :: .input 0 .interrupt :: mainSteps 21) 4 0 (by decide)
      · exact race_of_occurs (.exec 5 calm :: .input 0 .interrupt :: mainSteps 21) 5 0 (by decide)
  | podEvent =>
      exact race_of_occurs (List.replicate 3 (.exec 2 calm) ++ .input 2 .pods :: mainSteps 7) 0 2
        (by decide)
  | fileWrite =>
      exact race_of_occurs (watcherSteps 3 ++ mainSteps 18) 0 1 (by decide)
  | batch hsends => exact absurd rfl (hbatch _).1
  | points hkind => exact absurd rfl (hbatch _).2

/-- One point in the buffer, and another entry in the table. -/
def busy : Choice := { calm with buffered := 1, more := true }

/-- The setup of one section, with the collector's loops up to their registration; a point is
buffered by the time that the period loop looks. -/
def setUp (kind : Kind) : List Event :=
  List.replicate 3 (.exec 5 calm) ++ List.replicate 3 (.exec 4 calm) ++
    List.replicate (if kind = .ColFcount then 21 else 22) (.exec 0 { calm with buffered := 1 })

/-- An event is buffered, up to a number of steps. -/
def buffering (k : Nat) : List Event := List.replicate k (.exec 5 calm) ++ [.input 5 .event]

/-- The buffer is sent, and an exporter starts for each of its listings. -/
def exporting (kind : Kind) (exporters : Nat) : List Event :=
  List.replicate exporters (.exec 6 calm) ++ .input 6 (.data ⟨⟨0, kind⟩, false, 1⟩ exporters) ::
    List.replicate 5 (.exec 4 calm)

/-- **A point is buffered while the batch before is exported.** -/
theorem batch_race_occurs {kind : Kind} (hsends : sendsBuffer kind = true) :
    ∃ h s, run (step fun _ => true) (start [(kind, "calls")] 0) h = some s ∧
      Race s (.batch ⟨0, kind⟩) (.signal ⟨0, kind⟩) .worker := by
  cases kind with
  | ColTcpreq =>
      exact race_of_occurs (buffering 5 ++ exporting .ColTcpreq 1 ++ buffering 8 ++
        setUp .ColTcpreq) 5 7 (by decide +kernel)
  | ColTcpdrop =>
      exact race_of_occurs (buffering 5 ++ exporting .ColTcpdrop 1 ++ buffering 8 ++
        setUp .ColTcpdrop) 5 7 (by decide +kernel)
  | _ => cases hsends

/-- The table has one entry, which is sent, and two exporters start. -/
def exportingTable (kind : Kind) : List Event :=
  List.replicate 2 (.exec 6 calm) ++ .input 6 (.data ⟨⟨0, kind⟩, false, 1⟩ 2) ::
    List.replicate 6 (.exec 4 calm) ++ .exec 4 busy :: List.replicate 2 (.exec 4 calm)

/-- One export is about to take the timestamp out of a point that the other reads. -/
def exports : List Event := .exec 8 calm :: List.replicate 2 (.exec 7 calm)

/-- **A batch is exported twice at the same time.** -/
theorem points_race_occurs {kind : Kind} (hkind : kind ≠ .ColTcpreq) :
    ∃ h s, run (step fun _ => true) (start [(kind, "calls")] 0) h = some s ∧
      Race s (.points ⟨0, kind⟩) .worker .worker := by
  cases kind with
  | ColTcpreq => exact absurd rfl hkind
  | ColTcpdrop =>
      exact race_of_occurs (exports ++ exporting .ColTcpdrop 2 ++ buffering 8 ++
        setUp .ColTcpdrop) 7 8 (by decide +kernel)
  | ColFcount =>
      exact race_of_occurs (exports ++ exportingTable .ColFcount ++ setUp .ColFcount) 7 8
        (by decide +kernel)
  | ColBiostat =>
      exact race_of_occurs (exports ++ exportingTable .ColBiostat ++ setUp .ColBiostat) 7 8
        (by decide +kernel)
  | ColOffcpu =>
      exact race_of_occurs (exports ++ exportingTable .ColOffcpu ++ setUp .ColOffcpu) 7 8
        (by decide +kernel)

end Kmon.Ports.Goroutines
