import Kmon.Verified.GoMap
import Kmon.Verified.GoSlice
import Kmon.Verified.LockOrder
import Kmon.Verified.Run
import Kmon.Ports.Config
import Kmon.Ports.ConfigDelivery
import Kmon.Ports.WaitPeriod

/-!
# The goroutines of the program

What runs beside what, from the first `go` of `programStart` (`src/cmd/root.go`) to the
end of the process: `main`, which sets the parts up and ends them, the watcher of the
configuration file, the controller of the pods, the loop of the exporters, two loops for
every collector, and the short goroutines that these start to notify each other.

A goroutine is the list of what it has still to do: to lock or unlock a mutex, or an
action on the variables and channels that the goroutines share.  Of the data only what
decides who runs is kept: the registered functions with the arrays they are in, the names
in the configuration and in `Manager`, and what lies in the channels.  How long a loop over
the rest is (the patterns of a section, the PIDs of a delta, the listings of a batch) is
chosen anew wherever the program comes to it.  A loop over a table of the kernel need not
end: whether there is another entry is chosen every time it goes round.

Handlers that start before the first `go` (`NewGetter`, the first `SetConfiguration`)
belong to the start state.
-/

namespace Kmon.Ports.Goroutines

open Kmon.Verified
open Kmon.Verified.GoSlice
open Kmon.Verified.LockOrder
open Kmon.Ports.Config (ListenConfig)
open Kmon.Ports.ConfigDelivery (Kind Key)

/-- A collector: the position of its section in the configuration, and its list. -/
structure Collector where
  index : Nat
  kind : Kind
  deriving DecidableEq, Repr

/-- The mutexes: `colMutex`, `collector.mutex`, the `mutex` of a `PIDLis` and the one of
`info`. -/
inductive Mutex where
  | colMutex
  | collector (c : Collector)
  | pidLis (c : Collector)
  | info
  deriving DecidableEq, Repr

/-- A goroutine locks downwards. -/
def Mutex.rank : Mutex → Nat
  | colMutex => 3
  | collector _ => 2
  | pidLis _ => 1
  | info => 0

/-- What the goroutines share: the fields of a collector with its tables, the array that its
buffer and its batches are slices of, the fields of the points it has sent, the sets of its
`PIDLis`, `containerPID` with `pidBuffer`, the configuration, the registered functions, and
`Manager`. -/
inductive Datum where
  | collector (c : Collector)
  | batch (c : Collector)
  | points (c : Collector)
  | pids (c : Collector)
  | containerPID
  | configuration
  | programEnd
  | containerPIDChange
  | configurationChange
  | Manager
  deriving DecidableEq, Repr

/-- The mutex that goes with a datum. -/
def Datum.mutex : Datum → Option Mutex
  | collector c => some (.collector c)
  | pids c => some (.pidLis c)
  | containerPID => some .info
  | _ => none

/-- What a collector sends to the exporters: whether it is made of the slots of `distMap`,
and the number of its points. -/
structure Batch where
  collector : Collector
  hist : Bool
  points : Nat
  deriving DecidableEq, Repr

/-- The points have a `timestamp` among their fields, but for those of `tcpreq` and those made
of `distMap`. -/
def Batch.stamped (b : Batch) : Bool := b.collector.kind ≠ .ColTcpreq && !b.hist

/-- The messages, by the channel they lie in.  Of their contents the batches are kept. -/
inductive Message where
  | AddCh (c : Collector)
  | DelCh (c : Collector)
  | ConfCh (c : Collector)
  | dataCh (b : Batch)
  deriving DecidableEq, Repr

/-- Two messages of one channel. -/
def Message.same : Message → Message → Bool
  | dataCh _, dataCh _ => true
  | m, m' => m = m'

/-- The capacity of the channel. -/
def Message.capacity : Message → Nat
  | AddCh _ => 1024
  | DelCh _ => 1024
  | ConfCh _ => 1
  | dataCh _ => 2048

/-- The tables that the collectors iterate over. -/
inductive Table where
  | countMap
  | distMap
  | controlMap
  deriving DecidableEq, Repr

/-- The goroutines.  Those that are started to notify others are all `worker`s. -/
inductive Name where
  | main
  | watcher
  | controller
  | exporter
  | period (c : Collector)
  | signal (c : Collector)
  | worker
  deriving DecidableEq, Repr

/-- A function registered for `containerPIDChange`: the one of `NewGetter`, or the one of a
`PIDLis` and its `conf`. -/
inductive Listener where
  | pidBuffer
  | pidLis (c : Collector) (conf : ListenConfig)
  deriving DecidableEq

/-- What a `go` starts.  The states of a delta come in the order in which it is ranged
over, and a listener has one delta for every expression that matches. -/
inductive Job where
  | loop (n : Name)
  | notifyChange (c : Collector) (delta : List Bool)
  | pidBuffer
  | pidLis (c : Collector) (deltas : List (List Bool))
  | configurationChange
  | sender (key : Key)
  | Export (b : Batch)
  deriving DecidableEq

/-- Where `GetConfiguration` is called: in `collector.Setup`, in the handler that it
registers, and in `exporter.Setup`. -/
inductive Reader where
  | collectors
  | handler
  | exporters
  deriving DecidableEq

/-- What a goroutine does beside locking and unlocking. -/
inductive Action where
  | access (d : Datum) (write : Bool)
  | next (c : Collector) (table : Table) (seen : Nat)
  | send (m : Message)
  | sendConf (key : Key)
  | registerProgramEnd (n : Name)
  | appendProgramEnd (fns : Slice) (n : Name)
  | storeProgramEnd (fns : Slice)
  | registerContainerChange (fn : Listener)
  | registerConfigurationChange
  | setConfiguration (conf : List Key)
  | getConfiguration (r : Reader)
  | rangeConfigurationChange
  | rangeContainerPIDChange
  | startCollector (c : Collector) (key : Key)
  | setManager (key : Key) (c : Collector)
  | go (job : Job)
  | waitPeriod
  | endProgram
  | callProgramEnd (fns : Slice) (k : Nat)
  | handOver (n : Name)
  | exit
  deriving DecidableEq

abbrev Code := List (Op Mutex Action)

/-- What the program finds where it ranges over data: the patterns of a section, a delta
and the deltas of the listeners, the points in a buffer, whether a table has another entry,
the keys of `heatmapData` behind the first, and a period.  `append` chooses the capacity of a
new array. -/
structure Choice where
  patterns : Nat
  delta : List Bool
  deltas : Collector → List (List Bool)
  buffered : Nat
  more : Bool
  keys : Nat
  growth : Growth
  period : BitVec 64

/-- What a goroutine without anything to do is waiting for: its next input, the next poll
of `waitPeriod`, or the end of the last sleep there.  A loop may also have returned. -/
inductive Phase where
  | idle
  | polling (period : BitVec 64) (progress : WaitPeriod.Progress)
  | sleeping
  | returned
  deriving DecidableEq

structure Goroutine where
  name : Name
  held : List Mutex
  code : Code
  phase : Phase
  deriving DecidableEq

/-- The process runs, has ended, or was brought down by a nil pointer. -/
inductive Status where
  | running
  | exited
  | crashed
  deriving DecidableEq

/-- The goroutines, what lies in the channels, and the shared variables that decide what
runs.  `programEnd` is a slice of one of the `arrays`, and all handlers in
`configurationChange` are the same. -/
structure Program where
  threads : List Goroutine
  queued : List Message
  arrays : Heap Name
  programEnd : Slice
  containerPIDChange : List Listener
  configurationChange : Nat
  configuration : List Key
  Manager : GoMap Key Collector
  status : Status

/-! ## The code of the program -/

def read (d : Datum) : Op Mutex Action := .other (.access d false)

def write (d : Datum) : Op Mutex Action := .other (.access d true)

/-- `GetContainerFromPID`. -/
def getContainerFromPID : Code := locked .info [write .containerPID]

/-- `GetContainerPIDsMatchRegex`. -/
def getContainerPIDsMatchRegex : Code := locked .info [read .containerPID]

/-- `SetContainerPIDs`. -/
def setContainerPIDs : Code :=
  locked .info [write .containerPID] ++ [.other .rangeContainerPIDChange]

/-- `SetConfiguration`. -/
def setConfiguration (conf : List Key) : Code :=
  locked .info [.other (.setConfiguration conf)] ++ [.other .rangeConfigurationChange]

/-- `OnConfigChange` of a `PIDLis`; its notification starts behind the lock. -/
def pidLisOnConfigChange (c : Collector) (ch : Choice) : Code :=
  locked (.pidLis c)
      (write (.pids c) :: (List.replicate ch.patterns getContainerPIDsMatchRegex).flatten) ++
    [.other (.go (.notifyChange c ch.delta))]

/-- The loop that rewrites the entries of `control_map`. -/
def rewriteControl (c : Collector) : Code :=
  match c.kind with
  | .ColFcount => []
  | _ => [.other (.next c .controlMap 0)]

/-- `onConfigChange` of a collector. -/
def onConfigChange (c : Collector) (ch : Choice) : Code :=
  locked (.collector c)
    (pidLisOnConfigChange c ch ++ write (.collector c) :: rewriteControl c)

/-- A batch is sent if there is something in it. -/
def sendData (b : Batch) : Code :=
  if b.points = 0 then [] else [.other (.send (.dataCh b))]

/-- What a loop over a table does with an entry: it looks up the container, and resets,
deletes or rewrites the entry. -/
def entry (c : Collector) : Table → Code
  | .countMap => getContainerFromPID ++ [write (.collector c)]
  | .distMap => [write (.collector c)]
  | .controlMap => [write (.collector c)]

/-- What comes behind a loop that has gone round `seen` times. -/
def behind (c : Collector) (seen : Nat) (ch : Choice) : Table → Code
  | .countMap => sendData ⟨c, false, seen⟩
  | .distMap =>
      (List.replicate (min seen (ch.keys + 1)) getContainerFromPID).flatten ++
        sendData ⟨c, true, min seen (ch.keys + 1)⟩
  | .controlMap => []

/-- `exportData` and `exportHistData` of the collectors with a table. -/
def exportTable (c : Collector) (table : Table) : Code :=
  locked (.collector c) [read (.collector c), .other (.next c table 0)]

/-- `exportData` of the collectors with a buffer, which goes on with `buffer[:0]`. -/
def exportBuffer (c : Collector) (buffered : Nat) : Code :=
  locked (.collector c)
    (read (.collector c) :: sendData ⟨c, false, buffered⟩ ++ [write (.collector c)])

/-- What the period loop exports in one round. -/
def exportData (c : Collector) (ch : Choice) : Code :=
  match c.kind with
  | .ColFcount => exportTable c .countMap
  | .ColTcpreq => exportBuffer c ch.buffered
  | .ColBiostat => exportTable c .countMap ++ exportTable c .distMap
  | .ColTcpdrop => exportBuffer c ch.buffered
  | .ColOffcpu => exportTable c .countMap

/-- A round of the period loop. -/
def round (c : Collector) (ch : Choice) : Code :=
  exportData c ch ++ locked (.collector c) [read (.collector c)] ++ [.other .waitPeriod]

/-- The collectors that send their buffer. -/
def sendsBuffer : Kind → Bool
  | .ColTcpreq => true
  | .ColTcpdrop => true
  | _ => false

/-- `append` to the buffer of a collector.  Where the buffer is sent, its array is the one of
the batch before. -/
def appendBuffer (c : Collector) : Code :=
  if sendsBuffer c.kind then [write (.batch c), write (.collector c)] else [write (.collector c)]

/-- `bufferEvent`. -/
def bufferEvent (c : Collector) : Code :=
  locked (.collector c) (read (.collector c) :: getContainerFromPID ++ appendBuffer c)

/-- The signal loop receives a PID from `AddCh`. -/
def addPID (c : Collector) : Code :=
  match c.kind with
  | .ColFcount => locked (.collector c) [write (.collector c)]
  | .ColOffcpu => locked (.collector c) [] ++ locked (.collector c) [write (.collector c)]
  | _ => locked (.collector c) [read (.collector c)] ++
      locked (.collector c) [write (.collector c)]

/-- The signal loop receives a PID from `DelCh`. -/
def delPID (c : Collector) : Code := locked (.collector c) [write (.collector c)]

/-- The listener of a `PIDLis`.  It takes the earlier PIDs out of `containerSet` before it
locks the mutex. -/
def listener (c : Collector) (deltas : List (List Bool)) : Code :=
  (deltas.map fun delta =>
    write (.pids c) :: locked (.pidLis c) [write (.pids c)] ++
      [.other (.go (.notifyChange c delta))]).flatten

/-- The call of a registered function, with at most one delta for every expression. -/
def Listener.job (ch : Choice) : Listener → Job
  | pidBuffer => .pidBuffer
  | pidLis c conf => .pidLis c ((ch.deltas c).take conf.K8sGroup.length)

/-- `Export` of an InfluxDB reads the points one after the other and takes the timestamp out
of their fields.  Another export may have taken it out before, which is not kept here.  What
the client does with the copies is its own. -/
def Export (b : Batch) : Code :=
  (List.replicate b.points
    ([read (.batch b.collector), read (.points b.collector)] ++
      if b.stamped then [write (.points b.collector)] else [])).flatten

/-- The code of a goroutine that is started to notify others, or to export a batch. -/
def Job.code : Job → Code
  | loop _ => []
  | notifyChange c delta =>
      delta.map fun state => .other (.send (if state then .AddCh c else .DelCh c))
  | pidBuffer => locked .info [write .containerPID]
  | pidLis c deltas => listener c deltas
  | configurationChange => locked .colMutex [.other (.getConfiguration .handler)]
  | sender key => [.other (.sendConf key)]
  | .Export b => Goroutines.Export b

/-- What a loop does before it first waits for something. -/
def firstCode (ch : Choice) : Name → Code
  | .period c => .other (.registerProgramEnd (.period c)) :: round c ch
  | .signal c => [.other (.registerProgramEnd (.signal c))]
  | _ => []

/-- The goroutine that a `go` starts. -/
def launch (ch : Choice) : Job → Goroutine
  | .loop n => ⟨n, [], firstCode ch n, .idle⟩
  | job => ⟨.worker, [], job.code, .idle⟩

/-- `Setup` of the collectors, for a section whose `Start` does not fail. -/
def startCollector (c : Collector) (key : Key) (ch : Choice) : Code :=
  .other (.registerContainerChange (.pidLis c ListenConfig.zero)) :: onConfigChange c ch ++
    [.other (.go (.loop (.period c))), .other (.go (.loop (.signal c))),
      .other (.setManager key c)]

/-- `programStart`, from its first `go` on, with the number of pods that `Init` finds. -/
def programStart (pods : Nat) : Code :=
  [.other (.go (.loop .watcher)), .other (.registerProgramEnd .watcher)] ++
    (List.replicate pods setContainerPIDs).flatten ++
    [.other (.go (.loop .controller)), .other (.getConfiguration .collectors),
      .other .registerConfigurationChange, .other (.getConfiguration .exporters),
      .other (.go (.loop .exporter))]

/-! ## One step -/

variable (starts : Key → Bool)

/-- The code that takes the place of an action.  `starts` says whose `Start` does not
fail.  To register a function is to read the slice, to append to it, which may write to the
array that others read, and to store the new slice; `EndProgram` ranges over the slice it
reads, and over the elements as they are by then.  A slice is read and stored at once. -/
def expand (s : Program) (ch : Choice) : Action → Code
  | .next c table seen =>
      if ch.more then entry c table ++ [.other (.next c table (seen + 1))]
      else behind c seen ch table
  | .registerProgramEnd n => [.other (.appendProgramEnd s.programEnd n)]
  | .appendProgramEnd fns n =>
      [.other (.storeProgramEnd (append ch.growth s.arrays fns n).2)]
  | .getConfiguration .collectors =>
      s.configuration.zipIdx.map fun p => .other (.startCollector ⟨p.2, p.1.1⟩ p.1)
  | .getConfiguration .handler => s.configuration.map fun key => .other (.go (.sender key))
  | .rangeConfigurationChange =>
      List.replicate s.configurationChange (.other (.go .configurationChange))
  | .rangeContainerPIDChange => s.containerPIDChange.map fun fn => .other (.go (fn.job ch))
  | .startCollector c key => if starts key then startCollector c key ch else []
  | .endProgram =>
      (List.range s.programEnd.len).map fun k => .other (.callProgramEnd s.programEnd k)
  | .callProgramEnd fns k =>
      ((s.arrays.cells fns.arr k).map fun n => .other (.handOver n)).toList
  | _ => []

/-- The goroutines that an action starts. -/
def started (ch : Choice) : Action → List Goroutine
  | .go job => [launch ch job]
  | _ => []

/-- What an action puts into the channels. -/
def sent (s : Program) : Action → List Message
  | .send m => [m]
  | .sendConf key => ((s.Manager.lookup key).map Message.ConfCh).toList
  | _ => []

/-- An action that does not have to wait.  A send waits for room, and the hand-over of
`done` waits for the goroutine that polls it. -/
def enabled (s : Program) : Action → Bool
  | .handOver _ => false
  | a => (sent s a).all fun m => s.queued.countP m.same < m.capacity

/-- What an action leaves in the shared variables.  A sender that does not find its name
in `Manager` dereferences nil, and so does `EndProgram` where there is no function. -/
def store (s : Program) (ch : Choice) : Action → Program
  | .appendProgramEnd fns n => { s with arrays := (append ch.growth s.arrays fns n).1 }
  | .storeProgramEnd fns => { s with programEnd := fns }
  | .callProgramEnd fns k =>
      if (s.arrays.cells fns.arr k).isSome then s else { s with status := .crashed }
  | .registerContainerChange fn => { s with containerPIDChange := s.containerPIDChange ++ [fn] }
  | .registerConfigurationChange => { s with configurationChange := s.configurationChange + 1 }
  | .setConfiguration conf => { s with configuration := conf }
  | .setManager key c => { s with Manager := s.Manager.insert key c }
  | .sendConf key =>
      if (s.Manager.lookup key).isSome then s else { s with status := .crashed }
  | .exit => { s with status := .exited }
  | _ => s

/-- `waitPeriod` starts to poll. -/
def phaseAfter (ch : Choice) (phase : Phase) : Action → Phase
  | .waitPeriod => .polling ch.period ⟨0, [], false⟩
  | _ => phase

/-- What starts a goroutine that has nothing to do: a receive, a perf event, a write to the
configuration file, an event of a pod, or an interrupt.  With a batch come the exporters that
are listed in its section and that there are. -/
inductive Input where
  | conf (ch : Choice)
  | add
  | del
  | event
  | write (conf : List Key)
  | pods
  | data (b : Batch) (exporters : Nat)
  | interrupt

/-- The collectors with a channel of perf events. -/
def hasEvents : Kind → Bool
  | .ColTcpreq => true
  | .ColTcpdrop => true
  | .ColOffcpu => true
  | _ => false

/-- What a goroutine does with an input. -/
def respond : Name → Input → Option Code
  | .signal c, .conf ch => some (onConfigChange c ch)
  | .signal c, .add => some (addPID c)
  | .signal c, .del => some (delPID c)
  | .signal c, .event => if hasEvents c.kind then some (bufferEvent c) else none
  | .watcher, .write conf => some (setConfiguration conf)
  | .controller, .pods => some setContainerPIDs
  | .exporter, .data b exporters => some (List.replicate exporters (.other (.go (.Export b))))
  | .main, .interrupt => some [.other .endProgram, .other .exit]
  | _, _ => none

/-- The message that an input is the receive of. -/
def message : Name → Input → Option Message
  | .signal c, .conf _ => some (.ConfCh c)
  | .signal c, .add => some (.AddCh c)
  | .signal c, .del => some (.DelCh c)
  | .exporter, .data b _ => some (.dataCh b)
  | _, _ => none

/-- The events of an interleaving.  `exec` is the next operation of a goroutine, `input`
and `done` are receives of one that has nothing to do, and `poll` and `tick` are the ends
of sleeps in `waitPeriod`. -/
inductive Event where
  | exec (i : Nat) (ch : Choice)
  | input (i : Nat) (x : Input)
  | done (i : Nat)
  | poll (i : Nat)
  | tick (i : Nat) (ch : Choice)

/-- The goroutine that is about to hand `done` over to `n`. -/
def waiter (s : Program) (n : Name) : Option Nat :=
  s.threads.findIdx? fun t => t.code.head? = some (.other (.handOver n))

/-- A goroutine makes a step. -/
def Program.put (s : Program) (i : Nat) (t : Goroutine) : Program :=
  { s with threads := s.threads.set i t }

/-- `done` is handed over: goroutine `i` becomes `t`, and the one at `j` goes on. -/
def Program.release (s : Program) (i : Nat) (t : Goroutine) (j : Nat) : Option Program :=
  s.threads[j]?.map fun t' => (s.put i t).put j { t' with code := t'.code.tail }

/-- An action: what it leaves, starts and sends, and the goroutine behind it. -/
def perform (s : Program) (i : Nat) (t : Goroutine) (code : Code) (ch : Choice)
    (a : Action) : Program :=
  { store s ch a with
    threads := s.threads.set i
        { t with code := expand starts s ch a ++ code, phase := phaseAfter ch t.phase a } ++
      started ch a
    queued := s.queued ++ sent s a }

def exec (s : Program) (i : Nat) (t : Goroutine) (ch : Choice) : Option Program :=
  match t.code with
  | [] => none
  | .lock m :: code =>
      if s.threads.any fun t => m ∈ t.held then none
      else some (s.put i { t with held := m :: t.held, code := code })
  | .unlock m :: code => some (s.put i { t with held := t.held.erase m, code := code })
  | .other a :: code => if enabled s a then some (perform starts s i t code ch a) else none

/-- A goroutine with nothing to do gets an input.  What it receives is the first message in
the channel. -/
def input (s : Program) (i : Nat) (t : Goroutine) (x : Input) : Option Program :=
  if t.code = [] ∧ t.phase = .idle ∧ ∀ m ∈ message t.name x, s.queued.find? m.same = some m then
    (respond t.name x).map fun code =>
      { s.put i { t with code := code } with
        queued := (message t.name x).elim s.queued s.queued.erase }
  else none

/-- A loop with a `select` receives `done`.  The `break` of a signal loop leaves only the
`select`. -/
def done (s : Program) (i : Nat) (t : Goroutine) : Option Program :=
  if t.code = [] ∧ t.phase = .idle then
    (waiter s t.name).bind fun j =>
      match t.name with
      | .signal _ => s.release i t j
      | .watcher => s.release i { t with phase := .returned } j
      | _ => none
  else none

/-- `waitPeriod` polls `done`. -/
def poll (s : Program) (i : Nat) (t : Goroutine) : Option Program :=
  match t.phase with
  | .polling period progress =>
      if t.code = [] then
        match WaitPeriod.round period (fun _ => (waiter s t.name).isSome) progress with
        | .inl progress => some (s.put i { t with phase := .polling period progress })
        | .inr (false, _) => some (s.put i { t with phase := .sleeping })
        | .inr (true, _) =>
            (waiter s t.name).bind fun j => s.release i { t with phase := .returned } j
      else none
  | _ => none

/-- The last sleep of `waitPeriod` is over. -/
def tick (s : Program) (i : Nat) (t : Goroutine) (ch : Choice) : Option Program :=
  match t.phase, t.name, t.code with
  | .sleeping, .period c, [] => some (s.put i { t with code := round c ch, phase := .idle })
  | _, _, _ => none

def step (s : Program) (e : Event) : Option Program :=
  if s.status = .running then
    match e with
    | .exec i ch => s.threads[i]?.bind fun t => exec starts s i t ch
    | .input i x => s.threads[i]?.bind fun t => input s i t x
    | .done i => s.threads[i]?.bind fun t => done s i t
    | .poll i => s.threads[i]?.bind fun t => poll s i t
    | .tick i ch => s.threads[i]?.bind fun t => tick s i t ch
  else none

/-- The program at the first `go`, with the names in the configuration it was started
with. -/
def start (conf : List Key) (pods : Nat) : Program where
  threads := [⟨.main, [], programStart pods, .idle⟩]
  queued := []
  arrays := Heap.empty
  programEnd := Slice.nil
  containerPIDChange := [.pidBuffer]
  configurationChange := 0
  configuration := conf
  Manager := ∅
  status := .running

end Kmon.Ports.Goroutines
