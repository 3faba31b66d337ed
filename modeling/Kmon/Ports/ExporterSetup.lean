import Kmon.Verified.Run
import Kmon.Ports.InfluxExport

/-!
# Which exporters a batch is handed to

`exporter.Setup` (`src/exporter/exporter.go`) starts an exporter for every section of
`influxdb` in the configuration and keeps its function in `exporterMap`, under the name
of the section.  Then it receives the batches from `dataCh` and starts the function of
every exporter that a batch lists.  `StartElasticsearch` would do for a section of
`elasticsearch` what `StartInfluxDB` does for one of `influxdb`, but nothing calls it.

An export function is the method of a client that was made for a section, so the
section stands for it.  Whether a client can be made is up to the client packages.

`everyState_routed_iff` says that the batches reach the exporters they list exactly when
none of them lists an exporter of the section `elasticsearch`.
-/

namespace Kmon.Ports.ExporterSetup

open Kmon.Verified
open Kmon.Verified.Run
open Kmon.Ports.Config
open Kmon.Ports.Points

/-- A section of `config.Exporter`. -/
inductive Section where
  | influxDB (conf : ExpInfluxDB)
  | elasticsearch (conf : ExpElasticsearch)
  deriving DecidableEq, Repr

def Section.Name : Section → String
  | influxDB conf => conf.Name
  | elasticsearch conf => conf.Name

/-- All sections. -/
def sections (conf : Exporter) : List Section :=
  conf.InfluxDB.map .influxDB ++ conf.Elasticsearch.map .elasticsearch

/-- `model.ExportFunc`: the `Export` of the client made for a section. -/
structure ExportFunc where
  conf : Section
  deriving DecidableEq, Repr

/-- What the client packages answer: whether `NewHTTPClient` and `NewClient` make a
client. -/
structure Clients where
  newHTTPClient : ExpInfluxDB → Bool
  newClient : ExpElasticsearch → Bool

/-- `StartInfluxDB`; `none` is an error. -/
def startInfluxDB (clients : Clients) (conf : ExpInfluxDB) : Option ExportFunc :=
  if clients.newHTTPClient conf then some ⟨.influxDB conf⟩ else none

/-- `StartElasticsearch`. -/
def startElasticsearch (clients : Clients) (conf : ExpElasticsearch) : Option ExportFunc :=
  if clients.newClient conf then some ⟨.elasticsearch conf⟩ else none

/-- One round of the loop of `Setup` over `conf.InfluxDB`. -/
def startNext (clients : Clients) (exporterMap : GoMap String ExportFunc)
    (influx : ExpInfluxDB) : GoMap String ExportFunc :=
  match startInfluxDB clients influx with
  | none => exporterMap
  | some function => exporterMap.insert influx.Name function

/-- `exporterMap`, as the loop leaves it. -/
def setup (clients : Clients) (conf : Exporter) : GoMap String ExportFunc :=
  conf.InfluxDB.foldl (startNext clients) ∅

/-- `go f(database, data)`. -/
structure Call where
  f : ExportFunc
  database : String
  data : List ExportData
  deriving DecidableEq

/-- The database of a listing. -/
def databaseOf (exporter : ExporterConfig) : String :=
  if exporter.Database = "" then "Unknown" else exporter.Database

/-- What the loop does with a batch. -/
def handOut (exporterMap : GoMap String ExportFunc) (data : ExportDataWarpper) : List Call :=
  data.Exporter.filterMap fun exporter =>
    (exporterMap.lookup exporter.Name).map fun f => ⟨f, databaseOf exporter, data.Data⟩

/-- `dataBufferSize`. -/
def dataBufferSize : Nat := 2048

/-- The channel of the batches, and the calls that were started. -/
structure Routing where
  dataCh : List ExportDataWarpper
  calls : List Call

/-- A collector sends a batch, or the loop of `Setup` receives one. -/
inductive Event where
  | send (data : ExportDataWarpper)
  | receive

def step (exporterMap : GoMap String ExportFunc) (s : Routing) : Event → Option Routing
  | .send data =>
      if s.dataCh.length < dataBufferSize then some { s with dataCh := s.dataCh ++ [data] }
      else none
  | .receive =>
      match s.dataCh with
      | [] => none
      | data :: dataCh => some ⟨dataCh, s.calls ++ handOut exporterMap data⟩

/-- Before the first batch. -/
def start : Routing := ⟨[], []⟩

/-! ## What ought to be started -/

/-- A configuration with distinct names, all of whose exporters can be started. -/
structure Startable (clients : Clients) where
  conf : Exporter
  names : ((sections conf).map Section.Name).Nodup
  influxDB : ∀ influx ∈ conf.InfluxDB, startInfluxDB clients influx = some ⟨.influxDB influx⟩
  elasticsearch : ∀ elastic ∈ conf.Elasticsearch,
    startElasticsearch clients elastic = some ⟨.elasticsearch elastic⟩

/-- The batch goes to every configured exporter once for each listing of its name. -/
def wanted (conf : Exporter) (data : ExportDataWarpper) : List Call :=
  data.Exporter.flatMap fun exporter =>
    ((sections conf).filter fun s => s.Name = exporter.Name).map fun s =>
      ⟨⟨s⟩, databaseOf exporter, data.Data⟩

/-- The batches that were sent, oldest first. -/
def sent : List Event → List ExportDataWarpper
  | [] => []
  | .send data :: h => sent h ++ [data]
  | .receive :: h => sent h

/-- The property of a state: what is not waiting in the channel was handed to the
exporters it ought to be handed to, and nothing else was. -/
def Routed (conf : Exporter) (h : List Event) (s : Routing) : Prop :=
  ∃ received, sent h = received ++ s.dataCh ∧ s.calls = received.flatMap (wanted conf)

/-- The condition: a batch that is received lists no exporter of `elasticsearch`. -/
def ListsNoElasticsearch (conf : Exporter) (s : Routing) : Event → Prop
  | .send _ => True
  | .receive => ∀ data ∈ s.dataCh.head?, ∀ exporter ∈ data.Exporter,
      ∀ elastic ∈ conf.Elasticsearch, elastic.Name ≠ exporter.Name

/-! ## The table of the exporters -/

variable {clients : Clients}

/-- The section of a name, where names are distinct. -/
theorem filter_Name {α : Type} {name : α → String} {l : List α} (h : (l.map name).Nodup)
    (n : String) : (l.filter fun a => name a = n) = (l.find? fun a => name a = n).toList := by
  induction l with
  | nil => rfl
  | cons a l ih =>
      rw [List.map_cons, List.nodup_cons] at h
      by_cases ha : name a = n
      · have hnone : (l.filter fun b => name b = n) = [] := by
          rw [List.filter_eq_nil_iff]
          intro b hb hname
          exact h.1 (List.mem_map.2 ⟨b, hb, (of_decide_eq_true hname).trans ha.symm⟩)
        rw [List.filter_cons_of_pos (by simpa using ha), hnone,
          List.find?_cons_of_pos (by simpa using ha)]
        rfl
      · rw [List.filter_cons_of_neg (by simpa using ha), ih h.2,
          List.find?_cons_of_neg (by simpa using ha)]

/-- What the loop stores under a name. -/
theorem lookup_foldl_startNext {l : List ExpInfluxDB}
    (hnames : (l.map ExpInfluxDB.Name).Nodup)
    (hstart : ∀ influx ∈ l, startInfluxDB clients influx = some ⟨.influxDB influx⟩)
    (exporterMap : GoMap String ExportFunc) (name : String) :
    (l.foldl (startNext clients) exporterMap).lookup name =
      ((l.find? fun influx => influx.Name = name).map fun influx => ⟨.influxDB influx⟩).or
        (exporterMap.lookup name) := by
  induction l generalizing exporterMap with
  | nil => rfl
  | cons influx l ih =>
      rw [List.map_cons, List.nodup_cons] at hnames
      have hnext : startNext clients exporterMap influx =
          exporterMap.insert influx.Name ⟨.influxDB influx⟩ := by
        rw [startNext, hstart influx List.mem_cons_self]
      rw [List.foldl_cons, hnext, ih hnames.2 fun i hi => hstart i (List.mem_cons_of_mem _ hi),
        GoMap.lookup_insert_ite]
      by_cases hname : influx.Name = name
      · -- no later section has the name
        have hnone : l.find? (fun i => i.Name = name) = none := by
          rw [List.find?_eq_none]
          intro i hi hsame
          exact hnames.1 (List.mem_map.2 ⟨i, hi, (of_decide_eq_true hsame).trans hname.symm⟩)
        rw [hnone, List.find?_cons_of_pos (by simpa using hname), if_pos hname.symm]
        rfl
      · rw [List.find?_cons_of_neg (by simpa using hname), if_neg (Ne.symm hname)]

variable (startable : Startable clients)

theorem names_influxDB : (startable.conf.InfluxDB.map ExpInfluxDB.Name).Nodup := by
  have hnames := startable.names
  rw [sections, List.map_append, List.map_map, List.map_map] at hnames
  exact (List.nodup_append.1 hnames).1

/-- The functions in `exporterMap` are those of the sections of `influxdb`. -/
theorem lookup_setup (name : String) :
    (setup clients startable.conf).lookup name =
      (startable.conf.InfluxDB.find? fun influx => influx.Name = name).map
        fun influx => ⟨.influxDB influx⟩ := by
  rw [setup, lookup_foldl_startNext (names_influxDB startable) startable.influxDB,
    Finmap.lookup_empty, Option.or_none]

/-! ## One batch -/

/-- A listing that no section of `elasticsearch` has is served as it ought to be. -/
theorem handOut_listing {exporter : ExporterConfig}
    (h : ∀ elastic ∈ startable.conf.Elasticsearch, elastic.Name ≠ exporter.Name)
    (data : List ExportData) :
    (((setup clients startable.conf).lookup exporter.Name).map fun f =>
        (⟨f, databaseOf exporter, data⟩ : Call)).toList =
      ((sections startable.conf).filter fun s => s.Name = exporter.Name).map fun s =>
        ⟨⟨s⟩, databaseOf exporter, data⟩ := by
  have helastic : (startable.conf.Elasticsearch.map Section.elasticsearch).filter
      (fun s => s.Name = exporter.Name) = [] := by
    rw [List.filter_eq_nil_iff]
    intro s hs
    obtain ⟨elastic, hmem, rfl⟩ := List.mem_map.1 hs
    exact fun hname => h elastic hmem (of_decide_eq_true hname)
  have hinflux : (startable.conf.InfluxDB.map Section.influxDB).filter
      (fun s => s.Name = exporter.Name) =
        (startable.conf.InfluxDB.find? fun influx => influx.Name = exporter.Name).toList.map
          Section.influxDB := by
    rw [List.filter_map, ← filter_Name (names_influxDB startable)]
    rfl
  rw [sections, List.filter_append, helastic, List.append_nil, hinflux, lookup_setup]
  cases startable.conf.InfluxDB.find? fun influx => influx.Name = exporter.Name with
  | none => rfl
  | some influx => rfl

/-- A batch goes where it ought to exactly when it lists no exporter of
`elasticsearch`. -/
theorem handOut_eq_wanted_iff (data : ExportDataWarpper) :
    handOut (setup clients startable.conf) data = wanted startable.conf data ↔
      ∀ exporter ∈ data.Exporter, ∀ elastic ∈ startable.conf.Elasticsearch,
        elastic.Name ≠ exporter.Name := by
  constructor
  · intro heq exporter hexporter elastic helastic hname
    -- the call of the elasticsearch exporter is wanted
    have hmem : (⟨⟨.elasticsearch elastic⟩, databaseOf exporter, data.Data⟩ : Call) ∈
        wanted startable.conf data := by
      refine List.mem_flatMap.2 ⟨exporter, hexporter, List.mem_map.2 ⟨.elasticsearch elastic, ?_⟩⟩
      refine ⟨List.mem_filter.2 ⟨?_, decide_eq_true hname⟩, rfl⟩
      exact List.mem_append_right _ (List.mem_map_of_mem helastic)
    rw [← heq, handOut, List.mem_filterMap] at hmem
    obtain ⟨other, -, hcall⟩ := hmem
    rw [lookup_setup, Option.map_map, Option.map_eq_some_iff] at hcall
    obtain ⟨influx, -, hcall⟩ := hcall
    cases hcall
  · intro h
    rw [handOut, wanted, List.filterMap_eq_flatMap_toList]
    exact List.flatMap_congr fun exporter hexporter =>
      handOut_listing startable (h exporter hexporter) data.Data

/-- The calls are those that `InfluxExport` lets run: what it asks of `exporterMap` is
which names it has. -/
theorem consume_calls (data : ExportDataWarpper) :
    (InfluxExport.consume (setup clients startable.conf).keys data).calls =
      (handOut (setup clients startable.conf) data).map fun call =>
        ⟨call.f.conf.Name, call.database, []⟩ := by
  rw [InfluxExport.consume, handOut, List.map_filterMap]
  apply List.filterMap_congr
  intro exporter _
  rw [lookup_setup, Option.map_map, Option.map_map]
  have hkeys : exporter.Name ∈ (setup clients startable.conf).keys ↔
      (startable.conf.InfluxDB.find? fun influx => influx.Name = exporter.Name).isSome := by
    rw [GoMap.mem_keys_iff, lookup_setup]
    simp only [Option.map_eq_some_iff, Option.isSome_iff_exists]
    constructor
    · rintro ⟨_, influx, hfind, -⟩
      exact ⟨influx, hfind⟩
    · rintro ⟨influx, hfind⟩
      exact ⟨_, influx, hfind, rfl⟩
  cases hfind : startable.conf.InfluxDB.find? fun influx => influx.Name = exporter.Name with
  | none =>
      rw [hfind] at hkeys
      exact if_neg fun hmem => Bool.false_ne_true (hkeys.1 hmem)
  | some influx =>
      rw [hfind] at hkeys
      have hname : influx.Name = exporter.Name := by simpa using List.find?_some hfind
      rw [if_pos (hkeys.2 rfl), ← hname]
      rfl

/-! ## Runs -/

variable {h : List Event} {s t : Routing} {e : Event}

/-- What has been received is what has been sent and does not wait any more. -/
theorem routed_receive_iff {data : ExportDataWarpper} {dataCh : List ExportDataWarpper}
    (hs : Routed startable.conf h s) (hch : s.dataCh = data :: dataCh) :
    Routed startable.conf (.receive :: h)
        ⟨dataCh, s.calls ++ handOut (setup clients startable.conf) data⟩ ↔
      handOut (setup clients startable.conf) data = wanted startable.conf data := by
  obtain ⟨received, hsent, hcalls⟩ := hs
  have hsplit : sent h = (received ++ [data]) ++ dataCh := by
    rw [hsent, hch, List.append_assoc]
    rfl
  have hwanted : (received ++ [data]).flatMap (wanted startable.conf) =
      s.calls ++ wanted startable.conf data := by
    rw [List.flatMap_append, List.flatMap_singleton, hcalls]
  constructor
  · rintro ⟨received', hsent', hcalls'⟩
    have hsame : received' = received ++ [data] :=
      List.append_cancel_right (hsent'.symm.trans hsplit)
    rw [hsame, hwanted] at hcalls'
    exact List.append_cancel_left hcalls'
  · intro heq
    refine ⟨received ++ [data], hsplit, ?_⟩
    rw [hwanted, heq]

theorem routed_step_iff (hs : Routed startable.conf h s)
    (he : step (setup clients startable.conf) s e = some t) :
    Routed startable.conf (e :: h) t ↔ ListsNoElasticsearch startable.conf s e := by
  cases e with
  | send data =>
      simp only [step] at he
      split at he
      · cases he
        obtain ⟨received, hsent, hcalls⟩ := hs
        refine iff_of_true ⟨received, ?_, hcalls⟩ trivial
        rw [sent, hsent, List.append_assoc]
      · cases he
  | receive =>
      simp only [step] at he
      split at he
      · cases he
      · rename_i data dataCh hch
        cases he
        rw [routed_receive_iff startable hs hch, handOut_eq_wanted_iff, ListsNoElasticsearch, hch]
        simp only [List.head?_cons, Option.mem_some_iff, forall_eq']

/-- **The batches reach the exporters they list, and no others, exactly when none of
those that are received lists an exporter of `elasticsearch`.** -/
theorem everyState_routed_iff (clients : Clients) (startable : Startable clients)
    (events : List Event) :
    EveryState (step (setup clients startable.conf)) start (Routed startable.conf) events ↔
      Guarded (step (setup clients startable.conf)) start
        (ListsNoElasticsearch startable.conf) events := by
  apply everyState_iff_guarded (I := fun _ _ => True) (fun _ _ _ => trivial) ⟨[], rfl, rfl⟩
  · exact fun h s e t _ hs he => routed_step_iff startable hs he
  · intro h s e _ hnone
    cases e with
    | send data => trivial
    | receive =>
        simp only [step] at hnone
        split at hnone
        · rename_i hch
          simp [ListsNoElasticsearch, hch]
        · cases hnone

/-- The loop can always go on until nothing waits. -/
theorem exists_drained (exporterMap : GoMap String ExportFunc) (s : Routing) :
    ∃ t, run (step exporterMap) s (List.replicate s.dataCh.length .receive) = some t ∧
      t.dataCh = [] := by
  obtain ⟨dataCh, calls⟩ := s
  induction dataCh generalizing calls with
  | nil => exact ⟨_, rfl, rfl⟩
  | cons data dataCh ih =>
      obtain ⟨t, ht, hempty⟩ := ih (calls ++ handOut exporterMap data)
      refine ⟨t, ?_, hempty⟩
      have hfirst : run (step exporterMap) ⟨data :: dataCh, calls⟩ [.receive] =
          some ⟨dataCh, calls ++ handOut exporterMap data⟩ := rfl
      show run (step exporterMap) ⟨data :: dataCh, calls⟩
        (List.replicate (dataCh.length + 1) .receive) = some t
      rw [List.replicate_succ']
      exact run_append_of_run hfirst ht

/-- One exporter of each kind, and a batch for the second. -/
def bothKinds : Startable ⟨fun _ => true, fun _ => true⟩ where
  conf := ⟨[⟨"influx", "http://localhost:8086", "", ""⟩],
    [⟨"elastic", "http://localhost:9200", "", ""⟩]⟩
  names := by decide
  influxDB _ _ := rfl
  elasticsearch _ _ := rfl

/-- The batch is received, and nothing happens. -/
theorem elasticsearch_not_called :
    ¬ EveryState (step (setup ⟨fun _ => true, fun _ => true⟩ bothKinds.conf)) start
        (Routed bothKinds.conf) [.receive, .send ⟨[], [⟨"elastic", "metrics"⟩]⟩] := by
  intro h
  obtain ⟨received, hsent, hcalls⟩ := h.last _ rfl
  rw [List.append_nil] at hsent
  subst hsent
  revert hcalls
  decide

end Kmon.Ports.ExporterSetup
