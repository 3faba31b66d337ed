import Kmon.Ports.OffcpuCollector

/-!
# The points of biostat

`biostat.exportData` makes a point of every entry of `counts`.  `biostat.exportHistData`
first collects the entries of `dist` in `heatmapData`, which has one histogram for each
process, flags and disk, and then makes a point of every histogram
(`src/collector/biostat.go`).

`lookup_histFields` says what the fields of such a point are.
-/

namespace Kmon.Ports.BiostatCollector

open Kmon.Verified
open Kmon.Ports.Config
open Kmon.Ports.Points
open Kmon.Ports.OffcpuCollector (ctypeByteToString)

/-- `bioKey`. -/
structure BioKey where
  PID : BitVec 32
  RWFlag : BitVec 64
  Name : BitVec (8 * 32)
  deriving DecidableEq, Repr

/-- `bioVal`. -/
structure BioVal where
  Bytes : BitVec 64
  Ns : BitVec 64
  deriving DecidableEq, Repr

/-- `bioHistKey`. -/
structure BioHistKey where
  Slot : BitVec 32
  PID : BitVec 32
  RWFlag : BitVec 64
  Name : BitVec (8 * 32)
  deriving DecidableEq, Repr

/-- `bioHistVal`. -/
structure BioHistVal where
  Slots : GoMap (BitVec 32) (BitVec 64)
  Scale : BitVec 64
  deriving DecidableEq

/-- `parseRWFlag`. -/
def parseRWFlag (flag : BitVec 64) : String :=
  if flag = 0 then "Read" else if flag = 1 then "Write" else "Unknown"

/-- The tags of both functions.  `containerName` is what `GetContainerFromPID` answers. -/
def ioTags (containerName : String) (pid : BitVec 32) (flag : BitVec 64)
    (name : BitVec (8 * 32)) : GoMap String String :=
  let tags := (((∅ : GoMap String String).insert "pid" (sprint pid)).insert
    "flag" (parseRWFlag flag)).insert "diskName" (ctypeByteToString name)
  if containerName ≠ "" then tags.insert "container" containerName else tags

theorem lookup_ioTags (containerName : String) (pid : BitVec 32) (flag : BitVec 64)
    (name : BitVec (8 * 32)) (tag : String) :
    (ioTags containerName pid flag name).lookup tag =
      if tag = "container" ∧ containerName ≠ "" then some containerName
      else if tag = "diskName" then some (ctypeByteToString name)
      else if tag = "flag" then some (parseRWFlag flag)
      else if tag = "pid" then some (sprint pid)
      else none := by
  rw [ioTags, lookup_container, GoMap.lookup_insert_ite, GoMap.lookup_insert_ite,
    GoMap.lookup_insert_ite, Finmap.lookup_empty]

/-- The point of `exportData` for an entry of `counts`. -/
def ioPoint (conf : ColBiostat) (now : Time) (containerName : String) (key : BioKey)
    (val : BioVal) : ExportData where
  Name := conf.ExportConfig.DataName
  Tags := ioTags containerName key.PID key.RWFlag key.Name
  Fields := ((((∅ : GoMap String Value).insert
    "period" (.int (BitVec.ofInt 64 conf.ExportConfig.Period))).insert
    "timestamp" (.time now)).insert
    "I/O(total,Bytes)" (.int val.Bytes)).insert
    "Latency(total,ns)" (.int val.Ns)

/-! ## The histograms -/

/-- The histogram an entry of `dist` belongs to. -/
def BioHistKey.group (key : BioHistKey) : BioKey := ⟨key.PID, key.RWFlag, key.Name⟩

/-- The key of a slot of a histogram. -/
def BioKey.slot (key : BioKey) (slot : BitVec 32) : BioHistKey :=
  ⟨slot, key.PID, key.RWFlag, key.Name⟩

/-- One round of the first loop of `exportHistData`. -/
def collect (conf : ColBiostat) (heatmapData : GoMap BioKey BioHistVal) (key : BioHistKey)
    (val : BitVec 64) : GoMap BioKey BioHistVal :=
  let bioKeyVal := (heatmapData.lookup key.group).getD ⟨∅, conf.BinScale⟩
  heatmapData.insert key.group { bioKeyVal with Slots := bioKeyVal.Slots.insert key.Slot val }

/-- `fmt.Sprintf("latencyBin(%d)", slotIdx)`. -/
def latencyBin (slotIdx : BitVec 32) : String := "latencyBin(" ++ sprint slotIdx ++ ")"

theorem latencyBin_inj {slot slot' : BitVec 32} (h : latencyBin slot = latencyBin slot') :
    slot = slot' := by
  unfold latencyBin at h
  rw [String.append_left_inj, String.append_right_inj] at h
  exact sprint_inj h

theorem latencyBin_ne_binScale (slot : BitVec 32) : latencyBin slot ≠ "binScale" := by
  intro h
  have hhead := congrArg (fun s => s.toList.head?) h
  simp only [latencyBin, String.toList_append] at hhead
  revert hhead
  simp

/-- One round of the loop over the slots of a histogram. -/
def putSlot (slots : GoMap (BitVec 32) (BitVec 64)) (slotIdx : BitVec 32)
    (fields : GoMap String Value) : GoMap String Value :=
  match slots.lookup slotIdx with
  | none => fields
  | some count => fields.insert (latencyBin slotIdx) (.int count)

theorem lookup_putSlot (slots : GoMap (BitVec 32) (BitVec 64)) (slotIdx : BitVec 32)
    (fields : GoMap String Value) (field : String) :
    (putSlot slots slotIdx fields).lookup field =
      if field = latencyBin slotIdx ∧ slots.lookup slotIdx ≠ none then
        (slots.lookup slotIdx).map Value.int
      else fields.lookup field := by
  unfold putSlot
  cases slots.lookup slotIdx with
  | none => simp
  | some count =>
      rw [GoMap.lookup_insert_ite]
      simp

instance (slots : GoMap (BitVec 32) (BitVec 64)) : LeftCommutative (putSlot slots) where
  left_comm a b fields := by
    by_cases hab : a = b
    · rw [hab]
    · refine Finmap.ext_lookup fun field => ?_
      simp only [lookup_putSlot]
      by_cases ha : field = latencyBin a
      · have hb : field ≠ latencyBin b := fun hb => hab (latencyBin_inj (ha.symm.trans hb))
        simp [ha, ha ▸ hb]
      · simp [ha]

/-- The fields of the point of a histogram. -/
def histFields (val : BioHistVal) : GoMap String Value :=
  GoMap.rangeKeys val.Slots (putSlot val.Slots)
    ((∅ : GoMap String Value).insert "binScale" (.int val.Scale))

/-- A field that stands for a slot of the histogram, with its count. -/
def IsSlot (slots : GoMap (BitVec 32) (BitVec 64)) (slotIdx : BitVec 32) (field : String)
    (value : Value) : Prop :=
  ∃ count, slots.lookup slotIdx = some count ∧ field = latencyBin slotIdx ∧ value = .int count

theorem lookup_foldr_putSlot {slots : GoMap (BitVec 32) (BitVec 64)}
    {fields : GoMap String Value} (hfields : ∀ slotIdx, fields.lookup (latencyBin slotIdx) = none)
    (slotIdxs : Multiset (BitVec 32)) (field : String) (value : Value) :
    (slotIdxs.foldr (putSlot slots) fields).lookup field = some value ↔
      (∃ slotIdx ∈ slotIdxs, IsSlot slots slotIdx field value) ∨
        fields.lookup field = some value := by
  induction slotIdxs using Multiset.induction with
  | empty => simp
  | cons a slotIdxs ih =>
      rw [Multiset.foldr_cons, lookup_putSlot]
      by_cases ha : field = latencyBin a ∧ slots.lookup a ≠ none
      · obtain ⟨rfl, hne⟩ := ha
        obtain ⟨count, hcount⟩ := Option.ne_none_iff_exists'.1 hne
        rw [if_pos ⟨rfl, hne⟩, hcount, Option.map_some, hfields]
        constructor
        · intro hvalue
          cases hvalue
          exact Or.inl ⟨a, Multiset.mem_cons_self a _, count, hcount, rfl, rfl⟩
        · rintro (⟨slotIdx, -, count', hcount', hfield, rfl⟩ | hnone)
          · obtain rfl := latencyBin_inj hfield
            rw [hcount] at hcount'
            cases hcount'
            rfl
          · cases hnone
      · rw [if_neg ha, ih]
        have hnot : ¬ IsSlot slots a field value := by
          rintro ⟨count, hcount, hfield, -⟩
          exact ha ⟨hfield, by simp [hcount]⟩
        simp only [Multiset.mem_cons, exists_eq_or_imp, hnot, false_or]

/-- The fields are the scale and one for each slot. -/
theorem lookup_histFields (val : BioHistVal) (field : String) (value : Value) :
    (histFields val).lookup field = some value ↔
      (∃ slotIdx, IsSlot val.Slots slotIdx field value) ∨
        (field = "binScale" ∧ value = .int val.Scale) := by
  have hbinScale : ∀ field value, ((∅ : GoMap String Value).insert "binScale"
      (.int val.Scale)).lookup field = some value ↔
        field = "binScale" ∧ value = .int val.Scale := by
    intro field value
    rw [GoMap.lookup_insert_ite]
    by_cases hfield : field = "binScale" <;> simp [hfield, eq_comm]
  unfold histFields
  rw [GoMap.rangeKeys, lookup_foldr_putSlot, hbinScale]
  · apply or_congr_left
    constructor
    · rintro ⟨slotIdx, -, hslot⟩
      exact ⟨slotIdx, hslot⟩
    · rintro ⟨slotIdx, count, hcount, hvalue⟩
      exact ⟨slotIdx, GoMap.mem_keys_iff.2 ⟨count, hcount⟩, count, hcount, hvalue⟩
  · intro slotIdx
    rw [GoMap.lookup_insert_ite, if_neg (latencyBin_ne_binScale slotIdx)]
    rfl

/-- One round of the second loop of `exportHistData`. -/
def histPoint (conf : ColBiostat) (containerName : String) (key : BioKey) (val : BioHistVal) :
    ExportData where
  Name := conf.ExportConfig.DataName
  Tags := ioTags containerName key.PID key.RWFlag key.Name
  Fields := histFields val

/-! ## The first loop -/

/-- What `heatmapData` holds for a key of `dist`. -/
def held (heatmapData : GoMap BioKey BioHistVal) (key : BioHistKey) : Option (BitVec 64) :=
  (heatmapData.lookup key.group).bind fun val => val.Slots.lookup key.Slot

theorem group_eq_and_Slot_eq {key key' : BioHistKey} :
    key.group = key'.group ∧ key.Slot = key'.Slot ↔ key = key' := by
  obtain ⟨slot, pid, flag, name⟩ := key
  obtain ⟨slot', pid', flag', name'⟩ := key'
  simp only [BioHistKey.group, BioKey.mk.injEq, BioHistKey.mk.injEq]
  tauto

section Collect

variable {conf : ColBiostat}

theorem held_collect (heatmapData : GoMap BioKey BioHistVal) (key key' : BioHistKey)
    (val : BitVec 64) :
    held (collect conf heatmapData key val) key' =
      if key' = key then some val else held heatmapData key' := by
  unfold held collect
  rw [GoMap.lookup_insert_ite]
  by_cases hgroup : key'.group = key.group
  · rw [if_pos hgroup, Option.bind_some, GoMap.lookup_insert_ite, hgroup]
    by_cases hslot : key'.Slot = key.Slot
    · rw [if_pos hslot, if_pos (group_eq_and_Slot_eq.1 ⟨hgroup, hslot⟩)]
    · have hne : key' ≠ key := fun heq => hslot (congrArg BioHistKey.Slot heq)
      rw [if_neg hslot, if_neg hne]
      cases heatmapData.lookup key.group <;> rfl
  · have hne : key' ≠ key := fun heq => hgroup (congrArg BioHistKey.group heq)
    rw [if_neg hgroup, if_neg hne]

/-- A histogram has at least one slot, and the scale of the configuration. -/
def WellFormed (conf : ColBiostat) (heatmapData : GoMap BioKey BioHistVal) : Prop :=
  ∀ group val, heatmapData.lookup group = some val →
    val.Scale = conf.BinScale ∧ ∃ slotIdx count, val.Slots.lookup slotIdx = some count

theorem wellFormed_collect {heatmapData : GoMap BioKey BioHistVal}
    (h : WellFormed conf heatmapData) (key : BioHistKey) (val : BitVec 64) :
    WellFormed conf (collect conf heatmapData key val) := by
  intro group histVal hlookup
  unfold collect at hlookup
  rw [GoMap.lookup_insert_ite] at hlookup
  split at hlookup
  · cases hlookup
    refine ⟨?_, key.Slot, val, Finmap.lookup_insert _⟩
    cases hold : heatmapData.lookup key.group with
    | none => rfl
    | some old => exact (h key.group old hold).1
  · exact h group histVal hlookup

/-- The loop over entries with different keys. -/
theorem foldl_collect (entries : List (BioHistKey × BitVec 64)) :
    ∀ heatmapData, (entries.map Prod.fst).Nodup → WellFormed conf heatmapData →
      WellFormed conf (entries.foldl (fun h e => collect conf h e.1 e.2) heatmapData) ∧
      ∀ key val, held (entries.foldl (fun h e => collect conf h e.1 e.2) heatmapData) key =
          some val ↔
        (key, val) ∈ entries ∨ (key ∉ entries.map Prod.fst ∧ held heatmapData key = some val) := by
  induction entries with
  | nil => exact fun heatmapData _ h => ⟨h, fun key val => by simp⟩
  | cons entry entries ih =>
      intro heatmapData hnodup hformed
      rw [List.map_cons, List.nodup_cons] at hnodup
      obtain ⟨hformed', hheld⟩ := ih (collect conf heatmapData entry.1 entry.2) hnodup.2
        (wellFormed_collect hformed entry.1 entry.2)
      refine ⟨hformed', fun key val => ?_⟩
      rw [List.foldl_cons, hheld, held_collect, List.mem_cons, List.map_cons, List.mem_cons]
      by_cases hkey : key = entry.1
      · subst hkey
        have hout : ∀ val, (entry.1, val) ∉ entries :=
          fun val hmem => hnodup.1 (List.mem_map.2 ⟨(entry.1, val), hmem, rfl⟩)
        simp [hnodup.1, hout, Prod.ext_iff, eq_comm]
      · simp [hkey, Prod.ext_iff]

end Collect

end Kmon.Ports.BiostatCollector
