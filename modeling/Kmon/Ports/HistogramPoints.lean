import Kmon.Ports.DrainedTables
import Kmon.Ports.StoredPoints
import Mathlib.Algebra.BigOperators.Group.Finset.Basic
import Mathlib.Algebra.Order.BigOperators.Group.List
import Mathlib.Algebra.Ring.Int.Defs

/-!
# Which slots of a histogram InfluxDB keeps

`exportHistData` makes one point of each process, flags and disk (`GroupsExported`), but a
point carries the flags as `parseRWFlag` renders them (`src/collector/biostat.go`), and all
flags but 0 and 1 are rendered alike.  Two groups of one process and disk with such flags
become points with the same name and tags; the points carry no time, so InfluxDB merges
their fields, and of two counts for one slot it keeps the later (`storedFields`).

`histogramsKept_iff`: every point has an identity of its own, and what is stored under a
tag set adds up to the entries with that tag set, exactly when there are no such groups and
every count is a nonnegative `int`.
-/

namespace Kmon.Ports.HistogramPoints

open Kmon.Verified
open Kmon.Verified.Layout
open Kmon.Ports.Config
open Kmon.Ports.Points
open Kmon.Ports.OffcpuCollector (ctypeByteToString)
open Kmon.Ports.BiostatCollector
open Kmon.Ports.DrainedTables
open Kmon.Ports.InfluxExport
open Kmon.Ports.StoredPoints

/-! ## What is stored -/

/-- The fields that a write at `writeTime` leaves under an identity: those of all points
with it, a later one in place of an earlier one of the same name. -/
def storedFields (writeTime : Time) (points : List Point)
    (id : String × GoMap String String × Time) : GoMap String Value :=
  points.foldl
    (fun fields pt => if storedUnder writeTime pt = id then pt.fields ∪ fields else fields) ∅

/-- The name of a field for a slot. -/
def isLatencyBin (field : String) : Bool := "latencyBin(".toList.isPrefixOf field.toList

/-- A count as it is stored. -/
def Value.number : Value → Int
  | .int n => n.toInt
  | _ => 0

/-- The sum of the fields for slots. -/
def binSum (fields : GoMap String Value) : Int :=
  ∑ field ∈ fields.keys.filter fun field => isLatencyBin field = true,
    ((fields.lookup field).map Value.number).getD 0

/-- The tags of the point of an entry. -/
def entryTags (containerName : BioKey → String) (key : BioHistKey) : GoMap String String :=
  ioTags (containerName key.group) key.PID key.RWFlag key.Name

/-- The sum of the counts of all entries with a tag set. -/
def countSum (containerName : BioKey → String) (table : BucketTable BioHistKey (BitVec 64))
    (tags : GoMap String String) : Int :=
  ((table.entries.filter fun entry => entryTags containerName entry.1 = tags).map
    fun entry => (entry.2.toNat : Int)).sum

/-- The points of the batch have different identities, and whenever they are written, what
is stored under a tag set adds up to the entries with it. -/
structure HistogramsKept (conf : ColBiostat) (containerName : BioKey → String)
    (table : BucketTable BioHistKey (BitVec 64)) (data : List ExportData) : Prop where
  distinct : (data.map fun point => (point.Name, point.Tags)).Nodup
  sums : ∀ writeTime tags, binSum (storedFields writeTime (alone data)
      (conf.ExportConfig.DataName, tags, writeTime)) = countSum containerName table tags

/-! ## The condition -/

/-- The bytes of a disk name. -/
def bytes (name : BitVec (8 * 32)) : List (BitVec 8) :=
  (List.range 32).map fun k => (byteOf name k : BitVec 8)

/-- A disk name that has a zero byte, and only zero bytes from the first one on. -/
def ZeroPadded (name : BitVec (8 * 32)) : Prop :=
  0 ∈ bytes name ∧ ∀ b ∈ (bytes name).dropWhile (· ≠ 0), b = 0

/-- Flags that are rendered as "Unknown". -/
def Modified (flag : BitVec 64) : Prop := flag ≠ 0 ∧ flag ≠ 1

/-- No two entries of one process, disk and container have different flags that are both
modified. -/
def NoFlagClash (containerName : BioKey → String) (table : BucketTable BioHistKey (BitVec 64)) :
    Prop :=
  ∀ key key' val val', table.lookup key = some val → table.lookup key' = some val' →
    key.PID = key'.PID → key.Name = key'.Name →
    containerName key.group = containerName key'.group → key.RWFlag ≠ key'.RWFlag →
    ¬ (Modified key.RWFlag ∧ Modified key'.RWFlag)

/-- Every count is below `2 ^ 63`. -/
def CountsFit (table : BucketTable BioHistKey (BitVec 64)) : Prop :=
  ∀ key val, table.lookup key = some val → val.toNat < 2 ^ 63

/-! ## Identities -/

/-- What comes after the first zero byte says nothing. -/
theorem getD_takeWhile {l : List (BitVec 8)} (hl : ∀ b ∈ l.dropWhile (· ≠ 0), b = 0) (k : Nat) :
    (l.takeWhile (· ≠ 0))[k]?.getD 0 = l[k]?.getD 0 := by
  induction l generalizing k with
  | nil => rfl
  | cons a l ih =>
      by_cases ha : a = 0
      · rw [List.dropWhile_cons_of_neg (by simpa using ha)] at hl
        rw [List.takeWhile_cons_of_neg (by simpa using ha)]
        cases hk : (a :: l)[k]? with
        | none => rfl
        | some b => exact (hl b (List.mem_of_getElem? hk)).symm
      · rw [List.dropWhile_cons_of_pos (by simpa using ha)] at hl
        rw [List.takeWhile_cons_of_pos (by simpa using ha)]
        cases k with
        | zero => rfl
        | succ k => exact ih hl k

theorem char_inj {a b : BitVec 8} (h : Char.ofNat a.toNat = Char.ofNat b.toNat) : a = b := by
  have hvalid : ∀ a : BitVec 8, (Char.ofNat a.toNat).toNat = a.toNat := by decide
  exact BitVec.eq_of_toNat_eq (by rw [← hvalid, h, hvalid])

/-- The bytes of a disk name can be read off its text. -/
theorem ctypeByteToString_inj {name name' : BitVec (8 * 32)} (hname : ZeroPadded name)
    (hname' : ZeroPadded name') (h : ctypeByteToString name = ctypeByteToString name') :
    name = name' := by
  have htext : ((bytes name).takeWhile (· ≠ 0)).map (fun b => Char.ofNat b.toNat) =
      ((bytes name').takeWhile (· ≠ 0)).map fun b => Char.ofNat b.toNat :=
    String.ofList_injective h
  have hprefix := List.map_injective_iff.2 (fun _ _ => char_inj) htext
  refine eq_of_byteOf_eq fun k hk => ?_
  have hbyte : ∀ name, (bytes name)[k]?.getD 0 = byteOf name k := by
    intro name
    rw [bytes, List.getElem?_map, List.getElem?_range hk]
    rfl
  rw [← hbyte, ← getD_takeWhile hname.2, hprefix, getD_takeWhile hname'.2, hbyte]

theorem parseRWFlag_eq_iff {flag flag' : BitVec 64} :
    parseRWFlag flag = parseRWFlag flag' ↔ flag = flag' ∨ (Modified flag ∧ Modified flag') := by
  have hcases : ∀ flag, (flag = 0 ∧ parseRWFlag flag = "Read") ∨
      (flag = 1 ∧ parseRWFlag flag = "Write") ∨
      (Modified flag ∧ parseRWFlag flag = "Unknown") := by
    intro flag
    by_cases hzero : flag = 0
    · exact Or.inl ⟨hzero, if_pos hzero⟩
    · by_cases hone : flag = 1
      · exact Or.inr (Or.inl ⟨hone, by rw [parseRWFlag, if_neg hzero, if_pos hone]⟩)
      · exact Or.inr (Or.inr ⟨⟨hzero, hone⟩, by rw [parseRWFlag, if_neg hzero, if_neg hone]⟩)
  constructor
  · intro heq
    rcases hcases flag with ⟨hf, h⟩ | ⟨hf, h⟩ | ⟨hf, h⟩ <;>
      rcases hcases flag' with ⟨hf', h'⟩ | ⟨hf', h'⟩ | ⟨hf', h'⟩ <;> rw [h, h'] at heq
    all_goals first
      | exact Or.inl (hf.trans hf'.symm)
      | exact Or.inr ⟨hf, hf'⟩
      | exact absurd heq (by decide)
  · rintro (rfl | ⟨hmod, hmod'⟩)
    · rfl
    · rw [parseRWFlag, parseRWFlag, if_neg hmod.1, if_neg hmod.2, if_neg hmod'.1, if_neg hmod'.2]

/-- The identity of a point tells the process, the rendered flags, the disk and the
container. -/
theorem ioTags_eq_iff {containerName containerName' : String} {pid pid' : BitVec 32}
    {flag flag' : BitVec 64} {name name' : BitVec (8 * 32)} :
    ioTags containerName pid flag name = ioTags containerName' pid' flag' name' ↔
      containerName = containerName' ∧ pid = pid' ∧ parseRWFlag flag = parseRWFlag flag' ∧
        ctypeByteToString name = ctypeByteToString name' := by
  constructor
  · intro h
    have htag := fun tag => congrArg (Finmap.lookup tag) h
    have hcontainer := htag "container"
    have hpid := htag "pid"
    have hflag := htag "flag"
    have hname := htag "diskName"
    simp only [lookup_ioTags, String.reduceEq, false_and, true_and, if_false, if_true,
      Option.some.injEq] at hcontainer hpid hflag hname
    refine ⟨?_, sprint_inj hpid, hflag, hname⟩
    by_cases hc : containerName = "" <;> by_cases hc' : containerName' = "" <;>
      simp_all
  · rintro ⟨rfl, rfl, hflag, hname⟩
    rw [ioTags, ioTags, hflag, hname]

/-! ## What is stored of one point -/

section Stored

variable {writeTime : Time} {points : List Point} {id : String × GoMap String String × Time}

theorem foldl_union_of_ne (h : ∀ pt ∈ points, storedUnder writeTime pt ≠ id)
    (fields : GoMap String Value) :
    points.foldl (fun fields pt =>
      if storedUnder writeTime pt = id then pt.fields ∪ fields else fields) fields = fields := by
  induction points generalizing fields with
  | nil => rfl
  | cons pt points ih =>
      rw [List.foldl_cons, if_neg (h pt List.mem_cons_self)]
      exact ih (fun pt hpt => h pt (List.mem_cons_of_mem _ hpt)) fields

/-- Nothing is stored under an identity that no point has. -/
theorem storedFields_of_ne (h : ∀ pt ∈ points, storedUnder writeTime pt ≠ id) :
    storedFields writeTime points id = ∅ :=
  foldl_union_of_ne h ∅

/-- A point whose identity no other point has is stored as it is. -/
theorem storedFields_of_nodup {pt : Point} (hnodup : (points.map (storedUnder writeTime)).Nodup)
    (hpt : pt ∈ points) : storedFields writeTime points (storedUnder writeTime pt) = pt.fields := by
  obtain ⟨before, behind, rfl⟩ := List.append_of_mem hpt
  rw [List.map_append, List.map_cons, List.nodup_append, List.nodup_cons] at hnodup
  obtain ⟨-, ⟨hbehind, -⟩, hbefore⟩ := hnodup
  have hne : ∀ pt' ∈ before, storedUnder writeTime pt' ≠ storedUnder writeTime pt :=
    fun pt' hpt' => hbefore _ (List.mem_map_of_mem hpt') _ List.mem_cons_self
  have hne' : ∀ pt' ∈ behind, storedUnder writeTime pt' ≠ storedUnder writeTime pt :=
    fun pt' hpt' heq => hbehind (heq ▸ List.mem_map_of_mem hpt')
  rw [storedFields, List.foldl_append, foldl_union_of_ne hne, List.foldl_cons, if_pos rfl,
    foldl_union_of_ne hne', Finmap.union_empty]

end Stored

/-! ## The points of the groups -/

theorem isLatencyBin_latencyBin (slotIdx : BitVec 32) :
    isLatencyBin (latencyBin slotIdx) = true := by
  unfold isLatencyBin latencyBin
  rw [String.toList_append, String.toList_append, List.append_assoc]
  exact List.isPrefixOf_iff_prefix.2 (List.prefix_append _ _)

/-- The tags of the point of a group. -/
def groupTags (containerName : BioKey → String) (group : BioKey) : GoMap String String :=
  ioTags (containerName group) group.PID group.RWFlag group.Name

/-- The entries of a group. -/
def entriesOf (table : BucketTable BioHistKey (BitVec 64)) (group : BioKey) :
    List (BioHistKey × BitVec 64) :=
  table.entries.filter fun entry => entry.1.group = group

section Groups

variable {conf : ColBiostat} {containerName : BioKey → String}
  {table : BucketTable BioHistKey (BitVec 64)} {group : BioKey} {point : ExportData}

theorem mem_entriesOf {entry : BioHistKey × BitVec 64} :
    entry ∈ entriesOf table group ↔
      table.lookup entry.1 = some entry.2 ∧ entry.1.group = group := by
  rw [entriesOf, List.mem_filter, decide_eq_true_iff, table.lookup_eq_some_iff]

/-- The slots of a group have different fields. -/
theorem nodup_latencyBin (table : BucketTable BioHistKey (BitVec 64)) (group : BioKey) :
    ((entriesOf table group).map fun entry => latencyBin entry.1.Slot).Nodup := by
  have hkeys : ((entriesOf table group).map Prod.fst).Nodup :=
    (List.filter_sublist.map Prod.fst).nodup table.nodup_keys_entries
  rw [List.nodup_map_iff_inj_on hkeys.of_map]
  intro entry hentry entry' hentry' heq
  have hgroup := (mem_entriesOf.1 hentry).2.trans (mem_entriesOf.1 hentry').2.symm
  exact List.inj_on_of_nodup_map hkeys hentry hentry'
    (group_eq_and_Slot_eq.1 ⟨hgroup, latencyBin_inj heq⟩)

/-- The fields for slots of the point of a group. -/
theorem filter_keys_of_isHistPoint (hpoint : IsHistPoint conf containerName table group point) :
    (point.Fields.keys.filter fun field => isLatencyBin field = true) =
      ((entriesOf table group).map fun entry => latencyBin entry.1.Slot).toFinset := by
  ext field
  rw [Finset.mem_filter, GoMap.mem_keys_iff, List.mem_toFinset, List.mem_map]
  simp only [hpoint.fields]
  constructor
  · rintro ⟨⟨value, ⟨slotIdx, count, hcount, hfield, -⟩ | ⟨rfl, -⟩⟩, hbin⟩
    · exact ⟨(group.slot slotIdx, count), mem_entriesOf.2 ⟨hcount, rfl⟩, hfield.symm⟩
    · exact absurd hbin (by decide)
  · rintro ⟨entry, hentry, rfl⟩
    obtain ⟨hlookup, rfl⟩ := mem_entriesOf.1 hentry
    exact ⟨⟨_, Or.inl ⟨entry.1.Slot, entry.2, hlookup, rfl, rfl⟩⟩, isLatencyBin_latencyBin _⟩

/-- The fields of the point of a group add up to its entries, each as an `int`. -/
theorem binSum_of_isHistPoint (hpoint : IsHistPoint conf containerName table group point) :
    binSum point.Fields = ((entriesOf table group).map fun entry => entry.2.toInt).sum := by
  rw [binSum, filter_keys_of_isHistPoint hpoint, List.sum_toFinset _ (nodup_latencyBin table group),
    List.map_map]
  congr 1
  refine List.map_congr_left fun entry hentry => ?_
  obtain ⟨hlookup, rfl⟩ := mem_entriesOf.1 hentry
  have hfield : point.Fields.lookup (latencyBin entry.1.Slot) = some (.int entry.2) :=
    (hpoint.fields _ _).2 (Or.inl ⟨entry.1.Slot, entry.2, hlookup, rfl, rfl⟩)
  rw [Function.comp_apply, hfield]
  rfl

/-- `Export` builds a point without a time of it. -/
theorem exportPoint_of_isHistPoint (hpoint : IsHistPoint conf containerName table group point) :
    (exportPoint point).2 =
      ⟨conf.ExportConfig.DataName, groupTags containerName group, point.Fields, none⟩ := by
  have hnone : point.Fields.lookup "timestamp" = none := by
    refine Option.eq_none_iff_forall_ne_some.2 fun value hvalue => ?_
    rcases (hpoint.fields "timestamp" value).1 hvalue with ⟨slotIdx, count, -, hfield, -⟩ | h
    · have hbin := isLatencyBin_latencyBin slotIdx
      rw [← hfield] at hbin
      exact absurd hbin (by decide)
    · exact absurd h.1 (by decide)
  have htimeless : ¬HasTime point := by
    rintro ⟨ts, hts⟩
    rw [hnone] at hts
    cases hts
  rw [exportPoint_of_not_hasTime htimeless]
  show Point.mk point.Name point.Tags point.Fields none = _
  rw [hpoint.name, hpoint.tags]
  rfl

end Groups

/-! ## The batch -/

section Batch

variable {conf : ColBiostat} {containerName : BioKey → String}
  {table : BucketTable BioHistKey (BitVec 64)} {groups : List BioKey} {data : List ExportData}

/-- What the groups of a table are. -/
def GroupsOf (table : BucketTable BioHistKey (BitVec 64)) (groups : List BioKey) : Prop :=
  ∀ group, group ∈ groups ↔ ∃ slotIdx count, table.lookup (group.slot slotIdx) = some count

/-- Different groups have different tags. -/
def TagsApart (containerName : BioKey → String) (groups : List BioKey) : Prop :=
  ∀ group ∈ groups, ∀ group' ∈ groups,
    groupTags containerName group = groupTags containerName group' → group = group'

theorem GroupsOf.group_mem (hgroups : GroupsOf table groups) {key : BioHistKey} {val : BitVec 64}
    (hval : table.lookup key = some val) : key.group ∈ groups :=
  (hgroups key.group).2 ⟨key.Slot, val, hval⟩

/-- Every group has its point. -/
theorem exists_point_of_mem {group : BioKey}
    (hpoints : List.Forall₂ (IsHistPoint conf containerName table) groups data)
    (hgroup : group ∈ groups) :
    ∃ point ∈ data, IsHistPoint conf containerName table group point := by
  induction hpoints with
  | nil => cases hgroup
  | cons hpoint _ ih =>
      rcases List.mem_cons.1 hgroup with rfl | hgroup
      · exact ⟨_, List.mem_cons_self, hpoint⟩
      · obtain ⟨point, hmem, hpoint⟩ := ih hgroup
        exact ⟨point, List.mem_cons_of_mem _ hmem, hpoint⟩

theorem map_identity
    (hpoints : List.Forall₂ (IsHistPoint conf containerName table) groups data) :
    (data.map fun point => (point.Name, point.Tags)) =
      groups.map fun group => (conf.ExportConfig.DataName, groupTags containerName group) := by
  induction hpoints with
  | nil => rfl
  | cons hpoint _ ih => rw [List.map_cons, List.map_cons, ih, hpoint.name, hpoint.tags, groupTags]

theorem map_storedUnder (writeTime : Time)
    (hpoints : List.Forall₂ (IsHistPoint conf containerName table) groups data) :
    (alone data).map (storedUnder writeTime) = groups.map fun group =>
      (conf.ExportConfig.DataName, groupTags containerName group, writeTime) := by
  rw [alone, List.map_map]
  induction hpoints with
  | nil => rfl
  | cons hpoint _ ih =>
      rw [List.map_cons, List.map_cons, ih, Function.comp_apply, exportPoint_of_isHistPoint hpoint]
      rfl

/-- The points have different identities when the groups have different tags. -/
theorem nodup_identity_iff (hnodup : groups.Nodup)
    (hpoints : List.Forall₂ (IsHistPoint conf containerName table) groups data) :
    (data.map fun point => (point.Name, point.Tags)).Nodup ↔ TagsApart containerName groups := by
  rw [map_identity hpoints, List.nodup_map_iff_inj_on hnodup]
  simp only [Prod.mk.injEq, true_and, TagsApart]

/-- The groups have different tags when no flags clash. -/
theorem tagsApart_iff (hgroups : GroupsOf table groups)
    (hnames : ∀ key val, table.lookup key = some val → ZeroPadded key.Name) :
    TagsApart containerName groups ↔ NoFlagClash containerName table := by
  constructor
  · intro hapart key key' val val' hval hval' hpid hname hcontainer hflag hmod
    have htags : groupTags containerName key.group = groupTags containerName key'.group := by
      refine ioTags_eq_iff.2 ⟨hcontainer, hpid, parseRWFlag_eq_iff.2 (Or.inr hmod), ?_⟩
      exact congrArg ctypeByteToString hname
    have hgroup := hapart _ (hgroups.group_mem hval) _ (hgroups.group_mem hval') htags
    exact hflag (congrArg BioKey.RWFlag hgroup)
  · intro hclash group hgroup group' hgroup' htags
    obtain ⟨slotIdx, val, hval⟩ := (hgroups group).1 hgroup
    obtain ⟨slotIdx', val', hval'⟩ := (hgroups group').1 hgroup'
    obtain ⟨hcontainer, hpid, hflag, hname⟩ := ioTags_eq_iff.1 htags
    have hname : group.Name = group'.Name :=
      ctypeByteToString_inj (hnames _ _ hval) (hnames _ _ hval') hname
    have hflag : group.RWFlag = group'.RWFlag := by
      rcases parseRWFlag_eq_iff.1 hflag with heq | hmod
      · exact heq
      · by_contra hne
        exact hclash _ _ val val' hval hval' hpid hname hcontainer hne hmod
    obtain ⟨pid, flag, name⟩ := group
    cases hpid
    cases hflag
    cases hname
    rfl

/-- With different tags, the entries with the tags of a group are those of the group. -/
theorem countSum_groupTags (hgroups : GroupsOf table groups)
    (hapart : TagsApart containerName groups) {group : BioKey} (hgroup : group ∈ groups) :
    countSum containerName table (groupTags containerName group) =
      ((entriesOf table group).map fun entry => (entry.2.toNat : Int)).sum := by
  have hfilter : (table.entries.filter fun entry =>
      entryTags containerName entry.1 = groupTags containerName group) = entriesOf table group := by
    refine List.filter_congr fun entry hentry => decide_eq_decide.2 ⟨fun htags => ?_, ?_⟩
    · have hval := table.lookup_eq_some_iff.2 hentry
      exact hapart _ (hgroups.group_mem hval) _ hgroup htags
    · rintro rfl
      rfl
  rw [countSum, hfilter]

/-- Nothing is stored under tags that no group has, and no entry has them. -/
theorem binSum_eq_countSum_of_ne (hgroups : GroupsOf table groups)
    (hpoints : List.Forall₂ (IsHistPoint conf containerName table) groups data)
    {tags : GoMap String String} (hne : ∀ group ∈ groups, groupTags containerName group ≠ tags)
    (writeTime : Time) :
    binSum (storedFields writeTime (alone data) (conf.ExportConfig.DataName, tags, writeTime)) =
      countSum containerName table tags := by
  have hunder : ∀ pt ∈ alone data,
      storedUnder writeTime pt ≠ (conf.ExportConfig.DataName, tags, writeTime) := by
    intro pt hpt heq
    have hmem := List.mem_map_of_mem (f := storedUnder writeTime) hpt
    rw [map_storedUnder writeTime hpoints, List.mem_map] at hmem
    obtain ⟨group, hgroup, hid⟩ := hmem
    rw [heq] at hid
    simp only [Prod.mk.injEq, true_and, and_true] at hid
    exact hne group hgroup hid
  have hentries : (table.entries.filter fun entry => entryTags containerName entry.1 = tags) =
      [] := by
    refine List.filter_eq_nil_iff.2 fun entry hentry htags => ?_
    have hval := table.lookup_eq_some_iff.2 hentry
    exact hne _ (hgroups.group_mem hval) (of_decide_eq_true htags)
  rw [storedFields_of_ne hunder, countSum, hentries]
  rfl

/-- What is stored under the tags of a group are the fields of its point. -/
theorem storedFields_groupTags (writeTime : Time) (hnodup : groups.Nodup)
    (hpoints : List.Forall₂ (IsHistPoint conf containerName table) groups data)
    (hapart : TagsApart containerName groups) {group : BioKey} (hgroup : group ∈ groups) :
    ∃ point, IsHistPoint conf containerName table group point ∧
      storedFields writeTime (alone data) (conf.ExportConfig.DataName,
        groupTags containerName group, writeTime) = point.Fields := by
  have hids : ((alone data).map (storedUnder writeTime)).Nodup := by
    rw [map_storedUnder writeTime hpoints, List.nodup_map_iff_inj_on hnodup]
    simp only [Prod.mk.injEq, true_and, and_true]
    exact hapart
  obtain ⟨point, hmem, hpoint⟩ := exists_point_of_mem hpoints hgroup
  refine ⟨point, hpoint, ?_⟩
  have hstored := storedFields_of_nodup hids
    (List.mem_map_of_mem (f := fun point => (exportPoint point).2) hmem)
  rw [exportPoint_of_isHistPoint hpoint] at hstored
  exact hstored

/-- A count is stored as it is when it is small enough, and else as something less. -/
theorem toInt_le (val : BitVec 64) :
    val.toInt ≤ val.toNat ∧ (val.toInt = val.toNat ↔ val.toNat < 2 ^ 63) := by
  have hval := val.isLt
  rw [BitVec.toInt_eq_toNat_cond]
  split <;> omega

/-- The stored fields of a group add up to its counts when these fit. -/
theorem sum_toInt_iff (entries : List (BioHistKey × BitVec 64)) :
    (entries.map fun entry => entry.2.toInt).sum =
        (entries.map fun entry => (entry.2.toNat : Int)).sum ↔
      ∀ entry ∈ entries, entry.2.toNat < 2 ^ 63 := by
  induction entries with
  | nil => simp
  | cons entry entries ih =>
      have hle : (entries.map fun entry => entry.2.toInt).sum ≤
          (entries.map fun entry => (entry.2.toNat : Int)).sum :=
        List.sum_le_sum fun entry _ => (toInt_le entry.2).1
      rw [List.map_cons, List.map_cons, List.sum_cons, List.sum_cons, List.forall_mem_cons, ← ih,
        ← (toInt_le entry.2).2]
      have hhead := (toInt_le entry.2).1
      omega

/-- With different tags, the sums are right when the counts fit. -/
theorem sums_iff_countsFit (hgroups : GroupsOf table groups) (hnodup : groups.Nodup)
    (hpoints : List.Forall₂ (IsHistPoint conf containerName table) groups data)
    (hapart : TagsApart containerName groups) :
    (∀ writeTime tags, binSum (storedFields writeTime (alone data)
        (conf.ExportConfig.DataName, tags, writeTime)) = countSum containerName table tags) ↔
      CountsFit table := by
  have hsum : ∀ writeTime, ∀ group ∈ groups, (binSum (storedFields writeTime (alone data)
      (conf.ExportConfig.DataName, groupTags containerName group, writeTime)) =
        countSum containerName table (groupTags containerName group) ↔
      ∀ entry ∈ entriesOf table group, entry.2.toNat < 2 ^ 63) := by
    intro writeTime group hgroup
    obtain ⟨point, hpoint, hstored⟩ :=
      storedFields_groupTags writeTime hnodup hpoints hapart hgroup
    rw [hstored, binSum_of_isHistPoint hpoint, countSum_groupTags hgroups hapart hgroup,
      sum_toInt_iff]
  constructor
  · intro hsums key val hval
    have hgroup := hgroups.group_mem hval
    exact (hsum 0 key.group hgroup).1 (hsums 0 _) (key, val) (mem_entriesOf.2 ⟨hval, rfl⟩)
  · intro hfit writeTime tags
    by_cases htags : ∃ group ∈ groups, groupTags containerName group = tags
    · obtain ⟨group, hgroup, rfl⟩ := htags
      exact (hsum writeTime group hgroup).2
        fun entry hentry => hfit entry.1 entry.2 (mem_entriesOf.1 hentry).1
    · exact binSum_eq_countSum_of_ne hgroups hpoints
        (fun group hgroup heq => htags ⟨group, hgroup, heq⟩) writeTime

end Batch

/-- Points that are those of the groups of a table. -/
theorem histogramsKept_iff_of_groupsExported {conf : ColBiostat} {containerName : BioKey → String}
    {table : BucketTable BioHistKey (BitVec 64)} {data : List ExportData}
    (hexported : GroupsExported conf containerName table data)
    (hnames : ∀ key val, table.lookup key = some val → ZeroPadded key.Name) :
    HistogramsKept conf containerName table data ↔
      NoFlagClash containerName table ∧ CountsFit table := by
  obtain ⟨groups, hnodup, hgroups, hpoints⟩ := hexported
  constructor
  · intro hkept
    have hapart := (nodup_identity_iff hnodup hpoints).1 hkept.distinct
    exact ⟨(tagsApart_iff hgroups hnames).1 hapart,
      (sums_iff_countsFit hgroups hnodup hpoints hapart).1 hkept.sums⟩
  · rintro ⟨hclash, hfit⟩
    have hapart := (tagsApart_iff hgroups hnames).2 hclash
    exact ⟨(nodup_identity_iff hnodup hpoints).2 hapart,
      (sums_iff_countsFit hgroups hnodup hpoints hapart).2 hfit⟩

/-- **The points of a batch have different identities, and what is stored adds up to the
counts, exactly when no two entries of one process, disk and container have different
flags that are rendered alike, and every count is below `2 ^ 63`.**  For every contents of
`dist`. -/
theorem histogramsKept_iff (conf : ColBiostat) (containerName : BioKey → String)
    (order : (m : GoMap BioKey BioHistVal) → GoMap.RangeOrder m)
    (table : BucketTable BioHistKey (BitVec 64))
    (hnames : ∀ key val, table.lookup key = some val → ZeroPadded key.Name) :
    Drains conf.ExportConfig (fun fuel => exportHistData conf containerName order fuel table)
      fun data => HistogramsKept conf containerName table data ↔
        NoFlagClash containerName table ∧ CountsFit table := by
  obtain ⟨count, hdrains⟩ := exportHistData_drains conf containerName order table
  refine ⟨count, fun fuel hfuel => ?_⟩
  obtain ⟨table', data, hsent, hempty, hexported⟩ := hdrains fuel hfuel
  exact ⟨table', data, hsent, hempty, histogramsKept_iff_of_groupsExported hexported hnames⟩

/-- A table of one bucket. -/
def oneBucket (entries : List (BioHistKey × BitVec 64)) (h : (entries.map Prod.fst).Nodup) :
    BucketTable BioHistKey (BitVec 64) where
  size := 1
  hash _ := 0
  hash_lt _ := Nat.one_pos
  bucket i := if i = 0 then entries else []
  hash_of_mem i entry hmem := by
    by_cases hi : i = 0
    · exact hi.symm
    · rw [if_neg hi] at hmem
      cases hmem
  nodup i := by
    by_cases hi : i = 0
    · rw [if_pos hi]
      exact h
    · rw [if_neg hi]
      exact List.nodup_nil

theorem lookup_oneBucket {entries : List (BioHistKey × BitVec 64)}
    {h : (entries.map Prod.fst).Nodup} {key : BioHistKey} {val : BitVec 64} :
    (oneBucket entries h).lookup key = some val ↔ (key, val) ∈ entries := by
  rw [BucketTable.lookup_eq_some_iff, BucketTable.mem_entries_iff_mem_bucket]
  exact Iff.rfl

/-- The name of the disk "sda" is zero-padded. -/
theorem zeroPadded_of_sda {entries : List (BioHistKey × BitVec 64)}
    {h : (entries.map Prod.fst).Nodup} (hsda : ∀ entry ∈ entries, entry.1.Name = 0x616473)
    (key : BioHistKey) (val : BitVec 64) (hval : (oneBucket entries h).lookup key = some val) :
    ZeroPadded key.Name := by
  have hbytes : bytes 0x616473 = 0x73 :: 0x64 :: 0x61 :: List.replicate 29 0 := by decide
  rw [hsda (key, val) (lookup_oneBucket.1 hval), ZeroPadded, hbytes]
  decide

/-- Some order for every map. -/
noncomputable def someOrder (m : GoMap BioKey BioHistVal) : GoMap.RangeOrder m where
  keys := m.keys.toList
  ranges := m.keys.coe_toList

/-- The disk "sda", with one read and one synchronous write. -/
theorem histogramsKept_read_write :
    let conf : ColBiostat := ⟨"biostat", 2, 1, ListenConfig.zero, ⟨10, "biostat", []⟩⟩
    let table := oneBucket [(⟨3, 7, 0, 0x616473⟩, 4), (⟨3, 7, 0x801, 0x616473⟩, 5)] (by decide)
    ∃ fuel table' data, exportHistData conf (fun _ => "") someOrder fuel table =
        some (table', send conf.ExportConfig data) ∧
      HistogramsKept conf (fun _ => "") table data := by
  intro conf table
  have hnames : ∀ key val, table.lookup key = some val → ZeroPadded key.Name :=
    zeroPadded_of_sda (by decide)
  obtain ⟨count, hdrains⟩ := histogramsKept_iff conf (fun _ => "") someOrder table hnames
  obtain ⟨table', data, hsent, -, hkept⟩ := hdrains (count + 1) (Nat.lt_succ_self count)
  refine ⟨count + 1, table', data, hsent, hkept.2 ⟨?_, fun key val hval => ?_⟩⟩
  · intro key key' val val' hval hval' _ _ _ hflag hmod
    have hmem := lookup_oneBucket.1 hval
    have hmem' := lookup_oneBucket.1 hval'
    simp only [List.mem_cons, Prod.mk.injEq, List.not_mem_nil, or_false] at hmem hmem'
    rcases hmem with ⟨rfl, -⟩ | ⟨rfl, -⟩
    · exact hmod.1.1 rfl
    · rcases hmem' with ⟨rfl, -⟩ | ⟨rfl, -⟩
      · exact hmod.2.1 rfl
      · exact hflag rfl
  · have hmem := lookup_oneBucket.1 hval
    simp only [List.mem_cons, Prod.mk.injEq, List.not_mem_nil, or_false] at hmem
    rcases hmem with ⟨-, rfl⟩ | ⟨-, rfl⟩ <;> decide

/-- Two kinds of synchronous requests of one process to one disk become points with the same
name and tags. -/
theorem unknown_flags_collide :
    let conf : ColBiostat := ⟨"biostat", 2, 1, ListenConfig.zero, ⟨10, "biostat", []⟩⟩
    let table := oneBucket [(⟨3, 7, 0x800, 0x616473⟩, 4), (⟨3, 7, 0x801, 0x616473⟩, 5)]
      (by decide)
    (∀ key val, table.lookup key = some val → ZeroPadded key.Name) ∧
      ∃ fuel table' data, exportHistData conf (fun _ => "") someOrder fuel table =
          some (table', send conf.ExportConfig data) ∧
        ¬ HistogramsKept conf (fun _ => "") table data := by
  intro conf table
  have hnames : ∀ key val, table.lookup key = some val → ZeroPadded key.Name :=
    zeroPadded_of_sda (by decide)
  obtain ⟨count, hdrains⟩ := exportHistData_drains conf (fun _ => "") someOrder table
  obtain ⟨table', data, hsent, -, hexported⟩ := hdrains (count + 1) (Nat.lt_succ_self count)
  refine ⟨hnames, count + 1, table', data, hsent, fun hkept => ?_⟩
  have hclash := ((histogramsKept_iff_of_groupsExported hexported hnames).1 hkept).1
  exact hclash ⟨3, 7, 0x800, 0x616473⟩ ⟨3, 7, 0x801, 0x616473⟩ 4 5
    (lookup_oneBucket.2 (by simp)) (lookup_oneBucket.2 (by simp)) rfl rfl rfl (by decide)
    ⟨⟨by decide, by decide⟩, by decide, by decide⟩

end Kmon.Ports.HistogramPoints
