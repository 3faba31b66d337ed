import Kmon.Verified.GoMap
import Kmon.Verified.Json
import Kmon.Verified.Lines
import Mathlib.Algebra.GroupWithZero.Nat

/-!
# The body of a bulk request

`elastic.Export` (`src/exporter/elastcisearch.go`) writes two lines for a point: an action
with the name of the point, which it puts into a text by `fmt.Sprintf`, and a document with
its fields and tags, which it leaves to `json.Marshal`.  Points without fields and tags are
left out, and a value that cannot be marshalled ends the export.

The values of the fields and `json.Marshal` are parameters.  `bodyDecodes_iff` says for which
points the lines of the body decode to what was asked for.
-/

namespace Kmon.Ports.ElasticBulk

open Kmon.Verified
open Kmon.Verified.Lines

universe u

/-- `model.ExportData`, for fields whose values are of a type `ι`. -/
structure ExportData (ι : Type u) where
  Name : String
  Tags : GoMap String String
  Fields : GoMap String ι

/-- `meta` without the newline: `{ "index" : { "_index" : "%s" } }`. -/
def metaLine (name : List Char) : List Char :=
  "\x7b \"index\" : \x7b \"_index\" : \"".toList ++ name ++ "\" \x7d \x7d".toList

section Export

variable {ι : Type u} (ofString : String → ι) (marshal : GoMap String ι → Option (List Char))

/-- `totalData`. -/
def totalData (point : ExportData ι) : GoMap String ι :=
  GoMap.copyInto ofString point.Tags (GoMap.copyInto id point.Fields ∅)

/-- One round of the loop of `Export`. -/
def exportRound (buffer : List Char) (point : ExportData ι) : Option (List Char) :=
  if (totalData ofString point).keys.card = 0 then some buffer
  else
    (marshal (totalData ofString point)).map fun data =>
      buffer ++ (metaLine point.Name.toList ++ ['\n']) ++ (data ++ ['\n'])

/-- The body that `Export` sends. -/
def exportBody (points : List (ExportData ι)) : Option (List Char) :=
  points.foldlM (exportRound ofString marshal) []

/-- A point with at least one tag or field. -/
def HasData (point : ExportData ι) : Prop :=
  point.Tags.keys.Nonempty ∨ point.Fields.keys.Nonempty

instance (point : ExportData ι) : Decidable (HasData point) :=
  inferInstanceAs (Decidable (point.Tags.keys.Nonempty ∨ point.Fields.keys.Nonempty))

/-- An action for an index. -/
def IsAction (name : String) (v : Json) : Prop :=
  (v.get "index").bind (Json.get "_index") = some (.str name)

variable (denote : ι → Json)

/-- An object with the values of a map. -/
def IsObject (m : String → Option ι) (v : Json) : Prop :=
  (∃ members, v = .obj members) ∧ ∀ k, v.get k = (m k).map denote

/-- The fields of a point, overridden by its tags. -/
def document (point : ExportData ι) (k : String) : Option ι :=
  ((point.Tags.lookup k).map ofString).or (point.Fields.lookup k)

/-- What a line has to be. -/
def Line (want : Json → Prop) (line : List Char) : Prop :=
  ∃ v, Json.parse line = some v ∧ want v

/-- The two lines of a point. -/
def wanted (point : ExportData ι) : List (Json → Prop) :=
  [IsAction point.Name, IsObject denote (document ofString point)]

/-- The lines of the body are those of the points with data. -/
def Decodes (points : List (ExportData ι)) (body : List Char) : Prop :=
  List.Forall₂ Line ((points.filter fun p => HasData p).flatMap (wanted ofString denote))
    (lines body)

/-- `json.Marshal` writes an object with the values of the map on one line. -/
structure Marshals (denote : ι → Json) (m : GoMap String ι) (text : List Char) : Prop where
  oneLine : '\n' ∉ text
  object : Line (IsObject denote fun k => m.lookup k) text

end Export

/-! ## The action -/

/-- An object that begins with a member. -/
theorem value_member {steps depth : Nat} {text key cs : List Char}
    (hnext : Json.next text = some ('{', ' ' :: '"' :: (key ++ '"' :: ' ' :: ':' :: cs)))
    (hplain : Json.PlainText key) :
    Json.value (steps + 2) (depth + 1) text =
      (Json.value steps depth cs).bind fun p => (Json.next p.2).bind fun q =>
        if q.1 = ',' then
          (Json.members steps depth q.2).bind fun r =>
            some (.obj ((String.ofList key, p.1) :: r.1), r.2)
        else if q.1 = '}' then some (.obj [(String.ofList key, p.1)], q.2)
        else none := by
  rw [Json.value_object hnext rfl, Json.members_key rfl hplain rfl, Option.bind_assoc]
  refine Option.bind_congr fun p _ => ?_
  rw [Option.bind_assoc]
  refine Option.bind_congr fun q _ => ?_
  split
  · rw [Option.bind_assoc]
    rfl
  split
  · rfl
  · rfl

/-- The first member of such an object. -/
theorem value_member_inv {steps depth : Nat} {text key cs rest : List Char} {v : Json}
    (hnext : Json.next text = some ('{', ' ' :: '"' :: (key ++ '"' :: ' ' :: ':' :: cs)))
    (hplain : Json.PlainText key)
    (h : Json.value (steps + 2) (depth + 1) text = some (v, rest)) :
    ∃ u rest' ms, Json.value steps depth cs = some (u, rest') ∧
      v = .obj ((String.ofList key, u) :: ms) := by
  rw [value_member hnext hplain] at h
  obtain ⟨⟨u, rest'⟩, hvalue, h⟩ := Option.bind_eq_some_iff.1 h
  obtain ⟨⟨c, cs'⟩, -, h⟩ := Option.bind_eq_some_iff.1 h
  dsimp only at h
  split at h
  · obtain ⟨⟨ms, rest''⟩, -, h⟩ := Option.bind_eq_some_iff.1 h
    cases h
    exact ⟨u, rest', ms, hvalue, rfl⟩
  split at h
  · cases h
    exact ⟨u, rest', [], hvalue, rfl⟩
  · cases h

/-- What follows the quotation mark in front of the name. -/
def nameText (name : List Char) : List Char := name ++ ['"', ' ', '}', ' ', '}']

/-- What follows the key of the action. -/
def actionText (name : List Char) : List Char :=
  ' ' :: '{' :: ' ' :: '"' :: (['_', 'i', 'n', 'd', 'e', 'x'] ++
    '"' :: ' ' :: ':' :: ' ' :: '"' :: nameText name)

theorem metaLine_eq (name : List Char) :
    metaLine name =
      '{' :: ' ' :: '"' :: (['i', 'n', 'd', 'e', 'x'] ++ '"' :: ' ' :: ':' :: actionText name) :=
  List.append_assoc _ _ _

theorem length_metaLine (name : List Char) : (metaLine name).length = name.length + 31 := by
  simp only [metaLine_eq, actionText, nameText, List.length_cons, List.length_append,
    List.length_nil]
  omega

/-- The budget and the depth for an action. -/
theorem first_metaLine (name : List Char) :
    Json.first (metaLine name).length (metaLine name) =
      Json.value (2 * name.length + 59 + 4) (name.length + 29 + 2) (metaLine name) := by
  rw [Json.first, Json.fuel, length_metaLine]
  rw [show 2 * (name.length + 31) + 1 = 2 * name.length + 59 + 4 by omega]

/-- The string in an action. -/
theorem parse_metaLine_inv {name : List Char} {v : Json}
    (h : Json.parse (metaLine name) = some v) :
    ∃ s rest ms ms', Json.stringBody (nameText name) = some (s, rest) ∧
      v = .obj (("index", .obj (("_index", .str s) :: ms)) :: ms') := by
  obtain ⟨rest, hfirst, -⟩ := Json.parse_eq_some_iff.1 h
  rw [first_metaLine, metaLine_eq] at hfirst
  obtain ⟨u, rest₁, ms', hu, rfl⟩ := value_member_inv rfl (by decide) hfirst
  obtain ⟨w, rest₂, ms, hw, rfl⟩ := value_member_inv rfl (by decide) hu
  rw [Json.value_string rfl] at hw
  obtain ⟨⟨s, rest₃⟩, hs, hw⟩ := Option.bind_eq_some_iff.1 hw
  cases hw
  exact ⟨s, rest₃, ms, ms', hs, rfl⟩

/-- If the name is not the first string of the action, there is no room for it. -/
theorem name_eq_of_isAction {name s : String} {ms ms' : List (String × Json)}
    (hv : IsAction name (.obj (("index", .obj (("_index", .str s) :: ms)) :: ms')))
    (hsize : (Json.obj (("index", .obj (("_index", .str s) :: ms)) :: ms')).size ≤
      name.length + 31) : s = name := by
  obtain ⟨w, hindex, hname⟩ := Option.bind_eq_some_iff.1 hv
  have hindexLength : "index".length = 5 := by decide
  have hnameLength : "_index".length = 6 := by decide
  simp only [Json.size, Json.sizeMembers, hindexLength, hnameLength] at hsize
  rcases List.mem_cons.1 (Json.mem_of_get hindex) with hfirst | hlater
  · cases hfirst
    rcases List.mem_cons.1 (Json.mem_of_get hname) with hfirst' | hlater'
    · cases hfirst'
      rfl
    · have hle := Json.size_le_of_mem hlater'
      simp only [Json.size, hnameLength] at hle
      omega
  · have hle := Json.size_le_of_mem hlater
    have hle' := Json.size_get hname
    simp only [Json.size, hnameLength, hindexLength] at hle hle'
    omega

theorem plain_of_isAction {name : String} {v : Json}
    (h : Json.parse (metaLine name.toList) = some v) (hv : IsAction name v) :
    Json.PlainText name.toList := by
  obtain ⟨rest, hfirst, -⟩ := Json.parse_eq_some_iff.1 h
  have hsize := Json.size_value hfirst
  rw [length_metaLine] at hsize
  obtain ⟨s, rest', ms, ms', hs, rfl⟩ := parse_metaLine_inv h
  have hname : s = name := name_eq_of_isAction hv (by rw [← String.length_toList]; omega)
  rw [hname] at hs
  exact Json.plain_of_stringBody hs (String.length_toList).symm (by decide)

/-- An action for a name that stands for itself. -/
theorem parse_metaLine {name : List Char} (h : Json.PlainText name) :
    Json.parse (metaLine name) =
      some (.obj [("index", .obj [("_index", .str (String.ofList name))])]) := by
  rw [Json.parse_eq_some_iff]
  refine ⟨[], ?_, rfl⟩
  rw [first_metaLine, metaLine_eq, value_member rfl (by decide)]
  have hinner : Json.value (2 * name.length + 59 + 2) (name.length + 29 + 1) (actionText name) =
      some (.obj [("_index", .str (String.ofList name))], [' ', '}']) := by
    rw [actionText, value_member rfl (by decide), Json.value_string rfl, nameText,
      Json.stringBody_plain h]
    rfl
  rw [hinner]
  rfl

theorem newline_notMem_metaLine {name : List Char} (h : Json.PlainText name) :
    '\n' ∉ metaLine name := by
  intro hmem
  have hname : '\n' ∈ name := by
    simpa [metaLine_eq, actionText, nameText] using hmem
  exact absurd (h _ hname).2.2 (by decide)

/-! ## The body -/

section Body

variable {ι : Type u} {ofString : String → ι} {marshal : GoMap String ι → Option (List Char)}
variable {denote : ι → Json}

theorem lookup_totalData (point : ExportData ι) (k : String) :
    (totalData ofString point).lookup k = document ofString point k := by
  rw [totalData, GoMap.lookup_copyInto, GoMap.lookup_copyInto, Finmap.lookup_empty,
    Option.map_id, document]
  exact congrArg _ (Option.or_none)

/-- There is something to write for the points with data. -/
theorem card_totalData (point : ExportData ι) :
    (totalData ofString point).keys.card = 0 ↔ ¬HasData point := by
  rw [Finset.card_eq_zero, Finset.eq_empty_iff_forall_notMem, HasData, not_or,
    Finset.not_nonempty_iff_eq_empty, Finset.not_nonempty_iff_eq_empty,
    Finset.eq_empty_iff_forall_notMem, Finset.eq_empty_iff_forall_notMem, ← forall_and]
  refine forall_congr' fun k => ?_
  simp only [Finmap.mem_keys, ← Finmap.lookup_eq_none, lookup_totalData, document,
    Option.or_eq_none_iff, Option.map_eq_none_iff]

variable (ofString marshal)

/-- The document of a point that can be marshalled. -/
def documentText (point : ExportData ι) : List Char :=
  (marshal (totalData ofString point)).getD []

/-- What a point adds to the body. -/
def pointText (point : ExportData ι) : List Char :=
  metaLine point.Name.toList ++ '\n' :: (documentText ofString marshal point ++ ['\n'])

variable {ofString marshal}

theorem exportRound_eq {point : ExportData ι}
    (h : (marshal (totalData ofString point)).isSome) (buffer : List Char) :
    exportRound ofString marshal buffer point =
      some (buffer ++ if HasData point then pointText ofString marshal point else []) := by
  obtain ⟨data, hdata⟩ := Option.isSome_iff_exists.1 h
  unfold exportRound
  by_cases hcard : (totalData ofString point).keys.card = 0
  · rw [if_pos hcard, if_neg (card_totalData point |>.1 hcard), List.append_nil]
  · rw [if_neg hcard, if_pos (not_not.1 fun hnone => hcard ((card_totalData point).2 hnone)),
      pointText, documentText, hdata, Option.map_some, Option.getD_some]
    simp only [List.append_assoc, List.singleton_append]

theorem foldlM_exportRound {points : List (ExportData ι)}
    (h : ∀ point ∈ points, (marshal (totalData ofString point)).isSome) (buffer : List Char) :
    points.foldlM (exportRound ofString marshal) buffer =
      some (buffer ++
        (points.filter fun p => HasData p).flatMap (pointText ofString marshal)) := by
  induction points generalizing buffer with
  | nil => exact congrArg some (List.append_nil buffer).symm
  | cons point points ih =>
      rw [List.forall_mem_cons] at h
      rw [List.foldlM_cons, exportRound_eq h.1]
      apply (ih h.2 _).trans
      by_cases hpoint : HasData point
      · rw [if_pos hpoint, List.filter_cons_of_pos (by simpa using hpoint), List.flatMap_cons,
          List.append_assoc]
      · rw [if_neg hpoint, List.filter_cons_of_neg (by simpa using hpoint), List.append_nil]

/-- The body is what the points with data add to it, in order. -/
theorem exportBody_eq {points : List (ExportData ι)}
    (h : ∀ point ∈ points, (marshal (totalData ofString point)).isSome) :
    exportBody ofString marshal points =
      some ((points.filter fun p => HasData p).flatMap (pointText ofString marshal)) :=
  foldlM_exportRound h []

/-- The lines of the body, if the documents are one line each. -/
theorem lines_body {points : List (ExportData ι)}
    (h : ∀ point ∈ points, '\n' ∉ documentText ofString marshal point) :
    lines (points.flatMap (pointText ofString marshal)) =
      points.flatMap fun p =>
        (metaLine p.Name.toList).splitOn '\n' ++ [documentText ofString marshal p] := by
  induction points with
  | nil => rfl
  | cons point points ih =>
      rw [List.forall_mem_cons] at h
      rw [List.flatMap_cons, List.flatMap_cons, pointText, List.append_assoc, List.cons_append,
        lines_append, List.append_assoc, List.singleton_append, lines_cons h.1, ih h.2]
      simp only [List.append_assoc, List.singleton_append]

theorem length_wanted (points : List (ExportData ι)) :
    (points.flatMap (wanted ofString denote)).length = 2 * points.length := by
  induction points with
  | nil => rfl
  | cons point points ih =>
      rw [List.flatMap_cons, List.length_append, ih, List.length_cons, wanted]
      simp only [List.length_cons, List.length_nil]
      omega

/-- Every newline in an action is one line more. -/
theorem length_lines (points : List (ExportData ι)) :
    (points.flatMap fun p => (metaLine p.Name.toList).splitOn '\n' ++
      [documentText ofString marshal p]).length =
      2 * points.length + (points.map fun p => (metaLine p.Name.toList).count '\n').sum := by
  induction points with
  | nil => rfl
  | cons point points ih =>
      rw [List.flatMap_cons, List.length_append, ih, List.length_append, length_splitOn,
        List.map_cons, List.sum_cons, List.length_cons, List.length_cons, List.length_nil]
      omega

/-- A body with the right number of lines has no newline in an action. -/
theorem newline_notMem_of_length {points : List (ExportData ι)}
    (h : (points.flatMap fun p => (metaLine p.Name.toList).splitOn '\n' ++
      [documentText ofString marshal p]).length = 2 * points.length) :
    ∀ point ∈ points, '\n' ∉ metaLine point.Name.toList := by
  rw [length_lines] at h
  have hzero := List.sum_eq_zero_iff_forall_eq_nat.1 (Nat.add_eq_left.1 h)
  intro point hpoint
  exact List.count_eq_zero.1 (hzero _ (List.mem_map_of_mem hpoint))

/-- The lines of a body decode in pairs. -/
theorem forall₂_pairs (points : List (ExportData ι)) :
    List.Forall₂ Line (points.flatMap (wanted ofString denote))
        (points.flatMap fun p =>
          [metaLine p.Name.toList] ++ [documentText ofString marshal p]) ↔
      ∀ point ∈ points, Line (IsAction point.Name) (metaLine point.Name.toList) ∧
        Line (IsObject denote (document ofString point))
          (documentText ofString marshal point) := by
  induction points with
  | nil => simp
  | cons point points ih =>
      rw [List.flatMap_cons, List.flatMap_cons, wanted, List.forall_mem_cons, ← ih]
      simp only [List.cons_append, List.nil_append, List.forall₂_cons, and_assoc]

/-- The lines of points whose actions have no newline. -/
theorem lines_body_of_notMem {points : List (ExportData ι)}
    (hdocument : ∀ point ∈ points, '\n' ∉ documentText ofString marshal point)
    (haction : ∀ point ∈ points, '\n' ∉ metaLine point.Name.toList) :
    lines (points.flatMap (pointText ofString marshal)) =
      points.flatMap fun p => [metaLine p.Name.toList] ++ [documentText ofString marshal p] := by
  rw [lines_body hdocument]
  exact List.flatMap_congr fun point hpoint => by
    rw [List.splitOn_eq_singleton (haction point hpoint)]

/-- The lines of points with data decode exactly when their names stand for themselves. -/
theorem forall₂_lines_iff {points : List (ExportData ι)}
    (hdocument : ∀ point ∈ points,
      Marshals denote (totalData ofString point) (documentText ofString marshal point)) :
    List.Forall₂ Line (points.flatMap (wanted ofString denote))
        (lines (points.flatMap (pointText ofString marshal))) ↔
      ∀ point ∈ points, Json.PlainText point.Name.toList := by
  have honeLine : ∀ point ∈ points, '\n' ∉ documentText ofString marshal point :=
    fun point hpoint => (hdocument point hpoint).oneLine
  constructor
  · intro h point hpoint
    have hlength := h.length_eq
    rw [length_wanted, lines_body honeLine] at hlength
    rw [lines_body_of_notMem honeLine (newline_notMem_of_length hlength.symm), forall₂_pairs] at h
    obtain ⟨v, hparse, hv⟩ := (h point hpoint).1
    exact plain_of_isAction hparse hv
  · intro hplain
    rw [lines_body_of_notMem honeLine fun point hpoint =>
      newline_notMem_metaLine (hplain point hpoint), forall₂_pairs]
    intro point hpoint
    refine ⟨⟨_, parse_metaLine (hplain point hpoint), ?_⟩, ?_⟩
    · rw [String.ofList_toList]
      rfl
    · have hobject := (hdocument point hpoint).object
      simpa only [lookup_totalData] using hobject

/-- **The body decodes to the batch exactly when the names of the points with data stand for
themselves in a string.** -/
theorem bodyDecodes_iff {points : List (ExportData ι)}
    (hmarshal : ∀ m text, marshal m = some text → Marshals denote m text)
    (hvalues : ∀ point ∈ points, (marshal (totalData ofString point)).isSome) :
    (∃ body, exportBody ofString marshal points = some body ∧
        Decodes ofString denote points body) ↔
      ∀ point ∈ points, HasData point → Json.PlainText point.Name.toList := by
  have hdocument : ∀ point ∈ points.filter fun p => HasData p,
      Marshals denote (totalData ofString point) (documentText ofString marshal point) := by
    intro point hpoint
    obtain ⟨data, hdata⟩ :=
      Option.isSome_iff_exists.1 (hvalues point (List.mem_of_mem_filter hpoint))
    rw [documentText, hdata]
    exact hmarshal _ _ hdata
  rw [exportBody_eq hvalues]
  simp only [Option.some.injEq, exists_eq_left', Decodes, forall₂_lines_iff hdocument,
    List.mem_filter, decide_eq_true_iff, and_imp]

end Body

/-! ## Two names -/

/-- A point of one tag. -/
def tagPoint (name : String) : ExportData String where
  Name := name
  Tags := (∅ : GoMap String String).insert "pod" "web"
  Fields := ∅

/-- The tag of the point, marshalled. -/
def tagText : List Char :=
  ['{', '"', 'p', 'o', 'd', '"', ':', '"', 'w', 'e', 'b', '"', '}']

/-- `json.Marshal` for the tag of the point. -/
def tagMarshal (m : GoMap String String) : Option (List Char) :=
  if m = (∅ : GoMap String String).insert "pod" "web" then some tagText else none

theorem totalData_tagPoint (name : String) :
    totalData id (tagPoint name) = (∅ : GoMap String String).insert "pod" "web" := by
  refine Finmap.ext_lookup fun k => ?_
  rw [lookup_totalData, document, tagPoint, Finmap.lookup_empty, Option.or_none, Option.map_id]
  rfl

theorem parse_tagText : Json.parse tagText = some (.obj [("pod", .str "web")]) := by
  rw [Json.parse_eq_some_iff]
  refine ⟨[], ?_, rfl⟩
  change Json.value (24 + 3) (12 + 1) tagText = _
  have hplain : Json.PlainText ['p', 'o', 'd'] := by decide
  rw [Json.value_object rfl rfl, Json.members_key rfl hplain rfl, Json.value_string rfl]
  rfl

theorem tagMarshal_marshals (m : GoMap String String) (text : List Char)
    (h : tagMarshal m = some text) : Marshals Json.str m text := by
  unfold tagMarshal at h
  split at h
  · rename_i hm
    cases h
    refine ⟨by decide, _, parse_tagText, ⟨_, rfl⟩, fun k => ?_⟩
    dsimp only
    rw [hm, GoMap.lookup_insert_ite]
    by_cases hk : k = "pod"
    · rw [hk]
      rfl
    · rw [if_neg hk, Finmap.lookup_empty]
      simp [Json.get, Ne.symm hk]
  · cases h

theorem tagMarshal_isSome (name : String) (point : ExportData String)
    (h : point ∈ [tagPoint name]) : (tagMarshal (totalData id point)).isSome := by
  rw [List.mem_singleton.1 h, totalData_tagPoint, tagMarshal, if_pos rfl]
  rfl

theorem decodes_plain_name :
    ∃ body, exportBody id tagMarshal [tagPoint "tcpreq"] = some body ∧
      Decodes id Json.str [tagPoint "tcpreq"] body := by
  refine (bodyDecodes_iff tagMarshal_marshals (tagMarshal_isSome "tcpreq")).2 ?_
  intro point hpoint _
  rw [List.mem_singleton.1 hpoint]
  show Json.PlainText "tcpreq".toList
  decide

/-- A name with a quotation mark in it ends the string in the action too early. -/
theorem quote_not_decoded :
    ∃ body, exportBody id tagMarshal [tagPoint "a\"b"] = some body ∧
      ¬Decodes id Json.str [tagPoint "a\"b"] body := by
  refine ⟨_, exportBody_eq (tagMarshal_isSome "a\"b"), fun h => ?_⟩
  have hfilter : ([tagPoint "a\"b"].filter fun p => HasData p) = [tagPoint "a\"b"] :=
    List.filter_cons_of_pos (decide_eq_true (.inl ⟨"pod", by decide⟩))
  have hdocument : ∀ point ∈ [tagPoint "a\"b"],
      Marshals Json.str (totalData id point) (documentText id tagMarshal point) := by
    intro point hpoint
    apply tagMarshal_marshals
    rw [List.mem_singleton.1 hpoint, documentText, totalData_tagPoint, tagMarshal, if_pos rfl]
    rfl
  rw [hfilter, Decodes, hfilter, forall₂_lines_iff hdocument] at h
  have hplain := h _ (List.mem_singleton_self _)
  exact absurd hplain (by decide)

end Kmon.Ports.ElasticBulk
