import Kmon.Verified.Json
import Kmon.Verified.Runes

/-!
# The response to a bulk request

What `elastic.Export` does with a response (`src/exporter/elastcisearch.go`).  The body of
an error is decoded into a map, and the reason is read out of it by two type assertions that
are not checked.  Any other body is decoded into `blk`, a pointer, and the errors of the
items are read through it.

The decoder takes the first JSON value of the body and leaves the rest alone.  `null` is
decoded without an error, into a map and a pointer that are nil.  `IsError`, the range of
`strconv.ParseFloat` and what a value other than `null` becomes in a `bulkResponse` are
parameters.  A failed assertion and a nil dereference are run-time panics, `none`.

`handle_isSome_iff` says which responses are survived.
-/

namespace Kmon.Ports.ElasticResponse

open Kmon.Verified
open Kmon.Verified.Runes

/-- `caused_by`. -/
structure Cause where
  «Type» : String
  Reason : String
  deriving DecidableEq, Repr

/-- `error`. -/
structure ItemError where
  «Type» : String
  Reason : String
  Cause : Cause
  deriving DecidableEq, Repr

/-- `index`. -/
structure Index where
  ID : String
  Result : String
  Status : Int
  Error : ItemError
  deriving DecidableEq, Repr

/-- `bulkResponse`. -/
structure BulkResponse where
  Errors : Bool
  Items : List Index
  deriving DecidableEq, Repr

/-- The errors of the decoder. -/
inductive DecodeError where
  | malformed
  | type
  | number
  deriving DecidableEq, Repr

/-- What `Export` writes to the log.  A value behind an interface is the JSON it was decoded
from. -/
inductive Log where
  | notDecoded (err : DecodeError)
  | failed (status : Int) (type reason : Json)
  | item (status : Int) (type reason causeType causeReason : String)

/-- `maxNestingDepth` of `encoding/json`. -/
def maxNestingDepth : Nat := 10000

/-- The first JSON value of a body. -/
def firstValue (body : List UInt8) : Option Json :=
  (Json.first maxNestingDepth (runes body)).map Prod.fst

section Response

variable (parseFloat : List Char → Bool)

mutual

/-- `strconv.ParseFloat` accepts the numbers of a value. -/
def inRange : Json → Bool
  | .num literal => parseFloat literal
  | .arr es => inRangeElements es
  | .obj ms => inRangeMembers ms
  | _ => true

def inRangeElements : List Json → Bool
  | [] => true
  | v :: es => inRange v && inRangeElements es

def inRangeMembers : List (String × Json) → Bool
  | [] => true
  | (_, v) :: ms => inRange v && inRangeMembers ms

end

/-- `json.NewDecoder(res.Body).Decode(&raw)`.  The nil map is `none`. -/
def decodeRaw (body : List UInt8) : Except DecodeError (Option (List (String × Json))) :=
  match firstValue body with
  | none => .error .malformed
  | some .null => .ok none
  | some (.obj ms) => if inRangeMembers parseFloat ms then .ok (some ms) else .error .number
  | some _ => .error .type

/-- `m[k]`, which is nil for a key that is missing. -/
def index (m : Option (List (String × Json))) (k : String) : Json :=
  ((m.bind fun ms => (Json.obj ms).get k).getD .null)

/-- `v.(map[string]interface{})`. -/
def assertMap : Json → Option (List (String × Json))
  | .obj ms => some ms
  | _ => none

/-- The branch of an error. -/
def handleError (status : Int) (body : List UInt8) : Option (List Log) :=
  match decodeRaw parseFloat body with
  | .error err => some [.notDecoded err]
  | .ok raw => do
      let forType ← assertMap (index raw "error")
      let forReason ← assertMap (index raw "error")
      some [.failed status (index (some forType) "type") (index (some forReason) "reason")]

variable (unmarshal : Json → Except DecodeError BulkResponse)

/-- `json.NewDecoder(res.Body).Decode(&blk)`.  The nil pointer is `none`. -/
def decodeBlk (body : List UInt8) : Except DecodeError (Option BulkResponse) :=
  match firstValue body with
  | none => .error .malformed
  | some .null => .ok none
  | some v => (unmarshal v).map some

/-- One round of the loop over the items. -/
def itemLog (d : Index) : Option Log :=
  if d.Status > 201 then
    some (.item d.Status d.Error.«Type» d.Error.Reason d.Error.Cause.«Type» d.Error.Cause.Reason)
  else none

/-- The branch of a success. -/
def handleSuccess (body : List UInt8) : Option (List Log) :=
  match decodeBlk unmarshal body with
  | .error err => some [.notDecoded err]
  | .ok blk => blk.map fun blk => blk.Items.filterMap itemLog

variable (isError : Int → Bool)

/-- What `Export` does with a response. -/
def handle (status : Int) (body : List UInt8) : Option (List Log) :=
  if isError status then handleError parseFloat status body else handleSuccess unmarshal body

/-- The body of an error is no value at all, or one that does not fit into the map, or an
object whose last member `error` is an object. -/
def ErrorBody (body : List UInt8) : Prop :=
  ∀ v, firstValue body = some v →
    v ≠ .null ∧ ∀ ms, v = .obj ms → inRangeMembers parseFloat ms →
      ∃ ms', v.get "error" = some (.obj ms')

/-- The body is the word `null`, behind spaces and in front of anything. -/
def NullBody (body : List UInt8) : Prop :=
  ∃ rest, (runes body).dropWhile Json.isSpace = 'n' :: 'u' :: 'l' :: 'l' :: rest

/-- The condition on a response. -/
def Survived (status : Int) (body : List UInt8) : Prop :=
  if isError status then ErrorBody parseFloat body else ¬NullBody body

end Response

theorem firstValue_eq_null_iff (body : List UInt8) :
    firstValue body = some .null ↔ NullBody body := by
  unfold firstValue NullBody
  constructor
  · intro h
    obtain ⟨⟨v, rest⟩, hfirst, rfl⟩ := Option.map_eq_some_iff.1 h
    exact ⟨rest, Json.first_eq_null_iff.1 hfirst⟩
  · rintro ⟨rest, h⟩
    rw [Json.first_eq_null_iff.2 h]
    rfl

section Response

variable {parseFloat : List Char → Bool} {unmarshal : Json → Except DecodeError BulkResponse}

theorem assertMap_isSome_iff (v : Json) : (assertMap v).isSome ↔ ∃ ms, v = .obj ms := by
  cases v with
  | obj ms => exact iff_of_true rfl ⟨ms, rfl⟩
  | null => simp [assertMap]
  | bool b => simp [assertMap]
  | num literal => simp [assertMap]
  | str s => simp [assertMap]
  | arr es => simp [assertMap]

theorem index_eq_obj_iff (m : Option (List (String × Json))) (k : String)
    (ms' : List (String × Json)) :
    index m k = .obj ms' ↔ ∃ ms, m = some ms ∧ (Json.obj ms).get k = some (.obj ms') := by
  cases m with
  | none => simp [index]
  | some ms =>
      cases hget : (Json.obj ms).get k with
      | none => simp [index, hget]
      | some v => simp [index, hget]

/-- The branch of an error returns if the body could not be decoded or the assertions hold. -/
theorem handleError_isSome_iff (status : Int) (body : List UInt8) :
    (handleError parseFloat status body).isSome ↔
      ∀ raw, decodeRaw parseFloat body = .ok raw → ∃ ms', index raw "error" = .obj ms' := by
  unfold handleError
  cases decodeRaw parseFloat body with
  | error err => simp
  | ok raw =>
      simp only [Except.ok.injEq, forall_eq']
      rw [← assertMap_isSome_iff]
      cases hassert : assertMap (index raw "error") with
      | none => exact iff_of_false (by simp) (by simp)
      | some m => exact iff_of_true (by simp) rfl

theorem handleError_iff (status : Int) (body : List UInt8) :
    (handleError parseFloat status body).isSome ↔ ErrorBody parseFloat body := by
  rw [handleError_isSome_iff, decodeRaw, ErrorBody]
  cases hfirst : firstValue body with
  | none => simp
  | some v =>
      simp only [Option.some.injEq, forall_eq']
      cases v with
      | null => simp [index]
      | obj ms =>
          by_cases hrange : inRangeMembers parseFloat ms = true
          · simp [hrange, index_eq_obj_iff]
          · simp [hrange]
      | bool b => simp
      | num literal => simp
      | str s => simp
      | arr es => simp

variable (unmarshal) in
/-- Only `null` leaves the pointer nil. -/
theorem decodeBlk_eq_nil_iff (body : List UInt8) :
    decodeBlk unmarshal body = .ok none ↔ firstValue body = some .null := by
  have hsome (x : Except DecodeError BulkResponse) : x.map some ≠ .ok none := by
    cases x with
    | error err => exact fun h => by cases h
    | ok blk => exact fun h => by cases h
  unfold decodeBlk
  cases hfirst : firstValue body with
  | none => simp
  | some v =>
      cases v with
      | null => simp
      | obj ms => exact iff_of_false (hsome _) (by simp)
      | bool b => exact iff_of_false (hsome _) (by simp)
      | num literal => exact iff_of_false (hsome _) (by simp)
      | str s => exact iff_of_false (hsome _) (by simp)
      | arr es => exact iff_of_false (hsome _) (by simp)

/-- The branch of a success returns unless the pointer is nil. -/
theorem handleSuccess_iff (body : List UInt8) :
    (handleSuccess unmarshal body).isSome ↔ ¬NullBody body := by
  rw [← firstValue_eq_null_iff, ← decodeBlk_eq_nil_iff unmarshal, handleSuccess]
  cases decodeBlk unmarshal body with
  | error err => simp
  | ok blk =>
      cases blk with
      | none => simp
      | some blk => simp

variable (parseFloat unmarshal)

/-- **A response is survived exactly when its body is not `null` and, after an error, has an
object for its `error`.** -/
theorem handle_isSome_iff (isError : Int → Bool) (status : Int) (body : List UInt8) :
    (handle parseFloat unmarshal isError status body).isSome ↔
      Survived parseFloat isError status body := by
  unfold handle Survived
  by_cases herror : isError status = true
  · rw [if_pos herror, if_pos herror, handleError_iff]
  · rw [if_neg herror, if_neg herror, handleSuccess_iff]

end Response

/-- The first value of a body that is a text. -/
theorem firstValue_encode (text : List Char) :
    firstValue (encode text) = (Json.first maxNestingDepth text).map Prod.fst := by
  rw [firstValue, runes_encode]

/-- An error whose `error` is a text. -/
def textError : List Char :=
  ['{', '"', 'e', 'r', 'r', 'o', 'r', '"', ':', '"', 'n', 'o', 'n', 'e', '"', '}']

theorem firstValue_textError :
    firstValue (encode textError) = some (.obj [("error", .str "none")]) := by
  have hplain : Json.PlainText ['e', 'r', 'r', 'o', 'r'] := by decide
  rw [firstValue_encode]
  change (Json.value (30 + 3) (9999 + 1) textError).map Prod.fst = _
  rw [Json.value_object rfl rfl, Json.members_key rfl hplain rfl, Json.value_string rfl]
  rfl

/-- A success whose body is `null`, and an error whose `error` is a text. -/
theorem responses_panic :
    handle (fun _ => true) (fun _ => .error .type) (fun status => decide (299 < status)) 200
        (encode ['n', 'u', 'l', 'l']) = none ∧
      handle (fun _ => true) (fun _ => .error .type) (fun status => decide (299 < status)) 500
        (encode textError) = none := by
  constructor
  · have hnull : NullBody (encode ['n', 'u', 'l', 'l']) := ⟨[], by rw [runes_encode]; rfl⟩
    rw [handle, if_neg (by decide), ← Option.not_isSome_iff_eq_none, handleSuccess_iff]
    exact fun hnot => hnot hnull
  · rw [handle, if_pos (by decide), ← Option.not_isSome_iff_eq_none, handleError_iff]
    intro hbody
    obtain ⟨ms, hms⟩ := (hbody _ firstValue_textError).2 _ rfl rfl
    cases hms

end Kmon.Ports.ElasticResponse
