import Kmon.Verified.GoMap
import Kmon.Verified.Text
import Kmon.Ports.Points

/-!
# Stacks in points

`exportStack` (`src/collector/collector.go`) looks a stack up in the table
`stack_traces` and renders its addresses, up to the first zero, one line each:
user addresses as numbers, kernel addresses with the name of the function.  The
names come from `/proc/kallsyms`, so `utils.Ksym` is the parameter `ksym`.

tcpdrop and offcpu add the texts to a point with the same two statements, word for
word (`stackFields`).  `fieldsShow_iff` says when what they add is what was asked
for, whatever the probe has stored.
-/

namespace Kmon.Ports.Stacks

open Kmon.Verified
open Kmon.Verified.Text
open Kmon.Ports.Points

/-- A value of `stack_traces`. -/
structure Stack where
  ip : List (BitVec 64)
  length_ip : ip.length = 127

/-- `stack_traces`, as `Get` finds it. -/
abbrev StackTable := GoMap (BitVec 32) Stack

/-- The addresses the loop of `exportStack` meets before it breaks. -/
def frames (stack : Stack) : List (BitVec 64) := stack.ip.takeWhile (· ≠ 0)

/-- `0x%016x`. -/
def hex (stackPtr : BitVec 64) : String := "0x" ++ String.ofList (padded 16 stackPtr.toNat)

/-- The line of an address. -/
def funcName (ksym : BitVec 64 → String) (kernel : Bool) (stackPtr : BitVec 64) : String :=
  if kernel then ksym stackPtr ++ "(" ++ hex stackPtr ++ ")" else hex stackPtr

/-- `exportStack`; `none` is an error. -/
def exportStack (ksym : BitVec 64 → String) (table : StackTable) (stackID : BitVec 32)
    (kernel : Bool) : Option String :=
  match table.lookup stackID with
  | none => none
  | some stack => some (joinLines ((frames stack).map (funcName ksym kernel)))

/-- `if id != 0 { if stackStr, err := exportStack(stackMap, stackID, kernel); err == nil {
Fields[name] = stackStr } }`. -/
def addStack (ksym : BitVec 64 → String) (stackMap : StackTable) (name : String)
    (id stackID : BitVec 32) (kernel : Bool) (fields : GoMap String Value) :
    GoMap String Value :=
  if id ≠ 0 then
    match exportStack ksym stackMap stackID kernel with
    | some stackStr => fields.insert name (.string stackStr)
    | none => fields
  else fields

/-- The two statements.  The user stack is looked up under the id of the kernel
stack. -/
def stackFields (ksym : BitVec 64 → String) (stackMap : StackTable)
    (stackID userStackID : BitVec 32) (fields : GoMap String Value) : GoMap String Value :=
  let fields := addStack ksym stackMap "kernelStack" stackID stackID true fields
  addStack ksym stackMap "userStack" userStackID stackID false fields

/-! ## What a point ought to show -/

/-- The text of a stack that was asked for, if the table holds it. -/
def asked (ksym : BitVec 64 → String) (table : StackTable) (ask : Bool) (id : BitVec 32)
    (kernel : Bool) : Option String :=
  if ask then exportStack ksym table id kernel else none

/-- The fields show the kernel stack and the user stack where they are asked for,
and nothing where they are not. -/
def FieldsShow (ksym : BitVec 64 → String) (table : StackTable) (askKernel askUser : Bool)
    (kernelId userId : BitVec 32) (fields : GoMap String Value) : Prop :=
  fields.lookup "kernelStack" =
      (asked ksym table askKernel kernelId true).map Value.string ∧
    fields.lookup "userStack" = (asked ksym table askUser userId false).map Value.string

/-- The field of a stack, if its id is one and the table holds the stack. -/
def StackField (ksym : BitVec 64 → String) (table : StackTable) (name : String)
    (id stackID : BitVec 32) (kernel : Bool) (field : String) (value : Value) : Prop :=
  field = name ∧ id ≠ 0 ∧ ∃ stackStr, exportStack ksym table stackID kernel = some stackStr ∧
    value = .string stackStr

/-- The table holds no stack under the id. -/
def Absent (table : StackTable) (id : BitVec 32) : Prop := table.lookup id = none

/-- The table holds the same addresses under the two ids, or none under both. -/
def SameFrames (table : StackTable) (id id' : BitVec 32) : Prop :=
  (table.lookup id).map frames = (table.lookup id').map frames

/-! ## Renderings -/

theorem exportStack_eq_none_iff {ksym : BitVec 64 → String} {table : StackTable}
    {id : BitVec 32} {kernel : Bool} :
    exportStack ksym table id kernel = none ↔ Absent table id := by
  unfold exportStack Absent
  cases table.lookup id with
  | none => simp
  | some stack => simp

theorem hex_inj {a b : BitVec 64} (h : hex a = hex b) : a = b := by
  have hdigits : padded 16 a.toNat = padded 16 b.toNat := by
    have hlists := congrArg String.toList h
    simpa [hex] using hlists
  exact BitVec.eq_of_toNat_eq (padded_inj a.isLt b.isLt hdigits)

theorem hex_line (a : BitVec 64) : '\n' ∉ (hex a).toList ∧ hex a ≠ "" := by
  constructor
  · simpa [hex] using newline_not_mem_padded 16 a.toNat
  · intro h
    have hlists := congrArg String.toList h
    simp [hex] at hlists

/-- Two stacks have the same user text exactly when they have the same addresses. -/
theorem exportStack_user_eq_iff {ksym : BitVec 64 → String} {table : StackTable}
    {id id' : BitVec 32} :
    exportStack ksym table id false = exportStack ksym table id' false ↔
      SameFrames table id id' := by
  have hlines : ∀ stack : Stack, ∀ s ∈ (frames stack).map (funcName ksym false),
      '\n' ∉ s.toList ∧ s ≠ "" := by
    intro stack s hs
    obtain ⟨a, -, rfl⟩ := List.mem_map.1 hs
    exact hex_line a
  have hmap : Function.Injective (List.map (funcName ksym false)) :=
    List.map_injective_iff.2 fun _ _ h => hex_inj h
  unfold exportStack SameFrames
  cases table.lookup id with
  | none => cases table.lookup id' <;> simp
  | some stack =>
      cases table.lookup id' with
      | none => simp
      | some stack' =>
          simp only [Option.some.injEq, Option.map_some]
          constructor
          · exact fun h => hmap (joinLines_inj (hlines stack) (hlines stack') h)
          · exact fun h => by rw [h]

/-! ## The fields of a point -/

section Fields

variable {ksym : BitVec 64 → String} {table : StackTable} {stackID userStackID : BitVec 32}
  {fields : GoMap String Value}

theorem lookup_addStack {name field : String} {id : BitVec 32} {kernel : Bool} :
    (addStack ksym table name id stackID kernel fields).lookup field =
      if field = name then
        ((asked ksym table (id ≠ 0) stackID kernel).map Value.string).or (fields.lookup field)
      else fields.lookup field := by
  unfold addStack asked
  by_cases hid : id = 0
  · simp [hid]
  · cases hstack : exportStack ksym table stackID kernel with
    | none => simp
    | some stackStr =>
        rw [if_pos hid, if_pos (decide_eq_true hid)]
        exact GoMap.lookup_insert_ite fields name field (.string stackStr)

theorem lookup_addStack_eq_some_iff {name field : String} {id : BitVec 32} {kernel : Bool}
    {value : Value} (hname : fields.lookup name = none) :
    (addStack ksym table name id stackID kernel fields).lookup field = some value ↔
      StackField ksym table name id stackID kernel field value ∨
        fields.lookup field = some value := by
  rw [lookup_addStack]
  unfold StackField
  by_cases hfield : field = name
  · rw [if_pos hfield, hfield, hname, Option.or_none]
    unfold asked
    by_cases hid : id = 0
    · simp [hid]
    · rw [if_pos (decide_eq_true hid), Option.map_eq_some_iff]
      simp only [hid, ne_eq, not_false_eq_true, true_and, reduceCtorEq, or_false]
      exact exists_congr fun stackStr => and_congr_right fun _ => eq_comm
  · simp [hfield]

/-- What the two statements add. -/
theorem lookup_stackFields_eq_some_iff {field : String} {value : Value}
    (hkernel : fields.lookup "kernelStack" = none) (huser : fields.lookup "userStack" = none) :
    (stackFields ksym table stackID userStackID fields).lookup field = some value ↔
      StackField ksym table "userStack" userStackID stackID false field value ∨
        StackField ksym table "kernelStack" stackID stackID true field value ∨
          fields.lookup field = some value := by
  unfold stackFields
  rw [lookup_addStack_eq_some_iff, lookup_addStack_eq_some_iff hkernel]
  rw [lookup_addStack, if_neg (by decide), huser]

/-- The kernel stack is the one of the stored id. -/
theorem lookup_kernelStack (hfields : fields.lookup "kernelStack" = none) :
    (stackFields ksym table stackID userStackID fields).lookup "kernelStack" =
      (asked ksym table (stackID ≠ 0) stackID true).map Value.string := by
  rw [stackFields, lookup_addStack, if_neg (by decide), lookup_addStack, if_pos rfl, hfields,
    Option.or_none]

/-- The user stack is the one of the id stored for the kernel stack. -/
theorem lookup_userStack (hfields : fields.lookup "userStack" = none) :
    (stackFields ksym table stackID userStackID fields).lookup "userStack" =
      (asked ksym table (userStackID ≠ 0) stackID false).map Value.string := by
  rw [stackFields, lookup_addStack, if_pos rfl, lookup_addStack, if_neg (by decide), hfields,
    Option.or_none]

theorem fieldsShow_iff {askKernel askUser : Bool} {kernelId userId : BitVec 32}
    (hkernel : fields.lookup "kernelStack" = none) (huser : fields.lookup "userStack" = none) :
    FieldsShow ksym table askKernel askUser kernelId userId
        (stackFields ksym table stackID userStackID fields) ↔
      asked ksym table (stackID ≠ 0) stackID true = asked ksym table askKernel kernelId true ∧
        asked ksym table (userStackID ≠ 0) stackID false =
          asked ksym table askUser userId false := by
  have hinj : Function.Injective (Option.map Value.string) :=
    Option.map_injective fun _ _ h => Value.string.inj h
  unfold FieldsShow
  rw [lookup_kernelStack hkernel, lookup_userStack huser, hinj.eq_iff, hinj.eq_iff]

end Fields

end Kmon.Ports.Stacks
