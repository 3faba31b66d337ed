import Kmon.Verified.Words
import Kmon.Ports.KernelSymbols
import Kmon.Ports.LongAddresses
import Kmon.Ports.Stacks

/-!
# Stacks from the bytes of their table

`exportStack` (`src/collector/collector.go`) looks the bytes of a stack id up in
`stack_traces`, reads 127 words from the bytes it gets, in the order that the `init` of
`src/collector/utils/utils.go` has found out for the host, and makes a line of every word
in front of the first zero.  The name of a kernel function comes from the search in the
symbols (`KernelSymbols`).

`exportStack_eq_stacks` connects it to `Stacks`, where the table holds addresses and the
names are a parameter.  `exportStack_eq_iff` is what a text is good for: whatever
`/proc/kallsyms` looks like, the text of a stack determines its addresses.
-/

namespace Kmon.Ports.StackBytes

open Kmon.Verified
open Kmon.Verified.Lines
open Kmon.Verified.Text
open Kmon.Ports.KernelSymbols
open Kmon.Ports.LongAddresses (byteAtOffset inMemory)
open Kmon.Ports.Points (ByteOrder)
open Kmon.Ports.Stacks (StackTable hex hex_inj hex_line)

/-! ## The code -/

/-- The switch of `init` on the two bytes of `0xABCD`; `none` is its panic. -/
def nativeEndian (buf : List (BitVec 8)) : Option ByteOrder :=
  if buf = [0xCD, 0xAB] then some .littleEndian
  else if buf = [0xAB, 0xCD] then some .bigEndian
  else none

/-- The word that the bytes of a host make. -/
def fromMemory (n : Nat) (order : ByteOrder) (bytes : List (BitVec 8)) : BitVec (8 * n) :=
  match order with
  | .littleEndian => Layout.readWord (fun k => bytes.getD k 0) 0 n
  | .bigEndian => Layout.readWord (fun k => bytes.getD (n - 1 - k) 0) 0 n

/-- A host reads what it has written. -/
theorem fromMemory_inMemory (n : Nat) (order : ByteOrder) (w : BitVec (8 * n)) :
    fromMemory n order (inMemory n order w) = w := by
  have hbyte : ∀ k (hk : k < n), (inMemory n order w).getD k 0 =
      Layout.byteOf w (byteAtOffset order ⟨k, hk⟩) := by
    intro k hk
    rw [inMemory, List.getD_eq_getElem?_getD, List.getElem?_ofFn, dif_pos hk]
    rfl
  cases order with
  | littleEndian =>
      refine Layout.readWord_eq_iff.2 fun k hk => ?_
      rw [Nat.zero_add, hbyte k hk]
      rfl
  | bigEndian =>
      refine Layout.readWord_eq_iff.2 fun k hk => ?_
      rw [Nat.zero_add, hbyte (n - 1 - k) (by omega), byteAtOffset, Fin.val_rev]
      congr 1
      dsimp only
      omega

/-- `binary.Read` and `binary.Write` in the byte order of a host. -/
def host (n : Nat) (order : ByteOrder) : WordCodec n where
  put := inMemory n order
  get := fromMemory n order
  length_put _ := List.length_ofFn
  get_put := fromMemory_inMemory n order

/-- A table as `Get` finds it: the bytes of a value under the bytes of its key. -/
abbrev RawTable := GoMap (List (BitVec 8)) (List (BitVec 8))

/-- The ways `exportStack` can end. -/
inductive Exported where
  | text (stackStr : String)
  | error
  | panic
  deriving DecidableEq, Repr

/-- The line of an address; `none` is a panic in `Ksym`. -/
def funcName (s : Symbols) (kernel : Bool) (stackPtr : BitVec 64) : Option String :=
  if kernel then
    (ksym s.ksymsList stackPtr).map fun funcName => funcName ++ "(" ++ hex stackPtr ++ ")"
  else some (hex stackPtr)

/-- The loop of `exportStack`. -/
def stackStr (s : Symbols) (kernel : Bool) : List (BitVec 64) → Option (List String)
  | [] => some []
  | stackPtr :: stack =>
      if stackPtr = 0 then some []
      else
        (funcName s kernel stackPtr).bind fun line =>
          (stackStr s kernel stack).map fun lines => line :: lines

/-- `exportStack`. -/
def exportStack (o : ByteOrder) (s : Symbols) (table : RawTable) (stackID : BitVec 32)
    (kernel : Bool) : Exported :=
  match table.lookup ((host 4 o).put stackID) with
  | none => .error
  | some stackRaw =>
      match (host 8 o).readWords 127 stackRaw with
      | none => .error
      | some stack =>
          match stackStr s kernel stack with
          | none => .panic
          | some lines => .text (joinLines lines)

/-- The addresses in front of the first zero, if the table holds enough bytes. -/
def framesOf (o : ByteOrder) (table : RawTable) (stackID : BitVec 32) :
    Option (List (BitVec 64)) :=
  ((table.lookup ((host 4 o).put stackID)).bind ((host 8 o).readWords 127)).map
    fun stack : List (BitVec 64) => stack.takeWhile (· ≠ 0)

/-- The kernel writes the ids and the addresses in the order of the host. -/
def Written (o : ByteOrder) (table : StackTable) (raw : RawTable) : Prop :=
  ∀ stackID, raw.lookup ((host 4 o).put stackID) =
    (table.lookup stackID).map fun stack => stack.ip.flatMap (host 8 o).put

/-- `init` finds out the order that the host has written the two bytes in. -/
theorem nativeEndian_put (o : ByteOrder) : nativeEndian ((host 2 o).put 0xABCD) = some o := by
  cases o <;> decide

/-! ## Names -/

variable {o o' : ByteOrder} {s : Symbols} {table table' : RawTable}
  {stackID stackID' : BitVec 32} {kernel : Bool}

/-- The name that the search ends with. -/
def symbol (s : Symbols) (addr : BitVec 64) : String := (ksym s.ksymsList addr).getD ""

/-- The search always ends with a name. -/
theorem ksym_eq_symbol (s : Symbols) (addr : BitVec 64) :
    ksym s.ksymsList addr = some (symbol s addr) := by
  unfold symbol
  rcases ksym_cases s.ksymsList addr with ⟨-, hunknown⟩ | ⟨-, k, hk, -⟩
  · rw [hunknown]
    rfl
  · rw [hk]
    rfl

/-- A name is a part of a line. -/
theorem newline_notMem_name {text : List Char} {k : Ksym} (hk : k ∈ readSymbols text) :
    '\n' ∉ k.Name.toList := by
  obtain ⟨line, hline, hread⟩ := List.mem_filterMap.1 hk
  have hnewline : '\n' ∉ line := by
    obtain ⟨raw, hraw, rfl⟩ := List.mem_map.1 hline
    have hlines := newline_notMem_lines (List.takeWhile_subset _ hraw)
    unfold dropCR
    split
    · exact fun hmem => hlines (List.dropLast_subset _ hmem)
    · exact hlines
  unfold readLine at hread
  split at hread
  · rename_i addr type name hsplit
    obtain ⟨a, -, rfl⟩ := Option.map_eq_some_iff.1 hread
    have hname : name ∈ line.splitOn ' ' := by
      rw [hsplit]
      simp
    intro hmem
    have hmem : '\n' ∈ name := by simpa using hmem
    exact hnewline ((mem_splitOn hname).1 _ hmem)
  · cases hread

theorem newline_notMem_symbol {text : List Char} (hinit : Init text s) (addr : BitVec 64) :
    '\n' ∉ (symbol s addr).toList := by
  unfold symbol
  rcases ksym_cases s.ksymsList addr with ⟨-, hunknown⟩ | ⟨-, k, hk, hfloor⟩
  · rw [hunknown]
    decide
  · rw [hk]
    exact newline_notMem_name (hinit.sorts.mem_iff.1 hfloor.1)

/-! ## Lines -/

theorem funcName_eq_stacks (s : Symbols) (kernel : Bool) (stackPtr : BitVec 64) :
    funcName s kernel stackPtr = some (Stacks.funcName (symbol s) kernel stackPtr) := by
  unfold funcName Stacks.funcName
  split
  · rw [ksym_eq_symbol]
    rfl
  · rfl

/-- The loop makes the lines of the addresses in front of the first zero. -/
theorem stackStr_eq (s : Symbols) (kernel : Bool) (stack : List (BitVec 64)) :
    stackStr s kernel stack =
      some ((stack.takeWhile (· ≠ 0)).map (Stacks.funcName (symbol s) kernel)) := by
  induction stack with
  | nil => rfl
  | cons stackPtr stack ih =>
      unfold stackStr
      by_cases hzero : stackPtr = 0
      · rw [if_pos hzero, List.takeWhile_cons_of_neg (by simpa using hzero)]
        rfl
      · rw [if_neg hzero, List.takeWhile_cons_of_pos (by simpa using hzero), ih,
          funcName_eq_stacks]
        rfl

/-- `exportStack` never panics, and its text is made of the addresses. -/
theorem exportStack_eq (o : ByteOrder) (s : Symbols) (table : RawTable) (stackID : BitVec 32)
    (kernel : Bool) :
    exportStack o s table stackID kernel =
      ((framesOf o table stackID).map fun frames =>
        joinLines (frames.map (Stacks.funcName (symbol s) kernel))).elim .error .text := by
  unfold exportStack framesOf
  cases table.lookup ((host 4 o).put stackID) with
  | none => rfl
  | some stackRaw =>
      rw [Option.bind_some]
      dsimp only
      cases (host 8 o).readWords 127 stackRaw with
      | none => rfl
      | some stack =>
          dsimp only
          rw [stackStr_eq]
          rfl

/-- **On what the kernel has written, `exportStack` does what it does in `Stacks`.** -/
theorem exportStack_eq_stacks {stored : StackTable} (h : Written o stored table)
    (s : Symbols) (stackID : BitVec 32) (kernel : Bool) :
    exportStack o s table stackID kernel =
      (Stacks.exportStack (symbol s) stored stackID kernel).elim .error .text := by
  rw [exportStack_eq, framesOf, h, Stacks.exportStack]
  cases stored.lookup stackID with
  | none => rfl
  | some stack =>
      have hread := (host 8 o).readWords_flatMap stack.ip []
      rw [List.append_nil, stack.length_ip] at hread
      rw [Option.map_some, Option.bind_some, hread]
      rfl

/-! ## What a text says -/

theorem length_hex (a : BitVec 64) : (hex a).toList.length = 18 := by
  have hdigits := length_padded 16 a.toNat
  simp [hex, hdigits]

/-- The address stands at the end of its line. -/
theorem funcName_inj {s' : Symbols} {a a' : BitVec 64}
    (h : Stacks.funcName (symbol s) kernel a = Stacks.funcName (symbol s') kernel a') :
    a = a' := by
  unfold Stacks.funcName at h
  cases kernel with
  | false => exact hex_inj h
  | true =>
      have hlists := congrArg String.toList h
      simp only [if_true, String.toList_append] at hlists
      have hinner := List.append_cancel_right hlists
      have hhex := (List.append_inj' hinner (by rw [length_hex, length_hex])).2
      exact hex_inj (String.toList_inj.1 hhex)

theorem funcName_line {text : List Char} (hinit : Init text s) (a : BitVec 64) :
    '\n' ∉ (Stacks.funcName (symbol s) kernel a).toList ∧
      Stacks.funcName (symbol s) kernel a ≠ "" := by
  unfold Stacks.funcName
  cases kernel with
  | false => exact hex_line a
  | true =>
      rw [if_pos rfl]
      constructor
      · simp only [String.toList_append, List.mem_append, not_or]
        exact ⟨⟨⟨newline_notMem_symbol hinit a, by decide⟩, (hex_line a).1⟩, by decide⟩
      · intro hempty
        have hlength := congrArg (fun t => t.toList.length) hempty
        simp [length_hex] at hlength

/-- **The text of a stack determines its addresses.**  For every text of `/proc/kallsyms`,
every order of bytes and every content of the table, two texts, or errors, are the same
exactly when the addresses in front of the first zero are. -/
theorem exportStack_eq_iff {text : List Char} (hinit : Init text s) :
    exportStack o s table stackID kernel = exportStack o' s table' stackID' kernel ↔
      framesOf o table stackID = framesOf o' table' stackID' := by
  rw [exportStack_eq, exportStack_eq]
  constructor
  · intro h
    have hlines : ∀ frames : List (BitVec 64),
        ∀ line ∈ frames.map (Stacks.funcName (symbol s) kernel),
          '\n' ∉ line.toList ∧ line ≠ "" := by
      intro frames line hline
      obtain ⟨a, -, rfl⟩ := List.mem_map.1 hline
      exact funcName_line hinit a
    have hmap : Function.Injective (List.map (Stacks.funcName (symbol s) kernel)) :=
      List.map_injective_iff.2 fun _ _ h => funcName_inj h
    cases hframes : framesOf o table stackID with
    | none =>
        rw [hframes] at h
        cases hframes' : framesOf o' table' stackID' with
        | none => rfl
        | some frames' =>
            rw [hframes'] at h
            cases h
    | some frames =>
        rw [hframes] at h
        cases hframes' : framesOf o' table' stackID' with
        | none =>
            rw [hframes'] at h
            cases h
        | some frames' =>
            rw [hframes'] at h
            have hjoin := Exported.text.inj h
            rw [hmap (joinLines_inj (hlines frames) (hlines frames') hjoin)]
  · intro h
    rw [h]

/-- A table with one stack of one address. -/
def oneStack (o : ByteOrder) (stackPtr : BitVec 64) : RawTable :=
  (∅ : RawTable).insert ((host 4 o).put 7)
    ((stackPtr :: List.replicate 126 0).flatMap (host 8 o).put)

theorem framesOf_oneStack (o : ByteOrder) {stackPtr : BitVec 64} (hptr : stackPtr ≠ 0) :
    framesOf o (oneStack o stackPtr) 7 = some [stackPtr] := by
  have hread := (host 8 o).readWords_flatMap (stackPtr :: List.replicate 126 0) []
  rw [List.append_nil, List.length_cons, List.length_replicate] at hread
  rw [framesOf, oneStack, Finmap.lookup_insert, Option.bind_some, hread, Option.map_some,
    List.takeWhile_cons_of_pos (by simpa using hptr)]
  rfl

/-- Two hosts with different orders of bytes show the same stack with the same text, and
another stack with another one. -/
theorem exportStack_eq_iff_oneStack :
    ∃ s, Init (textLine.render ++ ['\n']) s ∧
      exportStack .littleEndian s (oneStack .littleEndian 0xffffffff81000010) 7 true =
        exportStack .bigEndian s (oneStack .bigEndian 0xffffffff81000010) 7 true ∧
      exportStack .littleEndian s (oneStack .littleEndian 0xffffffff81000010) 7 true ≠
        exportStack .bigEndian s (oneStack .bigEndian 0xffffffff81000020) 7 true := by
  obtain ⟨s, hs⟩ := exists_init (textLine.render ++ ['\n'])
  refine ⟨s, hs, (exportStack_eq_iff hs).2 ?_, mt (exportStack_eq_iff hs).1 ?_⟩
  · rw [framesOf_oneStack _ (by decide), framesOf_oneStack _ (by decide)]
  · rw [framesOf_oneStack _ (by decide), framesOf_oneStack _ (by decide)]
    decide

end Kmon.Ports.StackBytes
