import Kmon.Verified.GoMap
import Kmon.Verified.Lines
import Kmon.Verified.Text
import Mathlib.Algebra.GroupWithZero.Nat
import Mathlib.Data.List.TakeWhile

/-!
# The kernel symbols

When the program starts, `init` (`src/collector/utils/utils.go`) reads `/proc/kallsyms` line
by line, splits every line at its blanks and keeps the third part as the name of a symbol.
The names go into `ksymsProbe`, which `KprobeExist` asks, and with their addresses into
`ksymsList`, which is sorted by address for the binary search of `Ksym`.

`ksym_floor` is the search: it finds an entry with the largest address that is not above
the given one.  `readsCompletely_iff` is the reader.  The kernel puts a tab and the name
of the module after the name of a module's symbol, and the reader, which splits at blanks
only, takes them for a part of the name.
-/

namespace Kmon.Ports.KernelSymbols

open Kmon.Verified
open Kmon.Verified.Lines
open Kmon.Verified.Text

/-- `UnknowFunctionName`. -/
def UnknowFunctionName : String := "[unknown function]"

/-- `ksym`. -/
structure Ksym where
  Addr : BitVec 64
  Name : String
  deriving DecidableEq, Repr

/-- A symbol is not above another. -/
def AddrLe (a b : Ksym) : Prop := a.Addr ≤ b.Addr

instance (a b : Ksym) : Decidable (AddrLe a b) :=
  inferInstanceAs (Decidable (a.Addr ≤ b.Addr))

/-- `ksymsList`, sorted by address. -/
structure SymbolTable where
  entries : List Ksym
  sorted : entries.Pairwise AddrLe

/-! ## The search -/

/-- The loop of `Ksym`.  An index out of range is a run-time panic, `none`. -/
def search (l : List Ksym) (addr : BitVec 64) (left right : Nat) : Option String :=
  if left < right then
    let mid := right - (right - left) / 2
    match l[mid]? with
    | none => none
    | some k =>
        if k.Addr = addr then some k.Name
        else if addr < k.Addr then search l addr left (mid - 1)
        else search l addr mid right
  else l[left]?.map Ksym.Name
termination_by right - left

/-- `Ksym`. -/
def ksym (t : SymbolTable) (addr : BitVec 64) : Option String :=
  if t.entries.length = 0 then some UnknowFunctionName
  else
    let right := t.entries.length - 1
    match t.entries[0]?, t.entries[right]? with
    | some first, some last =>
        if addr < first.Addr ∨ last.Addr < addr then some UnknowFunctionName
        else search t.entries addr 0 right
    | _, _ => none

/-- There is no entry, or the address is below the first or above the last one. -/
def OutOfRange (t : SymbolTable) (addr : BitVec 64) : Prop :=
  t.entries = [] ∨ (∃ k ∈ t.entries.head?, addr < k.Addr) ∨
    ∃ k ∈ t.entries.getLast?, k.Addr < addr

/-- An entry at or below the address, and no entry is between them. -/
def IsFloor (l : List Ksym) (addr : BitVec 64) (k : Ksym) : Prop :=
  k ∈ l ∧ k.Addr ≤ addr ∧ ∀ k' ∈ l, k'.Addr ≤ addr → k'.Addr ≤ k.Addr

theorem addr_le_of_index_le {l : List Ksym} (hsorted : l.Pairwise AddrLe) {i j : Nat}
    {a b : Ksym} (hij : i ≤ j) (ha : l[i]? = some a) (hb : l[j]? = some b) :
    a.Addr ≤ b.Addr := by
  obtain ⟨hi, rfl⟩ := List.getElem?_eq_some_iff.1 ha
  obtain ⟨hj, rfl⟩ := List.getElem?_eq_some_iff.1 hb
  rcases Nat.eq_or_lt_of_le hij with rfl | hlt
  · exact BitVec.le_refl _
  · exact List.pairwise_iff_getElem.1 hsorted i j hi hj hlt

/-- What the loop keeps: the entry at `left` is not above the address, and every entry
beyond `right` is. -/
structure Between (l : List Ksym) (addr : BitVec 64) (left right : Nat) : Prop where
  ordered : left ≤ right
  inRange : right < l.length
  below : ∀ k, l[left]? = some k → k.Addr ≤ addr
  above : ∀ i k, right < i → l[i]? = some k → addr < k.Addr

/-- An entry that is not above the address is a floor if everything further right is. -/
theorem isFloor_of_above {l : List Ksym} (hsorted : l.Pairwise AddrLe) {addr : BitVec 64}
    {i : Nat} {k : Ksym} (hk : l[i]? = some k) (hle : k.Addr ≤ addr)
    (habove : ∀ j k', i < j → l[j]? = some k' → addr < k'.Addr) : IsFloor l addr k := by
  refine ⟨List.mem_of_getElem? hk, hle, fun k' hmem hle' => ?_⟩
  obtain ⟨j, hj⟩ := List.mem_iff_getElem?.1 hmem
  by_cases hij : i < j
  · have hlt := habove j k' hij hj
    exact absurd hle' (BitVec.not_le.2 hlt)
  · exact addr_le_of_index_le hsorted (Nat.le_of_not_lt hij) hj hk

/-- The loop ends at a floor. -/
theorem search_floor {l : List Ksym} (hsorted : l.Pairwise AddrLe) {addr : BitVec 64}
    {left right : Nat} (h : Between l addr left right) :
    ∃ k, search l addr left right = some k.Name ∧ IsFloor l addr k := by
  fun_induction search l addr left right with
  | case1 left right hlt mid hnone =>
      have hmid : mid = right - (right - left) / 2 := rfl
      have hlen : l.length ≤ mid := List.getElem?_eq_none_iff.1 hnone
      have hright := h.inRange
      omega
  | case2 left right hlt mid k hk heq =>
      rw [← heq]
      exact ⟨k, rfl, List.mem_of_getElem? hk, BitVec.le_refl _, fun k' _ hle => hle⟩
  | case3 left right hlt mid k hk hne haddr ih =>
      have hmid : mid = right - (right - left) / 2 := rfl
      have hright := h.inRange
      refine ih ⟨by omega, by omega, h.below, fun i k' hi hk' => ?_⟩
      have hle := addr_le_of_index_le hsorted (by omega : mid ≤ i) hk hk'
      rw [BitVec.lt_def] at haddr ⊢
      exact Nat.lt_of_lt_of_le haddr (BitVec.le_def.1 hle)
  | case4 left right hlt mid k hk hne haddr ih =>
      have hmid : mid = right - (right - left) / 2 := rfl
      refine ih ⟨by omega, h.inRange, fun k' hk' => ?_, h.above⟩
      rw [hk] at hk'
      cases hk'
      exact BitVec.not_lt.1 haddr
  | case5 left right hnlt =>
      have heq : left = right := Nat.le_antisymm h.ordered (Nat.le_of_not_lt hnlt)
      obtain ⟨k, hk⟩ : ∃ k, l[left]? = some k :=
        ⟨_, List.getElem?_eq_getElem (Nat.lt_of_le_of_lt h.ordered h.inRange)⟩
      rw [hk]
      refine ⟨k, rfl, isFloor_of_above hsorted hk (h.below k hk) fun j k' hj hk' => ?_⟩
      exact h.above j k' (heq ▸ hj) hk'

/-- `Ksym` once the address is between the first and the last entry. -/
theorem ksym_cases (t : SymbolTable) (addr : BitVec 64) :
    (OutOfRange t addr ∧ ksym t addr = some UnknowFunctionName) ∨
      (¬OutOfRange t addr ∧
        ∃ k, ksym t addr = some k.Name ∧ IsFloor t.entries addr k) := by
  unfold ksym OutOfRange
  by_cases hnil : t.entries = []
  · rw [hnil]
    exact .inl ⟨.inl rfl, rfl⟩
  have hlen : t.entries.length ≠ 0 := fun h0 => hnil (List.length_eq_zero_iff.1 h0)
  have hfirst := List.getElem?_eq_getElem (Nat.pos_of_ne_zero hlen)
  have hlast := List.getElem?_eq_getElem (Nat.sub_one_lt hlen)
  rw [if_neg hlen, List.head?_eq_getElem?, List.getLast?_eq_getElem?]
  simp only [hfirst, hlast, hnil, false_or, Option.mem_some_iff, exists_eq_left']
  by_cases hout : addr < (t.entries[0]).Addr ∨
      (t.entries[t.entries.length - 1]).Addr < addr
  · rw [if_pos hout]
    exact .inl ⟨hout, rfl⟩
  · rw [if_neg hout]
    refine .inr ⟨hout, search_floor t.sorted ⟨Nat.zero_le _, by omega, ?_, ?_⟩⟩
    · intro k hk
      rw [hfirst] at hk
      cases hk
      exact BitVec.not_lt.1 fun hlt => hout (.inl hlt)
    · intro i k hi hk
      obtain ⟨hilt, -⟩ := List.getElem?_eq_some_iff.1 hk
      omega

/-- **The search ends, in range, at the unknown name for an address outside the table and
at an entry with the largest address not above the given one for any other.** -/
theorem ksym_floor (t : SymbolTable) (addr : BitVec 64) :
    (OutOfRange t addr → ksym t addr = some UnknowFunctionName) ∧
      (¬OutOfRange t addr →
        ∃ k, ksym t addr = some k.Name ∧ IsFloor t.entries addr k) := by
  rcases ksym_cases t addr with ⟨hout, hunknown⟩ | ⟨hin, hfloor⟩
  · exact ⟨fun _ => hunknown, fun hin => absurd hout hin⟩
  · exact ⟨fun hout => absurd hout hin, fun _ => hfloor⟩

/-! ## The reader -/

/-- The loop of `strconv.ParseUint(s, 16, 64)`, behind the digits that make `n`. -/
def hexValue : Nat → List Char → Option Nat
  | n, [] => some n
  | n, c :: cs =>
      (hexDigit c).bind fun d => if n * 16 + d < 2 ^ 64 then hexValue (n * 16 + d) cs else none

/-- `strconv.ParseUint(s, 16, 64)`. -/
def parseUint (s : List Char) : Option (BitVec 64) :=
  if s = [] then none else (hexValue 0 s).map (BitVec.ofNat 64)

/-- `bufio.MaxScanTokenSize`: the scanner stops at a line that does not fit. -/
def maxScanTokenSize : Nat := 65536

/-- The bytes of a line. -/
def utf8Size (line : List Char) : Nat := (line.map Char.utf8Size).sum

/-- A carriage return at the end is not a part of the line. -/
def dropCR (line : List Char) : List Char :=
  if line.getLast? = some '\r' then line.dropLast else line

/-- The texts `scanner.Text()` for which `scanner.Scan()` holds. -/
def scan (text : List Char) : List (List Char) :=
  ((lines text).takeWhile fun line => utf8Size line < maxScanTokenSize).map dropCR

/-- One round of the loop of `init`. -/
def readLine (line : List Char) : Option Ksym :=
  match line.splitOn ' ' with
  | [addr, _, name] => (parseUint addr).map fun addr => ⟨addr, String.ofList name⟩
  | _ => none

/-- The symbols that the loop of `init` appends to `ksymsList`. -/
def readSymbols (text : List Char) : List Ksym := (scan text).filterMap readLine

/-- The variables of the package. -/
structure Symbols where
  ksymsList : SymbolTable
  ksymsProbe : GoMap String Bool

/-- `init`, for the text of `/proc/kallsyms`.  `sort.Slice` is not stable, so the symbols
of one address are in any order. -/
structure Init (text : List Char) (s : Symbols) : Prop where
  sorts : s.ksymsList.entries.Perm (readSymbols text)
  probes : s.ksymsProbe = GoMap.putAll true ((readSymbols text).map Ksym.Name) ∅

/-- `KprobeExist`. -/
def kprobeExist (s : Symbols) (funcName : String) : Bool :=
  (s.ksymsProbe.lookup funcName).isSome

/-- Symbols in one of the orders that `sort.Slice` may leave. -/
def sortSlice (l : List Ksym) : SymbolTable where
  entries := l.mergeSort fun a b => decide (AddrLe a b)
  sorted := by
    have htrans (a b c : Ksym) (hab : decide (AddrLe a b) = true)
        (hbc : decide (AddrLe b c) = true) : decide (AddrLe a c) = true :=
      decide_eq_true (BitVec.le_trans (of_decide_eq_true hab) (of_decide_eq_true hbc))
    have htotal (a b : Ksym) : (decide (AddrLe a b) || decide (AddrLe b a)) = true := by
      rw [Bool.or_eq_true, decide_eq_true_iff, decide_eq_true_iff]
      exact BitVec.le_total a.Addr b.Addr
    exact (List.pairwise_mergeSort htrans htotal l).imp of_decide_eq_true

/-- Every text can be read. -/
theorem exists_init (text : List Char) : ∃ s, Init text s :=
  ⟨⟨sortSlice (readSymbols text), _⟩, List.mergeSort_perm _ _, rfl⟩

/-! ## The lines of the kernel -/

/-- All characters of a text come after the blank. -/
def Printable (s : String) : Prop := ∀ c ∈ s.toList, ' ' < c

instance (s : String) : Decidable (Printable s) :=
  List.decidableBAll (fun c => ' ' < c) s.toList

/-- All characters of a text are hexadecimal digits. -/
def HexDigits (s : List Char) : Prop := ∀ c ∈ s, (hexDigit c).isSome

instance (s : List Char) : Decidable (HexDigits s) :=
  List.decidableBAll (fun c => (hexDigit c).isSome) s

/-- A line of `/proc/kallsyms`. -/
structure Line where
  address : List Char
  type : Char
  name : String
  moduleName : Option String
  address_ne_nil : address ≠ []
  address_length : address.length ≤ 16
  address_hex : HexDigits address
  type_letter : type.isAlpha
  name_ne_empty : name ≠ ""
  name_printable : Printable name
  moduleName_printable : ∀ m ∈ moduleName, Printable m

namespace Line

/-- What the kernel writes behind the name: nothing, or a tab and the name of the module
in brackets. -/
def suffix (line : Line) : List Char :=
  match line.moduleName with
  | none => []
  | some m => '\t' :: '[' :: (m.toList ++ [']'])

/-- The line as the kernel writes it. -/
def render (line : Line) : List Char :=
  line.address ++ ' ' :: line.type :: ' ' :: (line.name.toList ++ line.suffix)

end Line

/-- The probe answers for the names that the lines declare, and every name the search
returns is one of them. -/
def ReadsCompletely (ls : List Line) (s : Symbols) : Prop :=
  (∀ f, kprobeExist s f = true ↔ ∃ line ∈ ls, line.name = f) ∧
    ∀ addr f, ksym s.ksymsList addr = some f →
      f = UnknowFunctionName ∨ ∃ line ∈ ls, line.name = f

/-! ## One line -/

theorem hexDigit_ne_space {c : Char} (h : (hexDigit c).isSome) : c ≠ ' ' := by
  rintro rfl
  exact absurd h (by decide)

/-- At most 16 digits are a number of 64 bits. -/
theorem hexValue_isSome {cs : List Char} (hhex : HexDigits cs) {n k : Nat}
    (hn : n < 16 ^ k) (hlen : cs.length + k ≤ 16) : (hexValue n cs).isSome := by
  induction cs generalizing n k with
  | nil => rfl
  | cons c cs ih =>
      rw [HexDigits, List.forall_mem_cons] at hhex
      rw [List.length_cons] at hlen
      obtain ⟨d, hd⟩ := Option.isSome_iff_exists.1 hhex.1
      have hd16 := hexDigit_lt hd
      have hnext : n * 16 + d < 16 ^ (k + 1) := by
        rw [Nat.pow_succ]
        omega
      have hle : 16 ^ (k + 1) ≤ 16 ^ 16 := Nat.pow_le_pow_right (by decide) (by omega)
      have hfit : n * 16 + d < 2 ^ 64 := Nat.lt_of_lt_of_le hnext hle
      rw [hexValue, hd, Option.bind_some, if_pos hfit]
      exact ih hhex.2 hnext (by omega)

theorem parseUint_isSome (line : Line) : (parseUint line.address).isSome := by
  rw [parseUint, if_neg line.address_ne_nil, Option.isSome_map]
  exact hexValue_isSome line.address_hex (k := 0) (by decide) line.address_length

/-- What follows the second blank are tabs and printable characters. -/
theorem mem_tail {line : Line} {c : Char} (h : c ∈ line.name.toList ++ line.suffix) :
    c = '\t' ∨ ' ' < c := by
  rcases List.mem_append.1 h with hname | hsuffix
  · exact .inr (line.name_printable c hname)
  unfold Line.suffix at hsuffix
  cases hm : line.moduleName with
  | none =>
      rw [hm] at hsuffix
      exact absurd hsuffix List.not_mem_nil
  | some m =>
      simp only [hm, List.mem_cons, List.mem_append, List.not_mem_nil, or_false] at hsuffix
      rcases hsuffix with rfl | rfl | hmodule | rfl
      · exact .inl rfl
      · exact .inr (by decide)
      · exact .inr (line.moduleName_printable m hm c hmodule)
      · exact .inr (by decide)

theorem space_notMem_tail (line : Line) : ' ' ∉ line.name.toList ++ line.suffix := by
  intro hmem
  rcases mem_tail hmem with htab | hlt
  · exact absurd htab (by decide)
  · exact absurd hlt (by decide)

/-- The reader takes everything behind the second blank for the name. -/
theorem readLine_render (line : Line) :
    (readLine line.render).map Ksym.Name =
      some (String.ofList (line.name.toList ++ line.suffix)) := by
  have haddr : ' ' ∉ line.address := fun hmem =>
    hexDigit_ne_space (line.address_hex _ hmem) rfl
  have htype : line.type ≠ ' ' := by
    intro heq
    have hletter := line.type_letter
    rw [heq] at hletter
    exact absurd hletter (by decide)
  have hsplit : line.render.splitOn ' ' =
      [line.address, [line.type], line.name.toList ++ line.suffix] := by
    have hmid : line.type :: ' ' :: (line.name.toList ++ line.suffix) =
        [line.type] ++ ' ' :: (line.name.toList ++ line.suffix) := rfl
    rw [Line.render, List.splitOn_append_cons_self, List.splitOn_eq_singleton haddr, hmid,
      List.splitOn_append_cons_self, List.splitOn_eq_singleton (by simpa using htype.symm),
      List.splitOn_eq_singleton (space_notMem_tail line)]
    rfl
  obtain ⟨addr, haddr'⟩ := Option.isSome_iff_exists.1 (parseUint_isSome line)
  rw [readLine, hsplit]
  simp only [haddr', Option.map_some]

theorem dropCR_render (line : Line) : dropCR line.render = line.render := by
  unfold dropCR
  rw [if_neg]
  intro hlast
  have hmem := List.mem_of_getLast? hlast
  rw [Line.render, List.mem_append, List.mem_cons, List.mem_cons, List.mem_cons] at hmem
  rcases hmem with haddr | hspace | htype | hspace | htail
  · exact absurd (line.address_hex _ haddr) (by decide)
  · exact absurd hspace (by decide)
  · exact absurd (htype ▸ line.type_letter) (by decide)
  · exact absurd hspace (by decide)
  · rcases mem_tail htail with htab | hlt
    · exact absurd htab (by decide)
    · exact absurd hlt (by decide)

/-! ## The whole text -/

/-- A name with the module behind it. -/
def fullName (line : Line) : String := String.ofList (line.name.toList ++ line.suffix)

theorem fullName_of_none {line : Line} (h : line.moduleName = none) :
    fullName line = line.name := by
  rw [fullName, Line.suffix, h, List.append_nil, String.ofList_toList]

/-- The names of the symbols that the reader keeps. -/
theorem names_readSymbols {text : List Char} {ls : List Line}
    (hform : lines text = ls.map Line.render)
    (hlimit : ∀ line ∈ ls, utf8Size line.render < maxScanTokenSize) :
    (readSymbols text).map Ksym.Name = ls.map fullName := by
  have hscan : scan text = ls.map Line.render := by
    rw [scan, hform, List.takeWhile_eq_self_iff.2, List.map_map]
    · exact List.map_congr_left fun line _ => dropCR_render line
    · intro raw hraw
      obtain ⟨line, hmem, rfl⟩ := List.mem_map.1 hraw
      exact decide_eq_true (hlimit line hmem)
  rw [readSymbols, hscan, List.map_filterMap, List.filterMap_map]
  have hline : (fun line : Line => (readLine line.render).map Ksym.Name) =
      fun line => some (fullName line) := funext readLine_render
  rw [Function.comp_def, hline]
  exact congrFun List.filterMap_eq_map' ls

/-- The probe answers for the full names. -/
theorem kprobeExist_iff {text : List Char} {ls : List Line} {s : Symbols}
    (hform : lines text = ls.map Line.render)
    (hlimit : ∀ line ∈ ls, utf8Size line.render < maxScanTokenSize) (hinit : Init text s)
    (f : String) : kprobeExist s f = true ↔ ∃ line ∈ ls, fullName line = f := by
  rw [kprobeExist, hinit.probes, GoMap.lookup_putAll, names_readSymbols hform hlimit,
    ← List.mem_map]
  by_cases hmem : f ∈ ls.map fullName
  · rw [if_pos hmem]
    exact iff_of_true rfl hmem
  · rw [if_neg hmem, Finmap.lookup_empty]
    exact iff_of_false (by decide) hmem

/-- The search returns full names. -/
theorem ksym_mem {text : List Char} {ls : List Line} {s : Symbols}
    (hform : lines text = ls.map Line.render)
    (hlimit : ∀ line ∈ ls, utf8Size line.render < maxScanTokenSize) (hinit : Init text s)
    {addr : BitVec 64} {f : String} (h : ksym s.ksymsList addr = some f) :
    f = UnknowFunctionName ∨ ∃ line ∈ ls, fullName line = f := by
  rcases ksym_cases s.ksymsList addr with ⟨-, hunknown⟩ | ⟨-, k, hk, hfloor⟩
  · rw [hunknown] at h
    exact .inl (Option.some.inj h).symm
  · rw [hk] at h
    have hmem : k.Name ∈ (readSymbols text).map Ksym.Name :=
      List.mem_map_of_mem (hinit.sorts.mem_iff.1 hfloor.1)
    rw [names_readSymbols hform hlimit, Option.some.inj h] at hmem
    exact .inr (List.mem_map.1 hmem)

/-- A name with a module behind it is no name that a line declares. -/
theorem fullName_ne_name {line : Line} (h : line.moduleName ≠ none) (line' : Line) :
    line'.name ≠ fullName line := by
  intro heq
  obtain ⟨m, hm⟩ := Option.ne_none_iff_exists'.1 h
  have htab : '\t' ∈ line'.name.toList := by
    rw [heq, fullName, String.toList_ofList, Line.suffix, hm]
    simp
  exact absurd (line'.name_printable _ htab) (by decide)

/-- **The symbols are read completely exactly when no line declares a symbol of a
module.** -/
theorem readsCompletely_iff {text : List Char} {ls : List Line} {s : Symbols}
    (hform : lines text = ls.map Line.render)
    (hlimit : ∀ line ∈ ls, utf8Size line.render < maxScanTokenSize) (hinit : Init text s) :
    ReadsCompletely ls s ↔ ∀ line ∈ ls, line.moduleName = none := by
  constructor
  · rintro ⟨hprobe, -⟩ line hmem
    by_contra hmodule
    have hfull := (kprobeExist_iff hform hlimit hinit (fullName line)).2 ⟨line, hmem, rfl⟩
    obtain ⟨line', -, heq⟩ := (hprobe _).1 hfull
    exact fullName_ne_name hmodule line' heq
  · intro hnone
    have hnames : ∀ f, (∃ line ∈ ls, fullName line = f) ↔ ∃ line ∈ ls, line.name = f := by
      refine fun f => exists_congr fun line => and_congr_right fun hmem => ?_
      rw [fullName_of_none (hnone line hmem)]
    refine ⟨fun f => ?_, fun addr f h => ?_⟩
    · rw [kprobeExist_iff hform hlimit hinit, hnames]
    · rw [← hnames]
      exact ksym_mem hform hlimit hinit h

/-- A symbol of the kernel itself. -/
def textLine : Line where
  address := "ffffffff81000000".toList
  type := 'T'
  name := "_text"
  moduleName := none
  address_ne_nil := by decide
  address_length := by decide
  address_hex := by decide
  type_letter := by decide
  name_ne_empty := by decide
  name_printable := by decide
  moduleName_printable := by decide

/-- A symbol of a module. -/
def moduleLine : Line where
  address := "ffffffffc0000000".toList
  type := 't'
  name := "nft_do_chain"
  moduleName := some "nf_tables"
  address_ne_nil := by decide
  address_length := by decide
  address_hex := by decide
  type_letter := by decide
  name_ne_empty := by decide
  name_printable := by decide
  moduleName_printable := by decide

theorem readsCompletely_textLine :
    ∃ s, Init (textLine.render ++ ['\n']) s ∧ ReadsCompletely [textLine] s := by
  obtain ⟨s, hs⟩ := exists_init (textLine.render ++ ['\n'])
  exact ⟨s, hs, (readsCompletely_iff (by decide) (by decide) hs).2 (by decide)⟩

/-- `KprobeExist` does not know the name of a module's symbol, only the name with the
module behind it. -/
theorem module_symbol_unknown :
    ∃ s, Init (moduleLine.render ++ ['\n']) s ∧
      lines (moduleLine.render ++ ['\n']) = [moduleLine.render] ∧
      utf8Size moduleLine.render < maxScanTokenSize ∧
      kprobeExist s "nft_do_chain" = false ∧
      kprobeExist s "nft_do_chain\t[nf_tables]" = true ∧
      ¬ReadsCompletely [moduleLine] s := by
  obtain ⟨s, hs⟩ := exists_init (moduleLine.render ++ ['\n'])
  have hform : lines (moduleLine.render ++ ['\n']) = [moduleLine].map Line.render := by decide
  have hlimit : ∀ line ∈ [moduleLine], utf8Size line.render < maxScanTokenSize := by decide
  have hunknown : kprobeExist s "nft_do_chain" = false := by
    rw [Bool.eq_false_iff, Ne, kprobeExist_iff hform hlimit hs]
    decide
  have hknown : kprobeExist s "nft_do_chain\t[nf_tables]" = true := by
    rw [kprobeExist_iff hform hlimit hs]
    decide
  refine ⟨s, hs, hform, by decide, hunknown, hknown, fun h => ?_⟩
  have htrue := (h.1 "nft_do_chain").2 ⟨moduleLine, List.mem_singleton_self _, rfl⟩
  rw [hunknown] at htrue
  cases htrue

end Kmon.Ports.KernelSymbols
