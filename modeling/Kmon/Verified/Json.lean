import Kmon.Verified.Text
import Mathlib.Data.List.Basic

/-!
# JSON

The values of JSON and a reader for them by recursive descent.  The reader takes a value
off the front of a text and hands on what follows it, so it serves both for a text that is
one value (`parse`) and for a stream of which only the first value is wanted (`value`).
An object keeps its members in order, repeated keys included; `get` answers with the last
member of a key.

The reader is recursive on a budget of steps.  `value_stable` says that a budget of twice
the length of the text is never used up.

`size` counts the characters without which a value cannot be written, and `size_value` is
the bound it sets on what the reader can find in a text.
-/

namespace Kmon.Verified

/-- A JSON value. -/
inductive Json where
  | null
  | bool (b : Bool)
  | num (literal : List Char)
  | str (s : String)
  | arr (elements : List Json)
  | obj (members : List (String × Json))

namespace Json

/-- The value of the last member with a key. -/
def get (k : String) : Json → Option Json
  | obj members => (members.reverse.find? fun m => m.1 = k).map Prod.snd
  | _ => none

/-! ## Spaces and literals -/

def isSpace (c : Char) : Bool := c = ' ' || c = '\t' || c = '\r' || c = '\n'

/-- The first character that is no space, and what follows it. -/
def next (cs : List Char) : Option (Char × List Char) :=
  match cs.dropWhile isSpace with
  | [] => none
  | c :: cs => some (c, cs)

/-- What follows the first character that is no space, if it is the right one. -/
def expect (c : Char) (cs : List Char) : Option (List Char) := do
  let (c', cs) ← next cs
  if c' = c then some cs else none

/-- What follows a word. -/
def afterWord (word : List Char) (cs : List Char) : Option (List Char) :=
  if word.isPrefixOf cs then some (cs.drop word.length) else none

/-! ## Numbers -/

/-- A run of digits, and what follows it. -/
def digits (cs : List Char) : List Char × List Char :=
  (cs.takeWhile Char.isDigit, cs.dropWhile Char.isDigit)

/-- A run of digits that is not empty. -/
def digits1 (cs : List Char) : Option (List Char × List Char) :=
  if (digits cs).1 = [] then none else some (digits cs)

/-- The sign of an exponent. -/
def sign : List Char → List Char × List Char
  | '+' :: cs => (['+'], cs)
  | '-' :: cs => (['-'], cs)
  | cs => ([], cs)

/-- The exponent of a number, if there is one. -/
def exponent (cs : List Char) : Option (List Char × List Char) :=
  match cs with
  | [] => some ([], [])
  | c :: cs' =>
      if c = 'e' ∨ c = 'E' then do
        let (ds, rest) ← digits1 (sign cs').2
        some (c :: (sign cs').1 ++ ds, rest)
      else some ([], cs)

/-- The fraction of a number, if there is one. -/
def fraction (cs : List Char) : Option (List Char × List Char) :=
  match cs with
  | [] => some ([], [])
  | c :: cs' =>
      if c = '.' then do
        let (ds, rest) ← digits1 cs'
        some (c :: ds, rest)
      else some ([], cs)

/-- The integer part of a number: no zero stands in front of other digits. -/
def integer (cs : List Char) : Option (List Char × List Char) :=
  match cs with
  | [] => none
  | c :: cs' => if c = '0' then some (['0'], cs') else digits1 cs

/-- A number, as it is written. -/
def number (cs : List Char) : Option (List Char × List Char) := do
  let minus := if cs.head? = some '-' then ['-'] else []
  let (i, cs) ← integer (cs.drop minus.length)
  let (f, cs) ← fraction cs
  let (e, cs) ← exponent cs
  some (minus ++ i ++ f ++ e, cs)

/-! ## Strings -/

/-- A character that stands for itself in a string. -/
def Plain (c : Char) : Prop := c ≠ '"' ∧ c ≠ '\\' ∧ ' ' ≤ c

instance (c : Char) : Decidable (Plain c) :=
  inferInstanceAs (Decidable (c ≠ '"' ∧ c ≠ '\\' ∧ ' ' ≤ c))

/-- A text all of whose characters stand for themselves. -/
def PlainText (cs : List Char) : Prop := ∀ c ∈ cs, Plain c

instance (cs : List Char) : Decidable (PlainText cs) := List.decidableBAll Plain cs

/-- The character for the letter behind a backslash. -/
def escape (c : Char) : Option Char :=
  if c = '"' ∨ c = '\\' ∨ c = '/' then some c
  else if c = 'b' then some '\x08'
  else if c = 'f' then some '\x0c'
  else if c = 'n' then some '\n'
  else if c = 'r' then some '\r'
  else if c = 't' then some '\t'
  else none

/-- A part of a string: a character, or the UTF-16 code unit of an escape. -/
inductive Piece where
  | char (c : Char)
  | unit (u : Nat)

/-- The code unit of four digits. -/
def codeUnit (a b c d : Char) : Option Piece := do
  let a ← Text.hexDigit a
  let b ← Text.hexDigit b
  let c ← Text.hexDigit c
  let d ← Text.hexDigit d
  some (.unit (((a * 16 + b) * 16 + c) * 16 + d))

/-- The parts of a string up to the quotation mark that ends it, and what follows it. -/
def pieces : List Char → Option (List Piece × List Char)
  | '"' :: rest => some ([], rest)
  | '\\' :: 'u' :: a :: b :: c :: d :: cs => do
      let p ← codeUnit a b c d
      let (ps, rest) ← pieces cs
      some (p :: ps, rest)
  | '\\' :: c :: cs => do
      let c ← escape c
      let (ps, rest) ← pieces cs
      some (.char c :: ps, rest)
  | c :: cs =>
      if Plain c then do
        let (ps, rest) ← pieces cs
        some (.char c :: ps, rest)
      else none
  | [] => none

def isHigh (u : Nat) : Bool := 0xD800 ≤ u && u < 0xDC00

def isLow (u : Nat) : Bool := 0xDC00 ≤ u && u < 0xE000

/-- A code unit on its own; half a pair is replaced. -/
def ofUnit (u : Nat) : Char := if isHigh u || isLow u then '\uFFFD' else Char.ofNat u

/-- The characters of a string.  Two code units that make a pair are one character. -/
def characters : List Piece → List Char
  | .unit u :: .unit u' :: ps =>
      if isHigh u && isLow u' then
        Char.ofNat (0x10000 + (u - 0xD800) * 0x400 + (u' - 0xDC00)) :: characters ps
      else ofUnit u :: characters (.unit u' :: ps)
  | .unit u :: ps => ofUnit u :: characters ps
  | .char c :: ps => c :: characters ps
  | [] => []

/-- The rest of a string, and what follows it. -/
def stringBody (cs : List Char) : Option (String × List Char) := do
  let (ps, rest) ← pieces cs
  some (String.ofList (characters ps), rest)

/-! ## Values -/

mutual

/-- A value, and what follows it.  Arrays and objects are nested at most `depth` deep. -/
def value : Nat → Nat → List Char → Option (Json × List Char)
  | 0, _, _ => none
  | fuel + 1, depth, cs => do
      let (c, rest) ← next cs
      if c = '{' then
        if depth = 0 then none
        else
          match expect '}' rest with
          | some rest => some (obj [], rest)
          | none => do
              let (ms, rest) ← members fuel (depth - 1) rest
              some (obj ms, rest)
      else if c = '[' then
        if depth = 0 then none
        else
          match expect ']' rest with
          | some rest => some (arr [], rest)
          | none => do
              let (es, rest) ← elements fuel (depth - 1) rest
              some (arr es, rest)
      else if c = '"' then do
        let (s, rest) ← stringBody rest
        some (str s, rest)
      else if c = 'n' then do
        let rest ← afterWord ['u', 'l', 'l'] rest
        some (null, rest)
      else if c = 't' then do
        let rest ← afterWord ['r', 'u', 'e'] rest
        some (bool true, rest)
      else if c = 'f' then do
        let rest ← afterWord ['a', 'l', 's', 'e'] rest
        some (bool false, rest)
      else do
        let (literal, rest) ← number (c :: rest)
        some (num literal, rest)

/-- The members of an object up to the bracket that closes it. -/
def members : Nat → Nat → List Char → Option (List (String × Json) × List Char)
  | 0, _, _ => none
  | fuel + 1, depth, cs => do
      let cs ← expect '"' cs
      let (k, cs) ← stringBody cs
      let cs ← expect ':' cs
      let (v, cs) ← value fuel depth cs
      let (c, cs) ← next cs
      if c = ',' then do
        let (ms, rest) ← members fuel depth cs
        some ((k, v) :: ms, rest)
      else if c = '}' then some ([(k, v)], cs)
      else none

/-- The elements of an array up to the bracket that closes it. -/
def elements : Nat → Nat → List Char → Option (List Json × List Char)
  | 0, _, _ => none
  | fuel + 1, depth, cs => do
      let (v, cs) ← value fuel depth cs
      let (c, cs) ← next cs
      if c = ',' then do
        let (es, rest) ← elements fuel depth cs
        some (v :: es, rest)
      else if c = ']' then some ([v], cs)
      else none

end

/-- Steps that are enough for a text. -/
def fuel (cs : List Char) : Nat := 2 * cs.length + 1

/-- The value that a text begins with, and what follows it. -/
def first (depth : Nat) (cs : List Char) : Option (Json × List Char) := value (fuel cs) depth cs

/-- The value that a text is. -/
def parse (cs : List Char) : Option Json := do
  let (v, rest) ← first cs.length cs
  if next rest = none then some v else none

/-! ## What a reader takes -/

theorem next_length {cs rest : List Char} {c : Char} (h : next cs = some (c, rest)) :
    rest.length + 1 ≤ cs.length := by
  have hle := (List.dropWhile_sublist isSpace (l := cs)).length_le
  unfold next at h
  split at h
  · cases h
  · rename_i c' cs' heq
    cases h
    rwa [heq, List.length_cons] at hle

theorem expect_length {c : Char} {cs rest : List Char} (h : expect c cs = some rest) :
    rest.length + 1 ≤ cs.length := by
  obtain ⟨⟨c', cs'⟩, hnext, h⟩ := Option.bind_eq_some_iff.1 h
  dsimp only at h
  split at h
  · cases h
    exact next_length hnext
  · cases h

theorem afterWord_length {word cs rest : List Char} (h : afterWord word cs = some rest) :
    rest.length ≤ cs.length := by
  unfold afterWord at h
  split at h
  · cases h
    rw [List.length_drop]
    exact Nat.sub_le _ _
  · cases h

theorem digits1_length {cs ds rest : List Char} (h : digits1 cs = some (ds, rest)) :
    rest.length + 1 ≤ cs.length := by
  unfold digits1 at h
  split at h
  · cases h
  · rename_i hne
    cases h
    have hlen := congrArg List.length
      (List.takeWhile_append_dropWhile (p := Char.isDigit) (l := cs))
    have hpos := List.length_pos_iff.2 hne
    rw [List.length_append] at hlen
    dsimp only [digits] at hpos
    omega

theorem sign_length (cs : List Char) : (sign cs).2.length ≤ cs.length := by
  unfold sign
  split
  · exact Nat.le_succ _
  · exact Nat.le_succ _
  · exact Nat.le_refl _

theorem exponent_length {cs e rest : List Char} (h : exponent cs = some (e, rest)) :
    rest.length ≤ cs.length := by
  unfold exponent at h
  split at h
  · cases h
    exact Nat.le_refl _
  · rename_i c cs'
    split at h
    · obtain ⟨⟨ds, rest'⟩, hdigits, h⟩ := Option.bind_eq_some_iff.1 h
      cases h
      have hlen := digits1_length hdigits
      have hsign := sign_length cs'
      rw [List.length_cons]
      omega
    · cases h
      exact Nat.le_refl _

theorem fraction_length {cs f rest : List Char} (h : fraction cs = some (f, rest)) :
    rest.length ≤ cs.length := by
  unfold fraction at h
  split at h
  · cases h
    exact Nat.le_refl _
  · split at h
    · obtain ⟨⟨ds, rest'⟩, hdigits, h⟩ := Option.bind_eq_some_iff.1 h
      cases h
      have hlen := digits1_length hdigits
      rw [List.length_cons]
      omega
    · cases h
      exact Nat.le_refl _

theorem integer_length {cs i rest : List Char} (h : integer cs = some (i, rest)) :
    rest.length + 1 ≤ cs.length := by
  unfold integer at h
  split at h
  · cases h
  · split at h
    · cases h
      exact Nat.le_refl _
    · exact digits1_length h

theorem number_length {cs literal rest : List Char} (h : number cs = some (literal, rest)) :
    rest.length + 1 ≤ cs.length := by
  obtain ⟨⟨i, cs₁⟩, hinteger, h⟩ := Option.bind_eq_some_iff.1 h
  obtain ⟨⟨f, cs₂⟩, hfraction, h⟩ := Option.bind_eq_some_iff.1 h
  obtain ⟨⟨e, cs₃⟩, hexponent, h⟩ := Option.bind_eq_some_iff.1 h
  cases h
  have h₁ := integer_length hinteger
  have h₂ := fraction_length hfraction
  have h₃ := exponent_length hexponent
  rw [List.length_drop] at h₁
  omega

/-! ## What a string says -/

theorem length_characters (ps : List Piece) : (characters ps).length ≤ ps.length := by
  fun_induction characters ps with
  | case1 u u' ps hpair ih =>
      rw [List.length_cons, List.length_cons, List.length_cons]
      omega
  | case2 u u' ps hpair ih =>
      rw [List.length_cons, List.length_cons]
      omega
  | case3 u ps _ ih =>
      rw [List.length_cons, List.length_cons]
      omega
  | case4 c ps ih =>
      rw [List.length_cons, List.length_cons]
      omega
  | case5 => exact Nat.le_refl _

@[simp] theorem characters_chars (cs : List Char) : characters (cs.map .char) = cs := by
  induction cs with
  | nil => rfl
  | cons c cs ih => rw [List.map_cons, characters, ih]

/-- What was read of a string: as many characters as it has parts, or more, and only if
every one stands for itself not more. -/
structure ReadsPieces (cs : List Char) (ps : List Piece) (raw rest : List Char) : Prop where
  text : cs = raw ++ '"' :: rest
  length_le : ps.length ≤ raw.length
  plain : raw.length ≤ ps.length → PlainText raw

theorem reads_pieces {cs rest : List Char} {ps : List Piece} (h : pieces cs = some (ps, rest)) :
    ∃ raw, ReadsPieces cs ps raw rest := by
  fun_induction pieces cs generalizing ps rest with
  | case1 rest' =>
      cases h
      exact ⟨[], rfl, Nat.le_refl _, fun _ c hc => absurd hc List.not_mem_nil⟩
  | case2 a b c d cs ih =>
      obtain ⟨p, -, h⟩ := Option.bind_eq_some_iff.1 h
      obtain ⟨⟨ps', rest'⟩, hps, h⟩ := Option.bind_eq_some_iff.1 h
      cases h
      obtain ⟨raw, htext, hlen, hplain⟩ := ih hps
      refine ⟨'\\' :: 'u' :: a :: b :: c :: d :: raw, by rw [htext]; rfl, ?_, ?_⟩
      · simp only [List.length_cons]
        omega
      · simp only [List.length_cons]
        omega
  | case3 c cs _ ih =>
      obtain ⟨c', -, h⟩ := Option.bind_eq_some_iff.1 h
      obtain ⟨⟨ps', rest'⟩, hps, h⟩ := Option.bind_eq_some_iff.1 h
      cases h
      obtain ⟨raw, htext, hlen, hplain⟩ := ih hps
      refine ⟨'\\' :: c :: raw, by rw [htext]; rfl, ?_, ?_⟩
      · simp only [List.length_cons]
        omega
      · simp only [List.length_cons]
        omega
  | case4 c cs _ _ _ hc ih =>
      obtain ⟨⟨ps', rest'⟩, hps, h⟩ := Option.bind_eq_some_iff.1 h
      cases h
      obtain ⟨raw, htext, hlen, hplain⟩ := ih hps
      refine ⟨c :: raw, by rw [htext]; rfl, Nat.succ_le_succ hlen, fun hle c' hc' => ?_⟩
      rcases List.mem_cons.1 hc' with rfl | hraw
      · exact hc
      · exact hplain (Nat.le_of_succ_le_succ hle) c' hraw
  | case5 => cases h
  | case6 => cases h

theorem stringBody_length {cs rest : List Char} {s : String}
    (h : stringBody cs = some (s, rest)) : s.length + 1 + rest.length ≤ cs.length := by
  obtain ⟨⟨ps, rest'⟩, hps, h⟩ := Option.bind_eq_some_iff.1 h
  cases h
  obtain ⟨raw, htext, hlen, -⟩ := reads_pieces hps
  have hchars := length_characters ps
  rw [htext, String.length_ofList, List.length_append, List.length_cons]
  omega

theorem pieces_plain {cs : List Char} (h : PlainText cs) (rest : List Char) :
    pieces (cs ++ '"' :: rest) = some (cs.map .char, rest) := by
  induction cs with
  | nil => rfl
  | cons c cs ih =>
      rw [PlainText, List.forall_mem_cons] at h
      obtain ⟨hquote, hslash, -⟩ := h.1
      rw [List.cons_append, pieces, if_pos h.1, ih h.2, List.map_cons]
      · rfl
      · exact hquote
      · exact fun _ _ _ _ _ heq _ => hslash heq
      · exact fun _ _ heq _ => hslash heq

/-- Characters that stand for themselves are read back. -/
theorem stringBody_plain {cs : List Char} (h : PlainText cs) (rest : List Char) :
    stringBody (cs ++ '"' :: rest) = some (String.ofList cs, rest) := by
  rw [stringBody, pieces_plain h]
  exact congrArg (fun cs => some (String.ofList cs, rest)) (characters_chars cs)

/-- Only characters that stand for themselves are read back, if no quotation mark comes
later. -/
theorem plain_of_stringBody {cs rest rest' : List Char} {s : String}
    (h : stringBody (cs ++ '"' :: rest) = some (s, rest')) (hs : s.length = cs.length)
    (hrest : '"' ∉ rest) : PlainText cs := by
  obtain ⟨⟨ps, rest''⟩, hps, h⟩ := Option.bind_eq_some_iff.1 h
  cases h
  obtain ⟨raw, htext, hlen, hplain⟩ := reads_pieces hps
  have hchars := length_characters ps
  rw [String.length_ofList] at hs
  rcases List.append_eq_append_iff.1 htext with ⟨as, hraw, hquote⟩ | ⟨bs, hcs, hquote⟩
  · -- the string that was read is the whole text or goes beyond it
    cases as with
    | nil =>
        rw [List.append_nil] at hraw
        exact hraw ▸ hplain (by rw [hraw]; omega)
    | cons a as =>
        rw [List.cons_append, List.cons.injEq] at hquote
        exact absurd (hquote.2 ▸ by simp) hrest
  · -- the string that was read is a part of the text
    cases bs with
    | nil =>
        rw [List.append_nil] at hcs
        exact hcs ▸ hplain (by rw [← hcs]; omega)
    | cons b bs =>
        rw [hcs, List.length_append, List.length_cons] at hs
        omega

/-! ## What a value says -/

mutual

/-- The characters without which a value cannot be written. -/
def size : Json → Nat
  | null => 1
  | bool _ => 1
  | num _ => 1
  | str s => s.length + 2
  | arr es => 1 + sizeElements es
  | obj ms => 1 + sizeMembers ms

def sizeElements : List Json → Nat
  | [] => 0
  | v :: es => v.size + 1 + sizeElements es

def sizeMembers : List (String × Json) → Nat
  | [] => 0
  | (k, v) :: ms => k.length + v.size + 4 + sizeMembers ms

end

theorem size_le_of_mem {k : String} {v : Json} {ms : List (String × Json)}
    (h : (k, v) ∈ ms) : k.length + v.size + 4 ≤ sizeMembers ms := by
  induction ms with
  | nil => exact absurd h List.not_mem_nil
  | cons m ms ih =>
      obtain ⟨k', v'⟩ := m
      rw [sizeMembers]
      rcases List.mem_cons.1 h with heq | hmem
      · cases heq
        omega
      · have hle := ih hmem
        omega

theorem mem_of_get {k : String} {v : Json} {ms : List (String × Json)}
    (h : (obj ms).get k = some v) : (k, v) ∈ ms := by
  obtain ⟨⟨k', v'⟩, hfind, hv⟩ := Option.map_eq_some_iff.1 h
  have hmem := List.mem_reverse.1 (List.mem_of_find?_eq_some hfind)
  have hkey := List.find?_some hfind
  rw [decide_eq_true_iff] at hkey
  dsimp only at hv hkey
  rwa [hkey, hv] at hmem

theorem size_get {k : String} {v w : Json} (h : v.get k = some w) :
    k.length + w.size + 5 ≤ v.size := by
  cases v with
  | obj ms =>
      have hle := size_le_of_mem (mem_of_get h)
      rw [size]
      omega
  | null => cases h
  | bool b => cases h
  | num literal => cases h
  | str s => cases h
  | arr es => cases h

/-- The ways to read a value that begins with a character. -/
inductive Reads (fuel depth : Nat) (c : Char) (cs : List Char) : Json → List Char → Prop
  | emptyObject {rest : List Char} (h : expect '}' cs = some rest) :
      Reads fuel depth c cs (obj []) rest
  | object {ms : List (String × Json)} {rest : List Char}
      (h : members fuel (depth - 1) cs = some (ms, rest)) : Reads fuel depth c cs (obj ms) rest
  | emptyArray {rest : List Char} (h : expect ']' cs = some rest) :
      Reads fuel depth c cs (arr []) rest
  | array {es : List Json} {rest : List Char}
      (h : elements fuel (depth - 1) cs = some (es, rest)) : Reads fuel depth c cs (arr es) rest
  | string {s : String} {rest : List Char} (h : stringBody cs = some (s, rest)) :
      Reads fuel depth c cs (str s) rest
  | null {rest : List Char} (hc : c = 'n') (h : afterWord ['u', 'l', 'l'] cs = some rest) :
      Reads fuel depth c cs null rest
  | bool {word rest : List Char} (b : Bool) (h : afterWord word cs = some rest) :
      Reads fuel depth c cs (bool b) rest
  | number {literal rest : List Char} (h : number (c :: cs) = some (literal, rest)) :
      Reads fuel depth c cs (num literal) rest

theorem reads_of_value {fuel depth : Nat} {cs rest : List Char} {v : Json}
    (h : value (fuel + 1) depth cs = some (v, rest)) :
    ∃ c cs', next cs = some (c, cs') ∧ Reads fuel depth c cs' v rest := by
  rw [value] at h
  obtain ⟨⟨c, cs'⟩, hnext, h⟩ := Option.bind_eq_some_iff.1 h
  refine ⟨c, cs', hnext, ?_⟩
  dsimp only at h
  split at h
  · split at h
    · cases h
    split at h
    · rename_i hclose
      cases h
      exact .emptyObject hclose
    · obtain ⟨⟨ms, rest'⟩, hms, h⟩ := Option.bind_eq_some_iff.1 h
      cases h
      exact .object hms
  split at h
  · split at h
    · cases h
    split at h
    · rename_i hclose
      cases h
      exact .emptyArray hclose
    · obtain ⟨⟨es, rest'⟩, hes, h⟩ := Option.bind_eq_some_iff.1 h
      cases h
      exact .array hes
  split at h
  · obtain ⟨⟨s, rest'⟩, hs, h⟩ := Option.bind_eq_some_iff.1 h
    cases h
    exact .string hs
  split at h
  · rename_i hc
    obtain ⟨rest', hword, h⟩ := Option.bind_eq_some_iff.1 h
    cases h
    exact .null hc hword
  split at h
  · obtain ⟨rest', hword, h⟩ := Option.bind_eq_some_iff.1 h
    cases h
    exact .bool true hword
  split at h
  · obtain ⟨rest', hword, h⟩ := Option.bind_eq_some_iff.1 h
    cases h
    exact .bool false hword
  · obtain ⟨⟨literal, rest'⟩, hnumber, h⟩ := Option.bind_eq_some_iff.1 h
    cases h
    exact .number hnumber

/-- What was read, and what follows it, is no longer than the text. -/
structure WithinText (fuel : Nat) : Prop where
  value : ∀ {depth cs v rest}, value fuel depth cs = some (v, rest) →
    v.size + rest.length ≤ cs.length
  members : ∀ {depth cs ms rest}, members fuel depth cs = some (ms, rest) →
    sizeMembers ms + rest.length ≤ cs.length
  elements : ∀ {depth cs es rest}, elements fuel depth cs = some (es, rest) →
    sizeElements es + rest.length ≤ cs.length

theorem size_le_of_reads {fuel depth : Nat} (ih : WithinText fuel) {c : Char}
    {cs rest : List Char} {v : Json} (h : Reads fuel depth c cs v rest) :
    v.size + rest.length ≤ cs.length + 1 := by
  cases h with
  | emptyObject h =>
      have hlen := expect_length h
      simp only [size, sizeMembers]
      omega
  | object h =>
      have hlen := ih.members h
      simp only [size]
      omega
  | emptyArray h =>
      have hlen := expect_length h
      simp only [size, sizeElements]
      omega
  | array h =>
      have hlen := ih.elements h
      simp only [size]
      omega
  | string h =>
      have hlen := stringBody_length h
      simp only [size]
      omega
  | null hc h =>
      have hlen := afterWord_length h
      simp only [size]
      omega
  | bool b h =>
      have hlen := afterWord_length h
      simp only [size]
      omega
  | number h =>
      have hlen := number_length h
      rw [List.length_cons] at hlen
      simp only [size]
      omega

theorem sizeMembers_le {fuel depth : Nat} (ih : WithinText fuel) {cs rest : List Char}
    {ms : List (String × Json)} (h : members (fuel + 1) depth cs = some (ms, rest)) :
    sizeMembers ms + rest.length ≤ cs.length := by
  rw [members] at h
  obtain ⟨cs₁, hquote, h⟩ := Option.bind_eq_some_iff.1 h
  obtain ⟨⟨k, cs₂⟩, hkey, h⟩ := Option.bind_eq_some_iff.1 h
  obtain ⟨cs₃, hcolon, h⟩ := Option.bind_eq_some_iff.1 h
  obtain ⟨⟨v, cs₄⟩, hvalue, h⟩ := Option.bind_eq_some_iff.1 h
  obtain ⟨⟨c, cs₅⟩, hnext, h⟩ := Option.bind_eq_some_iff.1 h
  have h₁ := expect_length hquote
  have h₂ := stringBody_length hkey
  have h₃ := expect_length hcolon
  have h₄ := ih.value hvalue
  have h₅ := next_length hnext
  dsimp only at h
  split at h
  · obtain ⟨⟨ms', rest'⟩, hms, h⟩ := Option.bind_eq_some_iff.1 h
    cases h
    have h₆ := ih.members hms
    simp only [sizeMembers]
    omega
  split at h
  · cases h
    simp only [sizeMembers]
    omega
  · cases h

theorem sizeElements_le {fuel depth : Nat} (ih : WithinText fuel) {cs rest : List Char}
    {es : List Json} (h : elements (fuel + 1) depth cs = some (es, rest)) :
    sizeElements es + rest.length ≤ cs.length := by
  rw [elements] at h
  obtain ⟨⟨v, cs₁⟩, hvalue, h⟩ := Option.bind_eq_some_iff.1 h
  obtain ⟨⟨c, cs₂⟩, hnext, h⟩ := Option.bind_eq_some_iff.1 h
  have h₁ := ih.value hvalue
  have h₂ := next_length hnext
  dsimp only at h
  split at h
  · obtain ⟨⟨es', rest'⟩, hes, h⟩ := Option.bind_eq_some_iff.1 h
    cases h
    have h₃ := ih.elements hes
    simp only [sizeElements]
    omega
  split at h
  · cases h
    simp only [sizeElements]
    omega
  · cases h

theorem withinText (fuel : Nat) : WithinText fuel := by
  induction fuel with
  | zero =>
      refine ⟨fun h => ?_, fun h => ?_, fun h => ?_⟩
      · cases (value.eq_1 _ _).symm.trans h
      · cases (members.eq_1 _ _).symm.trans h
      · cases (elements.eq_1 _ _).symm.trans h
  | succ fuel ih =>
      refine ⟨fun h => ?_, sizeMembers_le ih, sizeElements_le ih⟩
      obtain ⟨c, cs', hnext, hreads⟩ := reads_of_value h
      have hlen := next_length hnext
      have hsize := size_le_of_reads ih hreads
      omega

/-- A value that was found in a text is no longer than the text. -/
theorem size_value {fuel depth : Nat} {cs rest : List Char} {v : Json}
    (h : value fuel depth cs = some (v, rest)) : v.size + rest.length ≤ cs.length :=
  (withinText fuel).value h

theorem size_pos (v : Json) : 0 < v.size := by
  cases v with
  | null => exact Nat.one_pos
  | bool b => exact Nat.one_pos
  | num literal => exact Nat.one_pos
  | str s => exact Nat.succ_pos _
  | arr es => rw [size]; omega
  | obj ms => rw [size]; omega

/-! ## The budget -/

/-- A budget that a text cannot use up: one more step changes nothing. -/
structure Enough (fuel : Nat) : Prop where
  value : ∀ depth cs, 2 * cs.length + 1 ≤ fuel →
    value (fuel + 1) depth cs = value fuel depth cs
  members : ∀ depth cs, 2 * cs.length + 1 ≤ fuel →
    members (fuel + 1) depth cs = members fuel depth cs
  elements : ∀ depth cs, 2 * cs.length + 2 ≤ fuel →
    elements (fuel + 1) depth cs = elements fuel depth cs

theorem value_succ {fuel : Nat} (ih : Enough fuel) (depth : Nat) {cs : List Char}
    (h : 2 * cs.length + 1 ≤ fuel + 1) :
    value (fuel + 2) depth cs = value (fuel + 1) depth cs := by
  rw [value, value]
  refine Option.bind_congr fun ⟨c, rest⟩ hnext => ?_
  have hlen := next_length hnext
  dsimp only
  rw [ih.members (depth - 1) rest (by omega), ih.elements (depth - 1) rest (by omega)]

theorem members_succ {fuel : Nat} (ih : Enough fuel) (depth : Nat) {cs : List Char}
    (h : 2 * cs.length + 1 ≤ fuel + 1) :
    members (fuel + 2) depth cs = members (fuel + 1) depth cs := by
  rw [members, members]
  refine Option.bind_congr fun cs₁ hquote => ?_
  refine Option.bind_congr fun ⟨k, cs₂⟩ hkey => ?_
  refine Option.bind_congr fun cs₃ hcolon => ?_
  have h₁ := expect_length hquote
  have h₂ := stringBody_length hkey
  have h₃ := expect_length hcolon
  dsimp only
  rw [ih.value depth cs₃ (by omega)]
  refine Option.bind_congr fun ⟨v, cs₄⟩ hvalue => ?_
  refine Option.bind_congr fun ⟨c, cs₅⟩ hnext => ?_
  have h₄ := size_value hvalue
  have h₅ : cs₅.length + 1 ≤ cs₄.length := next_length hnext
  dsimp only
  rw [ih.members depth cs₅ (by omega)]

theorem elements_succ {fuel : Nat} (ih : Enough fuel) (depth : Nat) {cs : List Char}
    (h : 2 * cs.length + 2 ≤ fuel + 1) :
    elements (fuel + 2) depth cs = elements (fuel + 1) depth cs := by
  rw [elements, elements, ih.value depth cs (by omega)]
  refine Option.bind_congr fun ⟨v, cs₁⟩ hvalue => ?_
  refine Option.bind_congr fun ⟨c, cs₂⟩ hnext => ?_
  have h₁ := size_value hvalue
  have h₂ := size_pos v
  have h₃ : cs₂.length + 1 ≤ cs₁.length := next_length hnext
  dsimp only
  rw [ih.elements depth cs₂ (by omega)]

theorem enough (fuel : Nat) : Enough fuel := by
  induction fuel with
  | zero => exact ⟨fun _ _ h => by omega, fun _ _ h => by omega, fun _ _ h => by omega⟩
  | succ fuel ih =>
      exact ⟨fun depth _ h => value_succ ih depth h, fun depth _ h => members_succ ih depth h,
        fun depth _ h => elements_succ ih depth h⟩

/-- The budget is never used up. -/
theorem value_stable {steps : Nat} (depth : Nat) {cs : List Char} (h : fuel cs ≤ steps) :
    value steps depth cs = first depth cs := by
  obtain ⟨extra, rfl⟩ := Nat.exists_eq_add_of_le h
  clear h
  induction extra with
  | zero => rfl
  | succ extra ih =>
      rw [← Nat.add_assoc, (enough (fuel cs + extra)).value depth cs (Nat.le_add_right _ _), ih]

/-! ## Reading one value -/

theorem next_eq_some_iff {cs rest : List Char} {c : Char} :
    next cs = some (c, rest) ↔ cs.dropWhile isSpace = c :: rest := by
  unfold next
  split
  · rename_i heq
    rw [heq]
    exact iff_of_false (by simp) (by simp)
  · rename_i c' cs' heq
    rw [heq, Option.some.injEq, Prod.mk.injEq, List.cons.injEq]

theorem afterWord_eq_some_iff {word cs rest : List Char} :
    afterWord word cs = some rest ↔ cs = word ++ rest := by
  unfold afterWord
  constructor
  · intro h
    split at h
    · rename_i hprefix
      obtain ⟨tail, rfl⟩ := List.isPrefixOf_iff_prefix.1 hprefix
      rw [List.drop_left] at h
      rw [Option.some.inj h]
    · cases h
  · rintro rfl
    rw [if_pos (List.isPrefixOf_iff_prefix.2 (List.prefix_append word rest)), List.drop_left]

/-- A text begins with the value `null` exactly when it begins with the word. -/
theorem first_eq_null_iff {depth : Nat} {cs rest : List Char} :
    first depth cs = some (null, rest) ↔
      cs.dropWhile isSpace = 'n' :: 'u' :: 'l' :: 'l' :: rest := by
  constructor
  · intro h
    obtain ⟨c, cs', hnext, hreads⟩ := reads_of_value h
    cases hreads with
    | null hc hword =>
        rw [next_eq_some_iff.1 hnext, hc, afterWord_eq_some_iff.1 hword]
        rfl
  · intro h
    rw [first, fuel, value, next_eq_some_iff.2 h]
    rfl

variable {steps depth : Nat} {cs cs' rest : List Char}

theorem parse_eq_some_iff {v : Json} :
    parse cs = some v ↔
      ∃ rest, first cs.length cs = some (v, rest) ∧ next rest = none := by
  unfold parse
  constructor
  · intro h
    obtain ⟨⟨v', rest⟩, hfirst, h⟩ := Option.bind_eq_some_iff.1 h
    dsimp only at h
    split at h
    · rename_i hend
      cases h
      exact ⟨rest, hfirst, hend⟩
    · cases h
  · rintro ⟨rest, hfirst, hend⟩
    rw [hfirst]
    exact if_pos hend

/-- An object that is not empty. -/
theorem value_object (hnext : next cs = some ('{', cs')) (hmember : expect '}' cs' = none) :
    value (steps + 1) (depth + 1) cs =
      (members steps depth cs').bind fun p => some (obj p.1, p.2) := by
  rw [value, hnext]
  change (match expect '}' cs' with
    | some rest => some (obj [], rest)
    | none => (members steps depth cs').bind fun p => some (obj p.1, p.2)) = _
  rw [hmember]

theorem value_string (hnext : next cs = some ('"', cs')) :
    value (steps + 1) depth cs = (stringBody cs').bind fun p => some (str p.1, p.2) := by
  rw [value, hnext]
  rfl

/-- A member whose key stands for itself. -/
theorem members_key {key cs'' : List Char} (hquote : expect '"' cs = some (key ++ '"' :: cs'))
    (hplain : PlainText key) (hcolon : expect ':' cs' = some cs'') :
    members (steps + 1) depth cs =
      (value steps depth cs'').bind fun p => (next p.2).bind fun q =>
        if q.1 = ',' then
          (members steps depth q.2).bind fun r => some ((String.ofList key, p.1) :: r.1, r.2)
        else if q.1 = '}' then some ([(String.ofList key, p.1)], q.2)
        else none := by
  rw [members, hquote]
  change (stringBody _).bind _ = _
  rw [stringBody_plain hplain]
  change (expect ':' cs').bind _ = _
  rw [hcolon]
  rfl

end Json

end Kmon.Verified
