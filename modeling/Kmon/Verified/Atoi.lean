import Mathlib.Data.Int.Notation
import Mathlib.Data.List.DropRight
import Kmon.Verified.Text

/-!
# Numbers in a text

`atoi` reads a decimal number with an optional sign, as `strconv.Atoi` does, and `trim` is
`strings.Trim`.  A number that was written in decimal is read back (`atoi_toDigits`), and it
is still the first line of the text after the text was trimmed, whatever comes behind its
newline (`head_splitOn_trim`).
-/

namespace Kmon.Verified.Text

/-- `strings.Trim`. -/
def trim (cutset s : List Char) : List Char :=
  (s.dropWhile fun c => c ∈ cutset).rdropWhile fun c => c ∈ cutset

/-- The number that some decimal digits make; there has to be one. -/
def digits (s : List Char) : Option Nat :=
  if s ≠ [] ∧ s.all Char.isDigit then some (Nat.ofDigitChars 10 s 0) else none

/-- `strconv.Atoi`, where an `int` has 64 bits; `none` is an error. -/
def atoi : List Char → Option Int
  | '-' :: s => (digits s).bind fun n => if n ≤ 2 ^ 63 then some (-n) else none
  | '+' :: s => (digits s).bind fun n => if n < 2 ^ 63 then some n else none
  | s => (digits s).bind fun n => if n < 2 ^ 63 then some n else none

theorem isDigit_toDigits (n : Nat) : ∀ c ∈ Nat.toDigits 10 n, c.isDigit = true := fun _ hc =>
  Nat.isDigit_of_mem_toDigits (by decide) (by decide) hc

theorem toDigits_ne_nil (n : Nat) : Nat.toDigits 10 n ≠ [] := by
  intro hnil
  have hlength := Nat.length_toDigits_pos (b := 10) (n := n)
  rw [hnil] at hlength
  exact absurd hlength (Nat.lt_irrefl 0)

theorem digits_toDigits (n : Nat) : digits (Nat.toDigits 10 n) = some n := by
  have hall : (Nat.toDigits 10 n).all Char.isDigit = true := List.all_eq_true.2 (isDigit_toDigits n)
  rw [digits, if_pos ⟨toDigits_ne_nil n, hall⟩, Nat.ofDigitChars_ten_toDigits]

/-- **A number that fits is read back.** -/
theorem atoi_toDigits {n : Nat} (hn : n < 2 ^ 63) : atoi (Nat.toDigits 10 n) = some (n : Int) := by
  have hdigits := isDigit_toDigits n
  unfold atoi
  split
  · rename_i s hs
    rw [hs] at hdigits
    exact absurd (hdigits '-' List.mem_cons_self) (by decide)
  · rename_i s hs
    rw [hs] at hdigits
    exact absurd (hdigits '+' List.mem_cons_self) (by decide)
  · rw [digits_toDigits, Option.bind_some, if_pos hn]

/-! ## Trimming -/

variable {cutset word : List Char}

/-- Nothing is cut off in front of a word. -/
theorem dropWhile_word (hne : word ≠ []) (hword : ∀ c ∈ word, c ∉ cutset) (rest : List Char) :
    (word ++ rest).dropWhile (fun c => c ∈ cutset) = word ++ rest := by
  cases word with
  | nil => exact absurd rfl hne
  | cons c word =>
      have hc : ¬ (decide (c ∈ cutset)) = true := by simpa using hword c List.mem_cons_self
      exact List.dropWhile_cons_of_neg hc

/-- Behind a word, what is cut off is cut off at the end. -/
theorem rdropWhile_word (hword : ∀ c ∈ word, c ∉ cutset) (rest : List Char) :
    ∃ kept, (word ++ rest).rdropWhile (fun c => c ∈ cutset) = word ++ kept ∧ kept <+: rest := by
  induction rest using List.reverseRecOn with
  | nil =>
      refine ⟨[], ?_, List.nil_prefix⟩
      rw [List.append_nil, List.rdropWhile_eq_self_iff]
      intro hlast
      simpa using hword _ (List.getLast_mem hlast)
  | append_singleton rest c ih =>
      rw [← List.append_assoc]
      by_cases hc : (decide (c ∈ cutset)) = true
      · obtain ⟨kept, hkept, hprefix⟩ := ih
        rw [List.rdropWhile_concat_pos (fun c => decide (c ∈ cutset)) _ c hc]
        exact ⟨kept, hkept, hprefix.trans (List.prefix_append rest [c])⟩
      · rw [List.rdropWhile_concat_neg (fun c => decide (c ∈ cutset)) _ c hc, List.append_assoc]
        exact ⟨rest ++ [c], rfl, List.prefix_refl _⟩

theorem trim_word (hne : word ≠ []) (hword : ∀ c ∈ word, c ∉ cutset) : trim cutset word = word := by
  obtain ⟨kept, hkept, hprefix⟩ := rdropWhile_word hword []
  have hdrop := dropWhile_word hne hword []
  rw [List.append_nil] at hdrop hkept
  rw [trim, hdrop, hkept, List.prefix_nil.1 hprefix, List.append_nil]

/-- **A word at the start of a text is its first line, also when the text is trimmed.** -/
theorem head_splitOn_trim {sep : Char} (hne : word ≠ []) (hword : ∀ c ∈ word, c ∉ cutset)
    (hsep : sep ∉ word) (rest : List Char) :
    ∃ parts, (trim cutset (word ++ sep :: rest)).splitOn sep = word :: parts := by
  obtain ⟨kept, hkept, hprefix⟩ := rdropWhile_word hword (sep :: rest)
  rw [trim, dropWhile_word hne hword, hkept]
  rcases List.prefix_cons_iff.1 hprefix with rfl | ⟨kept', rfl, -⟩
  · rw [List.append_nil, List.splitOn_eq_singleton hsep]
    exact ⟨[], rfl⟩
  · rw [List.splitOn_append_cons_self, List.splitOn_eq_singleton hsep]
    exact ⟨_, rfl⟩

end Kmon.Verified.Text
