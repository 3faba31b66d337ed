import Mathlib.Algebra.Group.Nat.Defs

/-!
# Texts that can be read back

Two numbers with the same digits are equal, in decimal (`toString_inj`) and in
hexadecimal with zeros in front (`padded_inj`).  Texts that do not contain a
separator can be told apart in the text that joins them with it
(`intercalate_inj`, `intercalate_inj_of_ne_empty`).  `hexDigit` is the value of one
hexadecimal digit.
-/

namespace Kmon.Verified.Text

/-! ## Joining -/

/-- The parts of a text joined with a separator that none of them contains. -/
theorem intercalate_inj {c : Char} {l l' : List String} (hl : ∀ s ∈ l, c ∉ s.toList)
    (hl' : ∀ s ∈ l', c ∉ s.toList) (hne : l ≠ []) (hne' : l' ≠ [])
    (h : (String.singleton c).intercalate l = (String.singleton c).intercalate l') : l = l' := by
  have hsplit := String.toList_split_intercalate hl
  rw [h, String.toList_split_intercalate hl', if_neg hne, if_neg hne'] at hsplit
  exact hsplit.symm

/-- The parts of a text, if there are any, none of them is empty and none contains the
separator. -/
theorem intercalate_inj_of_ne_empty {c : Char} {l l' : List String}
    (hl : ∀ s ∈ l, c ∉ s.toList ∧ s ≠ "") (hl' : ∀ s ∈ l', c ∉ s.toList ∧ s ≠ "")
    (h : (String.singleton c).intercalate l = (String.singleton c).intercalate l') : l = l' := by
  have hsplit := String.toList_split_intercalate fun s hs => (hl s hs).1
  rw [h, String.toList_split_intercalate fun s hs => (hl' s hs).1] at hsplit
  by_cases hnil : l = []
  · by_cases hnil' : l' = []
    · rw [hnil, hnil']
    · rw [if_neg hnil', if_pos hnil] at hsplit
      have hmem : "" ∈ l' := hsplit ▸ List.mem_cons_self
      exact absurd rfl (hl' _ hmem).2
  · by_cases hnil' : l' = []
    · rw [if_pos hnil', if_neg hnil] at hsplit
      exact absurd rfl (hl "" (hsplit ▸ List.mem_cons_self)).2
    · rw [if_neg hnil, if_neg hnil'] at hsplit
      exact hsplit.symm

/-- `strings.Join(lines, "\n")`. -/
def joinLines (lines : List String) : String := "\n".intercalate lines

theorem joinLines_inj {l l' : List String} (hl : ∀ s ∈ l, '\n' ∉ s.toList ∧ s ≠ "")
    (hl' : ∀ s ∈ l', '\n' ∉ s.toList ∧ s ≠ "") (h : joinLines l = joinLines l') : l = l' :=
  intercalate_inj_of_ne_empty hl hl' h

/-! ## Decimal numbers -/

theorem toString_inj {m n : Nat} (h : toString m = toString n) : m = n := by
  have hdigits := congrArg String.toList h
  rw [Nat.toString_eq_ofList_toDigits, Nat.toString_eq_ofList_toDigits, String.toList_ofList,
    String.toList_ofList] at hdigits
  rw [← Nat.ofDigitChars_ten_toDigits (n := m), hdigits, Nat.ofDigitChars_ten_toDigits]

/-- A character that is no digit does not occur in a number. -/
theorem not_mem_toString {c : Char} (hc : c.isDigit = false) (n : Nat) :
    c ∉ (toString n).toList := by
  rw [Nat.toString_eq_ofList_toDigits, String.toList_ofList]
  intro hmem
  have hdigit := Nat.isDigit_of_mem_toDigits (by decide) (by decide) hmem
  rw [hc] at hdigit
  cases hdigit

/-! ## Hexadecimal numbers of fixed width -/

/-- The last `k` hexadecimal digits of a number, the most significant one first:
`%0kx` of a number below `16 ^ k`. -/
def padded : Nat → Nat → List Char
  | 0, _ => []
  | k + 1, n => padded k (n / 16) ++ [Nat.digitChar (n % 16)]

theorem length_padded (k n : Nat) : (padded k n).length = k := by
  induction k generalizing n with
  | zero => rfl
  | succ k ih => rw [padded, List.length_append, ih, List.length_singleton]

theorem digitChar_inj : ∀ a < 16, ∀ b < 16, Nat.digitChar a = Nat.digitChar b → a = b := by
  decide

theorem digitChar_ne_newline : ∀ a < 16, Nat.digitChar a ≠ '\n' := by
  decide

theorem padded_inj {k m n : Nat} (hm : m < 16 ^ k) (hn : n < 16 ^ k)
    (h : padded k m = padded k n) : m = n := by
  induction k generalizing m n with
  | zero =>
      rw [Nat.pow_zero] at hm hn
      omega
  | succ k ih =>
      rw [Nat.pow_succ] at hm hn
      obtain ⟨hhigh, hlow⟩ := List.append_inj h (by rw [length_padded, length_padded])
      have hdiv : m / 16 = n / 16 := ih (by omega) (by omega) hhigh
      have hmod : m % 16 = n % 16 :=
        digitChar_inj _ (Nat.mod_lt m (by decide)) _ (Nat.mod_lt n (by decide))
          (List.cons.inj hlow).1
      omega

theorem newline_not_mem_padded (k n : Nat) : '\n' ∉ padded k n := by
  induction k generalizing n with
  | zero => exact List.not_mem_nil
  | succ k ih =>
      intro hmem
      rcases List.mem_append.1 hmem with hhigh | hlow
      · exact ih (n / 16) hhigh
      · exact digitChar_ne_newline _ (Nat.mod_lt n (by decide)) (List.mem_singleton.1 hlow).symm

/-! ## Hexadecimal digits -/

/-- The value of a hexadecimal digit. -/
def hexDigit (c : Char) : Option Nat :=
  if '0' ≤ c ∧ c ≤ '9' then some (c.toNat - '0'.toNat)
  else if 'a' ≤ c ∧ c ≤ 'f' then some (c.toNat - 'a'.toNat + 10)
  else if 'A' ≤ c ∧ c ≤ 'F' then some (c.toNat - 'A'.toNat + 10)
  else none

/-- A character of a range is not further from its start than the end. -/
theorem sub_toNat_le {c last : Char} (h : c ≤ last) (start : Char) :
    c.toNat - start.toNat ≤ last.toNat - start.toNat :=
  Nat.sub_le_sub_right (UInt32.le_iff_toNat_le.1 (Char.le_def.1 h)) _

theorem hexDigit_lt {c : Char} {d : Nat} (h : hexDigit c = some d) : d < 16 := by
  unfold hexDigit at h
  split at h
  · rename_i hc
    have hle : c.toNat - '0'.toNat ≤ 9 := sub_toNat_le hc.2 '0'
    have heq := Option.some.inj h
    omega
  split at h
  · rename_i hc
    have hle : c.toNat - 'a'.toNat ≤ 5 := sub_toNat_le hc.2 'a'
    have heq := Option.some.inj h
    omega
  split at h
  · rename_i hc
    have hle : c.toNat - 'A'.toNat ≤ 5 := sub_toNat_le hc.2 'A'
    have heq := Option.some.inj h
    omega
  · cases h

end Kmon.Verified.Text
