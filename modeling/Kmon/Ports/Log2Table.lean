import Kmon.Verified.BitSmear

/-!
# The integer logarithm of the collectors

`Log2Uint64` (`src/collector/utils/utils.go`) smears the highest bit of its argument over
the bits below, takes this bit out of the result, and multiplies it with a number whose
highest six bits are different for every shift.  They are the place of the logarithm in
`logTable64`.

`log2Uint64_spec` says that it finds the logarithm of every number but 0, which it maps to
0.
-/

namespace Kmon.Ports.Log2Table

open Kmon.Verified.BitSmear

/-- `logTable64`. -/
def logTable64 : List (BitVec 32) :=
  [63, 0, 58, 1, 59, 47, 53, 2,
    60, 39, 48, 27, 54, 33, 42, 3,
    61, 51, 37, 40, 49, 18, 28, 20,
    55, 30, 34, 11, 43, 14, 22, 4,
    62, 57, 46, 52, 38, 26, 32, 41,
    50, 36, 17, 19, 29, 10, 13, 21,
    56, 45, 25, 31, 35, 16, 9, 12,
    44, 24, 15, 8, 23, 7, 6, 5]

/-- The six assignments to `value`. -/
def smear (value : BitVec 64) : BitVec 64 :=
  let value := value ||| value >>> 1
  let value := value ||| value >>> 2
  let value := value ||| value >>> 4
  let value := value ||| value >>> 8
  let value := value ||| value >>> 16
  value ||| value >>> 32

/-- `index`. -/
def index (value : BitVec 64) : BitVec 64 :=
  let value := smear value
  ((value - (value >>> 1)) * 0x07EDD5E59A4E28C2) >>> 58

/-- `Log2Uint64`.  An index out of range is a run-time panic, `none`. -/
def log2Uint64 (value : BitVec 64) : Option (BitVec 32) :=
  if value = 0 then some 0 else logTable64[(index value).toNat]?

/-- `k` is the logarithm of a number. -/
def IsLog2 (value : BitVec 64) (k : BitVec 32) : Prop :=
  2 ^ k.toNat ≤ value.toNat ∧ value.toNat < 2 ^ (k.toNat + 1)

/-! ## One number -/

theorem covers_smear (value : BitVec 64) : Covers value (smear value) 64 :=
  (covers_self value).double.double.double.double.double.double

/-- The table has the logarithm of every power of two in its place. -/
theorem logTable64_pow : ∀ k < 64,
    logTable64[(((BitVec.ofNat 64 (2 ^ k)) * 0x07EDD5E59A4E28C2) >>> 58).toNat]? =
      some (BitVec.ofNat 32 k) := by
  decide

/-- The six highest bits of a word. -/
theorem index_lt (value : BitVec 64) : (index value).toNat < 64 := by
  unfold index
  rw [BitVec.toNat_ushiftRight, Nat.shiftRight_eq_div_pow]
  have hword := ((smear value - smear value >>> 1) * 0x07EDD5E59A4E28C2).isLt
  omega

/-- The logarithm of a number between two powers of two. -/
theorem log2Uint64_eq {value : BitVec 64} {k : Nat} (hlow : 2 ^ k ≤ value.toNat)
    (hhigh : value.toNat < 2 ^ (k + 1)) : log2Uint64 value = some (BitVec.ofNat 32 k) := by
  have hk : k < 64 :=
    (Nat.pow_lt_pow_iff_right (by decide)).1 (Nat.lt_of_le_of_lt hlow value.isLt)
  have hpos : value ≠ 0 := by
    rintro rfl
    exact absurd hlow (Nat.not_le.2 (Nat.two_pow_pos k))
  have hones := (covers_smear value).toNat_eq (Nat.le_refl 64) hlow hhigh
  rw [log2Uint64, if_neg hpos, index, sub_half_eq hk hones]
  exact logTable64_pow k hk

/-- Every number but 0 is between two powers of two. -/
theorem exists_log2Uint64 {value : BitVec 64} (h : 0 < value) :
    ∃ k, log2Uint64 value = some k ∧ IsLog2 value k := by
  have hne : value.toNat ≠ 0 := Nat.ne_of_gt (BitVec.lt_def.1 h)
  have hlow := Nat.log2_self_le hne
  have hhigh := @Nat.lt_log2_self value.toNat
  have hlog : value.toNat.log2 < 64 :=
    (Nat.pow_lt_pow_iff_right (by decide)).1 (Nat.lt_of_le_of_lt hlow value.isLt)
  refine ⟨_, log2Uint64_eq hlow hhigh, ?_⟩
  rw [IsLog2, BitVec.toNat_ofNat, Nat.mod_eq_of_lt (Nat.lt_trans hlog (by decide))]
  exact ⟨hlow, hhigh⟩

/-- Logarithms are in the order of their numbers. -/
theorem IsLog2.le {value value' : BitVec 64} {k k' : BitVec 32} (hk : IsLog2 value k)
    (hk' : IsLog2 value' k') (hle : value ≤ value') : k ≤ k' := by
  have hpow : 2 ^ k.toNat < 2 ^ (k'.toNat + 1) := by
    calc 2 ^ k.toNat ≤ value.toNat := hk.1
      _ ≤ value'.toNat := BitVec.le_def.1 hle
      _ < 2 ^ (k'.toNat + 1) := hk'.2
  have hexp := (Nat.pow_lt_pow_iff_right (by decide)).1 hpow
  exact BitVec.le_def.2 (Nat.le_of_lt_succ hexp)

/-- **The index is in the table, the logarithm of every positive number is found, that of 0
is 0, and a larger number has no smaller logarithm.** -/
theorem log2Uint64_spec :
    (∀ value, (index value).toNat < logTable64.length) ∧
      (∀ value, 0 < value →
        ∃ k, log2Uint64 value = some k ∧ IsLog2 value k ∧ ∀ k', IsLog2 value k' → k' = k) ∧
      log2Uint64 0 = some 0 ∧
      ∀ value value', value ≤ value' →
        ∃ k k', log2Uint64 value = some k ∧ log2Uint64 value' = some k' ∧ k ≤ k' := by
  refine ⟨index_lt, fun value hpos => ?_, rfl, fun value value' hle => ?_⟩
  · obtain ⟨k, hk, hlog⟩ := exists_log2Uint64 hpos
    refine ⟨k, hk, hlog, fun k' hlog' => ?_⟩
    exact BitVec.le_antisymm (hlog'.le hlog (BitVec.le_refl value))
      (hlog.le hlog' (BitVec.le_refl value))
  · by_cases hzero : value = 0
    · subst hzero
      by_cases hzero' : value' = 0
      · subst hzero'
        exact ⟨0, 0, rfl, rfl, BitVec.le_refl 0⟩
      · obtain ⟨k', hk', -⟩ := exists_log2Uint64 ((BitVec.pos_iff_ne_zero value').2 hzero')
        exact ⟨0, k', rfl, hk', BitVec.le_def.2 (Nat.zero_le _)⟩
    · have hpos := (BitVec.pos_iff_ne_zero value).2 hzero
      obtain ⟨k, hk, hlog⟩ := exists_log2Uint64 hpos
      obtain ⟨k', hk', hlog'⟩ := exists_log2Uint64 (Nat.lt_of_lt_of_le hpos hle)
      exact ⟨k, k', hk, hk', hlog.le hlog' hle⟩

end Kmon.Ports.Log2Table
