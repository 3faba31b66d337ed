import Mathlib.Data.Nat.Bitwise

/-!
# Smearing the highest bit of a word

`x ||| x >>> n`, with `n` doubled each time, sets every bit below the highest one of a word
(`Covers.double`).  When the width is reached the word is one less than a power of two, and
what it loses with a last shift is the highest bit itself (`sub_half_eq`).
-/

namespace Kmon.Verified.BitSmear

variable {w : Nat}

/-- Each bit of `x` tells whether one of `n` bits of `v` is set, from the same place on. -/
def Covers (v x : BitVec w) (n : Nat) : Prop :=
  ∀ i, x.getLsbD i = true ↔ ∃ d < n, v.getLsbD (i + d) = true

theorem covers_self (v : BitVec w) : Covers v v 1 := by
  intro i
  constructor
  · exact fun h => ⟨0, Nat.one_pos, h⟩
  · rintro ⟨d, hd, h⟩
    obtain rfl := Nat.lt_one_iff.1 hd
    exact h

/-- A word joined with itself, shifted by as much as it covers. -/
theorem Covers.double {v x : BitVec w} {n : Nat} (h : Covers v x n) :
    Covers v (x ||| x >>> n) (2 * n) := by
  intro i
  rw [BitVec.getLsbD_or, Bool.or_eq_true, BitVec.getLsbD_ushiftRight, h, h]
  constructor
  · rintro (⟨d, hd, hbit⟩ | ⟨d, hd, hbit⟩)
    · exact ⟨d, by omega, hbit⟩
    · refine ⟨n + d, by omega, ?_⟩
      rwa [show i + (n + d) = n + i + d by omega]
  · rintro ⟨d, hd, hbit⟩
    by_cases hlow : d < n
    · exact Or.inl ⟨d, hlow, hbit⟩
    · refine Or.inr ⟨d - n, by omega, ?_⟩
      rwa [show n + i + (d - n) = i + d by omega]

/-- A word that covers all bits is one less than a power of two. -/
theorem Covers.toNat_eq {v x : BitVec w} {n k : Nat} (h : Covers v x n) (hn : w ≤ n)
    (hlow : 2 ^ k ≤ v.toNat) (hhigh : v.toNat < 2 ^ (k + 1)) : x.toNat = 2 ^ (k + 1) - 1 := by
  apply Nat.eq_of_testBit_eq
  intro i
  rw [Nat.testBit_two_pow_sub_one, Bool.eq_iff_iff, decide_eq_true_iff]
  refine (h i).trans ⟨?_, fun hi => ?_⟩
  · rintro ⟨d, -, hbit⟩
    have hge := Nat.ge_two_pow_of_testBit hbit
    have hlt := Nat.lt_of_le_of_lt hge hhigh
    have hexp := (Nat.pow_lt_pow_iff_right (by decide)).1 hlt
    omega
  · -- the highest bit is not below bit `i`
    have hge : 2 ^ i ≤ v.toNat :=
      Nat.le_trans (Nat.pow_le_pow_right (by decide) (Nat.le_of_lt_succ hi)) hlow
    obtain ⟨j, hj, hbit⟩ := Nat.exists_ge_and_testBit_of_ge_two_pow hge
    have hjw : j < w := by
      by_contra hout
      rw [Nat.testBit_lt_two_pow (Nat.lt_of_lt_of_le v.isLt
        (Nat.pow_le_pow_right (by decide) (Nat.le_of_not_lt hout)))] at hbit
      cases hbit
    refine ⟨j - i, by omega, ?_⟩
    rwa [show i + (j - i) = j by omega]

/-- What such a word loses when it is halved is its highest bit. -/
theorem sub_half_eq {x : BitVec w} {k : Nat} (hk : k < w) (hx : x.toNat = 2 ^ (k + 1) - 1) :
    x - x >>> 1 = BitVec.ofNat w (2 ^ k) := by
  have hpow : 2 ^ k < 2 ^ w := (Nat.pow_lt_pow_iff_right (by decide)).2 hk
  have hpos := Nat.two_pow_pos k
  have hhalf : (x >>> 1).toNat = 2 ^ k - 1 := by
    rw [BitVec.toNat_ushiftRight, hx, Nat.shiftRight_one, Nat.pow_succ]
    omega
  apply BitVec.eq_of_toNat_eq
  rw [BitVec.toNat_sub_of_le (BitVec.le_def.2 (by rw [hhalf, hx, Nat.pow_succ]; omega)), hhalf, hx,
    BitVec.toNat_ofNat, Nat.mod_eq_of_lt hpow, Nat.pow_succ]
  omega

end Kmon.Verified.BitSmear
