import Kmon.Ports.Points
import Kmon.Verified.Layout
import Kmon.Verified.Writes
import Mathlib.Data.BitVec
import Mathlib.Data.List.OfFn
import Mathlib.Data.Set.Function

/-!
# Addresses of 128 bits

`UInt128ToIP` (`src/collector/utils/utils.go`) converts an address that is held in two
words.  It does so with two loops for each byte order, where `UInt32ToIP` spells out its
four bytes.

The loops take four bits of a word for each byte, and so never see the upper half of the
word; on a little-endian host the second loop also writes where the first one did.  What is
left of an address is said by `uint128ToIP_bigEndian` and `uint128ToIP_littleEndian`, and
which addresses survive that by `uint128ToIP_lossless_iff`.
-/

namespace Kmon.Ports.LongAddresses

open Kmon.Verified Kmon.Verified.Layout Kmon.Ports.Points

/-- `byte(w >> (i * 4) & 0xF)`. -/
def nibbleAt (w : BitVec 64) (i : Fin 8) : BitVec 8 :=
  ((w >>> (i.val * 4)) &&& 0xF#64).setWidth 8

/-- A loop that writes one word: `for i := 0; i < 8; i++ { bytes[dest] = ... }`. -/
def writeWord (dest : Fin 8 → Fin 16) (w : BitVec 64) (bytes : Fin 16 → BitVec 8) :
    Fin 16 → BitVec 8 :=
  Writes.fill dest (nibbleAt w) (List.finRange 8) bytes

/-- Where round `i` of a loop writes to: `bytes[last-i]`. -/
def downFrom (last : Fin 16) (i : Fin 8) : Fin 16 := ⟨last.val - i.val, by omega⟩

/-- Where round `i` of a loop writes to: `bytes[i]`. -/
def fromZero (i : Fin 8) : Fin 16 := i.castAdd 8

/-- `UInt128ToIP`: the sixteen bytes it gives to `net.IP`. -/
def uint128ToIP (nativeEndian : ByteOrder) (h l : BitVec 64) : List (BitVec 8) :=
  let bytes : Fin 16 → BitVec 8 := fun _ => 0#8
  match nativeEndian with
  | .bigEndian =>
      let bytes := writeWord (downFrom 7) h bytes
      let bytes := writeWord (downFrom 15) l bytes
      List.ofFn bytes
  | .littleEndian =>
      let bytes := writeWord fromZero h bytes
      let bytes := writeWord fromZero l bytes
      List.ofFn bytes

/-- Which byte of a word of `n` bytes is at an offset in memory. -/
def byteAtOffset {n : Nat} : ByteOrder → Fin n → Fin n
  | .littleEndian, k => k
  | .bigEndian, k => k.rev

/-- A word of `n` bytes, as a host of some byte order has it in memory. -/
def inMemory (n : Nat) (order : ByteOrder) (w : BitVec (8 * n)) : List (BitVec 8) :=
  List.ofFn fun k : Fin n => byteOf w (byteAtOffset order k)

/-- No address of a set is changed or confused with another one of it. -/
structure Lossless (order : ByteOrder) (S : Set (BitVec 64 × BitVec 64)) : Prop where
  bytes : ∀ p ∈ S, uint128ToIP order p.1 p.2 = inMemory 8 order p.1 ++ inMemory 8 order p.2
  injective : Set.InjOn (fun p => uint128ToIP order p.1 p.2) S

/-- The addresses that the loops are enough for. -/
def Fits : ByteOrder → BitVec 64 → BitVec 64 → Prop
  | .bigEndian, h, l => h < 16 ∧ l < 16
  | .littleEndian, h, l => h = 0 ∧ l = 0

/-! ## The bits of a nibble -/

theorem getLsbD_nibbleAt (w : BitVec 64) (i : Fin 8) {j : Nat} (hj : j < 8) :
    (nibbleAt w i).getLsbD j = (w.getLsbD (i.val * 4 + j) && decide (j < 4)) := by
  have hmask : (0xF#64).getLsbD j = decide (j < 4) := by
    decide +revert
  unfold nibbleAt
  rw [BitVec.getLsbD_setWidth, decide_eq_true hj, Bool.true_and, BitVec.getLsbD_and,
    BitVec.getLsbD_ushiftRight, hmask]

/-- The nibbles that the loops take of a word are its lower half. -/
theorem nibbleAt_eq_iff (w w' : BitVec 64) :
    (∀ i, nibbleAt w i = nibbleAt w' i) ↔ w.setWidth 32 = w'.setWidth 32 := by
  constructor
  · intro h
    refine BitVec.eq_of_getLsbD_eq fun m hm => ?_
    have hbit := congrArg (·.getLsbD (m % 4)) (h ⟨m / 4, by omega⟩)
    rw [getLsbD_nibbleAt _ _ (by omega), getLsbD_nibbleAt _ _ (by omega),
      decide_eq_true (Nat.mod_lt m (by decide)), Bool.and_true, Bool.and_true,
      Nat.div_add_mod'] at hbit
    rw [BitVec.getLsbD_setWidth, BitVec.getLsbD_setWidth, hbit]
  · intro h i
    refine BitVec.eq_of_getLsbD_eq fun j hj => ?_
    rw [getLsbD_nibbleAt _ _ hj, getLsbD_nibbleAt _ _ hj]
    by_cases hlow : j < 4
    · have hbit := congrArg (·.getLsbD (i.val * 4 + j)) h
      have hm : i.val * 4 + j < 32 := by omega
      rw [BitVec.getLsbD_setWidth, BitVec.getLsbD_setWidth, decide_eq_true hm, Bool.true_and,
        Bool.true_and] at hbit
      rw [hbit]
    · rw [decide_eq_false hlow, Bool.and_false, Bool.and_false]

/-- Nothing is set above the lowest nibble of a word if every byte is the nibble of the same
number: the byte of a bit that is set would ask for a lower one. -/
theorem getLsbD_eq_false {w : BitVec 64} (h : ∀ i : Fin 8, nibbleAt w i = byteOf (n := 8) w i)
    (m : Nat) (hlow : 4 ≤ m) (hhigh : m < 64) : w.getLsbD m = false := by
  induction m using Nat.strongRecOn with
  | ind m ih =>
      have hj : m % 8 < 8 := Nat.mod_lt m (by decide)
      have hbit := congrArg (·.getLsbD (m % 8)) (h ⟨m / 8, by omega⟩)
      simp only [byteOf, BitVec.getLsbD_extractLsb'] at hbit
      rw [getLsbD_nibbleAt _ _ hj, decide_eq_true hj, Bool.true_and, Nat.div_add_mod] at hbit
      rw [← hbit]
      by_cases hset : m % 8 < 4
      · rw [ih (m / 8 * 4 + m % 8) (by omega) (by omega) (by omega)]
        rfl
      · rw [decide_eq_false hset, Bool.and_false]

/-- The words whose bytes are the nibbles of the same number. -/
theorem nibbleAt_eq_byteOf_iff (w : BitVec 64) :
    (∀ i : Fin 8, nibbleAt w i = byteOf (n := 8) w i) ↔ w < 16 := by
  have hlt : w < 16 ↔ ∀ m, 4 ≤ m → w.getLsbD m = false := by
    rw [BitVec.lt_def]
    constructor
    · intro h m hm
      exact Nat.testBit_lt_two_pow (h.trans_le (Nat.pow_le_pow_right Nat.two_pos hm))
    · intro h
      exact Nat.lt_pow_two_of_testBit w.toNat h
  rw [hlt]
  constructor
  · intro h m hlow
    by_cases hhigh : m < 64
    · exact getLsbD_eq_false h m hlow hhigh
    · exact BitVec.getLsbD_of_ge w m (Nat.not_lt.1 hhigh)
  · intro h i
    refine BitVec.eq_of_getLsbD_eq fun j hj => ?_
    simp only [byteOf, BitVec.getLsbD_extractLsb']
    rw [getLsbD_nibbleAt _ _ hj, decide_eq_true hj, Bool.true_and]
    by_cases hset : i.val = 0 ∧ j < 4
    · rw [hset.1, decide_eq_true hset.2, Bool.and_true, Nat.zero_mul]
    · rw [h (8 * i.val + j) (by omega)]
      by_cases hzero : i.val = 0
      · rw [decide_eq_false fun hj => hset ⟨hzero, hj⟩, Bool.and_false]
      · rw [h (i.val * 4 + j) (by omega), Bool.false_and]

/-! ## What is left of an address -/

theorem ofFn_halves (bytes : Fin 16 → BitVec 8) :
    List.ofFn bytes =
      (List.ofFn fun k : Fin 8 => bytes (k.castAdd 8)) ++
        List.ofFn fun k : Fin 8 => bytes (k.natAdd 8) :=
  List.ofFn_add (n := 8) (m := 8)

section Loops

variable {dest : Fin 8 → Fin 16} {w : BitVec 64} {bytes : Fin 16 → BitVec 8} {k : Fin 16}

/-- The byte that a loop writes in its round `i`. -/
theorem writeWord_dest (hdest : Function.Injective dest) {i : Fin 8} (hk : k = dest i) :
    writeWord dest w bytes k = nibbleAt w i := by
  rw [hk]
  exact Writes.fill_dest hdest (List.mem_finRange i)

/-- A byte that no round writes. -/
theorem writeWord_of_ne (h : ∀ i, dest i ≠ k) : writeWord dest w bytes k = bytes k :=
  Writes.fill_of_ne fun i _ => h i

/-- A loop erases an earlier one that wrote the same bytes. -/
theorem writeWord_writeWord (w' : BitVec 64) :
    writeWord dest w' (writeWord dest w bytes) = writeWord dest w' bytes :=
  Writes.fill_fill (nibbleAt w')

end Loops

theorem downFrom_injective {last : Fin 16} (hlast : 7 ≤ last.val) :
    Function.Injective (downFrom last) := by
  intro i j hij
  have hval := congrArg Fin.val hij
  simp only [downFrom] at hval
  omega

theorem fromZero_injective : Function.Injective fromZero := Fin.castAdd_injective 8 8

/-- **On a big-endian host the nibbles of both words are left.** -/
theorem uint128ToIP_bigEndian (h l : BitVec 64) :
    uint128ToIP .bigEndian h l =
      (List.ofFn fun k => nibbleAt h k.rev) ++ List.ofFn fun k => nibbleAt l k.rev := by
  unfold uint128ToIP
  dsimp only
  rw [ofFn_halves]
  congr 2
  · funext k
    have hk : k.castAdd 8 = downFrom 7 k.rev := by
      simp [Fin.ext_iff, downFrom, Fin.val_rev]
      omega
    have hlater : ∀ i, downFrom 15 i ≠ k.castAdd 8 := by
      intro i
      simp [Fin.ext_iff, downFrom]
      omega
    rw [writeWord_of_ne hlater, writeWord_dest (downFrom_injective (by decide)) hk]
  · funext k
    have hk : k.natAdd 8 = downFrom 15 k.rev := by
      simp [Fin.ext_iff, downFrom, Fin.val_rev]
      omega
    exact writeWord_dest (downFrom_injective (by decide)) hk

/-- **On a little-endian host the nibbles of the second word are left**: its loop erases what
the first one has written. -/
theorem uint128ToIP_littleEndian (h l : BitVec 64) :
    uint128ToIP .littleEndian h l = List.ofFn (nibbleAt l) ++ List.replicate 8 0#8 := by
  unfold uint128ToIP
  dsimp only
  rw [writeWord_writeWord, ofFn_halves, ← List.ofFn_const]
  congr 2
  · funext k
    exact writeWord_dest fromZero_injective rfl
  · funext k
    apply writeWord_of_ne
    intro i
    simp [Fin.ext_iff, fromZero]
    omega

/-- The addresses that become one on a big-endian host. -/
theorem uint128ToIP_bigEndian_eq_iff (h l h' l' : BitVec 64) :
    uint128ToIP .bigEndian h l = uint128ToIP .bigEndian h' l' ↔
      h.setWidth 32 = h'.setWidth 32 ∧ l.setWidth 32 = l'.setWidth 32 := by
  have hword : ∀ w w' : BitVec 64,
      ((List.ofFn fun k => nibbleAt w k.rev) = List.ofFn fun k => nibbleAt w' k.rev) ↔
        w.setWidth 32 = w'.setWidth 32 := by
    intro w w'
    have hall := Fin.rev_surjective.forall (p := fun i => nibbleAt w i = nibbleAt w' i)
    rw [List.ofFn_inj, funext_iff, ← nibbleAt_eq_iff, hall]
  have hlength : (List.ofFn fun k => nibbleAt h k.rev).length =
      (List.ofFn fun k => nibbleAt h' k.rev).length := by
    rw [List.length_ofFn, List.length_ofFn]
  rw [uint128ToIP_bigEndian, uint128ToIP_bigEndian,
    List.append_eq_append_iff_of_size_eq_left hlength, hword, hword]

/-- The addresses that become one on a little-endian host. -/
theorem uint128ToIP_littleEndian_eq_iff (h l h' l' : BitVec 64) :
    uint128ToIP .littleEndian h l = uint128ToIP .littleEndian h' l' ↔
      l.setWidth 32 = l'.setWidth 32 := by
  rw [uint128ToIP_littleEndian, uint128ToIP_littleEndian, List.append_left_inj, List.ofFn_inj,
    funext_iff]
  exact nibbleAt_eq_iff l l'

/-! ## Words in memory -/

theorem byteAtOffset_surjective {n : Nat} (order : ByteOrder) :
    Function.Surjective (byteAtOffset order (n := n)) := by
  cases order with
  | littleEndian => exact Function.surjective_id
  | bigEndian => exact Fin.rev_surjective

theorem length_inMemory (n : Nat) (order : ByteOrder) (w : BitVec (8 * n)) :
    (inMemory n order w).length = n :=
  List.length_ofFn

/-- A word is determined by its bytes in memory. -/
theorem inMemory_inj {n : Nat} {order : ByteOrder} {w w' : BitVec (8 * n)}
    (h : inMemory n order w = inMemory n order w') : w = w' := by
  refine eq_of_byteOf_eq fun k hk => ?_
  obtain ⟨i, hi⟩ := byteAtOffset_surjective order ⟨k, hk⟩
  have hbyte := congrFun (List.ofFn_inj.1 h) i
  rwa [hi] at hbyte

theorem inMemory_zero (n : Nat) (order : ByteOrder) :
    inMemory n order 0 = List.replicate n 0#8 := by
  rw [← List.ofFn_const]
  apply congrArg List.ofFn
  funext k
  exact BitVec.extractLsb'_zero

/-- The 32-bit sibling writes an address as it is in memory. -/
theorem uint32ToIP_eq_inMemory (order : ByteOrder) (addr : BitVec 32) :
    uint32ToIP order addr = inMemory 4 order addr := by
  have hbyte : ∀ i, byteAt addr (8 * i) = byteOf (n := 4) addr i := by
    intro i
    refine BitVec.eq_of_getLsbD_eq fun j hj => ?_
    have hmask : (0xFF#32).getLsbD j = true := by
      decide +revert
    rw [byteAt, byteOf, BitVec.getLsbD_setWidth, BitVec.getLsbD_extractLsb', BitVec.getLsbD_and,
      BitVec.getLsbD_ushiftRight, hmask, Bool.and_true]
  have h0 := hbyte 0
  have h1 := hbyte 1
  have h2 := hbyte 2
  have h3 := hbyte 3
  cases order with
  | bigEndian => simp [uint32ToIP, inMemory, List.ofFn_succ, byteAtOffset, h0, h1, h2, h3]
  | littleEndian => simp [uint32ToIP, inMemory, List.ofFn_succ, byteAtOffset, h0, h1, h2, h3]

/-- The nibbles of a word in the order of its bytes. -/
theorem ofFn_nibbleAt_eq_iff (order : ByteOrder) (w : BitVec 64) :
    (List.ofFn fun k => nibbleAt w (byteAtOffset order k)) = inMemory 8 order w ↔ w < 16 := by
  have hall := (byteAtOffset_surjective order).forall
    (p := fun i : Fin 8 => nibbleAt w i = byteOf (n := 8) w i)
  rw [inMemory, List.ofFn_inj, funext_iff, ← nibbleAt_eq_byteOf_iff, hall]

/-! ## Addresses without loss -/

/-- The bytes are those in memory exactly for the addresses that fit. -/
theorem uint128ToIP_eq_inMemory_iff (order : ByteOrder) (h l : BitVec 64) :
    uint128ToIP order h l = inMemory 8 order h ++ inMemory 8 order l ↔ Fits order h l := by
  cases order with
  | bigEndian =>
      have hlength : (List.ofFn fun k => nibbleAt h k.rev).length =
          (inMemory 8 .bigEndian h).length := by
        rw [List.length_ofFn, length_inMemory]
      rw [uint128ToIP_bigEndian, List.append_eq_append_iff_of_size_eq_left hlength]
      exact and_congr (ofFn_nibbleAt_eq_iff .bigEndian h) (ofFn_nibbleAt_eq_iff .bigEndian l)
  | littleEndian =>
      have hzero : List.ofFn (nibbleAt 0) = List.replicate 8 0#8 := by decide
      rw [uint128ToIP_littleEndian]
      constructor
      · intro heq
        obtain ⟨hh, hl⟩ := List.append_inj heq (by rw [List.length_ofFn, length_inMemory])
        rw [← inMemory_zero 8 .littleEndian] at hl
        obtain rfl := inMemory_inj hl
        rw [hzero, ← inMemory_zero 8 .littleEndian] at hh
        exact ⟨(inMemory_inj hh).symm, rfl⟩
      · rintro ⟨rfl, rfl⟩
        rw [hzero]
        exact (congrArg₂ (· ++ ·) (inMemory_zero 8 _) (inMemory_zero 8 _)).symm

/-- **An address is converted without loss only if it is almost zero**: each word is below 16
on a big-endian host, and zero on a little-endian one.  Addresses of 32 bits are converted as
they are. -/
theorem uint128ToIP_lossless_iff (order : ByteOrder) :
    (∀ addr, uint32ToIP order addr = inMemory 4 order addr) ∧
      ∀ S, Lossless order S ↔ ∀ p ∈ S, Fits order p.1 p.2 := by
  refine ⟨uint32ToIP_eq_inMemory order, fun S => ?_⟩
  constructor
  · intro hS p hp
    exact (uint128ToIP_eq_inMemory_iff order p.1 p.2).1 (hS.bytes p hp)
  · intro hfits
    have hbytes : ∀ p ∈ S, uint128ToIP order p.1 p.2 =
        inMemory 8 order p.1 ++ inMemory 8 order p.2 := by
      intro p hp
      exact (uint128ToIP_eq_inMemory_iff order p.1 p.2).2 (hfits p hp)
    refine ⟨hbytes, fun p hp q hq hpq => ?_⟩
    dsimp only at hpq
    rw [hbytes p hp, hbytes q hq] at hpq
    obtain ⟨hh, hl⟩ := List.append_inj hpq (by rw [length_inMemory, length_inMemory])
    exact Prod.ext (inMemory_inj hh) (inMemory_inj hl)

/-- Two addresses that become one on each host. -/
theorem uint128ToIP_confuses :
    uint128ToIP .littleEndian 1 0 = uint128ToIP .littleEndian 0 0 ∧
      uint128ToIP .bigEndian 0x100000000 0 = uint128ToIP .bigEndian 0 0 ∧
      ∀ order, ¬Lossless order Set.univ := by
  have hlittle : uint128ToIP .littleEndian 1 0 = uint128ToIP .littleEndian 0 0 := by decide
  have hbig : uint128ToIP .bigEndian 0x100000000 0 = uint128ToIP .bigEndian 0 0 := by decide
  refine ⟨hlittle, hbig, fun order hlossless => ?_⟩
  cases order with
  | littleEndian =>
      have hpair := hlossless.injective (Set.mem_univ (1, 0)) (Set.mem_univ (0, 0)) hlittle
      exact absurd (congrArg Prod.fst hpair) (by decide)
  | bigEndian =>
      have hpair :=
        hlossless.injective (Set.mem_univ (0x100000000, 0)) (Set.mem_univ (0, 0)) hbig
      exact absurd (congrArg Prod.fst hpair) (by decide)

end Kmon.Ports.LongAddresses
