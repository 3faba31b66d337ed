import Mathlib.Data.List.Basic

/-!
# The characters of a byte string

A program that ranges over a byte string as text meets its characters, and for every byte
that is no part of the encoding of one the replacement character.  `runes_encode` says that
the bytes of a text are read back.
-/

namespace Kmon.Verified.Runes

/-- The character in front of some bytes, and the number of its bytes. -/
def decodeRune (bs : List UInt8) : Char × Nat :=
  match bs.toByteArray.utf8DecodeChar? 0 with
  | some c => (c, c.utf8Size)
  | none => ('\uFFFD', 1)

/-- The characters behind some bytes of a character that was read already. -/
def runesFrom : Nat → List UInt8 → List Char
  | _, [] => []
  | skip + 1, _ :: bs => runesFrom skip bs
  | 0, b :: bs => (decodeRune (b :: bs)).1 :: runesFrom ((decodeRune (b :: bs)).2 - 1) bs

/-- The characters of some bytes. -/
def runes (bs : List UInt8) : List Char := runesFrom 0 bs

/-- The bytes of a text. -/
def encode (cs : List Char) : List UInt8 := cs.flatMap String.utf8EncodeChar

theorem runesFrom_append (as bs : List UInt8) : runesFrom as.length (as ++ bs) = runes bs := by
  induction as with
  | nil => rfl
  | cons a as ih => exact ih

theorem decodeRune_encode (c : Char) (bs : List UInt8) :
    decodeRune (String.utf8EncodeChar c ++ bs) = (c, c.utf8Size) := by
  rw [decodeRune, List.toByteArray_append, ByteArray.utf8DecodeChar?_utf8EncodeChar_append]

/-- The bytes of a text are read back. -/
theorem runes_encode (cs : List Char) : runes (encode cs) = cs := by
  induction cs with
  | nil => rfl
  | cons c cs ih =>
      have hdecode := decodeRune_encode c (encode cs)
      have hlen := String.length_utf8EncodeChar c
      rw [encode, List.flatMap_cons, ← encode, runes]
      cases hbytes : String.utf8EncodeChar c with
      | nil =>
          rw [hbytes, List.length_nil] at hlen
          exact absurd hlen.symm (Nat.ne_of_gt c.utf8Size_pos)
      | cons b bs =>
          rw [hbytes, List.cons_append] at hdecode
          rw [hbytes, List.length_cons] at hlen
          rw [List.cons_append, runesFrom, hdecode, ← hlen, Nat.add_sub_cancel, runesFrom_append,
            ih]

end Kmon.Verified.Runes
