import Kmon.Verified.Layout

/-!
# Words that lie one behind the other

A codec writes a word as bytes, always the same number of them, and reads back what it
has written.  Words that are written one behind the other are then read back as well,
however many there are and whatever follows (`readWords_flatMap`).  A reader that finds
too few bytes reads nothing at all.
-/

namespace Kmon.Verified

/-- A way to write words of `n` bytes. -/
structure WordCodec (n : Nat) where
  put : BitVec (8 * n) → List (BitVec 8)
  get : List (BitVec 8) → BitVec (8 * n)
  length_put : ∀ x, (put x).length = n
  get_put : ∀ x, get (put x) = x

namespace WordCodec

variable {n : Nat} (codec : WordCodec n)

/-- A number of words, one behind the other. -/
def words : Nat → List (BitVec 8) → List (BitVec (8 * n))
  | 0, _ => []
  | count + 1, bytes => codec.get (bytes.take n) :: words count (bytes.drop n)

/-- A number of words, or an error if the bytes are too few for them. -/
def readWords (count : Nat) (bytes : List (BitVec 8)) : Option (List (BitVec (8 * n))) :=
  if bytes.length < n * count then none else some (codec.words count bytes)

theorem length_flatMap_put (l : List (BitVec (8 * n))) :
    (l.flatMap codec.put).length = n * l.length := by
  induction l with
  | nil => rfl
  | cons x l ih =>
      rw [List.flatMap_cons, List.length_append, codec.length_put, ih, List.length_cons,
        Nat.mul_succ, Nat.add_comm]

theorem words_flatMap (l : List (BitVec (8 * n))) (rest : List (BitVec 8)) :
    codec.words l.length (l.flatMap codec.put ++ rest) = l := by
  induction l with
  | nil => rfl
  | cons x l ih =>
      have hlength := codec.length_put x
      rw [List.flatMap_cons, List.append_assoc, List.length_cons, words,
        List.take_left' hlength, List.drop_left' hlength, codec.get_put, ih]

/-- **Words are read back, whatever follows them.** -/
theorem readWords_flatMap (l : List (BitVec (8 * n))) (rest : List (BitVec 8)) :
    codec.readWords l.length (l.flatMap codec.put ++ rest) = some l := by
  rw [readWords, if_neg, words_flatMap]
  rw [List.length_append, length_flatMap_put]
  omega

end WordCodec

end Kmon.Verified
