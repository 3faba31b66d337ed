import Mathlib.Logic.Basic

/-!
# Record layouts in memory

Two programs that share bytes each have their own declaration of the record and
their own rule for placing its fields.  A declaration is a list of fields; a rule
gives the alignment a field type asks for: `packed` places every field where the
one before it ends, `natural` at the next multiple of its size.

`place` writes a record into memory by one rule and `read` reads one by another.
Memory is little-endian, and an array of bytes is the word whose byte `k` is its
element `k`, so every field holds a word of its size.

`sameFields_of_offsets_eq` is the positive side: two declarations whose offsets
and sizes agree read each other's records, whatever is in the padding and behind
the record.  Where they part, `sameFields_drop_iff` strips the fields that still
agree, and `toNat_readWord_eq_iff` says byte by byte what the others read; one that is
read some bytes from its place is right only if the memory repeats itself
(`shifted_eq_iff`).
-/

namespace Kmon.Verified.Layout

/-- The bytes from some address on. -/
abbrev Mem := Nat → BitVec 8

/-! ## Words -/

/-- Byte `k` of a word of `n` bytes, counted from the least significant one. -/
def byteOf {n : Nat} (x : BitVec (8 * n)) (k : Nat) : BitVec 8 := x.extractLsb' (8 * k) 8

/-- The little-endian word of `n` bytes at an offset. -/
def readWord (m : Mem) (off : Nat) : (n : Nat) → BitVec (8 * n)
  | 0 => 0#0
  | n + 1 => (readWord m (off + 1) n ++ m off : BitVec (8 * n + 8))

/-- A word is determined by its bytes. -/
theorem eq_of_byteOf_eq {n : Nat} {x y : BitVec (8 * n)}
    (h : ∀ k < n, byteOf x k = byteOf y k) : x = y := by
  refine BitVec.eq_of_getLsbD_eq fun i hi => ?_
  have hbyte := congrArg (fun b => b.getLsbD (i % 8)) (h (i / 8) (by omega))
  simp only [byteOf, BitVec.getLsbD_extractLsb'] at hbyte
  rwa [decide_eq_true (Nat.mod_lt i (by decide)), Bool.true_and, Bool.true_and,
    Nat.div_add_mod] at hbyte

/-- Reading finds the bytes in order. -/
theorem byteOf_readWord (m : Mem) (off n k : Nat) (hk : k < n) :
    byteOf (readWord m off n) k = m (off + k) := by
  induction n generalizing off k with
  | zero => omega
  | succ n ih =>
      refine BitVec.eq_of_getLsbD_eq fun i hi => ?_
      simp only [byteOf, readWord, BitVec.getLsbD_extractLsb', BitVec.getLsbD_append,
        decide_eq_true hi, Bool.true_and]
      cases k with
      | zero => rw [if_pos (by omega), Nat.mul_zero, Nat.zero_add, Nat.add_zero]
      | succ k =>
          have hrest := congrArg (fun b => b.getLsbD i) (ih (off + 1) k (by omega))
          simp only [byteOf, BitVec.getLsbD_extractLsb', decide_eq_true hi,
            Bool.true_and] at hrest
          rw [if_neg (by omega), show 8 * (k + 1) + i - 8 = 8 * k + i by omega, hrest,
            Nat.add_assoc, Nat.add_comm 1 k]

/-- A read yields a given word exactly when the bytes there are the word's. -/
theorem readWord_eq_iff {m : Mem} {off n : Nat} {x : BitVec (8 * n)} :
    readWord m off n = x ↔ ∀ k < n, m (off + k) = byteOf x k := by
  constructor
  · rintro rfl k hk
    exact (byteOf_readWord m off n k hk).symm
  · intro h
    refine eq_of_byteOf_eq fun k hk => ?_
    rw [byteOf_readWord m off n k hk, h k hk]

/-- The same for a word of equal size that another declaration gives. -/
theorem toNat_readWord_eq_iff {m : Mem} {off n n' : Nat} {x : BitVec (8 * n')} (h : n' = n) :
    x.toNat = (readWord m off n).toNat ↔ ∀ k < n, m (off + k) = byteOf x k := by
  subst h
  rw [← BitVec.toNat_eq, eq_comm, readWord_eq_iff]

/-- A read depends on its own bytes only. -/
theorem readWord_congr {m m' : Mem} {off n : Nat}
    (h : ∀ i, off ≤ i → i < off + n → m i = m' i) : readWord m off n = readWord m' off n :=
  readWord_eq_iff.2 fun k hk => by
    rw [byteOf_readWord m' off n k hk]
    exact h (off + k) (by omega) (by omega)

/-- What is read `d` bytes from where it was stored is the same exactly when the memory
repeats itself every `d` bytes. -/
theorem shifted_eq_iff (m : Mem) (base n : Nat) {d : Nat} (hd : 0 < d) :
    (∀ k < n, m (base + d + k) = m (base + k)) ↔
      ∀ k < n + d, m (base + k) = m (base + k % d) := by
  constructor
  · intro hshift k
    induction k using Nat.strongRecOn with
    | ind k ih =>
        intro hk
        by_cases hlow : k < d
        · rw [Nat.mod_eq_of_lt hlow]
        · have hback := hshift (k - d) (by omega)
          rw [show base + d + (k - d) = base + k by omega] at hback
          rw [hback, ih (k - d) (by omega) (by omega), ← Nat.mod_eq_sub_mod (by omega)]
  · intro hperiod k hk
    have hnext := hperiod (k + d) (by omega)
    rw [Nat.add_mod_right, ← hperiod k (by omega)] at hnext
    rw [← hnext]
    congr 1
    omega

/-! ## Declarations and rules -/

/-- The type of a field: an integer of some bytes, or an array of bytes. -/
inductive FieldTy where
  | uint (n : Nat)
  | bytes (n : Nat)
  deriving DecidableEq

def FieldTy.size : FieldTy → Nat
  | .uint n => n
  | .bytes n => n

/-- A declaration of a record: the names and types of its fields, in order. -/
abbrev Decl := List (String × FieldTy)

/-- The alignment a field type asks for. -/
abbrev Rule := FieldTy → Nat

/-- A packed record: no alignment at all. -/
def packed : Rule := fun _ => 1

/-- Natural alignment: an integer at a multiple of its size. -/
def natural : Rule
  | .uint n => n
  | .bytes _ => 1

/-- The next multiple of `a` from `n` on. -/
def alignUp (n a : Nat) : Nat := n + (a - n % a) % a

theorem le_alignUp (n a : Nat) : n ≤ alignUp n a := Nat.le_add_right _ _

/-- The offset and size of each field, from a start on. -/
def offsets (rule : Rule) (start : Nat) : Decl → List (Nat × Nat)
  | [] => []
  | f :: d =>
      let off := alignUp start (rule f.2)
      (off, f.2.size) :: offsets rule (off + f.2.size) d

/-- Where the last field ends. -/
def endOf (rule : Rule) (start : Nat) : Decl → Nat
  | [] => start
  | f :: d => endOf rule (alignUp start (rule f.2) + f.2.size) d

/-! ## Records -/

/-- The values of a record, field by field. -/
def Rec : Decl → Type
  | [] => Unit
  | f :: d => BitVec (8 * f.2.size) × Rec d

/-- The memory with a record written over it; padding keeps what was there. -/
def place (rule : Rule) (start : Nat) : (d : Decl) → Rec d → Mem → Mem
  | [], _, m => m
  | f :: d, v, m => fun i =>
      let off := alignUp start (rule f.2)
      if i < off then m i
      else if i < off + f.2.size then byteOf v.1 (i - off)
      else place rule (off + f.2.size) d v.2 m i

/-- The record that lies in memory. -/
def read (rule : Rule) (start : Nat) : (d : Decl) → Mem → Rec d
  | [], _ => ()
  | f :: d, m =>
      let off := alignUp start (rule f.2)
      (readWord m off f.2.size, read rule (off + f.2.size) d m)

/-- Two records have the same number of fields and the same value in each. -/
def SameFields : (c g : Decl) → Rec c → Rec g → Prop
  | [], [], _, _ => True
  | _ :: c, _ :: g, v, w => v.1.toNat = w.1.toNat ∧ SameFields c g v.2 w.2
  | _, _, _, _ => False

theorem le_endOf (rule : Rule) (start : Nat) (d : Decl) : start ≤ endOf rule start d := by
  induction d generalizing start with
  | nil => exact Nat.le_refl start
  | cons f d ih =>
      have hoff := le_alignUp start (rule f.2)
      exact Nat.le_trans (by omega) (ih (alignUp start (rule f.2) + f.2.size))

/-- Reading depends on the bytes between the start and the end alone. -/
theorem read_congr (rule : Rule) (start : Nat) (d : Decl) {m m' : Mem}
    (h : ∀ i, start ≤ i → i < endOf rule start d → m i = m' i) :
    read rule start d m = read rule start d m' := by
  induction d generalizing start with
  | nil => rfl
  | cons f d ih =>
      have hoff := le_alignUp start (rule f.2)
      have hend := le_endOf rule (alignUp start (rule f.2) + f.2.size) d
      refine Prod.ext (readWord_congr fun i hi hlt => h i (by omega) ?_) ?_
      · exact Nat.lt_of_lt_of_le hlt hend
      · exact ih _ fun i hi hlt => h i (by omega) hlt

/-- A field lies where the rule puts it. -/
theorem place_of_field {rule : Rule} {start : Nat} {f : String × FieldTy} {d : Decl}
    (v : Rec (f :: d)) (m : Mem) {k : Nat} (hk : k < f.2.size) :
    place rule start (f :: d) v m (alignUp start (rule f.2) + k) = byteOf v.1 k := by
  simp only [place]
  rw [if_neg (by omega), if_pos (by omega), Nat.add_sub_cancel_left]

/-- Behind a field lie the other fields. -/
theorem place_of_rest {rule : Rule} {start : Nat} {f : String × FieldTy} {d : Decl}
    (v : Rec (f :: d)) (m : Mem) {i : Nat} (hi : alignUp start (rule f.2) + f.2.size ≤ i) :
    place rule start (f :: d) v m i =
      place rule (alignUp start (rule f.2) + f.2.size) d v.2 m i := by
  simp only [place]
  rw [if_neg (by omega), if_neg (by omega)]

/-- Writing over a record is pointwise in the memory below it. -/
theorem place_congr {rule : Rule} {start : Nat} {d : Decl} (v : Rec d) {m m' : Mem} {i : Nat}
    (h : m i = m' i) : place rule start d v m i = place rule start d v m' i := by
  induction d generalizing start with
  | nil => exact h
  | cons f d ih =>
      simp only [place]
      rw [h, ih v.2]

/-- Of two records of one declaration in one place, the later one is left; their
padding is the same. -/
theorem place_place {rule : Rule} {start : Nat} {d : Decl} (v w : Rec d) (m : Mem) (i : Nat) :
    place rule start d v (place rule start d w m) i = place rule start d v m i := by
  induction d generalizing start m with
  | nil => rfl
  | cons f d ih =>
      by_cases hlow : i < alignUp start (rule f.2)
      · simp only [place]
        rw [if_pos hlow, if_pos hlow, if_pos hlow]
      · by_cases hfield : i < alignUp start (rule f.2) + f.2.size
        · simp only [place]
          rw [if_neg hlow, if_pos hfield, if_neg hlow, if_pos hfield]
        · rw [place_of_rest v _ (by omega), place_of_rest v m (by omega),
            place_congr v.2 (place_of_rest w m (by omega))]
          exact ih v.2 w.2 m

/-- Records of one declaration with the same values are equal. -/
theorem sameFields_iff_eq {d : Decl} {v w : Rec d} : SameFields d d v w ↔ v = w := by
  induction d with
  | nil => exact ⟨fun _ => rfl, fun _ => trivial⟩
  | cons f d ih =>
      show v.1.toNat = w.1.toNat ∧ SameFields d d v.2 w.2 ↔ v = w
      rw [ih, ← BitVec.toNat_eq]
      exact ⟨fun h => Prod.ext h.1 h.2, fun h => ⟨congrArg Prod.fst h, congrArg Prod.snd h⟩⟩

theorem SameFields.trans {c d g : Decl} {v : Rec c} {w : Rec d} {u : Rec g}
    (h : SameFields c d v w) (h' : SameFields d g w u) : SameFields c g v u := by
  induction c generalizing d g with
  | nil =>
      cases d with
      | nil => exact h'
      | cons f' d => exact h.elim
  | cons f c ih =>
      cases d with
      | nil => exact h.elim
      | cons f' d =>
          cases g with
          | nil => exact h'.elim
          | cons f'' g => exact ⟨h.1.trans h'.1, ih h.2 h'.2⟩

/-- Where two declarations put a field in the same place, only the other fields
matter. -/
theorem sameFields_cons_iff {rule rule' : Rule} {start start' : Nat} {f f' : String × FieldTy}
    {c g : Decl} (hoff : alignUp start (rule f.2) = alignUp start' (rule' f'.2))
    (hsize : f.2.size = f'.2.size) (v : Rec (f :: c)) (m : Mem) :
    SameFields (f :: c) (f' :: g) v
        (read rule' start' (f' :: g) (place rule start (f :: c) v m)) ↔
      SameFields c g v.2 (read rule' (alignUp start' (rule' f'.2) + f'.2.size) g
        (place rule (alignUp start (rule f.2) + f.2.size) c v.2 m)) := by
  have hsame : read rule' (alignUp start' (rule' f'.2) + f'.2.size) g
        (place rule start (f :: c) v m) =
      read rule' (alignUp start' (rule' f'.2) + f'.2.size) g
        (place rule (alignUp start (rule f.2) + f.2.size) c v.2 m) :=
    read_congr rule' _ g fun i hi _ => place_of_rest v m (by omega)
  have hfield : v.1.toNat = (readWord (place rule start (f :: c) v m)
      (alignUp start' (rule' f'.2)) f'.2.size).toNat := by
    refine (toNat_readWord_eq_iff hsize).2 fun k hk => ?_
    rw [← hoff]
    exact place_of_field v m (by omega)
  rw [← hsame]
  exact and_iff_right hfield

/-- The values of all but the first fields. -/
def dropFields : (n : Nat) → (d : Decl) → Rec d → Rec (d.drop n)
  | 0, _, v => v
  | _ + 1, [], _ => ()
  | n + 1, _ :: d, v => dropFields n d v.2

/-- If the first fields agree, it comes down to the others. -/
theorem sameFields_drop_iff (n : Nat) {rule rule' : Rule} {start start' : Nat} {c g : Decl}
    (h : offsets rule start (c.take n) = offsets rule' start' (g.take n)) (v : Rec c) (m : Mem) :
    SameFields c g v (read rule' start' g (place rule start c v m)) ↔
      SameFields (c.drop n) (g.drop n) (dropFields n c v)
        (read rule' (endOf rule' start' (g.take n)) (g.drop n)
          (place rule (endOf rule start (c.take n)) (c.drop n) (dropFields n c v) m)) := by
  induction n generalizing start start' c g with
  | zero => exact Iff.rfl
  | succ n ih =>
      cases c with
      | nil =>
          cases g with
          | nil => exact Iff.rfl
          | cons f' g => cases h
      | cons f c =>
          cases g with
          | nil => cases h
          | cons f' g =>
              simp only [List.take_succ_cons, offsets, List.cons.injEq, Prod.mk.injEq] at h
              obtain ⟨⟨hoff, hsize⟩, hrest⟩ := h
              exact (sameFields_cons_iff hoff hsize v m).trans (ih hrest v.2)

/-- **Two declarations that agree on offsets and sizes read each other's
records.** -/
theorem sameFields_of_offsets_eq {rule rule' : Rule} {start start' : Nat} {c g : Decl}
    (h : offsets rule start c = offsets rule' start' g) (v : Rec c) (m : Mem) :
    SameFields c g v (read rule' start' g (place rule start c v m)) := by
  induction c generalizing start start' g with
  | nil =>
      cases g with
      | nil => trivial
      | cons f' g => cases h
  | cons f c ih =>
      cases g with
      | nil => cases h
      | cons f' g =>
          simp only [offsets, List.cons.injEq, Prod.mk.injEq] at h
          obtain ⟨⟨hoff, hsize⟩, hrest⟩ := h
          exact (sameFields_cons_iff hoff hsize v m).2 (ih hrest v.2)

end Kmon.Verified.Layout
