import Kmon.Ports.Records

/-!
# Entries of the aggregation maps

An export loop casts the bytes of a key and of a value to Go structs, exports
their fields, and hands the Go key to `DeleteP` (`SetP` in fcount), where the
kernel takes as many bytes as its own key type is long.

The pairs of declarations agree for `dist`, for the `counts` of offcpu and for
fcount's `data`.  For the `counts` of biostat they do not: `RWFlag` has eight
bytes at offset 8 where the probe has four at 4, so that the collector takes the
first eight bytes of the disk name for the flag and looks for the name eight
bytes too late.  `entryAgrees_iff` says when this goes unnoticed.
-/

namespace Kmon.Ports.MapEntries

open Kmon.Verified.Layout
open Kmon.Ports.Records

/-- The aggregation maps: two of biostat, one of offcpu, one of fcount. -/
inductive AggMap where
  | counts
  | dist
  | offcpuCounts
  | data
  deriving DecidableEq, Repr

namespace AggMap

/-- The key type of the probe. -/
def cKey : AggMap → Decl
  | counts => infoT
  | dist => diskKeyT
  | offcpuCounts => keyT
  | data => u32

/-- The key type of the collector. -/
def goKey : AggMap → Decl
  | counts => bioKey
  | dist => bioHistKey
  | offcpuCounts => offcpuKey
  | data => u32

/-- The value type of the probe. -/
def cVal : AggMap → Decl
  | counts => valT
  | dist => u64
  | offcpuCounts => u64
  | data => fcountVal

/-- The value type of the collector. -/
def goVal : AggMap → Decl
  | counts => bioVal
  | dist => u64
  | offcpuCounts => u64
  | data => fcountGoVal

end AggMap

/-- `keyStruct := **(**T)(unsafe.Pointer(&key))`: the key of an entry as the
collector reads it, with `after` behind the bytes of the key. -/
def keyStruct (m : AggMap) (key : Rec m.cKey) (after : Mem) : Rec m.goKey :=
  read natural 0 m.goKey (place packed 0 m.cKey key after)

/-- `valStruct`. -/
def valStruct (m : AggMap) (val : Rec m.cVal) (after : Mem) : Rec m.goVal :=
  read natural 0 m.goVal (place packed 0 m.cVal val after)

/-- The key the kernel sees behind a pointer to a Go key; what a Go struct has in
its padding is not specified. -/
def keyAt (m : AggMap) (key : Rec m.goKey) (padding : Mem) : Rec m.cKey :=
  read packed 0 m.cKey (place natural 0 m.goKey key padding)

/-- The collector reads the entry as it was stored and resets this very entry. -/
structure EntryAgrees (m : AggMap) (key : Rec m.cKey) (val : Rec m.cVal)
    (afterKey afterVal padding : Mem) : Prop where
  keyRead : SameFields m.cKey m.goKey key (keyStruct m key afterKey)
  valRead : SameFields m.cVal m.goVal val (valStruct m val afterVal)
  reset : keyAt m (keyStruct m key afterKey) padding = key

/-- The flag as the eight bytes the collector takes it for. -/
def wideFlag (rwflag : BitVec (8 * 4)) : BitVec (8 * 8) := rwflag.setWidth 64

/-- The keys that survive: in biostat's `counts`, a disk name that only repeats
the eight bytes of the flag, memory behind the key that goes on like this, and a
padding that happens to be the flag. -/
def KeySurvives : (m : AggMap) → Rec m.cKey → Mem → Mem → Prop
  | .counts, (_, rwflag, disk, _), afterKey, padding =>
      (∀ k < 32, byteOf (n := 32) disk k = byteOf (wideFlag rwflag) (k % 8)) ∧
        (∀ k < 8, afterKey (40 + k) = byteOf (wideFlag rwflag) k) ∧
        ∀ k < 4, padding (4 + k) = byteOf (n := 4) rwflag k
  | _, _, _, _ => True

/-! ## Keys of biostat's `counts` -/

section Counts

variable (rwflag : BitVec (8 * 4)) (disk : BitVec (8 * 32)) (after : Mem)

/-- The flag and the disk name as the probe stores them. -/
def flagAndDisk : Mem :=
  place packed 4 [("rwflag", .uint 4), ("disk", .bytes 32)] (rwflag, disk, ()) after

theorem flagAndDisk_disk {k : Nat} (hk : k < 32) :
    flagAndDisk rwflag disk after (8 + k) = byteOf disk k :=
  (place_of_rest _ _ (Nat.le_add_right 8 k)).trans (place_of_field _ _ hk)

theorem flagAndDisk_after (k : Nat) : flagAndDisk rwflag disk after (40 + k) = after (40 + k) :=
  (place_of_rest _ _ (by show 8 ≤ 40 + k; omega)).trans
    (place_of_rest _ _ (Nat.le_add_right 40 k))

/-- The collector reads the disk name for the flag, and for the name what begins
eight bytes into it. -/
theorem flagAndDisk_read_iff :
    (∀ k < 8, flagAndDisk rwflag disk after (8 + k) = byteOf (wideFlag rwflag) k) ∧
        (∀ k < 32, flagAndDisk rwflag disk after (16 + k) = byteOf disk k) ↔
      (∀ k < 32, byteOf disk k = byteOf (wideFlag rwflag) (k % 8)) ∧
        ∀ k < 8, after (40 + k) = byteOf (wideFlag rwflag) k := by
  have hdisk := fun k hk => flagAndDisk_disk rwflag disk after (k := k) hk
  have hafter := flagAndDisk_after rwflag disk after
  have hshift : (∀ k < 32, flagAndDisk rwflag disk after (16 + k) = byteOf disk k) ↔
      ∀ k < 40, flagAndDisk rwflag disk after (8 + k) =
        flagAndDisk rwflag disk after (8 + k % 8) := by
    refine Iff.trans ?_ (shifted_eq_iff (d := 8) _ 8 32 (by decide))
    exact forall_congr' fun k => forall_congr' fun hk => by rw [hdisk k hk]
  rw [hshift]
  constructor
  · rintro ⟨hflag, hperiod⟩
    constructor
    · intro k hk
      rw [← hdisk k hk, hperiod k (by omega), hflag _ (Nat.mod_lt k (by decide))]
    · intro k hk
      have hlast := hperiod (k + 32) (by omega)
      rw [show 8 + (k + 32) = 40 + k by omega, show (k + 32) % 8 = k by omega] at hlast
      rw [← hafter k, hlast, hflag k hk]
  · rintro ⟨hperiod, hbehind⟩
    have hflag : ∀ k < 8, flagAndDisk rwflag disk after (8 + k) = byteOf (wideFlag rwflag) k := by
      intro k hk
      rw [hdisk k (by omega), hperiod k (by omega), Nat.mod_eq_of_lt hk]
    refine ⟨hflag, fun k hk => ?_⟩
    rw [hflag _ (Nat.mod_lt k (by decide))]
    by_cases hlow : k < 32
    · rw [hdisk k hlow, hperiod k hlow]
    · have hbyte := hbehind (k - 32) (by omega)
      rw [← hafter (k - 32), show 40 + (k - 32) = 8 + k by omega] at hbyte
      rw [hbyte, show k - 32 = k % 8 by omega]

/-- What the collector finds in the flag. -/
theorem wideFlag_eq_iff (m : Mem) :
    rwflag.toNat = (readWord m 8 8).toNat ↔
      ∀ k < 8, m (8 + k) = byteOf (wideFlag rwflag) k := by
  have hwide : rwflag.toNat = (wideFlag rwflag).toNat :=
    (BitVec.toNat_setWidth_of_le (by decide)).symm
  rw [hwide]
  exact toNat_readWord_eq_iff rfl

end Counts

/-- Behind the Go key the kernel finds the pid and the disk name where it looks for
them, and padding where it looks for the flag. -/
theorem keyAt_counts_iff (pid rwflag : BitVec (8 * 4)) (disk : BitVec (8 * 32))
    (afterKey padding : Mem) :
    keyAt .counts (keyStruct .counts (pid, rwflag, disk, ()) afterKey) padding =
        (pid, rwflag, disk, ()) ↔
      ∀ k < 4, padding (4 + k) = byteOf rwflag k := by
  let m : Mem := place packed 0 infoT (pid, rwflag, disk, ()) afterKey
  let key : Rec bioKey := (readWord m 0 4, readWord m 8 8, readWord m 16 32, ())
  let handed : Mem := place natural 0 bioKey key padding
  have hpid : ∀ k < 4, handed (0 + k) = byteOf pid k := fun k hk =>
    (place_of_field _ _ hk).trans
      ((byteOf_readWord m 0 4 k hk).trans (place_of_field _ _ hk))
  have hpadding : ∀ k < 4, handed (4 + k) = padding (4 + k) := fun k hk =>
    (place_of_rest _ _ (Nat.le_add_right 4 k)).trans (if_pos (show 4 + k < 8 by omega))
  have hm : ∀ k < 32, m (8 + k) = byteOf disk k := fun k hk =>
    (place_of_rest _ _ (by show 4 ≤ 8 + k; omega)).trans
      (flagAndDisk_disk rwflag disk afterKey hk)
  have hdisk : ∀ k < 32, handed (8 + k) = byteOf disk k := by
    intro k hk
    have hrest : handed (8 + k) = place natural 4 [("RWFlag", .uint 8), ("Name", .bytes 32)]
        (readWord m 8 8, readWord m 16 32, ()) padding (8 + k) :=
      place_of_rest _ _ (by show 4 ≤ 8 + k; omega)
    rw [hrest, ← hm k hk]
    by_cases hflag : k < 8
    · exact (place_of_field _ _ hflag).trans (byteOf_readWord m 8 8 k hflag)
    · have hname : place natural 16 [("Name", .bytes 32)] (readWord m 16 32, ()) padding
          (16 + (k - 8)) = m (16 + (k - 8)) :=
        (place_of_field _ _ (by show k - 8 < 32; omega)).trans
          (byteOf_readWord m 16 32 (k - 8) (by omega))
      rw [show 16 + (k - 8) = 8 + k by omega] at hname
      exact (place_of_rest _ _ (by show 16 ≤ 8 + k; omega)).trans hname
  show (readWord handed 0 4, readWord handed 4 4, readWord handed 8 32, ()) =
    (pid, rwflag, disk, ()) ↔ _
  rw [Prod.mk.injEq, Prod.mk.injEq, Prod.mk.injEq]
  constructor
  · rintro ⟨-, hflag, -⟩ k hk
    rw [← hpadding k hk]
    exact readWord_eq_iff.1 hflag k hk
  · intro hpad
    exact ⟨readWord_eq_iff.2 hpid,
      readWord_eq_iff.2 fun k hk => (hpadding k hk).trans (hpad k hk),
      readWord_eq_iff.2 hdisk, rfl⟩

/-- What the collector reads of a key of `counts`. -/
theorem keyStruct_counts_iff (pid rwflag : BitVec (8 * 4)) (disk : BitVec (8 * 32))
    (afterKey : Mem) :
    SameFields infoT bioKey (pid, rwflag, disk, ())
        (keyStruct .counts (pid, rwflag, disk, ()) afterKey) ↔
      (∀ k < 32, byteOf disk k = byteOf (wideFlag rwflag) (k % 8)) ∧
        ∀ k < 8, afterKey (40 + k) = byteOf (wideFlag rwflag) k := by
  refine (sameFields_drop_iff 1 (by decide) _ afterKey).trans ?_
  refine Iff.trans ?_ (flagAndDisk_read_iff rwflag disk afterKey)
  exact and_congr (wideFlag_eq_iff rwflag _)
    ((and_iff_left trivial).trans (toNat_readWord_eq_iff rfl))

/-! ## Every map -/

/-- Where the declarations agree, so does the entry. -/
theorem entryAgrees_of_offsets_eq {m : AggMap}
    (hkey : offsets packed 0 m.cKey = offsets natural 0 m.goKey)
    (hval : offsets packed 0 m.cVal = offsets natural 0 m.goVal)
    (key : Rec m.cKey) (val : Rec m.cVal) (afterKey afterVal padding : Mem) :
    EntryAgrees m key val afterKey afterVal padding where
  keyRead := sameFields_of_offsets_eq hkey key afterKey
  valRead := sameFields_of_offsets_eq hval val afterVal
  reset := by
    have hread : SameFields m.cKey m.goKey key (keyStruct m key afterKey) :=
      sameFields_of_offsets_eq hkey key afterKey
    have hback : SameFields m.goKey m.cKey (keyStruct m key afterKey)
        (keyAt m (keyStruct m key afterKey) padding) :=
      sameFields_of_offsets_eq hkey.symm _ padding
    exact (sameFields_iff_eq.1 (hread.trans hback)).symm

/-- **The collector reads an entry as the probe stored it and resets that very
entry, except that a key of biostat's `counts` has to repeat its flag all through
the disk name and behind it, and again in the padding.** -/
theorem entryAgrees_iff (m : AggMap) (key : Rec m.cKey) (val : Rec m.cVal)
    (afterKey afterVal padding : Mem) :
    EntryAgrees m key val afterKey afterVal padding ↔ KeySurvives m key afterKey padding := by
  cases m with
  | counts =>
      obtain ⟨pid, rwflag, disk, -⟩ := key
      have hkey := keyStruct_counts_iff pid rwflag disk afterKey
      have hreset := keyAt_counts_iff pid rwflag disk afterKey padding
      constructor
      · intro h
        exact ⟨(hkey.1 h.keyRead).1, (hkey.1 h.keyRead).2, hreset.1 h.reset⟩
      · rintro ⟨hdisk, hafter, hpad⟩
        exact ⟨hkey.2 ⟨hdisk, hafter⟩, sameFields_of_offsets_eq (by decide) val afterVal,
          hreset.2 hpad⟩
  | dist =>
      exact iff_of_true (entryAgrees_of_offsets_eq (by decide) (by decide) key val
        afterKey afterVal padding) trivial
  | offcpuCounts =>
      exact iff_of_true (entryAgrees_of_offsets_eq (by decide) (by decide) key val
        afterKey afterVal padding) trivial
  | data =>
      exact iff_of_true (entryAgrees_of_offsets_eq (by decide) (by decide) key val
        afterKey afterVal padding) trivial

/-- The name of the disk `sda` in an `info_t`. -/
def sda : BitVec (8 * 32) := 0x616473

/-- A read from `sda` is reported under a flag that is neither 0 nor 1. -/
theorem sda_read_not_agrees :
    ¬ EntryAgrees .counts (4242#32, 0#32, sda, ()) (4096#64, 1000#64, ())
        (fun _ => 0) (fun _ => 0) (fun _ => 0) := by
  rintro ⟨⟨-, hflag, -⟩, -, -⟩
  exact absurd hflag (by decide)

end Kmon.Ports.MapEntries
