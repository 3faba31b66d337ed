import Kmon.Verified.Blocks
import Kmon.Ports.FileReader

/-!
# The blocks of a captured write

`detect_file_write` (`ebpf/src/file_reader.c`) runs where a process enters `ksys_write`.
If the file is listened to, it sends the written data in blocks of `LOG_BLOCK_SIZE` bytes,
each with its offset and the length of the whole, up to `MAX_LOG_SIZE` bytes.

Every block is read in full, the last one too, where it reaches over the end of the buffer.
When the bytes there can be read, the blocks put together and cut to the length are what was
written (`writes_reassemble`).  What is behind the end is sent as well, and when it cannot
be read the whole block is lost: `writtenOnly_iff` says for which lengths this does not
happen.
-/

namespace Kmon.Ports.FileWrites

open Kmon.Verified
open Kmon.Ports.BiostatProbe (tgid)

/-- `LOG_BLOCK_SIZE`. -/
def logBlockSize : Nat := 128

/-- `MAX_LOG_SIZE`. -/
def maxLogSize : Nat := 8192

/-- The bytes a process can read. -/
abbrev Memory := BitVec 64 → Option (BitVec 8)

/-- A `char[LOG_BLOCK_SIZE]`. -/
abbrev Contents := Fin logBlockSize → BitVec 8

/-- `struct map_key_t`. -/
structure MapKeyT where
  pid : BitVec 32
  fd : BitVec 32
  deriving DecidableEq, Repr

/-- `struct write_event_t`. -/
@[ext] structure WriteEventT where
  pid : BitVec 32
  fd : BitVec 32
  curLen : BitVec 64
  totalLen : BitVec 64
  contents : Contents

/-- The address `i` bytes behind another. -/
def at_ (ptr : BitVec 64) (i : Nat) : BitVec 64 := ptr + BitVec.ofNat 64 i

/-- `bpf_probe_read` of a block: all of its bytes, or zeros if one of them cannot be
read. -/
def bpfProbeRead (mem : Memory) (ptr : BitVec 64) : Contents :=
  if ∀ j : Fin logBlockSize, (mem (at_ ptr j)).isSome then
    fun j => (mem (at_ ptr j)).getD 0
  else fun _ => 0

/-- The loop of `detect_file_write`, from `i` on: the events it sends. -/
def sendBlocks (mem : Memory) (ptr count : BitVec 64) (writePackage : WriteEventT) (i : Nat) :
    List WriteEventT :=
  if i < maxLogSize then
    if count ≤ BitVec.ofNat 64 i then []
    else
      let writePackage := { writePackage with
        contents := bpfProbeRead mem (at_ ptr i), curLen := BitVec.ofNat 64 i }
      writePackage :: sendBlocks mem ptr count writePackage (i + logBlockSize)
  else []
termination_by maxLogSize - i
decreasing_by
  unfold logBlockSize
  omega

/-- A call of `ksys_write`: the thread and the three parameters. -/
structure WriteCall where
  pidTgid : BitVec 64
  parm1 : BitVec 64
  parm2 : BitVec 64
  parm3 : BitVec 64
  deriving DecidableEq, Repr

/-- The key under which `listen_map` would have the file. -/
def WriteCall.key (call : WriteCall) : MapKeyT := ⟨tgid call.pidTgid, call.parm1.setWidth 32⟩

/-- `detect_file_write`: the events it sends. -/
def detectFileWrite (listenMap : GoMap MapKeyT (BitVec 32)) (call : WriteCall) (mem : Memory) :
    List WriteEventT :=
  match listenMap.lookup call.key with
  | none => []
  | some _ =>
      let count := call.parm3
      if count ≤ 0 then []
      else
        sendBlocks mem call.parm2 count ⟨call.key.pid, call.key.fd, 0, count, fun _ => 0⟩ 0

/-! ## What the events are to be -/

/-- What a reader keeps of a block: no more than the length of the whole allows for. -/
def written (e : WriteEventT) : List (BitVec 8) :=
  (List.ofFn e.contents).take (min logBlockSize (e.totalLen.toNat - e.curLen.toNat))

/-- The bytes of a call that are captured. -/
def captured (call : WriteCall) : Nat := min call.parm3.toNat maxLogSize

/-- The bytes at the beginning of the buffer. -/
def bufferBytes (mem : Memory) (call : WriteCall) : List (Option (BitVec 8)) :=
  (List.range (captured call)).map fun k => mem (at_ call.parm2 k)

/-- The events are the blocks in order, each with the length of the whole, and put together
they are the beginning of the buffer. -/
structure Reassembles (mem : Memory) (call : WriteCall) (events : List WriteEventT) : Prop where
  curLens : events.map (fun e => e.curLen.toNat) =
    (List.range (Blocks.number logBlockSize (captured call))).map fun k => logBlockSize * k
  totalLens : ∀ e ∈ events, e.totalLen = call.parm3
  contents : (events.flatMap written).map some = bufferBytes mem call

/-- Both memories have the same readable bytes in the buffer. -/
def AgreeOnBuffer (call : WriteCall) (mem mem' : Memory) : Prop :=
  ∀ k < call.parm3.toNat,
    (mem (at_ call.parm2 k)).isSome ∧ mem (at_ call.parm2 k) = mem' (at_ call.parm2 k)

/-- What is sent depends on the written bytes alone, and none of them is lost. -/
structure WrittenOnly (listenMap : GoMap MapKeyT (BitVec 32)) (call : WriteCall) : Prop where
  same : ∀ mem mem', AgreeOnBuffer call mem mem' →
    detectFileWrite listenMap call mem = detectFileWrite listenMap call mem'
  kept : ∀ mem, (∀ k < call.parm3.toNat, (mem (at_ call.parm2 k)).isSome) →
    ((detectFileWrite listenMap call mem).flatMap written).map some = bufferBytes mem call

/-! ## The loop -/

/-- The event of round `k`. -/
def block (mem : Memory) (call : WriteCall) (k : Nat) : WriteEventT where
  pid := call.key.pid
  fd := call.key.fd
  curLen := BitVec.ofNat 64 (logBlockSize * k)
  totalLen := call.parm3
  contents := bpfProbeRead mem (at_ call.parm2 (logBlockSize * k))

variable {listenMap : GoMap MapKeyT (BitVec 32)} {call : WriteCall} {mem : Memory}

/-- The loop stops at the end of the buffer. -/
theorem count_le_iff {count : BitVec 64} {i : Nat} (hi : i < maxLogSize) :
    count ≤ BitVec.ofNat 64 i ↔ count.toNat ≤ i := by
  have hsmall : i < 2 ^ 64 := Nat.lt_trans hi (by decide)
  rw [BitVec.le_def, BitVec.toNat_ofNat, Nat.mod_eq_of_lt hsmall]

/-- The loop after `k` rounds, when `left` of them are left. -/
theorem sendBlocks_eq (mem : Memory) (ptr count : BitVec 64) (left : Nat) :
    ∀ k writePackage, k + left = Blocks.number logBlockSize (min count.toNat maxLogSize) →
      sendBlocks mem ptr count writePackage (logBlockSize * k) =
        (List.range left).map fun j => { writePackage with
          contents := bpfProbeRead mem (at_ ptr (logBlockSize * (k + j)))
          curLen := BitVec.ofNat 64 (logBlockSize * (k + j)) } := by
  have hround : ∀ k, k < Blocks.number logBlockSize (min count.toNat maxLogSize) ↔
      logBlockSize * k < count.toNat ∧ logBlockSize * k < maxLogSize := by
    intro k
    rw [Blocks.lt_number_iff (by decide), Nat.lt_min]
  induction left with
  | zero =>
      intro k writePackage hk
      have hdone := (hround k).not.1 (by omega)
      rw [sendBlocks]
      split
      · rename_i hi
        rw [if_pos ((count_le_iff hi).2 (by omega))]
        rfl
      · rfl
  | succ left ih =>
      intro k writePackage hk
      obtain ⟨hcount, hi⟩ := (hround k).1 (by omega)
      rw [sendBlocks, if_pos hi, if_neg ((count_le_iff hi).not.2 (by omega)), ← Nat.mul_succ]
      dsimp only
      rw [ih (k + 1) _ (by omega), List.range_succ_eq_map, List.map_cons, List.map_map]
      congr 1
      refine List.map_congr_left fun j _ => ?_
      have hj : k + 1 + j = k + (j + 1) := by omega
      simp only [Function.comp_apply, hj, Nat.succ_eq_add_one]

/-- The events of a listened file. -/
theorem detectFileWrite_eq (hlisten : call.key ∈ listenMap) (hcount : 0 < call.parm3) :
    detectFileWrite listenMap call mem =
      (List.range (Blocks.number logBlockSize (captured call))).map (block mem call) := by
  obtain ⟨keepListen, hkeep⟩ := Finmap.mem_iff.1 hlisten
  have hloop := sendBlocks_eq mem call.parm2 call.parm3
    (Blocks.number logBlockSize (captured call)) 0
    ⟨call.key.pid, call.key.fd, 0, call.parm3, fun _ => 0⟩ (Nat.zero_add _)
  rw [Nat.mul_zero] at hloop
  rw [detectFileWrite, hkeep]
  dsimp only
  rw [if_neg (BitVec.not_le.2 hcount), hloop]
  refine List.map_congr_left fun k _ => ?_
  rw [Nat.zero_add]
  rfl

/-! ## The contents -/

theorem at_at (ptr : BitVec 64) (i j : Nat) : at_ (at_ ptr i) j = at_ ptr (i + j) := by
  rw [at_, at_, at_, BitVec.ofNat_add, BitVec.add_assoc]

/-- The blocks of a call begin below its length and below the cap. -/
theorem lt_number_captured_iff {k : Nat} :
    k < Blocks.number logBlockSize (captured call) ↔
      logBlockSize * k < call.parm3.toNat ∧ logBlockSize * k < maxLogSize := by
  rw [Blocks.lt_number_iff (by decide), captured, Nat.lt_min]

/-- A block that can be read in full holds the bytes at its address. -/
theorem some_bpfProbeRead {ptr : BitVec 64}
    (hread : ∀ j < logBlockSize, (mem (at_ ptr j)).isSome) (j : Fin logBlockSize) :
    some (bpfProbeRead mem ptr j) = mem (at_ ptr j) := by
  rw [bpfProbeRead, if_pos fun i : Fin logBlockSize => hread i i.isLt]
  obtain ⟨b, hb⟩ := Option.isSome_iff_exists.1 (hread j j.isLt)
  rw [hb, Option.getD_some]

/-- What is kept of a block that can be read in full. -/
theorem map_some_written {k : Nat} (hk : k < Blocks.number logBlockSize (captured call))
    (hread : ∀ j < logBlockSize, (mem (at_ call.parm2 (logBlockSize * k + j))).isSome) :
    (written (block mem call k)).map some =
      (List.range (min logBlockSize (captured call - logBlockSize * k))).map fun j =>
        mem (at_ call.parm2 (logBlockSize * k + j)) := by
  obtain ⟨hcount, hmax⟩ := lt_number_captured_iff.1 hk
  have hcur : (block mem call k).curLen.toNat = logBlockSize * k := by
    rw [block, BitVec.toNat_ofNat, Nat.mod_eq_of_lt (Nat.lt_trans hmax (by decide))]
  -- the cap is a multiple of the block size, so it does not cut a block
  have hcut : min logBlockSize (call.parm3.toNat - logBlockSize * k) =
      min logBlockSize (captured call - logBlockSize * k) := by
    unfold captured logBlockSize maxLogSize at *
    omega
  have hread' : ∀ j < logBlockSize,
      (mem (at_ (at_ call.parm2 (logBlockSize * k)) j)).isSome := by
    intro j hj
    rw [at_at]
    exact hread j hj
  have htotal : (block mem call k).totalLen = call.parm3 := rfl
  rw [written, hcur, htotal, hcut]
  refine List.ext_getElem ?_ fun i hi hi' => ?_
  · simp only [List.length_map, List.length_take, List.length_ofFn, List.length_range]
    omega
  · rw [List.getElem_map, List.getElem_take, List.getElem_ofFn, List.getElem_map,
      List.getElem_range, ← at_at]
    exact some_bpfProbeRead hread' _

/-- The events of a listened file whose blocks can be read in full. -/
theorem reassembles_of_readable (hlisten : call.key ∈ listenMap) (hcount : 0 < call.parm3)
    (hread : ∀ i < logBlockSize * Blocks.number logBlockSize (captured call),
      (mem (at_ call.parm2 i)).isSome) :
    Reassembles mem call (detectFileWrite listenMap call mem) := by
  rw [detectFileWrite_eq hlisten hcount]
  refine ⟨?_, ?_, ?_⟩
  · rw [List.map_map]
    refine List.map_congr_left fun k hk => ?_
    have hmax := (lt_number_captured_iff.1 (List.mem_range.1 hk)).2
    exact Nat.mod_eq_of_lt (Nat.lt_trans hmax (by decide))
  · intro e he
    obtain ⟨k, -, rfl⟩ := List.mem_map.1 he
    rfl
  · have hcover := Blocks.flatMap_range (fun i => mem (at_ call.parm2 i)) logBlockSize
      (captured call) (Blocks.number logBlockSize (captured call))
    rw [Nat.min_eq_left (Blocks.le_mul_number (by decide) _)] at hcover
    rw [bufferBytes, ← hcover, List.flatMap_map, List.map_flatMap]
    refine List.flatMap_congr fun k hk => ?_
    have hk := List.mem_range.1 hk
    refine map_some_written hk fun j hj => hread _ ?_
    calc logBlockSize * k + j < logBlockSize * (k + 1) := by rw [Nat.mul_succ]; omega
      _ ≤ _ := Nat.mul_le_mul_left _ hk

/-- **The blocks of a write reassemble to the written data**, if the memory can be read up
to the end of the last one. -/
theorem writes_reassemble (listenMap : GoMap MapKeyT (BitVec 32)) (call : WriteCall)
    (mem : Memory) (hlisten : call.key ∈ listenMap) (hcount : 0 < call.parm3)
    (hread : ∀ i < logBlockSize * Blocks.number logBlockSize call.parm3.toNat,
      (mem (at_ call.parm2 i)).isSome) :
    Reassembles mem call (detectFileWrite listenMap call mem) := by
  refine reassembles_of_readable hlisten hcount fun i hi => hread i (Nat.lt_of_lt_of_le hi ?_)
  apply Nat.mul_le_mul_left
  unfold Blocks.number captured
  exact Nat.div_le_div_right (by omega)

/-- Process 7 is listened to on descriptor 3. -/
def listenTo7 : GoMap MapKeyT (BitVec 32) := (∅ : GoMap MapKeyT (BitVec 32)).insert ⟨7, 3⟩ 1

/-- Process 7 writes so many bytes at 0x1000 to descriptor 3. -/
def writeOf (count : BitVec 64) : WriteCall := ⟨0x700000007, 3, 0x1000, count⟩

/-- Two blocks, the second of which is cut to two bytes. -/
theorem writes_reassemble_130 :
    Reassembles (fun a => some (a.setWidth 8)) (writeOf 130)
      (detectFileWrite listenTo7 (writeOf 130) fun a => some (a.setWidth 8)) :=
  writes_reassemble listenTo7 (writeOf 130) (fun a => some (a.setWidth 8)) (by decide)
    (by decide) fun _ _ => rfl

/-! ## What is behind the buffer -/

theorem at_inj {ptr : BitVec 64} {i j : Nat} (hi : i < 2 ^ 64) (hj : j < 2 ^ 64)
    (h : at_ ptr i = at_ ptr j) : i = j := by
  have hsame := congrArg BitVec.toNat ((BitVec.add_right_inj ptr).1 h)
  rwa [BitVec.toNat_ofNat, BitVec.toNat_ofNat, Nat.mod_eq_of_lt hi, Nat.mod_eq_of_lt hj] at hsame

/-- The blocks end where the buffer does, or before. -/
def EndsInside (call : WriteCall) : Prop :=
  logBlockSize ∣ call.parm3.toNat ∨ maxLogSize ≤ call.parm3.toNat

theorem mul_number_captured_le (h : EndsInside call) :
    logBlockSize * Blocks.number logBlockSize (captured call) ≤ call.parm3.toNat := by
  have hdvd : logBlockSize ∣ captured call := by
    unfold captured
    rcases Nat.le_total call.parm3.toNat maxLogSize with hle | hle
    · rw [Nat.min_eq_left hle]
      rcases h with hdvd | hmax
      · exact hdvd
      · rw [Nat.le_antisymm hle hmax]
        decide
    · rw [Nat.min_eq_right hle]
      decide
  rw [Blocks.mul_number_of_dvd (by decide) hdvd]
  exact Nat.min_le_left _ _

theorem bpfProbeRead_congr {mem mem' : Memory} {ptr : BitVec 64}
    (h : ∀ j < logBlockSize, mem (at_ ptr j) = mem' (at_ ptr j)) :
    bpfProbeRead mem ptr = bpfProbeRead mem' ptr := by
  have hbytes : ∀ j : Fin logBlockSize, mem (at_ ptr j) = mem' (at_ ptr j) := fun j => h j j.isLt
  simp only [bpfProbeRead, hbytes]

/-- Blocks that end inside the buffer do not show what is behind it. -/
theorem writtenOnly_of_endsInside (hlisten : call.key ∈ listenMap) (hcount : 0 < call.parm3)
    (hends : EndsInside call) : WrittenOnly listenMap call := by
  have hinside : ∀ k < Blocks.number logBlockSize (captured call), ∀ j < logBlockSize,
      logBlockSize * k + j < call.parm3.toNat := by
    intro k hk j hj
    calc logBlockSize * k + j < logBlockSize * (k + 1) := by rw [Nat.mul_succ]; omega
      _ ≤ logBlockSize * Blocks.number logBlockSize (captured call) := Nat.mul_le_mul_left _ hk
      _ ≤ _ := mul_number_captured_le hends
  constructor
  · intro mem mem' hagree
    rw [detectFileWrite_eq hlisten hcount, detectFileWrite_eq hlisten hcount]
    refine List.map_congr_left fun k hk => ?_
    have hcontents := @bpfProbeRead_congr mem mem' (at_ call.parm2 (logBlockSize * k))
      fun j hj => by
        rw [at_at]
        exact (hagree _ (hinside k (List.mem_range.1 hk) j hj)).2
    rw [block, block, hcontents]
  · intro mem hread
    refine (reassembles_of_readable hlisten hcount fun i hi => hread i ?_).contents
    exact Nat.lt_of_lt_of_le hi (mul_number_captured_le hends)

/-- A block that reaches over the end shows the first byte behind it. -/
theorem endsInside_of_same (hlisten : call.key ∈ listenMap) (hcount : 0 < call.parm3)
    (hsame : ∀ mem mem', AgreeOnBuffer call mem mem' →
      detectFileWrite listenMap call mem = detectFileWrite listenMap call mem') :
    EndsInside call := by
  by_contra hends
  obtain ⟨hdvd, hmax⟩ := not_or.1 hends
  -- all bytes are zero, and the same with a one behind the buffer
  let zeros : Memory := fun _ => some 0
  let one : Memory := fun a => if a = at_ call.parm2 call.parm3.toNat then some 1 else some 0
  have hagree : AgreeOnBuffer call zeros one := by
    intro k hk
    refine ⟨rfl, (if_neg fun heq => ?_).symm⟩
    have hlen := call.parm3.isLt
    have hend := at_inj (by omega) hlen heq
    omega
  have hreadable : ∀ a, (one a).isSome := by
    intro a
    show (if _ then _ else _ : Option (BitVec 8)).isSome
    split <;> rfl
  have hsplit := Nat.div_add_mod call.parm3.toNat logBlockSize
  have hmod : call.parm3.toNat % logBlockSize < logBlockSize := Nat.mod_lt _ (by decide)
  have hk : call.parm3.toNat / logBlockSize < Blocks.number logBlockSize (captured call) := by
    have hpos : call.parm3.toNat % logBlockSize ≠ 0 := fun h => hdvd (Nat.dvd_of_mod_eq_zero h)
    rw [lt_number_captured_iff]
    omega
  have hevents := hsame zeros one hagree
  rw [detectFileWrite_eq hlisten hcount, detectFileWrite_eq hlisten hcount,
    List.map_inj_left] at hevents
  have hcontents := congrArg WriteEventT.contents (hevents _ (List.mem_range.2 hk))
  have hbyte := congrArg some (congrFun hcontents ⟨_, hmod⟩)
  have hzero : zeros (at_ (at_ call.parm2 (logBlockSize * (call.parm3.toNat / logBlockSize)))
      (call.parm3.toNat % logBlockSize)) = some 0 := rfl
  have hone : one (at_ (at_ call.parm2 (logBlockSize * (call.parm3.toNat / logBlockSize)))
      (call.parm3.toNat % logBlockSize)) = some 1 := by
    rw [at_at, hsplit]
    exact if_pos rfl
  rw [block, block, some_bpfProbeRead (fun _ _ => rfl), hzero,
    some_bpfProbeRead (fun _ _ => hreadable _), hone] at hbyte
  cases hbyte

/-- **What is sent depends on the written bytes alone, and contains all that are captured,
exactly when the length is a multiple of the block size or not below the cap.** -/
theorem writtenOnly_iff (listenMap : GoMap MapKeyT (BitVec 32)) (call : WriteCall)
    (hlisten : call.key ∈ listenMap) (hcount : 0 < call.parm3) :
    WrittenOnly listenMap call ↔
      logBlockSize ∣ call.parm3.toNat ∨ maxLogSize ≤ call.parm3.toNat := by
  constructor
  · intro honly
    exact endsInside_of_same hlisten hcount honly.same
  · exact writtenOnly_of_endsInside hlisten hcount

/-- Two full blocks. -/
theorem writtenOnly_256 : WrittenOnly listenTo7 (writeOf 256) :=
  (writtenOnly_iff listenTo7 (writeOf 256) (by decide) (by decide)).2 (by decide)

/-- With five bytes 123 that were not written are sent. -/
theorem five_bytes_not_alone : ¬ WrittenOnly listenTo7 (writeOf 5) := by
  intro honly
  rcases endsInside_of_same (by decide) (by decide) honly.same with hdvd | hmax
  · exact absurd hdvd (by decide)
  · exact absurd hmax (by decide)

end Kmon.Ports.FileWrites
