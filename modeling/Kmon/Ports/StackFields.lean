import Kmon.Ports.OffcpuCollector
import Kmon.Ports.TcpdropCollector

/-!
# The stacks that a verbosity asks for

The probes of tcpdrop and offcpu test the verbosity before they take a stack and
store another value where they take none: tcpdrop stores 0 for the user stack and -1
(IPv4) or 0 (IPv6) for the kernel stack.  offcpu stores -1 for the user stack when
the user stack is not asked for, and again when the kernel stack is not asked for; the
id of the kernel stack is then the 0 of `struct key_t key = {}`.  The collectors take 0
for no stack and look up the id of the kernel stack for both texts.

`stack_fields_iff` says for each of the three when the point nevertheless shows the
right stacks, and `traceTcpDrop_shows_iff` carries it back to the packet that is dropped.
-/

namespace Kmon.Ports.StackFields

open Kmon.Verified
open Kmon.Verified.Layout
open Kmon.Ports.Config
open Kmon.Ports.Points
open Kmon.Ports.Stacks
open Kmon.Ports.OffcpuCollector (OffcpuKey countPoint countFields)
open Kmon.Ports.TcpdropCollector
open Kmon.Ports.BiostatProbe (tgid)

/-- The key that `oncpu` builds for `counts`. -/
def oncpuKey (verbose pid tgid : BitVec 32) (ids : StackIds) (comm : BitVec (8 * 32)) :
    OffcpuKey :=
  let key : OffcpuKey := ⟨pid, tgid, 0, 0, comm⟩
  let key :=
    if verbose > 2 then { key with UserStackID := ids.user }
    else { key with UserStackID := -1 }
  if verbose > 1 then { key with StackID := ids.kernel }
  else { key with UserStackID := -1 }

variable (ksym : BitVec 64 → String) (table : StackTable)

/-- The point of a dropped IPv4 packet shows the stacks `verbose` asks for. -/
def DropV4Shows (conf : ColTcpdrop) (containerName : String) (now : Time)
    (verbose pid : BitVec 32) (packet : Packet) (ids : StackIds) (after : Mem) : Prop :=
  let e := receivedV4 (data4 verbose pid packet ids) after
  FieldsShow ksym table (verbose > 2) (verbose > 1) ids.kernel ids.user
    (pointV4 ksym table conf containerName now e).Fields

/-- The point of a dropped IPv6 packet shows the stacks `verbose` asks for. -/
def DropV6Shows (conf : ColTcpdrop) (containerName : String) (now : Time)
    (verbose pid : BitVec 32) (packet : Packet) (ids : StackIds) (after : Mem) : Prop :=
  let e := receivedV6 (data6 verbose pid packet ids) after
  FieldsShow ksym table (verbose > 2) (verbose > 1) ids.kernel ids.user
    (pointV6 ksym table conf containerName now e).Fields

/-- The point of an entry of `counts` shows the stacks `verbose` asks for. -/
def OffcpuShows (conf : ColOffcpu) (containerName : String) (now : Time)
    (verbose pid tgid : BitVec 32) (ids : StackIds) (comm : BitVec (8 * 32))
    (val : BitVec 64) : Prop :=
  let key := oncpuKey verbose pid tgid ids comm
  FieldsShow ksym table (verbose > 1) (verbose > 2) ids.kernel ids.user
    (countPoint ksym table conf now containerName key val).Fields

/-! ## The conditions -/

/-- With both stacks asked for: an id 0 is taken for no stack, and the user stack is
rendered from the id of the kernel stack. -/
def BothAgree (ids : StackIds) : Prop :=
  (ids.kernel = 0 → Absent table 0) ∧
    (if ids.user = 0 then Absent table 0 else SameFrames table ids.kernel ids.user)

/-- IPv4 drops: with no kernel stack asked for, the collector looks up the id -1. -/
def DropV4Agrees (verbose : BitVec 32) (ids : StackIds) : Prop :=
  if verbose > 2 then BothAgree table ids
  else if verbose > 1 then Absent table (-1) ∧ Absent table ids.user
  else Absent table (-1)

/-- IPv6 drops: with the user stack alone asked for, the collector renders the stack
of id 0. -/
def DropV6Agrees (verbose : BitVec 32) (ids : StackIds) : Prop :=
  if verbose > 2 then BothAgree table ids
  else if verbose > 1 then
    if ids.user = 0 then Absent table 0 else SameFrames table 0 ids.user
  else True

/-- offcpu: without a user stack the id stored for it is -1, which the collector takes
for a stack. -/
def OffcpuAgrees (verbose : BitVec 32) (ids : StackIds) : Prop :=
  if verbose > 2 then BothAgree table ids
  else if verbose > 1 then Absent table ids.kernel
  else Absent table 0

/-! ## Two levels against two ids -/

section Asked

variable {ksym : BitVec 64 → String} {table : StackTable}

theorem asked_false {id : BitVec 32} {kernel : Bool} :
    asked ksym table false id kernel = none := rfl

theorem asked_true {id : BitVec 32} {kernel : Bool} :
    asked ksym table true id kernel = exportStack ksym table id kernel := rfl

/-- The kernel stack of the stored id, when it is asked for. -/
theorem asked_kernel_iff {id : BitVec 32} :
    asked ksym table (id ≠ 0) id true = asked ksym table true id true ↔
      (id = 0 → Absent table 0) := by
  rw [asked_true]
  by_cases hid : id = 0
  · subst hid
    rw [show decide ((0 : BitVec 32) ≠ 0) = false from rfl, asked_false, eq_comm,
      exportStack_eq_none_iff]
    exact ⟨fun h _ => h, fun h => h rfl⟩
  · rw [decide_eq_true hid, asked_true]
    exact ⟨fun _ h => absurd h hid, fun _ => rfl⟩

/-- The user stack of the id stored for the kernel stack, when the user stack is asked
for. -/
theorem asked_user_iff {stackID userId : BitVec 32} :
    asked ksym table (userId ≠ 0) stackID false = asked ksym table true userId false ↔
      if userId = 0 then Absent table 0 else SameFrames table stackID userId := by
  rw [asked_true]
  by_cases hid : userId = 0
  · subst hid
    rw [show decide ((0 : BitVec 32) ≠ 0) = false from rfl, asked_false, if_pos rfl, eq_comm,
      exportStack_eq_none_iff]
  · rw [decide_eq_true hid, asked_true, if_neg hid]
    exact exportStack_user_eq_iff

/-- An id other than 0 that nobody asked for. -/
theorem asked_none_iff {testID stackID : BitVec 32} {kernel : Bool} (hid : testID ≠ 0)
    {id : BitVec 32} :
    asked ksym table (testID ≠ 0) stackID kernel = asked ksym table false id kernel ↔
      Absent table stackID := by
  rw [decide_eq_true hid, asked_true, asked_false, exportStack_eq_none_iff]

end Asked

section Point

variable {ksym table}

/-- A verbosity above 2 is above 1. -/
theorem verbose_gt_one {verbose : BitVec 32} (h : verbose > 2) : verbose > 1 := by
  rw [gt_iff_lt, BitVec.lt_def] at h ⊢
  exact Nat.lt_trans (by decide) h

theorem dropFields_show_iff {now : Time} {state flags : BitVec 8} {stackID userStackID : BitVec 32}
    {askKernel askUser : Bool} {kernelId userId : BitVec 32} :
    FieldsShow ksym table askKernel askUser kernelId userId
        (TcpdropCollector.dropFields ksym table now state flags stackID userStackID) ↔
      asked ksym table (stackID ≠ 0) stackID true = asked ksym table askKernel kernelId true ∧
        asked ksym table (userStackID ≠ 0) stackID false =
          asked ksym table askUser userId false := by
  unfold TcpdropCollector.dropFields
  exact fieldsShow_iff (by simp) (by simp)

theorem dropV4Shows_iff (conf : ColTcpdrop) (containerName : String) (now : Time)
    (verbose pid : BitVec 32) (packet : Packet) (ids : StackIds) (after : Mem) :
    DropV4Shows ksym table conf containerName now verbose pid packet ids after ↔
      DropV4Agrees table verbose ids := by
  obtain ⟨hstack, hustack⟩ := receivedV4_stackIds (data4 verbose pid packet ids) after
  refine dropFields_show_iff.trans ?_
  rw [hstack, hustack]
  unfold data4 DropV4Agrees BothAgree
  dsimp only
  by_cases hboth : verbose > 2
  · rw [if_pos hboth, if_pos (verbose_gt_one hboth), if_pos hboth, decide_eq_true hboth,
      decide_eq_true (verbose_gt_one hboth), asked_kernel_iff, asked_user_iff]
  · rw [if_neg hboth, if_neg hboth, decide_eq_false hboth, asked_none_iff (by decide)]
    by_cases huser : verbose > 1
    · rw [if_pos huser, if_pos huser, decide_eq_true huser, asked_user_iff]
      apply and_congr_right
      intro habsent
      -- nothing is found under -1, so nothing may be there under the user's id
      by_cases hid : ids.user = 0
      · rw [if_pos hid, hid]
      · rw [if_neg hid, SameFrames, habsent, Option.map_none, eq_comm, Option.map_eq_none_iff]
        exact Iff.rfl
    · rw [if_neg huser, if_neg huser, decide_eq_false huser]
      exact and_iff_left rfl

theorem dropV6Shows_iff (conf : ColTcpdrop) (containerName : String) (now : Time)
    (verbose pid : BitVec 32) (packet : Packet) (ids : StackIds) (after : Mem) :
    DropV6Shows ksym table conf containerName now verbose pid packet ids after ↔
      DropV6Agrees table verbose ids := by
  obtain ⟨hstack, hustack⟩ := receivedV6_stackIds (data6 verbose pid packet ids) after
  refine dropFields_show_iff.trans ?_
  rw [hstack, hustack]
  unfold data6 DropV6Agrees BothAgree
  dsimp only
  by_cases hboth : verbose > 2
  · rw [if_pos hboth, if_pos (verbose_gt_one hboth), if_pos hboth, decide_eq_true hboth,
      decide_eq_true (verbose_gt_one hboth), asked_kernel_iff, asked_user_iff]
  · rw [if_neg hboth, if_neg hboth, decide_eq_false hboth]
    by_cases huser : verbose > 1
    · rw [if_pos huser, if_pos huser, decide_eq_true huser, asked_user_iff]
      exact and_iff_right rfl
    · rw [if_neg huser, if_neg huser, decide_eq_false huser]
      exact iff_true_intro ⟨rfl, rfl⟩

theorem offcpuShows_iff (conf : ColOffcpu) (containerName : String) (now : Time)
    (verbose pid tgid : BitVec 32) (ids : StackIds) (comm : BitVec (8 * 32)) (val : BitVec 64) :
    OffcpuShows ksym table conf containerName now verbose pid tgid ids comm val ↔
      OffcpuAgrees table verbose ids := by
  unfold OffcpuShows countPoint
  dsimp only
  rw [fieldsShow_iff (by simp [countFields]) (by simp [countFields])]
  unfold oncpuKey OffcpuAgrees BothAgree
  by_cases hboth : verbose > 2
  · simp only [if_pos hboth, if_pos (verbose_gt_one hboth), decide_eq_true hboth,
      decide_eq_true (verbose_gt_one hboth)]
    rw [asked_kernel_iff, asked_user_iff]
  · by_cases hkernel : verbose > 1
    · simp only [if_neg hboth, if_pos hkernel, decide_eq_false hboth, decide_eq_true hkernel]
      rw [asked_kernel_iff, asked_none_iff (by decide)]
      exact and_iff_right_of_imp fun habsent hid => hid ▸ habsent
    · simp only [if_neg hboth, if_neg hkernel, decide_eq_false hboth, decide_eq_false hkernel]
      apply (and_iff_right rfl).trans
      exact asked_none_iff (by decide)

/-- From the packet on: the point of the record that `trace_tcp_drop` submits. -/
theorem traceTcpDrop_shows_iff {controlMap : GoMap (BitVec 32) (BitVec 32)}
    {pidTgid : BitVec 64} {packet : Option Packet} {ids : StackIds} {ev : DropEvent}
    (hsubmit : traceTcpDrop controlMap pidTgid packet ids = some ev) {verbose : BitVec 32}
    (hverbose : controlMap.lookup (tgid pidTgid) = some verbose) (conf : ColTcpdrop)
    (containerName : String) (now : Time) (after : Mem) :
    FieldsShow ksym table (verbose > 2) (verbose > 1) ids.kernel ids.user
        (dropPoint ksym table conf containerName now after ev).Fields ↔
      match ev with
      | .ipv4 _ => DropV4Agrees table verbose ids
      | .ipv6 _ => DropV6Agrees table verbose ids := by
  obtain ⟨dropped, verbose', -, hverbose', hfamily⟩ := traceTcpDrop_eq_some_iff.1 hsubmit
  rw [hverbose, Option.some.injEq] at hverbose'
  subst hverbose'
  obtain ⟨-, rfl⟩ | ⟨-, rfl⟩ := hfamily
  · exact dropV4Shows_iff conf containerName now verbose (tgid pidTgid) dropped ids after
  · exact dropV6Shows_iff conf containerName now verbose (tgid pidTgid) dropped ids after

end Point

/-- **When the points show the stacks the verbosity asks for.** -/
theorem stack_fields_iff (verbose pid tgid : BitVec 32) (ids : StackIds) (confDrop : ColTcpdrop)
    (confOffcpu : ColOffcpu) (containerName : String) (now : Time) (packet : Packet)
    (after : Mem) (comm : BitVec (8 * 32)) (val : BitVec 64) :
    (DropV4Shows ksym table confDrop containerName now verbose pid packet ids after ↔
        DropV4Agrees table verbose ids) ∧
      (DropV6Shows ksym table confDrop containerName now verbose pid packet ids after ↔
        DropV6Agrees table verbose ids) ∧
      (OffcpuShows ksym table confOffcpu containerName now verbose pid tgid ids comm val ↔
        OffcpuAgrees table verbose ids) :=
  ⟨dropV4Shows_iff confDrop containerName now verbose pid packet ids after,
    dropV6Shows_iff confDrop containerName now verbose pid packet ids after,
    offcpuShows_iff confOffcpu containerName now verbose pid tgid ids comm val⟩

/-! ## A packet with two stacks -/

/-- A stack of one address. -/
def oneFrame (stackPtr : BitVec 64) : Stack where
  ip := stackPtr :: List.replicate 126 0
  length_ip := rfl

/-- A table with a kernel stack under 5 and a user stack under 9. -/
def twoStacks : StackTable :=
  ((∅ : StackTable).insert 5 (oneFrame 0xffffffff81000000)).insert 9 (oneFrame 0x55d0c0de)

/-- The user stack of a dropped packet is the kernel's. -/
theorem user_stack_is_kernel_stack :
    ¬ DropV4Shows (fun _ => "tcp_drop") twoStacks
        ⟨"tcpdrop", 3, ListenConfig.zero, ⟨10, "drop", []⟩⟩ "" 0 3 4242
        ⟨2, 1, 0x10, 443, 51000, 0x0100000a, 0x0200000a, 0, 0⟩ ⟨5, 9⟩ (fun _ => 0) := by
  rw [dropV4Shows_iff]
  rintro ⟨-, hsame⟩
  have hframes : SameFrames twoStacks 5 9 := hsame
  exact absurd hframes (by unfold SameFrames; decide)

end Kmon.Ports.StackFields
