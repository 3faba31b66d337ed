import Kmon.Verified.GoSlice
import Kmon.Verified.Run
import Kmon.Ports.Config

/-!
# The event buffers of tcpdrop and tcpreq

`tcpdrop.dropEventBuffer` and `tcpreq.tcpEventBuffer` are slices of pointers to
`model.ExportData`.  `bufferEventV4`, `bufferEventV6` and `bufferEvent` allocate a
point and append its pointer; `exportData`, the same word for word in both
collectors, sends the slice on `dataCh` and goes on with `buffer[:0]`, which is a
slice of the array that was just sent.

Points are never changed by the collector, so a pointer stands for its event:
the `n`-th event buffered is the number `n`.  The consumer reads the elements of
a batch one by one, at any time after the send.

`everyState_unaltered_iff` says exactly when the batches survive: no append may
write in place to a cell that a batch shows and its consumer has not read yet.
-/

namespace Kmon.Ports.EventBuffer

open Kmon.Verified.GoSlice
open Kmon.Verified.Run
open Kmon.Ports.Config

variable {α : Type}

/-- An `ExportDataWarpper` that was sent, and how far its consumer has come. -/
structure Batch where
  data : Slice
  exporter : List ExporterConfig
  read : List (Option Nat)

/-- A collector's buffer, the points it has allocated, the arrays, and the
batches in the order of their export. -/
structure Buffering (α : Type) where
  points : List α
  heap : Heap Nat
  buffer : Slice
  conf : ExportConfig
  sent : List Batch

/-- The steps of an interleaving. -/
inductive Move (α : Type) where
  | bufferEvent (data : α)
  | exportData
  | onConfigChange (conf : ExportConfig)
  | readElement (batch : Nat)

/-- A collector that was just set up. -/
def init (conf : ExportConfig) : Buffering α :=
  { points := [], heap := Heap.empty, buffer := Slice.nil, conf := conf, sent := [] }

/-- The end of `bufferEventV4`, `bufferEventV6` and `bufferEvent`: the pointer to
the new point is appended. -/
def bufferEvent (g : Growth) (s : Buffering α) (data : α) : Buffering α :=
  let appended := append g s.heap s.buffer s.points.length
  { s with points := s.points ++ [data], heap := appended.1, buffer := appended.2 }

/-- `exportData`. -/
def exportData (s : Buffering α) : Buffering α :=
  if s.buffer.len > 0 then
    { s with
      sent := s.sent ++ [⟨s.buffer, s.conf.ExporterConfig, []⟩]
      buffer := truncate s.buffer }
  else s

/-- The consumer of a batch reads its next element. -/
def readElement (s : Buffering α) (i : Nat) : Option (Buffering α) :=
  match s.sent[i]? with
  | none => none
  | some batch =>
      if batch.read.length < batch.data.len then
        some { s with
          sent := s.sent.set i { batch with
            read := batch.read ++ [s.heap.cells batch.data.arr batch.read.length] } }
      else none

def step (g : Growth) (s : Buffering α) : Move α → Option (Buffering α)
  | .bufferEvent data => some (bufferEvent g s data)
  | .exportData => some (exportData s)
  | .onConfigChange conf => some { s with conf := conf }
  | .readElement i => readElement s i

/-! ## What the consumers ought to see

These functions of the history alone say what was buffered and what was
exported; nothing in them knows about arrays. -/

/-- The number of events buffered. -/
def count : List (Move α) → Nat
  | [] => 0
  | .bufferEvent _ :: h => count h + 1
  | _ :: h => count h

/-- The events buffered since the last non-empty export. -/
def pending : List (Move α) → List Nat
  | [] => []
  | .bufferEvent _ :: h => pending h ++ [count h]
  | .exportData :: _ => []
  | _ :: h => pending h

/-- The events of each non-empty export. -/
def batches : List (Move α) → List (List Nat)
  | [] => []
  | .exportData :: h => if pending h = [] then batches h else batches h ++ [pending h]
  | _ :: h => batches h

/-- Every event is in exactly one batch, or still in the buffer. -/
theorem batches_flatten (h : List (Move α)) :
    (batches h).flatten ++ pending h = List.range (count h) := by
  induction h with
  | nil => rfl
  | cons e h ih =>
      cases e with
      | bufferEvent data =>
          simp only [batches, pending, count]
          rw [List.range_succ, ← ih, List.append_assoc]
      | exportData =>
          simp only [batches, pending, count]
          rw [List.append_nil, ← ih]
          split
          · rename_i hp
            rw [hp, List.append_nil]
          · rw [List.flatten_append, List.flatten_singleton]
      | onConfigChange conf => exact ih
      | readElement i => exact ih

/-- The elements of a batch: those its consumer has read, and those it would read
if it read the rest now. -/
def Batch.readOut (heap : Heap Nat) (batch : Batch) : List (Option Nat) :=
  batch.read ++
    ((List.range batch.data.len).drop batch.read.length).map (heap.cells batch.data.arr)

/-- Each batch yields exactly the events of its export, in order; so all that is
read and all that is still buffered are the events, each of them once. -/
structure Unaltered (h : List (Move α)) (s : Buffering α) : Prop where
  batches : s.sent.map (Batch.readOut s.heap) = (batches h).map (List.map some)
  once : (s.sent.map (Batch.readOut s.heap)).flatten ++ elements s.heap s.buffer =
    (List.range (count h)).map some

/-- The condition: an event that is appended in place does not land on an element
that the consumer of some batch has still to read. -/
def NotOverwriting (s : Buffering α) : Move α → Prop
  | .bufferEvent _ => s.buffer.len < s.buffer.cap →
      ∀ batch ∈ s.sent, batch.data.arr = s.buffer.arr →
        batch.data.len ≤ s.buffer.len ∨ s.buffer.len < batch.read.length
  | _ => True

/-! ## What holds in every run -/

/-- Arrays are allocated before they are used, and the buffer itself always shows
the pending events. -/
structure WellFormed (h : List (Move α)) (s : Buffering α) : Prop where
  points : s.points.length = count h
  buffer : Allocated s.heap s.buffer
  sent : ∀ batch ∈ s.sent, batch.data.arr < s.heap.next
  elements : elements s.heap s.buffer = (pending h).map some

theorem init_wellFormed (conf : ExportConfig) : WellFormed [] (init conf : Buffering α) where
  points := rfl
  buffer := Or.inl rfl
  sent := by simp [init]
  elements := rfl

theorem WellFormed.pending_length {h : List (Move α)} {s : Buffering α}
    (hs : WellFormed h s) : (pending h).length = s.buffer.len := by
  have hlen := congrArg List.length hs.elements
  rw [elements_length, List.length_map] at hlen
  exact hlen.symm

/-- `exportData` sends exactly when something is pending. -/
theorem WellFormed.pending_eq_nil_iff {h : List (Move α)} {s : Buffering α}
    (hs : WellFormed h s) : pending h = [] ↔ ¬ s.buffer.len > 0 := by
  rw [← List.length_eq_zero_iff, hs.pending_length]
  omega

theorem readElement_eq_some {s t : Buffering α} {i : Nat} (h : readElement s i = some t) :
    ∃ batch, s.sent[i]? = some batch ∧ batch.read.length < batch.data.len ∧
      t = { s with sent := s.sent.set i { batch with
        read := batch.read ++ [s.heap.cells batch.data.arr batch.read.length] } } := by
  unfold readElement at h
  split at h
  · cases h
  · rename_i batch hbatch
    split at h
    · rename_i hlt
      cases h
      exact ⟨batch, hbatch, hlt, rfl⟩
    · cases h

theorem WellFormed.bufferEvent {h : List (Move α)} {s : Buffering α} (hs : WellFormed h s)
    (g : Growth) (data : α) : WellFormed (.bufferEvent data :: h) (bufferEvent g s data) where
  points := by
    rw [EventBuffer.bufferEvent, List.length_append, hs.points]
    rfl
  buffer := Or.inr (append_allocated g s.heap s.buffer s.points.length hs.buffer)
  sent batch hb := Nat.lt_of_lt_of_le (hs.sent batch hb)
    (next_le_append g s.heap s.buffer s.points.length)
  elements := by
    rw [EventBuffer.bufferEvent, elements_append, hs.elements, hs.points, pending,
      List.map_append]
    rfl

theorem WellFormed.exportData {h : List (Move α)} {s : Buffering α} (hs : WellFormed h s) :
    WellFormed (.exportData :: h) (exportData s) := by
  unfold EventBuffer.exportData
  by_cases hlen : s.buffer.len > 0
  · rw [if_pos hlen]
    refine ⟨hs.points, hs.buffer, ?_, rfl⟩
    intro batch hb
    rcases List.mem_append.1 hb with hb | hb
    · exact hs.sent batch hb
    · -- a buffer with elements has an array
      obtain rfl := List.mem_singleton.1 hb
      have hcap := s.buffer.len_le_cap
      rcases hs.buffer with hzero | harr
      · omega
      · exact harr
  · rw [if_neg hlen]
    refine ⟨hs.points, hs.buffer, hs.sent, ?_⟩
    rw [hs.elements, hs.pending_eq_nil_iff.2 hlen]
    rfl

theorem WellFormed.readElement {h : List (Move α)} {s t : Buffering α} {i : Nat}
    (hs : WellFormed h s) (he : readElement s i = some t) :
    WellFormed (.readElement i :: h) t := by
  obtain ⟨batch, hbatch, -, rfl⟩ := readElement_eq_some he
  refine ⟨hs.points, hs.buffer, ?_, hs.elements⟩
  intro batch' hb
  rcases List.mem_or_eq_of_mem_set hb with hb | rfl
  · exact hs.sent batch' hb
  · exact hs.sent batch (List.mem_of_getElem? hbatch)

theorem step_wellFormed {g : Growth} {h : List (Move α)} {s t : Buffering α} {e : Move α}
    (hs : WellFormed h s) (he : step g s e = some t) : WellFormed (e :: h) t := by
  cases e with
  | bufferEvent data =>
      cases he
      exact hs.bufferEvent g data
  | exportData =>
      cases he
      exact hs.exportData
  | onConfigChange conf =>
      cases he
      exact ⟨hs.points, hs.buffer, hs.sent, hs.elements⟩
  | readElement i => exact hs.readElement he

/-! ## One step -/

/-- Reading an element moves it from the part still to be read to the part
read. -/
theorem readOut_readElement (heap : Heap Nat) (batch : Batch)
    (hlt : batch.read.length < batch.data.len) :
    Batch.readOut heap { batch with
        read := batch.read ++ [heap.cells batch.data.arr batch.read.length] } =
      Batch.readOut heap batch := by
  have hdrop : (List.range batch.data.len).drop batch.read.length =
      batch.read.length :: (List.range batch.data.len).drop (batch.read.length + 1) := by
    rw [List.drop_eq_getElem_cons (by rw [List.length_range]; exact hlt), List.getElem_range]
  simp only [Batch.readOut, hdrop, List.length_append, List.length_singleton, List.map_cons,
    List.append_assoc, List.singleton_append]

/-- What a batch shows depends only on the cells its consumer has not read. -/
theorem readOut_eq_iff (heap heap' : Heap Nat) (batch : Batch) :
    Batch.readOut heap' batch = Batch.readOut heap batch ↔
      ∀ i, batch.read.length ≤ i → i < batch.data.len →
        heap'.cells batch.data.arr i = heap.cells batch.data.arr i := by
  rw [Batch.readOut, Batch.readOut, List.append_cancel_left_eq, List.map_inj_left]
  constructor
  · intro h i hle hlt
    refine h i (List.mem_iff_getElem?.2 ⟨i - batch.read.length, ?_⟩)
    rw [List.getElem?_drop, Nat.add_sub_cancel' hle]
    exact List.getElem?_range hlt
  · intro h i hi
    obtain ⟨k, hk⟩ := List.mem_iff_getElem?.1 hi
    rw [List.getElem?_drop] at hk
    obtain ⟨hlt, heq⟩ := List.getElem?_eq_some_iff.1 hk
    rw [List.length_range] at hlt
    rw [List.getElem_range] at heq
    exact h i (by omega) (by omega)

/-- The buffer shows what is pending, so the batches alone decide whether every
event is seen once. -/
theorem unaltered_iff {h : List (Move α)} {s : Buffering α} (hs : WellFormed h s) :
    Unaltered h s ↔
      s.sent.map (Batch.readOut s.heap) = (batches h).map (List.map some) := by
  refine ⟨Unaltered.batches, fun hb => ⟨hb, ?_⟩⟩
  rw [hb, hs.elements, ← List.map_flatten, ← List.map_append, batches_flatten]

/-- No batch shows the event that will be buffered next. -/
theorem Unaltered.fresh {h : List (Move α)} {s : Buffering α} (hu : Unaltered h s)
    {batch : Batch} (hb : batch ∈ s.sent) : some (count h) ∉ batch.readOut s.heap := by
  intro hmem
  have hflat : some (count h) ∈ (s.sent.map (Batch.readOut s.heap)).flatten :=
    List.mem_flatten.2 ⟨_, List.mem_map_of_mem hb, hmem⟩
  have hrange : some (count h) ∈ (List.range (count h)).map some := by
    rw [← hu.once]
    exact List.mem_append_left _ hflat
  obtain ⟨n, hn, heq⟩ := List.mem_map.1 hrange
  exact absurd (List.mem_range.1 hn) (by rw [Option.some.inj heq]; exact Nat.lt_irrefl _)

/-- Buffering an event leaves the batches alone exactly when it does not overwrite
an element that is still to be read. -/
theorem bufferEvent_readOut_iff {g : Growth} {h : List (Move α)} {s : Buffering α} {data : α}
    (hs : WellFormed h s) (hu : Unaltered h s) :
    (∀ batch ∈ s.sent,
        batch.readOut (bufferEvent g s data).heap = batch.readOut s.heap) ↔
      NotOverwriting s (.bufferEvent data) := by
  constructor
  · intro hsame hlt batch hb harr
    by_contra hover
    have hread : batch.read.length ≤ s.buffer.len := by omega
    have hlen : s.buffer.len < batch.data.len := by omega
    have hcell := (readOut_eq_iff s.heap _ batch).1 (hsame batch hb) _ hread hlen
    rw [bufferEvent, append_cells_of_lt g s.heap s.buffer _ hlt,
      if_pos ⟨harr, rfl⟩, hs.points] at hcell
    refine hu.fresh hb (List.mem_append_right _ (List.mem_map.2 ⟨s.buffer.len, ?_, hcell.symm⟩))
    refine List.mem_iff_getElem?.2 ⟨s.buffer.len - batch.read.length, ?_⟩
    rw [List.getElem?_drop, Nat.add_sub_cancel' hread]
    exact List.getElem?_range hlen
  · intro hguard batch hb
    refine (readOut_eq_iff s.heap _ batch).2 fun i hread hlen => ?_
    refine append_cells_of_ne g s.heap s.buffer _ (hs.sent batch hb) ?_
    rintro hlt ⟨harr, rfl⟩
    rcases hguard hlt batch hb harr with hle | hgt
    · omega
    · omega

/-- One step keeps the batches exactly when it overwrites nothing unread. -/
theorem step_unaltered_iff {g : Growth} {h : List (Move α)} {s t : Buffering α} {e : Move α}
    (hs : WellFormed h s) (hu : Unaltered h s) (he : step g s e = some t) :
    Unaltered (e :: h) t ↔ NotOverwriting s e := by
  rw [unaltered_iff (step_wellFormed hs he)]
  cases e with
  | bufferEvent data =>
      cases he
      rw [← bufferEvent_readOut_iff hs hu (g := g), ← List.map_inj_left]
      simp only [batches, ← hu.batches]
      rfl
  | exportData =>
      cases he
      refine iff_of_true ?_ trivial
      simp only [exportData, batches]
      by_cases hlen : s.buffer.len > 0
      · rw [if_pos hlen, if_neg fun hp => hs.pending_eq_nil_iff.1 hp hlen, List.map_append,
          List.map_append, ← hu.batches, List.map_singleton, List.map_singleton, ← hs.elements]
        rfl
      · rw [if_neg hlen, if_pos (hs.pending_eq_nil_iff.2 hlen)]
        exact hu.batches
  | onConfigChange conf =>
      cases he
      exact iff_of_true hu.batches trivial
  | readElement i =>
      obtain ⟨batch, hbatch, hlt, rfl⟩ := readElement_eq_some he
      refine iff_of_true ?_ trivial
      obtain ⟨hi, rfl⟩ := List.getElem?_eq_some_iff.1 hbatch
      simp only [List.map_set, batches, readOut_readElement s.heap _ hlt, ← hu.batches]
      rw [← List.getElem_map (Batch.readOut s.heap) (h := by rwa [List.length_map])]
      exact List.set_getElem_self _

/-! ## Runs -/

theorem run_wellFormed (g : Growth) (conf : ExportConfig) :
    ∀ (h : List (Move α)) s, run (step g) (init conf) h = some s → WellFormed h s :=
  run_invariant (init_wellFormed conf) fun _ _ _ _ _ hs he => step_wellFormed hs he

theorem init_unaltered (conf : ExportConfig) : Unaltered [] (init conf : Buffering α) :=
  ⟨rfl, rfl⟩

/-- A consumer that goes on reading now ends up with what its batch shows now. -/
theorem readElement_to_end (g : Growth) (s : Buffering α) (i : Nat) (batch : Batch)
    (hbatch : s.sent[i]? = some batch) :
    ∀ k, batch.read.length + k ≤ batch.data.len →
      ∃ t read, run (step g) s (List.replicate k (.readElement i)) = some t ∧
        t.heap = s.heap ∧ t.sent[i]? = some { batch with read := read } ∧
        read.length = batch.read.length + k ∧
        Batch.readOut s.heap { batch with read := read } = batch.readOut s.heap := by
  intro k
  induction k with
  | zero => exact fun _ => ⟨s, batch.read, rfl, rfl, hbatch, rfl, rfl⟩
  | succ k ih =>
      intro hk
      obtain ⟨t, read, hrun, hheap, hsent, hlen, hout⟩ := ih (by omega)
      have hlt : read.length < batch.data.len := by omega
      refine ⟨{ t with sent := t.sent.set i { batch with
          read := read ++ [t.heap.cells batch.data.arr read.length] } },
        read ++ [t.heap.cells batch.data.arr read.length],
        run_cons_of_step hrun ?_, hheap, ?_, ?_, ?_⟩
      · simp only [step, readElement, hsent]
        rw [if_pos hlt]
      · obtain ⟨hi, -⟩ := List.getElem?_eq_some_iff.1 hsent
        exact List.getElem?_set_self hi
      · rw [List.length_append, hlen]
        rfl
      · rw [← hout, hheap]
        exact readOut_readElement s.heap { batch with read := read } hlt

/-- So `readOut` is what the consumer gets. -/
theorem read_rest (g : Growth) (s : Buffering α) (i : Nat) (batch : Batch)
    (hbatch : s.sent[i]? = some batch) (hle : batch.read.length ≤ batch.data.len) :
    ∃ t, run (step g) s
        (List.replicate (batch.data.len - batch.read.length) (.readElement i)) = some t ∧
      t.sent[i]? = some { batch with read := batch.readOut s.heap } := by
  obtain ⟨t, read, hrun, -, hsent, hlen, hout⟩ :=
    readElement_to_end g s i batch hbatch (batch.data.len - batch.read.length) (by omega)
  refine ⟨t, hrun, ?_⟩
  have hread : Batch.readOut s.heap { batch with read := read } = read := by
    have hend : batch.data.len ≤ read.length := by omega
    rw [Batch.readOut, List.drop_eq_nil_of_le (by rwa [List.length_range]), List.map_nil,
      List.append_nil]
  rw [hsent, ← hout, hread]

/-- **The batches survive exactly the runs without overwriting.**  In every
interleaving of buffering, exports and readers, every batch shows its own events
in every state if and only if no append lands on an element that some consumer
has still to read. -/
theorem everyState_unaltered_iff (g : Growth) (conf : ExportConfig) (moves : List (Move α)) :
    EveryState (step g) (init conf) Unaltered moves ↔
      Guarded (step g) (init conf) NotOverwriting moves := by
  refine everyState_iff_guarded (run_wellFormed g conf) (init_unaltered conf)
    (fun _ _ _ _ hs hu he => step_unaltered_iff hs hu he) ?_ moves
  intro h s e _ he
  cases e with
  | bufferEvent data => cases he
  | exportData => trivial
  | onConfigChange conf => trivial
  | readElement i => trivial

/-- Go's growth of a small slice: one element first, then twice as many. -/
def smallGrowth : Growth where
  newCap n := if n = 0 then 1 else 2 * n
  lt_newCap n := by
    split <;> omega

/-- One event is exported, and the next one is buffered before the batch is read:
the consumer reads the second event in place of the first. -/
theorem exported_event_overwritten :
    ¬ EveryState (step smallGrowth) (init ⟨1, "tcpreq", []⟩) Unaltered
        [.readElement 0, .bufferEvent "accept", .exportData, .bufferEvent "recv"] := by
  intro h
  exact absurd (h.last _ rfl).batches (by decide)

end Kmon.Ports.EventBuffer
