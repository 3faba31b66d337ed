import Kmon.Ports.Settling

/-!
# How the program is shut down

`EndProgram` hands `done` over to one loop after the other, and `main` exits behind the last
one.  `returned_of_exit` says who has returned by then: those of the loops it has told that
are no signal loops, whose `break` leaves only their `select`.  It tells as many as the slice
has elements when it begins, all of them different.  They are the elements of that moment
(`Leaves`) where no registration is under way.  Where one is, its `append` may still write
over an element (`Overwritten`), and the loop that was there is cut off like one whose
registration was lost or came later.

`rounds_le_one`: a period loop that `EndProgram` waits for begins at most one more round.
-/

namespace Kmon.Ports.Goroutines

open Kmon.Verified
open Kmon.Verified.GoSlice
open Kmon.Verified.LockOrder
open Kmon.Verified.Run
open Kmon.Ports.ConfigDelivery (Kind Key)

variable {starts : Key → Bool} {s s' : Program} {e : Event} {i j : Nat} {t t' m : Goroutine}
variable {code code' : Code} {c : Collector} {ch : Choice} {threads : List Goroutine}
variable {conf : List Key} {pods : Nat} {h₁ h₂ : List Event} {s₁ s₂ : Program}

/-! ## Who returns -/

/-- A registration is under way: its `append` is still to come, or the store behind it. -/
def underWay : Op Mutex Action → Bool
  | .other (.appendProgramEnd _ _) => true
  | .other (.storeProgramEnd _) => true
  | _ => false

/-- Nobody registers a function at the moment. -/
def Quiet (s : Program) : Prop := ∀ t ∈ s.threads, ∀ op ∈ t.code, underWay op = false

instance (s : Program) : Decidable (Quiet s) :=
  inferInstanceAs (Decidable (∀ t ∈ s.threads, ∀ op ∈ t.code, underWay op = false))

/-- Where `EndProgram` begins and nobody registers, all slices leave the elements it ranges
over. -/
theorem registered_of_quiet (hs : Known s) (hm : m ∈ s.threads)
    (hop : .other .endProgram ∈ m.code) (hquiet : Quiet s) :
    Registered (Leaves s.arrays s.programEnd) s := by
  refine ⟨leaves_self hs.registered.programEnd, fun t ht op hop' => ?_⟩
  have hquiet := hquiet t ht op hop'
  cases op with
  | other a =>
      cases a with
      | appendProgramEnd fns n => cases hquiet
      | storeProgramEnd fns => cases hquiet
      | callProgramEnd fns k =>
          -- `main` has not begun yet
          have hmain := (hs.sound.sound t ht).main hop' rfl
          have hmain' := (hs.sound.sound m hm).main hop rfl
          have hsame := hs.staged.eq_of_name ht hm (hmain.trans hmain'.symm)
            (by rw [hmain]; decide)
          rw [hsame, hs.last m hm hop] at hop'
          simp at hop'
      | _ => trivial
  | _ => trivial

/-- A loop that is in no array. -/
def Unlisted (s : Program) (n : Name) : Prop := ∀ a k, s.arrays.cells a k ≠ some n

/-- Whoever was in an array when `EndProgram` began is not appended any more, so what is new
among its elements was in none. -/
structure Overwritten (s₁ s : Program) : Prop where
  filled : Filled s.arrays s₁.programEnd
  callable : ∀ n, ¬Unlisted s₁ n → Callable s.threads n
  cells : ∀ k < s₁.programEnd.len,
    s.arrays.cells s₁.programEnd.arr k = s₁.arrays.cells s₁.programEnd.arr k ∨
      ∃ n, s.arrays.cells s₁.programEnd.arr k = some n ∧ Unlisted s₁ n

theorem overwritten_self (hs : Known s) : Overwritten s s := by
  refine ⟨hs.registered.programEnd, fun n hn => ?_, fun k hk => .inl rfl⟩
  rw [Unlisted] at hn
  push Not at hn
  obtain ⟨a, k, hcell⟩ := hn
  exact hs.lists.callable (.appended a k hcell)

theorem Overwritten.step (h : Overwritten s₁ s) (hs : Known s) (he : Steps starts s e s') :
    Overwritten s₁ s' := by
  have hcallable : ∀ n, ¬Unlisted s₁ n → Callable s'.threads n :=
    fun n hn => (h.callable n hn).step hs.sound hs.staged he
  rcases arrays_step he with harrays | ⟨i, t, code, fns, n, ch, hi, hcode, rfl⟩
  · exact ⟨harrays ▸ h.filled, hcallable, harrays ▸ h.cells⟩
  · refine ⟨h.filled.after_append, hcallable, fun k hk => ?_⟩
    show (append ch.growth s.arrays fns n).1.cells s₁.programEnd.arr k = _ ∨
      ∃ n', (append ch.growth s.arrays fns n).1.cells s₁.programEnd.arr k = some n' ∧ _
    rcases append_cells_cases ch.growth s.arrays fns n (h.filled.arr_lt hk) with
      ⟨hcell, -⟩ | hcell
    · rw [hcell]
      refine .inr ⟨n, rfl, ?_⟩
      by_contra hn
      have hpast := (h.callable n hn).past t (List.mem_of_getElem? hi) _
        (hcode ▸ List.mem_cons_self)
      exact absurd (decide_eq_true rfl) (Bool.eq_false_iff.1 hpast)
    · rw [hcell]
      exact h.cells k hk

/-- Each is the element at its place when `EndProgram` began, or was in no array then. -/
def Placed (s₁ : Program) (told : List Name) : Prop :=
  ∀ (k : Nat) (n : Name), told[k]? = some n →
    (elements s₁.arrays s₁.programEnd)[k]? = some (some n) ∨ Unlisted s₁ n

/-- What the end of the program comes to, with the state `s₁` in which `EndProgram` begins. -/
inductive Handing (s₁ s : Program) : Prop where
  | going (told : List Name) (cur : Option Name) (rest : List Nat)
      (h : HandingOver s₁.programEnd told cur rest s) (hlive : s.status ≠ .exited)
      (hplaced : Placed s₁ (told ++ cur.toList))
      (hfinds : Quiet s₁ →
        finds s₁.arrays s₁.programEnd told cur rest = elements s₁.arrays s₁.programEnd)
  | exited (told : List Name) (hexit : s.status = .exited) (hnodup : told.Nodup)
      (hlength : told.length = s₁.programEnd.len) (hplaced : Placed s₁ told)
      (htold : Quiet s₁ → told.map some = elements s₁.arrays s₁.programEnd)
      (hreturned : ∀ t ∈ s.threads, t.phase = .returned ↔ t.name ∈ told ∧ t.name.ends)

/-- The next one is the element that `EndProgram` comes to. -/
theorem Overwritten.placed {told told' : List Name} {cur cur' : Option Name}
    {rest rest' : List Nat} (h : Overwritten s₁ s)
    (hover : HandingOver s₁.programEnd told cur rest s)
    (hfinds : finds s.arrays s₁.programEnd told' cur' rest' =
      finds s.arrays s₁.programEnd told cur rest)
    (hplaced : Placed s₁ (told ++ cur.toList)) : Placed s₁ (told' ++ cur'.toList) := by
  intro k n hk
  have hfound : (finds s.arrays s₁.programEnd told' cur' rest')[k]? = some (some n) := by
    obtain ⟨hlt, -⟩ := List.getElem?_eq_some_iff.1 hk
    rw [finds, List.getElem?_append_left (by rwa [List.length_map]), List.getElem?_map, hk]
    rfl
  rw [hfinds, finds, List.getElem?_append] at hfound
  split at hfound
  · -- it has been called before
    rw [List.getElem?_map, Option.map_eq_some_iff] at hfound
    obtain ⟨n', hn', heq⟩ := hfound
    cases heq
    exact hplaced k n hn'
  · rename_i hle
    rw [List.getElem?_map, Option.map_eq_some_iff] at hfound
    obtain ⟨k', hk', hcell⟩ := hfound
    -- what is left are the last places of the slice
    rw [List.suffix_iff_eq_drop.1 hover.suffix, List.getElem?_drop, List.length_range] at hk'
    obtain ⟨hlt, hk'⟩ := List.getElem?_eq_some_iff.1 hk'
    have hlength := hover.length
    simp only [List.length_map, List.length_append, not_lt, List.length_range,
      List.getElem_range] at hle hlt hk'
    have hsame : k' = k := by omega
    subst hsame
    rcases h.cells k' (by omega) with hold | ⟨n', hnew, hunlisted⟩
    · refine .inl ?_
      rw [elements, List.getElem?_map, List.getElem?_range (by omega), Option.map_some, ← hold,
        hcell]
    · rw [hnew] at hcell
      cases hcell
      exact .inr hunlisted

theorem Handing.step (h : Handing s₁ s) (hs : Known s) (hrunning : s.status = .running)
    (hoverwritten : Overwritten s₁ s)
    (hleaves : Quiet s₁ → Registered (Leaves s₁.arrays s₁.programEnd) s)
    (he : Steps starts s e s') : Handing s₁ s' := by
  cases h with
  | exited told hexit =>
      rw [hexit] at hrunning
      cases hrunning
  | going told cur rest hover hlive hplaced hfinds =>
      have hsame : ∀ {told cur rest}, rest <:+ List.range s₁.programEnd.len → Quiet s₁ →
          finds s.arrays s₁.programEnd told cur rest =
            finds s₁.arrays s₁.programEnd told cur rest := by
        intro told cur rest hsuffix hquiet
        have hcells : rest.map (s.arrays.cells s₁.programEnd.arr) =
            rest.map (s₁.arrays.cells s₁.programEnd.arr) :=
          List.map_congr_left fun k hk =>
            (hleaves hquiet).programEnd.same k (List.mem_range.1 (hsuffix.subset hk))
        rw [finds, finds, hcells]
      cases hover.step hs he with
      | on told' cur' rest' hover' hexit hkeeps =>
          refine .going told' cur' rest' hover' (fun h => hlive (hexit h))
            (hoverwritten.placed hover hkeeps hplaced) fun hquiet => ?_
          rw [← hsame hover'.suffix hquiet, hkeeps, hsame hover.suffix hquiet, hfinds hquiet]
      | exits hexit hcur hrest hreturned =>
          subst hcur hrest
          have hnodup := hover.nodup
          have hlength := hover.length
          simp only [Option.toList_none, List.append_nil, List.length_nil, Nat.add_zero] at *
          refine .exited told hexit hnodup hlength hplaced (fun hquiet => ?_) hreturned
          rw [← hfinds hquiet]
          simp [finds]

/-- **When the program has exited, the loops that have returned are those that `EndProgram`
has told, without the signal loops.  It has told as many as its slice had elements when it
began, all of them different: each is the element at its place, or was in no array by then, and
if nobody was registering a function they are these elements.** -/
theorem returned_of_exit (hrun₁ : run (step starts) (start conf pods) h₁ = some s₁)
    (hi : s₁.threads[i]? = some m) (hend : m.code.head? = some (.other .endProgram))
    (hrun₂ : run (step starts) s₁ (h₂ ++ [.exec i ch]) = some s₂) (hexit : s₂.status = .exited) :
    ∃ told : List Name, told.Nodup ∧ told.length = s₁.programEnd.len ∧ Placed s₁ told ∧
      (Quiet s₁ → told.map some = elements s₁.arrays s₁.programEnd) ∧
      ∀ t ∈ s₂.threads, t.phase = .returned ↔ t.name ∈ told ∧ t.name.ends := by
  obtain ⟨code, hcode⟩ := List.head?_eq_some_iff.1 hend
  have hmem := List.mem_of_getElem? hi
  have hop : .other .endProgram ∈ m.code := hcode ▸ List.mem_cons_self
  have hknown := known_of_run hrun₁
  rw [run_append] at hrun₂
  obtain ⟨s₃, hfirst, hrest⟩ := Option.bind_eq_some_iff.1 hrun₂
  obtain ⟨s₀, hs₀, hstep⟩ := run_cons_eq_some.1 hfirst
  cases hs₀
  obtain ⟨hrunning, hsteps⟩ := steps_of_run hrun₁ hstep
  have hs₃ : s₃ = perform starts s₁ i m code ch .endProgram := by
    rw [step, if_pos hrunning] at hstep
    simp only [hi, Option.bind_some, exec, hcode] at hstep
    exact (Option.some.inj hstep).symm
  have hreturned : ∀ t ∈ s₁.threads, t.phase ≠ .returned := by
    cases ending_of_run h₁ s₁ hrun₁ hrunning with
    | before hreturned hnone => exact hreturned
    | during fns told cur rest hover =>
        have hmain := (hknown.sound.sound m hmem).main hop rfl
        have hcalls := hover.main_code hknown hmem hmain
        rw [hcode] at hcalls
        obtain ⟨n, -, heq, -⟩ | ⟨k, rest', -, -, heq, -⟩ | ⟨-, -, heq, -⟩ :=
          calls_eq_cons hcalls.symm <;> cases heq
  have hstart : Handing s₁ s₃ := by
    rw [hs₃]
    refine .going _ _ _ (handingOver_endProgram hknown hreturned hi hcode) ?_ ?_ fun _ => rfl
    · simp [perform, store, hrunning]
    · intro k n hk
      cases hk
  have hrun₃ := run_cons_of_step hrun₁ hstep
  have hinv : Handing s₁ s₂ ∧ Overwritten s₁ s₂ ∧
      (Quiet s₁ → Registered (Leaves s₁.arrays s₁.programEnd) s₂) := by
    refine run_invariant (I := fun _ s => Handing s₁ s ∧ Overwritten s₁ s ∧
      (Quiet s₁ → Registered (Leaves s₁.arrays s₁.programEnd) s))
        ⟨hstart, (overwritten_self hknown).step hknown hsteps, fun hquiet => ?_⟩ ?_ h₂ s₂ hrest
    · exact (registered_of_quiet hknown hmem hop hquiet).step (lasting_leaves _ _)
        hknown.sound hsteps
    · rintro h s e s' hrun ⟨hhanding, hoverwritten, hleaves⟩ he
      have hrun' := run_append_of_run hrun₃ hrun
      obtain ⟨hrunning', hsteps'⟩ := steps_of_run hrun' he
      have hs := known_of_run hrun'
      refine ⟨hhanding.step hs hrunning' hoverwritten hleaves hsteps',
        hoverwritten.step hs hsteps', fun hquiet => ?_⟩
      exact (hleaves hquiet).step (lasting_leaves _ _) hs.sound hsteps'
  cases hinv.1 with
  | going told cur rest hover hlive => exact absurd hexit hlive
  | exited told hexit' hnodup hlength hplaced htold hreturned' =>
      exact ⟨told, hnodup, hlength, hplaced, htold, hreturned'⟩

/-- A run with one section up to the interrupt, when the period loop has registered and the
signal loop has not. -/
def upToInterrupt : List Event :=
  .input 0 .interrupt :: List.replicate 11 (.exec 4 calm) ++ mainSteps 21

/-- `EndProgram` tells the watcher and the period loop. -/
def tellsBoth : List Event :=
  [.exec 0 calm, .poll 4, .exec 0 calm, .done 1, .exec 0 calm] ++ [.exec 0 calm]

theorem returned_of_exit_single : ∃ s₁ s₂,
    run (step fun _ => true) (start [(.ColFcount, "calls")] 0) upToInterrupt = some s₁ ∧
    run (step fun _ => true) s₁ tellsBoth = some s₂ ∧
    ∃ told : List Name, told.Nodup ∧ told.length = s₁.programEnd.len ∧ Placed s₁ told ∧
      (Quiet s₁ → told.map some = elements s₁.arrays s₁.programEnd) ∧
      ∀ t ∈ s₂.threads, t.phase = .returned ↔ t.name ∈ told ∧ t.name.ends := by
  have hexits : ∃ s₁ ∈ run (step fun _ => true) (start [(.ColFcount, "calls")] 0) upToInterrupt,
      ∃ m ∈ s₁.threads[0]?, m.code.head? = some (.other .endProgram) ∧
        ∃ s₂ ∈ run (step fun _ => true) s₁ tellsBoth, s₂.status = .exited := by decide
  obtain ⟨s₁, hrun₁, m, hm, hend, s₂, hrun₂, hexit⟩ := hexits
  exact ⟨s₁, s₂, hrun₁, hrun₂, returned_of_exit hrun₁ hm hend hrun₂ hexit⟩

/-- Two sections.  Three loops have registered, and the loops of the second collector have
both read the slice; one of them appends and stores before the interrupt. -/
def twoAtOnce : List Event :=
  .input 0 .interrupt :: List.replicate 2 (.exec 7 calm) ++ [.exec 8 calm, .exec 7 calm] ++
    List.replicate 3 (.exec 5 calm) ++ List.replicate 11 (.exec 4 calm) ++ mainSteps 33

/-- The other one appends when `EndProgram` has begun. -/
def appendedBetween : List Event :=
  [.exec 0 calm, .done 8, .exec 8 calm, .exec 0 calm, .done 5, .exec 0 calm, .poll 4, .exec 0 calm,
    .done 1, .exec 0 calm] ++ [.exec 8 calm, .exec 0 calm]

-- the period loop that was listed is cut off, and the signal loop is told in its place
example : ∃ s₁ ∈ run (step fun _ => true) (start [(.ColFcount, "a"), (.ColFcount, "b")] 0)
      twoAtOnce,
    ¬Quiet s₁ ∧ some (.period ⟨1, .ColFcount⟩) ∈ elements s₁.arrays s₁.programEnd ∧
    ∃ s₂ ∈ run (step fun _ => true) s₁ appendedBetween, s₂.status = .exited ∧
      ∃ t ∈ s₂.threads, t.name = .period ⟨1, .ColFcount⟩ ∧ t.phase ≠ .returned := by
  decide

/-! ## One more round -/

/-- Goroutine `i` begins a round. -/
def isTick (i : Nat) : Event → Bool
  | .tick j _ => j = i
  | _ => false

/-- What goroutine `i` is when goroutine `j` has made a step. -/
theorem getElem?_set_cases (hi : threads[i]? = some t) (hj : threads[j]? = some t')
    (m : Goroutine) :
    j = i ∧ t' = t ∧ (threads.set j m)[i]? = some m ∨
      j ≠ i ∧ (threads.set j m)[i]? = some t := by
  by_cases hji : j = i
  · subst hji
    obtain ⟨hlt, -⟩ := List.getElem?_eq_some_iff.1 hi
    rw [hi] at hj
    exact .inl ⟨rfl, (Option.some.inj hj).symm, List.getElem?_set_self hlt⟩
  · exact .inr ⟨hji, by rw [List.getElem?_set_ne hji, hi]⟩

/-- The last sleep of `waitPeriod`, behind which a round begins. -/
def Goroutine.naps (t : Goroutine) : Nat := if t.phase = .sleeping then 1 else 0

/-- A period loop for which `EndProgram` waits, at index `j`, or which has returned. -/
structure Awaited (c : Collector) (i j : Nat) (m : Goroutine) (threads : List Goroutine)
    (t : Goroutine) : Prop where
  here : threads[i]? = some t
  name : t.name = .period c
  waits : t.phase = .returned ∨ threads[j]? = some m

/-- A step that is no hand-over. -/
theorem Awaited.set (h : Awaited c i j m threads t)
    (hcode : m.code = .other (.handOver (.period c)) :: code) {k : Nat} {t₁ t₂ : Goroutine}
    (hk : threads[k]? = some t₁) (hnot : ∀ n code, t₁.code ≠ .other (.handOver n) :: code)
    (hname : t₂.name = t₁.name) (hreturned : t₁.phase = .returned → t₂.phase = .returned)
    (hother : k ≠ i → isTick i e = false)
    (hnaps : t₁ = t → (isTick i e).toNat + t₂.naps ≤ t₁.naps) :
    ∃ t', Awaited c i j m (threads.set k t₂) t' ∧ (isTick i e).toNat + t'.naps ≤ t.naps := by
  have hwaits : threads[j]? = some m → (threads.set k t₂)[j]? = some m := by
    intro hj
    rcases getElem?_set_cases hj hk t₂ with ⟨-, rfl, -⟩ | ⟨-, hget⟩
    · exact absurd hcode (hnot _ _)
    · exact hget
  rcases getElem?_set_cases h.here hk t₂ with ⟨-, rfl, hget⟩ | ⟨hki, hget⟩
  · exact ⟨t₂, ⟨hget, hname.trans h.name, h.waits.imp hreturned hwaits⟩, hnaps rfl⟩
  · refine ⟨t, ⟨hget, h.name, h.waits.imp_right hwaits⟩, ?_⟩
    rw [hother hki]
    exact Nat.le_of_eq (Nat.zero_add _)

theorem Awaited.append (h : Awaited c i j m threads t) (l : List Goroutine) :
    Awaited c i j m (threads ++ l) t := by
  have hget : ∀ {k : Nat} {t₀ : Goroutine}, threads[k]? = some t₀ →
      (threads ++ l)[k]? = some t₀ := by
    intro k t₀ hk
    obtain ⟨hlt, -⟩ := List.getElem?_eq_some_iff.1 hk
    rw [List.getElem?_append_left hlt, hk]
  exact ⟨hget h.here, h.name, h.waits.imp_right hget⟩

/-- `done` is handed over, to this loop if `EndProgram` waits for it. -/
theorem Awaited.release (h : Awaited c i j m s.threads t) (hs : Known s)
    (hcode : m.code = .other (.handOver (.period c)) :: code) {k l : Nat} {t₁ t₂ : Goroutine}
    (hk : s.threads[k]? = some t₁) (hl : s.threads[l]? = some t₂)
    (hcode' : t₂.code = .other (.handOver t₁.name) :: code') :
    ∃ t', Awaited c i j m
      ((s.put k { t₁ with phase := donePhase t₁ }).put l { t₂ with code := code' }).threads t' ∧
        t'.naps ≤ t.naps := by
  have hmem := List.mem_of_getElem? hl
  have hmain := (hs.sound.sound t₂ hmem).main (hcode' ▸ List.mem_cons_self) rfl
  have hli : l ≠ i := by
    rintro rfl
    rw [h.here] at hl
    cases hl
    rw [h.name] at hmain
    cases hmain
  have hget : ∀ t₃, ((s.put k t₃).put l { t₂ with code := code' }).threads[i]? =
      (s.put k t₃).threads[i]? := fun t₃ => List.getElem?_set_ne hli
  rcases getElem?_set_cases h.here hk { t₁ with phase := donePhase t₁ } with
    ⟨-, rfl, hset⟩ | ⟨hki, hset⟩
  · have hret : donePhase t₁ = .returned := by rw [donePhase, h.name]
    refine ⟨{ t₁ with phase := donePhase t₁ }, ⟨(hget _).trans hset, h.name, .inl hret⟩, ?_⟩
    rw [hret]
    exact Nat.zero_le _
  · refine ⟨t, ⟨(hget _).trans hset, h.name, .inl ?_⟩, Nat.le_refl _⟩
    rcases h.waits with hret | hj
    · exact hret
    · -- `main` hands over to nobody else
      exfalso
      have hmain' := (hs.sound.sound m (List.mem_of_getElem? hj)).main
        (hcode ▸ List.mem_cons_self) rfl
      have hjl := hs.staged.index_eq hj hl (hmain'.trans hmain.symm) (by rw [hmain']; decide)
      rw [hjl, hl] at hj
      cases hj
      rw [hcode'] at hcode
      have hname : t₁.name = .period c := by
        injection hcode with hop
        injection hop with ha
        injection ha
      exact hki (hs.staged.index_eq hk h.here (hname.trans h.name.symm) (by rw [hname]; simp))

/-- No step lets the loop sleep again. -/
theorem awaited_step (hs : Known s) (he : Steps starts s e s')
    (h : Awaited c i j m s.threads t)
    (hcode : m.code = .other (.handOver (.period c)) :: code) :
    ∃ t', Awaited c i j m s'.threads t' ∧ (isTick i e).toNat + t'.naps ≤ t.naps := by
  have hidle : ∀ {t₁ : Goroutine}, t₁.phase = .idle → t₁.naps = 0 := by
    intro t₁ hphase
    rw [Goroutine.naps, hphase]
    rfl
  cases he with
  | lock hk hcode' hfree =>
      rename_i k t₁ lock rest ch
      refine h.set hcode hk (by simp [hcode']) rfl id (fun _ => rfl) fun _ => ?_
      exact Nat.le_of_eq (Nat.zero_add _)
  | unlock hk hcode' =>
      refine h.set hcode hk (by simp [hcode']) rfl id (fun _ => rfl) fun _ => ?_
      exact Nat.le_of_eq (Nat.zero_add _)
  | action hk hcode' henabled =>
      rename_i k t₁ a rest ch
      have hphase := (hs.waiting t₁ (List.mem_of_getElem? hk)).idle
        (hcode' ▸ List.cons_ne_nil _ _)
      have hset : ∃ t', Awaited c i j m (s.threads.set k { t₁ with
          code := expand starts s ch a ++ rest
          phase := phaseAfter ch t₁.phase a }) t' ∧
            (isTick i (.exec k ch)).toNat + t'.naps ≤ t.naps := by
        refine h.set hcode hk (fun n code hover => ?_) rfl (fun hret => ?_) (fun _ => rfl)
          fun _ => ?_
        · rw [hcode'] at hover
          cases hover
          cases henabled
        · rw [hphase] at hret
          cases hret
        · rw [hidle hphase]
          cases a <;> simp [phaseAfter, Goroutine.naps, hphase, isTick]
      obtain ⟨t', hawaited, hnaps⟩ := hset
      exact ⟨t', hawaited.append _, hnaps⟩
  | input hk hnil hphase hch hcode' =>
      refine h.set hcode hk (by simp [hnil]) rfl id (fun _ => rfl) fun _ => ?_
      exact Nat.le_of_eq (Nat.zero_add _)
  | release hk hl hnil hreceives hcode' hevent =>
      obtain ⟨t', hawaited, hnaps⟩ := h.release hs hcode hk hl hcode'
      refine ⟨t', hawaited, ?_⟩
      rcases hevent with rfl | rfl <;> simpa [isTick] using hnaps
  | poll hk hnil hphase halone hnext =>
      refine h.set hcode hk (by simp [hnil]) rfl (fun hret => ?_) (fun _ => rfl) fun heq => ?_
      · rw [hphase] at hret
        cases hret
      · -- it would find `main`
        subst heq
        rcases h.waits with hret | hj
        · rw [hphase] at hret
          cases hret
        · rw [h.name] at halone
          exact absurd hcode (waiter_eq_none_iff.1 halone m (List.mem_of_getElem? hj) code)
  | tick hk hnil hname hphase =>
      rename_i k t₁ c' ch
      refine h.set hcode hk (by simp [hnil]) rfl (fun hret => ?_) (fun hne => ?_) fun _ => ?_
      · rw [hphase] at hret
        cases hret
      · exact decide_eq_false hne
      · have hlast : t₁.naps = 1 := by
          rw [Goroutine.naps, hphase]
          rfl
        rw [hlast]
        exact Bool.toNat_le _

/-- **A period loop begins at most one more round once `EndProgram` waits for it.** -/
theorem rounds_le_one (hrun₁ : run (step starts) (start conf pods) h₁ = some s₁)
    (hi : s₁.threads[i]? = some t) (hname : t.name = .period c) (hj : s₁.threads[j]? = some m)
    (hwaits : m.code.head? = some (.other (.handOver (.period c))))
    (hrun₂ : run (step starts) s₁ h₂ = some s₂) : h₂.countP (isTick i) ≤ 1 := by
  obtain ⟨code, hcode⟩ := List.head?_eq_some_iff.1 hwaits
  have hstart : t.naps ≤ 1 := by
    unfold Goroutine.naps
    split <;> omega
  have hinv : ∃ t, Awaited c i j m s₂.threads t ∧ h₂.countP (isTick i) + t.naps ≤ 1 := by
    refine run_invariant
      (I := fun h s => ∃ t, Awaited c i j m s.threads t ∧ h.countP (isTick i) + t.naps ≤ 1)
      ⟨t, ⟨hi, hname, .inr hj⟩, by simpa using hstart⟩ ?_ h₂ s₂ hrun₂
    rintro h s e s' hrun ⟨t₀, hawaited, hcount⟩ he
    have hrun' := run_append_of_run hrun₁ hrun
    obtain ⟨hrunning, hsteps⟩ := steps_of_run hrun' he
    obtain ⟨t', hawaited', hnaps⟩ :=
      awaited_step (known_of_run hrun') hsteps hawaited hcode
    refine ⟨t', hawaited', ?_⟩
    rw [List.countP_cons]
    cases htick : isTick i e <;> simp [htick] at hnaps ⊢ <;> omega
  obtain ⟨t', -, hcount⟩ := hinv
  omega

/-- A run with one section in which `EndProgram` comes to the loop in the last sleep of
`waitPeriod`. -/
def upToSleep : List Event :=
  [.exec 0 calm, .done 1, .exec 0 calm, .exec 0 calm, .input 0 .interrupt, .poll 4] ++
    List.replicate 11 (.exec 4 calm) ++ mainSteps 21

/-- The round that the loop begins then. -/
def lastRound : List Event := .poll 4 :: List.replicate 8 (.exec 4 calm) ++ [.tick 4 calm]

theorem rounds_le_one_single : ∃ s₁ s₂,
    run (step fun _ => true) (start [(.ColFcount, "calls")] 0) upToSleep = some s₁ ∧
    run (step fun _ => true) s₁ lastRound = some s₂ ∧ lastRound.countP (isTick 4) ≤ 1 := by
  have hwaits : ∃ s₁ ∈ run (step fun _ => true) (start [(.ColFcount, "calls")] 0) upToSleep,
      ∃ t ∈ s₁.threads[4]?, ∃ m ∈ s₁.threads[0]?, t.name = .period single ∧
        m.code.head? = some (.other (.handOver (.period single))) ∧
          (run (step fun _ => true) s₁ lastRound).isSome = true := by decide
  obtain ⟨s₁, hrun₁, t, ht, m, hm, hname, hhead, hsome⟩ := hwaits
  obtain ⟨s₂, hrun₂⟩ := Option.isSome_iff_exists.1 hsome
  exact ⟨s₁, s₂, hrun₁, hrun₂, rounds_le_one hrun₁ ht hname hm hhead hrun₂⟩

end Kmon.Ports.Goroutines
