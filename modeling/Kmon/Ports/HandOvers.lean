import Kmon.Ports.ProgramEnd

/-!
# `EndProgram`

After an interrupt `main` ranges over the slice of the registered functions.  It calls what it
finds in the array as it goes, and each call waits until a loop takes `done`.

`ending_of_run`: as long as the process runs, either nobody has returned and nobody is called,
or `EndProgram` is at some element of a slice (`HandingOver`).  Then it has called as many
functions as it has passed elements, all of them different, none of them will be called again,
and the loops that have returned are those that it has told, without the signal loops.
-/

namespace Kmon.Ports.Goroutines

open Kmon.Verified
open Kmon.Verified.GoSlice
open Kmon.Verified.LockOrder
open Kmon.Verified.Run
open Kmon.Ports.ConfigDelivery (Kind Key)

/-- Where `EndProgram` is still to be called, only the exit comes behind it. -/
def Last (code : Code) : Prop :=
  .other .endProgram ∈ code → code = [.other .endProgram, .other .exit]

/-- A loop that returns when `done` is handed over to it. -/
def Name.ends (n : Name) : Prop := ∀ c, n ≠ .signal c

/-- What is left of `EndProgram`: a hand-over, and the elements `rest` of the slice. -/
def calls (fns : Slice) (cur : Option Name) (rest : List Nat) : Code :=
  (cur.map fun n => .other (.handOver n)).toList ++
    rest.map (fun k => .other (.callProgramEnd fns k)) ++ [.other .exit]

/-- A loop that is called now or has been told is not called again. -/
structure Gone (fns : Slice) (rest : List Nat) (s : Program) (n : Name) : Prop where
  callable : Callable s.threads n
  absent : ∀ k ∈ rest, s.arrays.cells fns.arr k ≠ some n

/-- `EndProgram` has told some loops, and waits for `cur`. -/
structure HandingOver (fns : Slice) (told : List Name) (cur : Option Name) (rest : List Nat)
    (s : Program) : Prop where
  main : ∃ m ∈ s.threads, m.name = .main ∧ m.code = calls fns cur rest
  suffix : rest <:+ List.range fns.len
  length : told.length + cur.toList.length + rest.length = fns.len
  nodup : (told ++ cur.toList).Nodup
  gone : ∀ n ∈ told ++ cur.toList, Gone fns rest s n
  returned : ∀ t ∈ s.threads, t.phase = .returned ↔ t.name ∈ told ∧ t.name.ends

/-- What `EndProgram` has found in the slice, and what it would find there. -/
def finds (arrays : Heap Name) (fns : Slice) (told : List Name) (cur : Option Name)
    (rest : List Nat) : List (Option Name) :=
  (told ++ cur.toList).map some ++ rest.map (arrays.cells fns.arr)

/-- Nobody has been told yet, or `EndProgram` is at it. -/
inductive Ending (s : Program) : Prop where
  | before (hreturned : ∀ t ∈ s.threads, t.phase ≠ .returned)
      (hcode : ∀ t ∈ s.threads, ∀ op ∈ t.code, needs op ≠ some (6, 0, 0))
  | during (fns : Slice) (told : List Name) (cur : Option Name) (rest : List Nat)
      (h : HandingOver fns told cur rest s)

/-- What is known of every state of a run. -/
structure Known (s : Program) : Prop where
  sound : SoundProgram s
  staged : Staged s.threads s.configurationChange
  waiting : ∀ t ∈ s.threads, Waiting t
  registered : Registered Filled s
  lists : Lists s.threads s.arrays
  last : ∀ t ∈ s.threads, Last t.code

variable {starts : Key → Bool} {s s' : Program} {e : Event} {i j : Nat} {t t' m : Goroutine}
variable {n : Name} {code code' : Code} {a : Action} {c : Collector} {ch : Choice}
variable {op : Op Mutex Action} {threads : List Goroutine}
variable {fns : Slice} {told : List Name} {cur : Option Name} {rest : List Nat}

/-! ## `main` after an interrupt -/

/-- Behind an operation `EndProgram` is not called. -/
theorem Last.tail (h : Last code') (hcode : code' = op :: code) : .other .endProgram ∉ code := by
  intro hend
  have heq := h (hcode ▸ List.mem_cons_of_mem _ hend)
  rw [hcode] at heq
  cases heq
  simp at hend

theorem not_endProgram_expand : .other .endProgram ∉ expand starts s ch a := by
  intro hend
  cases a with
  | registerProgramEnd n => cases List.mem_singleton.1 hend
  | appendProgramEnd fns n => cases List.mem_singleton.1 hend
  | endProgram =>
      obtain ⟨k, -, heq⟩ := List.mem_map.1 hend
      cases heq
  | callProgramEnd fns k =>
      obtain ⟨n, -, heq⟩ := mem_expand_call hend
      cases heq
  | storeProgramEnd fns => cases hend
  | handOver n => cases hend
  | exit => cases hend
  | _ => cases endOp_expand rfl _ hend

theorem last_step (hs : SoundProgram s) (hl : ∀ t ∈ s.threads, Last t.code)
    (he : Steps starts s e s') : ∀ t ∈ s'.threads, Last t.code := by
  have hput : ∀ {i : Nat} {t' : Goroutine}, Last t'.code →
      ∀ t ∈ s.threads.set i t', Last t.code := by
    intro i t' ht' t ht
    rcases mem_set ht with hmem | rfl
    · exact hl t hmem
    · exact ht'
  cases he with
  | lock hi hcode hfree =>
      exact hput fun hend => absurd hend ((hl _ (List.mem_of_getElem? hi)).tail hcode)
  | unlock hi hcode =>
      exact hput fun hend => absurd hend ((hl _ (List.mem_of_getElem? hi)).tail hcode)
  | action hi hcode henabled =>
      rename_i i t a code ch
      have hmem := List.mem_of_getElem? hi
      intro t₀ ht₀
      rcases List.mem_append.1 ht₀ with hold | hnew
      · refine hput (fun hend => ?_) t₀ hold
        rcases List.mem_append.1 hend with hfresh | htail
        · exact absurd hfresh not_endProgram_expand
        · exact absurd htail ((hl t hmem).tail hcode)
      · cases a with
        | go job =>
            rw [started, List.mem_singleton] at hnew
            subst hnew
            have hpermits := ((hs.sound t hmem).permits hcode).1
            exact fun hend => by cases endOp_launch hpermits hend rfl
        | _ => cases hnew
  | input hi hnil hidle hfirst hcode =>
      rename_i i t x code
      refine hput fun hend => ?_
      by_cases hmain : t.name = .main
      · rw [hmain] at hcode
        cases x <;> cases hcode
        rfl
      · cases endOp_respond hcode hmain _ hend
  | release hi hj hnil hreceives hcode hevent =>
      intro t₀ ht₀
      rcases mem_set ht₀ with hmem | rfl
      · rcases mem_set hmem with hold | rfl
        · exact hl t₀ hold
        · have hlast := hl _ (List.mem_of_getElem? hi)
          exact hlast
      · exact fun hend => absurd hend ((hl _ (List.mem_of_getElem? hj)).tail hcode)
  | poll hi hnil hphase halone hnext =>
      have hlast := hl _ (List.mem_of_getElem? hi)
      exact hput hlast
  | tick hi hnil hname hphase => exact hput fun hend => by cases endOp_round hend

variable {conf : List Key} {pods : Nat}

theorem last_of_run (h : List Event) (s : Program)
    (hrun : run (step starts) (start conf pods) h = some s) : ∀ t ∈ s.threads, Last t.code := by
  refine run_invariant (I := fun _ s => ∀ t ∈ s.threads, Last t.code) ?_ ?_ h s hrun
  · intro t ht hend
    rw [List.mem_singleton.1 ht] at hend
    cases endOp_programStart hend rfl
  · intro h s e s' hrun hl he
    exact last_step (sound_of_run h s hrun) hl (steps_of_run hrun he).2

theorem known_of_run {h : List Event} (hrun : run (step starts) (start conf pods) h = some s) :
    Known s :=
  ⟨sound_of_run h s hrun, staged_of_run h s hrun, waiting_of_run h s hrun,
    registered_of_run h s hrun, lists_of_run h s hrun, last_of_run h s hrun⟩

/-! ## One step of `EndProgram` -/

/-- No step brings a loop back. -/
theorem Gone.step (h : Gone fns rest s n) (hs : Known s) (he : Steps starts s e s')
    (hfns : ∀ k ∈ rest, fns.arr < s.arrays.next) : Gone fns rest s' n := by
  refine ⟨h.callable.step hs.sound hs.staged he, fun k hk => ?_⟩
  rcases arrays_step he with harrays | ⟨i, t, code, fns', n', ch, hi, hcode, rfl⟩
  · rw [harrays]
    exact h.absent k hk
  · show (append ch.growth s.arrays fns' n').1.cells fns.arr k ≠ some n
    rcases append_cells_cases ch.growth s.arrays fns' n' (hfns k hk) with ⟨hcell, -⟩ | hcell
    · rw [hcell]
      intro heq
      cases heq
      -- it would have to be appended again
      have hpast := h.callable.past t (List.mem_of_getElem? hi) _ (hcode ▸ List.mem_cons_self)
      exact absurd (decide_eq_true rfl) (Bool.eq_false_iff.1 hpast)
    · rw [hcell]
      exact h.absent k hk

/-- What is next for `main`. -/
theorem calls_eq_cons (h : calls fns cur rest = op :: code) :
    (∃ n, cur = some n ∧ op = .other (.handOver n) ∧ code = calls fns none rest) ∨
    (∃ k rest', cur = none ∧ rest = k :: rest' ∧ op = .other (.callProgramEnd fns k) ∧
      code = calls fns none rest') ∨
    cur = none ∧ rest = [] ∧ op = .other .exit ∧ code = [] := by
  cases cur with
  | some n =>
      cases h
      exact .inl ⟨n, rfl, rfl, rfl⟩
  | none =>
      cases rest with
      | cons k rest' =>
          cases h
          exact .inr (.inl ⟨k, rest', rfl, rfl, rfl, rfl⟩)
      | nil =>
          cases h
          exact .inr (.inr ⟨rfl, rfl, rfl, rfl⟩)

theorem calls_ne_nil : calls fns cur rest ≠ [] :=
  List.append_ne_nil_of_right_ne_nil _ (List.cons_ne_nil _ _)

/-- There is only one `main`. -/
theorem HandingOver.main_code (h : HandingOver fns told cur rest s) (hs : Known s)
    (ht : t ∈ s.threads) (hmain : t.name = .main) : t.code = calls fns cur rest := by
  obtain ⟨m, hm, hmain', hcode⟩ := h.main
  rw [hs.staged.eq_of_name ht hm (hmain.trans hmain'.symm) (by rw [hmain]; decide), hcode]

/-- The array that `EndProgram` ranges over is there. -/
theorem HandingOver.arr_lt (h : HandingOver fns told cur rest s) (hs : Known s) :
    ∀ k ∈ rest, fns.arr < s.arrays.next := by
  intro k hk
  obtain ⟨m, hm, -, hcode⟩ := h.main
  have hop : .other (.callProgramEnd fns k) ∈ m.code := by
    rw [hcode]
    exact List.mem_append_left _ (List.mem_append_right _ (List.mem_map_of_mem hk))
  obtain ⟨hfilled, hlt⟩ := hs.registered.ops m hm _ hop
  exact hfilled.arr_lt hlt

theorem HandingOver.gone_step (h : HandingOver fns told cur rest s) (hs : Known s)
    (he : Steps starts s e s') : ∀ n ∈ told ++ cur.toList, Gone fns rest s' n :=
  fun n hn => (h.gone n hn).step hs he (h.arr_lt hs)

/-- A loop that has been told is no short goroutine. -/
theorem HandingOver.ne_worker (h : HandingOver fns told cur rest s)
    (hn : n ∈ told ++ cur.toList) : n ≠ .worker := by
  rintro rfl
  rcases (h.gone _ hn).callable.loop with hloop | hloop <;> cases hloop

/-- Somebody else makes a step, in which it does not return, and short goroutines start. -/
theorem HandingOver.set (h : HandingOver fns told cur rest s) (hs : Known s)
    (he : Steps starts s e s') (hi : s.threads[i]? = some t)
    (hthreads : s'.threads = s.threads.set i t' ++ threads) (hmain : t.name ≠ .main)
    (hname : t'.name = t.name) (hphase : t'.phase = .returned ↔ t.phase = .returned)
    (hnew : ∀ t ∈ threads, t.name = .worker ∧ t.phase ≠ .returned) :
    HandingOver fns told cur rest s' := by
  refine ⟨?_, h.suffix, h.length, h.nodup, h.gone_step hs he, fun t₀ ht₀ => ?_⟩
  · obtain ⟨m, hm, hmain', hcode⟩ := h.main
    refine ⟨m, ?_, hmain', hcode⟩
    rw [hthreads]
    refine List.mem_append_left _ (Pool.mem_set_of_ne hi hm (fun heq => hmain ?_) _)
    rw [← heq, hmain']
  · rw [hthreads] at ht₀
    rcases List.mem_append.1 ht₀ with hold | hlast
    · rcases mem_set hold with hold | rfl
      · exact h.returned t₀ hold
      · rw [hphase, hname]
        exact h.returned t (List.mem_of_getElem? hi)
    · obtain ⟨hworker, hidle⟩ := hnew t₀ hlast
      refine ⟨fun hret => absurd hret hidle, fun htold => ?_⟩
      exact absurd hworker (h.ne_worker (List.mem_append_left _ htold.1))

/-- `EndProgram` calls the next function. -/
theorem HandingOver.call {k : Nat} (h : HandingOver fns told none (k :: rest) s) (hs : Known s)
    (he : Steps starts s e (perform starts s i t (calls fns none rest) ch
      (.callProgramEnd fns k)))
    (hi : s.threads[i]? = some t) (hmain : t.name = .main) :
    ∃ n, s.arrays.cells fns.arr k = some n ∧ HandingOver fns told (some n) rest
      (perform starts s i t (calls fns none rest) ch (.callProgramEnd fns k)) := by
  have hmem := List.mem_of_getElem? hi
  have hop : .other (.callProgramEnd fns k) ∈ t.code := by
    rw [h.main_code hs hmem hmain]
    exact List.mem_cons_self
  obtain ⟨n, hcell⟩ := Option.isSome_iff_exists.1 (hs.registered.isSome_call hmem hop)
  have hnodup : (k :: rest).Nodup := List.nodup_range.sublist h.suffix.sublist
  have hgone : Gone fns rest s n := by
    refine ⟨hs.lists.callable (.appended _ _ hcell), fun k' hk' hcell' => ?_⟩
    have hk : k = k' := hs.lists.once _ _ _ _ hcell hcell'
    exact (List.nodup_cons.1 hnodup).1 (hk ▸ hk')
  refine ⟨n, hcell, ⟨{ t with code := calls fns (some n) rest }, ?_, hmain, rfl⟩,
    (List.suffix_cons _ _).trans h.suffix, ?_, ?_, fun n' hn' => ?_, fun t₀ ht₀ => ?_⟩
  · obtain ⟨hlt, -⟩ := List.getElem?_eq_some_iff.1 hi
    refine List.mem_append_left _ ?_
    simp only [expand, hcell, Option.map_some, Option.toList_some, List.singleton_append]
    exact List.mem_set hlt _
  · have hlength := h.length
    simp only [Option.toList_none, Option.toList_some, List.length_nil, List.length_cons] at *
    omega
  · have htold : told.Nodup := by simpa using h.nodup
    refine List.nodup_append.2 ⟨htold, List.nodup_singleton _, fun n₁ hn₁ n₂ hn₂ => ?_⟩
    rw [List.mem_singleton.1 hn₂]
    rintro rfl
    exact (h.gone n₁ (List.mem_append_left _ hn₁)).absent k List.mem_cons_self hcell
  · rcases List.mem_append.1 hn' with hold | hnew
    · have hold := h.gone_step hs he n' (List.mem_append_left _ hold)
      exact ⟨hold.callable, fun k' hk' => hold.absent k' (List.mem_cons_of_mem _ hk')⟩
    · rw [List.mem_singleton.1 hnew]
      exact hgone.step hs he fun k' hk' => h.arr_lt hs k' (List.mem_cons_of_mem _ hk')
  · simp only [perform, started, List.append_nil] at ht₀
    rcases mem_set ht₀ with hold | rfl
    · exact h.returned t₀ hold
    · exact h.returned t hmem

/-- Who takes `done` returns, unless it is a signal loop. -/
theorem donePhase_eq_returned_iff (ht : Waiting t) :
    donePhase t = .returned ↔ t.name.ends := by
  cases hname : t.name with
  | signal c =>
      rw [donePhase, hname]
      refine ⟨fun hret => ?_, fun hends => absurd rfl (hends c)⟩
      rcases ht.returned hret with hn | ⟨c', hn⟩ <;> rw [hname] at hn <;> cases hn
  | _ =>
      rw [donePhase, hname]
      exact ⟨fun _ c hc => (by cases hc), fun _ => rfl⟩

/-- A loop takes `done`. -/
theorem HandingOver.release (h : HandingOver fns told cur rest s) (hs : Known s)
    (he : Steps starts s e
      ((s.put i { t with phase := donePhase t }).put j { t' with code := code }))
    (hi : s.threads[i]? = some t) (hj : s.threads[j]? = some t') (hnil : t.code = [])
    (hcode : t'.code = .other (.handOver t.name) :: code) :
    cur = some t.name ∧ HandingOver fns (told ++ [t.name]) none rest
      ((s.put i { t with phase := donePhase t }).put j { t' with code := code }) := by
  have hmem := List.mem_of_getElem? hi
  have hmem' := List.mem_of_getElem? hj
  have hmain := (hs.sound.sound _ hmem').main (hcode ▸ List.mem_cons_self) rfl
  obtain ⟨hne, hget⟩ := release_ne hi hj hnil hcode
  have hcalls := h.main_code hs hmem' hmain
  rw [hcode] at hcalls
  obtain ⟨n, rfl, hop, rfl⟩ | ⟨k, rest', -, -, hop, -⟩ | ⟨-, -, hop, -⟩ :=
    calls_eq_cons hcalls.symm
  · cases hop
    have hworker : t.name ≠ .worker :=
      h.ne_worker (List.mem_append_right _ (List.mem_singleton_self _))
    -- everybody else is told later or has been told before
    have hother : ∀ t₁ ∈ s.threads, t₁.name ≠ t.name → (t₁.phase = .returned ↔
        t₁.name ∈ told ++ [t.name] ∧ t₁.name.ends) := by
      intro t₁ ht₁ hname
      rw [h.returned t₁ ht₁, List.mem_append, List.mem_singleton, or_iff_left hname]
    refine ⟨rfl, ⟨{ t' with code := calls fns none rest }, ?_, hmain, rfl⟩, h.suffix, ?_, ?_,
      ?_, fun t₀ ht₀ => ?_⟩
    · obtain ⟨hlt, -⟩ := List.getElem?_eq_some_iff.1 (hget { t with phase := donePhase t })
      exact List.mem_set hlt _
    · have hlength := h.length
      simp only [Option.toList_none, Option.toList_some, List.length_nil, List.length_cons,
        List.length_append] at *
      omega
    · have hnodup := h.nodup
      simpa using hnodup
    · have hgone := h.gone_step hs he
      simpa using hgone
    · rcases mem_set ht₀ with hold | rfl
      · by_cases hname : t₀.name = t.name
        · have hnew : t₀ = { t with phase := donePhase t } := by
            have hset : Staged (s.put i { t with phase := donePhase t }).threads
                s.configurationChange :=
              hs.staged.set hi (hs.staged.advances_tail hi rfl (List.suffix_refl _))
            obtain ⟨hlt, -⟩ := List.getElem?_eq_some_iff.1 hi
            exact hset.eq_of_name hold (List.mem_set hlt _) hname (hname ▸ hworker)
          rw [hnew]
          simp only [donePhase_eq_returned_iff (hs.waiting t hmem), List.mem_append,
            List.mem_singleton, or_true, true_and]
        · rcases mem_set hold with hold | rfl
          · exact hother t₀ hold hname
          · exact absurd rfl hname
      · refine hother t' hmem' fun hname => hne ?_
        exact hs.staged.index_eq hi hj hname.symm hworker
  · cases hop
  · cases hop

/-- What a step comes to while `EndProgram` is at it. -/
inductive Goes (fns : Slice) (told : List Name) (cur : Option Name) (rest : List Nat)
    (s s' : Program) : Prop where
  | on (told' : List Name) (cur' : Option Name) (rest' : List Nat)
      (h : HandingOver fns told' cur' rest' s')
      (hexit : s'.status = .exited → s.status = .exited)
      (hfinds : finds s.arrays fns told' cur' rest' = finds s.arrays fns told cur rest)
  | exits (hexit : s'.status = .exited) (hcur : cur = none) (hrest : rest = [])
      (hreturned : ∀ t ∈ s'.threads, t.phase = .returned ↔ t.name ∈ told ∧ t.name.ends)

theorem exited_store (h : (store s ch a).status = .exited) : a = .exit ∨ s.status = .exited := by
  cases a with
  | exit => exact .inl rfl
  | sendConf _ | callProgramEnd _ _ =>
      simp only [store] at h
      split at h
      · exact .inr h
      · cases h
  | _ => exact .inr h

/-- Somebody does what is next in its code. -/
theorem HandingOver.action (h : HandingOver fns told cur rest s) (hs : Known s)
    (he : Steps starts s e (perform starts s i t code ch a))
    (hi : s.threads[i]? = some t) (hcode : t.code = .other a :: code)
    (henabled : enabled s a = true) :
    Goes fns told cur rest s (perform starts s i t code ch a) := by
  have hmem := List.mem_of_getElem? hi
  by_cases hmain : t.name = .main
  · have hcalls := h.main_code hs hmem hmain
    rw [hcode] at hcalls
    obtain ⟨n, rfl, hop, rfl⟩ | ⟨k, rest', rfl, rfl, hop, rfl⟩ | ⟨rfl, rfl, hop, rfl⟩ :=
      calls_eq_cons hcalls.symm
    · cases hop
      cases henabled
    · cases hop
      obtain ⟨n, hcell, hcalled⟩ := h.call hs he hi hmain
      refine .on told (some n) rest' hcalled (fun hexit => ?_) ?_
      · exact (exited_store hexit).resolve_left fun ha => by cases ha
      · simp [finds, hcell]
    · cases hop
      refine .exits rfl rfl rfl fun t₀ ht₀ => ?_
      simp only [perform, started, List.append_nil] at ht₀
      rcases mem_set ht₀ with hold | rfl
      · exact h.returned t₀ hold
      · exact h.returned t hmem
  · have hidle := (hs.waiting t hmem).idle (hcode ▸ List.cons_ne_nil _ _)
    have hmay := ((hs.sound.sound t hmem).permits hcode).2.1
    refine .on told cur rest (h.set hs he hi rfl hmain rfl ?_ fun t₀ ht₀ => ?_)
      (fun hexit => (exited_store hexit).resolve_left fun ha => ?_) rfl
    · cases a <;> simp [phaseAfter, hidle]
    · cases a with
      | go job =>
          rw [started, List.mem_singleton] at ht₀
          subst ht₀
          cases job with
          | loop n => exact absurd (main_of_may hmay rfl) hmain
          | _ => exact ⟨rfl, fun hret => by cases hret⟩
      | _ => cases ht₀
    · subst ha
      exact hmain (main_of_may hmay rfl)

theorem HandingOver.step (h : HandingOver fns told cur rest s) (hs : Known s)
    (he : Steps starts s e s') : Goes fns told cur rest s s' := by
  -- `main` neither locks nor unlocks, and always has something to do
  have hhead : ∀ {t op code}, t ∈ s.threads → t.code = op :: code →
      (∀ a, op ≠ .other a) → t.name ≠ .main := by
    intro t op code ht hcode hop hmain
    have hcalls := h.main_code hs ht hmain
    rw [hcode] at hcalls
    obtain ⟨n, -, heq, -⟩ | ⟨k, rest', -, -, heq, -⟩ | ⟨-, -, heq, -⟩ :=
      calls_eq_cons hcalls.symm <;> exact hop _ heq
  have hbusy : ∀ {t}, t ∈ s.threads → t.code = [] → t.name ≠ .main :=
    fun ht hnil hmain => calls_ne_nil ((h.main_code hs ht hmain).symm.trans hnil)
  have hnone : ∀ t ∈ ([] : List Goroutine), t.name = .worker ∧ t.phase ≠ .returned :=
    fun t ht => by cases ht
  have hstep := he
  cases he with
  | lock hi hcode hfree =>
      have hmain := hhead (List.mem_of_getElem? hi) hcode (by simp)
      exact .on told cur rest
        (h.set hs hstep hi (List.append_nil _).symm hmain rfl Iff.rfl hnone) id rfl
  | unlock hi hcode =>
      have hmain := hhead (List.mem_of_getElem? hi) hcode (by simp)
      exact .on told cur rest
        (h.set hs hstep hi (List.append_nil _).symm hmain rfl Iff.rfl hnone) id rfl
  | action hi hcode henabled => exact h.action hs hstep hi hcode henabled
  | input hi hnil hidle hfirst hcode =>
      have hmain := hbusy (List.mem_of_getElem? hi) hnil
      exact .on told cur rest
        (h.set hs hstep hi (List.append_nil _).symm hmain rfl Iff.rfl hnone) id rfl
  | release hi hj hnil hreceives hcode hevent =>
      obtain ⟨rfl, hreleased⟩ := h.release hs hstep hi hj hnil hcode
      refine .on _ none rest hreleased id ?_
      simp [finds]
  | poll hi hnil hphase halone hnext =>
      have hmain := hbusy (List.mem_of_getElem? hi) hnil
      refine .on told cur rest
        (h.set hs hstep hi (List.append_nil _).symm hmain rfl ?_ hnone) id rfl
      rcases hnext with rfl | ⟨progress, rfl⟩ <;> simp [hphase]
  | tick hi hnil hname hphase =>
      have hmain := hbusy (List.mem_of_getElem? hi) hnil
      refine .on told cur rest
        (h.set hs hstep hi (List.append_nil _).symm hmain rfl ?_ hnone) id rfl
      simp [hphase]

/-! ## Every state of a run -/

/-- `EndProgram` begins. -/
theorem handingOver_endProgram (hs : Known s) (hreturned : ∀ t ∈ s.threads, t.phase ≠ .returned)
    (hi : s.threads[i]? = some t) (hcode : t.code = .other .endProgram :: code) :
    HandingOver s.programEnd [] none (List.range s.programEnd.len)
      (perform starts s i t code ch .endProgram) := by
  have hmem := List.mem_of_getElem? hi
  have hop : .other .endProgram ∈ t.code := hcode ▸ List.mem_cons_self
  have hmain := (hs.sound.sound t hmem).main hop rfl
  have hlast := hs.last t hmem hop
  rw [hcode] at hlast
  cases hlast
  obtain ⟨hlt, -⟩ := List.getElem?_eq_some_iff.1 hi
  refine ⟨⟨_, List.mem_append_left _ (List.mem_set hlt _), hmain, rfl⟩, List.suffix_refl _, ?_,
    List.nodup_nil, fun n hn => (by cases hn), fun t₀ ht₀ => ?_⟩
  · simp
  · simp only [perform, started, List.append_nil] at ht₀
    have hnot : t₀.phase ≠ .returned := by
      rcases mem_set ht₀ with hold | rfl
      · exact hreturned t₀ hold
      · exact hreturned t hmem
    exact ⟨fun hret => absurd hret hnot, fun htold => by cases htold.1⟩

/-- A call has to do with the end of the program. -/
theorem endOp_of_needs (hneeds : needs op = some (6, 0, 0)) : endOp op = true := by
  cases op with
  | other a =>
      cases a with
      | callProgramEnd fns k => rfl
      | handOver n => rfl
      | go job => cases job <;> cases hneeds
      | getConfiguration r => cases r <;> cases hneeds
      | _ => cases hneeds
  | _ => cases hneeds

/-- Before `EndProgram` begins nobody is called, and nobody returns. -/
theorem ending_before (hs : Known s) (he : Steps starts s e s')
    (hreturned : ∀ t ∈ s.threads, t.phase ≠ .returned)
    (hcode : ∀ t ∈ s.threads, ∀ op ∈ t.code, needs op ≠ some (6, 0, 0)) : Ending s' := by
  have hset : ∀ {i : Nat} {t' : Goroutine}, t'.phase ≠ .returned →
      (∀ op ∈ t'.code, needs op ≠ some (6, 0, 0)) → ∀ t ∈ s.threads.set i t',
        t.phase ≠ .returned ∧ ∀ op ∈ t.code, needs op ≠ some (6, 0, 0) := by
    intro i t' hphase' hcode' t ht
    rcases mem_set ht with hold | rfl
    · exact ⟨hreturned t hold, hcode t hold⟩
    · exact ⟨hphase', hcode'⟩
  have hbefore : ∀ {s' : Program}, (∀ t ∈ s'.threads,
      t.phase ≠ .returned ∧ ∀ op ∈ t.code, needs op ≠ some (6, 0, 0)) → Ending s' :=
    fun h => .before (fun t ht => (h t ht).1) fun t ht => (h t ht).2
  have htail : ∀ {t : Goroutine} {op code}, t ∈ s.threads → t.code = op :: code →
      ∀ op ∈ code, needs op ≠ some (6, 0, 0) :=
    fun ht hcode' op hop => hcode _ ht op (hcode' ▸ List.mem_cons_of_mem _ hop)
  cases he with
  | lock hi hcode' hfree =>
      have hmem := List.mem_of_getElem? hi
      have hphase := hreturned _ hmem
      exact hbefore (hset hphase (htail hmem hcode'))
  | unlock hi hcode' =>
      have hmem := List.mem_of_getElem? hi
      have hphase := hreturned _ hmem
      exact hbefore (hset hphase (htail hmem hcode'))
  | action hi hcode' henabled =>
      rename_i i t a code ch
      have hmem := List.mem_of_getElem? hi
      by_cases hend : a = .endProgram
      · subst hend
        exact .during _ _ _ _ (handingOver_endProgram hs hreturned hi hcode')
      · refine hbefore fun t₀ ht₀ => ?_
        rcases List.mem_append.1 ht₀ with hold | hnew
        · refine hset ?_ (fun op hop hneeds => ?_) t₀ hold
          · cases a with
            | waitPeriod => exact fun hret => by cases hret
            | _ => exact hreturned t hmem
          · rcases List.mem_append.1 hop with hfresh | hrest
            · rcases needs_expand hfresh hneeds with hold | ⟨-, hp⟩ | ⟨ha, -⟩
              · exact hcode t hmem _ (hcode' ▸ List.mem_cons_self) hold
              · cases hp
              · exact hend ha
            · exact htail hmem hcode' op hrest hneeds
        · cases a with
          | go job =>
              rw [started, List.mem_singleton] at hnew
              subst hnew
              refine ⟨?_, fun op hop hneeds => ?_⟩
              · cases job <;> exact fun hret => by cases hret
              · have hpermits := ((hs.sound.sound t hmem).permits hcode').1
                rw [endOp_launch hpermits hop (endOp_of_needs hneeds)] at hneeds
                cases hneeds
          | _ => cases hnew
  | input hi hnil hidle hfirst hcode' =>
      have hphase := hreturned _ (List.mem_of_getElem? hi)
      refine hbefore (hset hphase fun op hop hneeds => ?_)
      rw [needs_respond hcode' op hop] at hneeds
      cases hneeds
  | release hi hj hnil hreceives hcode' hevent =>
      exact absurd rfl (hcode _ (List.mem_of_getElem? hj) _ (hcode' ▸ List.mem_cons_self))
  | poll hi hnil hphase halone hnext =>
      have hold := hcode _ (List.mem_of_getElem? hi)
      refine hbefore (hset ?_ hold)
      rcases hnext with rfl | ⟨progress, rfl⟩ <;> exact fun hret => by cases hret
  | tick hi hnil hname hphase =>
      refine hbefore (hset (fun hret => by cases hret) fun op hop hneeds => ?_)
      rw [needs_round op hop] at hneeds
      cases hneeds

theorem Ending.step (h : Ending s) (hs : Known s) (he : Steps starts s e s') :
    s'.status = .exited ∨ Ending s' := by
  cases h with
  | before hreturned hcode => exact .inr (ending_before hs he hreturned hcode)
  | during fns told cur rest h =>
      cases h.step hs he with
      | on told' cur' rest' h' hexit hfinds => exact .inr (.during fns told' cur' rest' h')
      | exits hexit hcur hrest hreturned => exact .inl hexit

theorem ending_start (conf : List Key) (pods : Nat) : Ending (start conf pods) := by
  refine .before (fun t ht => ?_) fun t ht op hop hneeds => ?_
  · rw [List.mem_singleton.1 ht]
    exact fun hret => by cases hret
  · rw [List.mem_singleton.1 ht] at hop
    cases endOp_programStart hop (endOp_of_needs hneeds)
    cases hneeds

/-- **As long as the process runs, nobody has been told yet, or `EndProgram` is at it.** -/
theorem ending_of_run (h : List Event) (s : Program)
    (hrun : run (step starts) (start conf pods) h = some s) (hrunning : s.status = .running) :
    Ending s := by
  refine run_invariant (I := fun _ s => s.status = .running → Ending s)
    (fun _ => ending_start conf pods) ?_ h s hrun hrunning
  intro h s e s' hrun hs he hrunning
  obtain ⟨hbefore, hsteps⟩ := steps_of_run hrun he
  rcases (hs hbefore).step (known_of_run hrun) hsteps with hexit | hending
  · rw [hexit] at hrunning
    cases hrunning
  · exact hending

end Kmon.Ports.Goroutines
