import Kmon.Ports.ComingLoops
import Kmon.Ports.Terminates

/-!
# The functions for the end of the program

A loop that wants to be told of the end registers a function that hands over `done` to it.
Registrations may be lost, and one may take the place of another in an array that
`EndProgram` is ranging over.

`lists_of_run` is what holds whichever of this happens: a loop registers once, it runs when its
function is in an array or is called, and it is in no array twice.  So a loop that is found in
an array will not be put into one again (`Callable`).
-/

namespace Kmon.Ports.Goroutines

open Kmon.Verified
open Kmon.Verified.GoSlice
open Kmon.Verified.LockOrder
open Kmon.Verified.Run
open Kmon.Ports.ConfigDelivery (Kind Key)

/-- A step of the registration of a loop, up to the one in which it is appended. -/
def registers (n : Name) : Op Mutex Action → Bool
  | .other (.registerProgramEnd n') => n' = n
  | .other (.appendProgramEnd _ n') => n' = n
  | _ => false

/-- A function is in an array, or about to be called. -/
inductive Listed (threads : List Goroutine) (arrays : Heap Name) (n : Name) : Prop where
  | appended (a k : Nat) (h : arrays.cells a k = some n)
  | called (t : Goroutine) (ht : t ∈ threads) (hop : .other (.handOver n) ∈ t.code)

/-- Every loop registers once, runs when it is listed, and is in no array twice. -/
structure Lists (threads : List Goroutine) (arrays : Heap Name) : Prop where
  single : ∀ t ∈ threads, ∀ n, t.code.countP (registers n) ≤ 1
  fresh : ∀ t ∈ threads, ∀ n, ∀ op ∈ t.code, registers n op = true → ¬Listed threads arrays n
  runs : ∀ n, Listed threads arrays n → ∃ t ∈ threads, t.name = n
  loop : ∀ n, Listed threads arrays n → n = .watcher ∨ n.ofCollector = true
  once : Once arrays

/-- A loop that runs and has been appended. -/
structure Callable (threads : List Goroutine) (n : Name) : Prop where
  runs : ∃ t ∈ threads, t.name = n
  loop : n = .watcher ∨ n.ofCollector = true
  past : ∀ t ∈ threads, ∀ op ∈ t.code, registers n op = false

/-- A goroutine that starts registers at most itself, and is the only one of its name. -/
structure Starting (threads : List Goroutine) (t : Goroutine) : Prop where
  called : ∀ n, .other (.handOver n) ∉ t.code
  own : ∀ n, ∀ op ∈ t.code, registers n op = true → n = t.name ∧ n ≠ .worker
  single : ∀ n, t.code.countP (registers n) ≤ 1
  alone : t.name ≠ .worker → ∀ t' ∈ threads, t'.name ≠ t.name

variable {starts : Key → Bool} {s s' : Program} {e : Event} {i j : Nat} {t t' m : Goroutine}
variable {n : Name} {code code' : Code} {a : Action} {c : Collector} {ch : Choice}
variable {op : Op Mutex Action}
variable {threads : List Goroutine} {arrays : Heap Name} {fns fns' : Slice}

/-! ## Who registers -/

theorem registers_of_endOp (hop : endOp op = false) : registers n op = false := by
  cases op with
  | other a =>
      cases a with
      | registerProgramEnd n' => cases hop
      | appendProgramEnd fns n' => cases hop
      | _ => rfl
  | _ => rfl

/-- The code of an action registers nobody whom the action did not. -/
theorem registers_expand (hop : op ∈ expand starts s ch a) (hreg : registers n op = true) :
    registers n (.other a) = true := by
  cases a with
  | registerProgramEnd n' =>
      rw [List.mem_singleton.1 hop] at hreg
      exact hreg
  | appendProgramEnd fns n' =>
      rw [List.mem_singleton.1 hop] at hreg
      cases hreg
  | endProgram =>
      obtain ⟨k, -, rfl⟩ := List.mem_map.1 hop
      cases hreg
  | callProgramEnd fns k =>
      obtain ⟨n', -, rfl⟩ := mem_expand_call hop
      cases hreg
  | storeProgramEnd fns => cases hop
  | handOver n' => cases hop
  | exit => cases hop
  | _ =>
      rw [registers_of_endOp (endOp_expand rfl op hop)] at hreg
      cases hreg

theorem registers_round (hop : op ∈ round c ch) : registers n op = false :=
  registers_of_endOp (endOp_round hop)

/-- A goroutine that starts registers at most itself. -/
theorem registers_launch {held : List Mutex} {job : Job}
    (hpermits : permits held (.go job) = true) (hop : op ∈ (launch ch job).code)
    (hreg : registers n op = true) : n = (launch ch job).name ∧ n.ofCollector = true := by
  cases job with
  | loop n' =>
      cases n' with
      | period c =>
          rcases List.mem_cons.1 hop with rfl | hop
          · have hn : .period c = n := of_decide_eq_true hreg
            exact ⟨hn.symm, hn ▸ rfl⟩
          · rw [registers_round hop] at hreg
            cases hreg
      | signal c =>
          rw [List.mem_singleton.1 hop] at hreg
          have hn : .signal c = n := of_decide_eq_true hreg
          exact ⟨hn.symm, hn ▸ rfl⟩
      | _ => cases hop
  | _ =>
      rw [registers_of_endOp (endOp_job hpermits hop)] at hreg
      cases hreg

/-- It does so once. -/
theorem countP_launch {held : List Mutex} {job : Job}
    (hpermits : permits held (.go job) = true) :
    (launch ch job).code.countP (registers n) ≤ 1 := by
  cases job with
  | loop n' =>
      cases n' with
      | period c =>
          have hround : (round c ch).countP (registers n) = 0 :=
            List.countP_eq_zero.2 fun op hop => by simp [registers_round hop]
          simp only [launch, firstCode, List.countP_cons, hround]
          split <;> decide
      | signal c => exact List.countP_le_length
      | _ => exact Nat.zero_le _
  | _ =>
      rw [List.countP_eq_zero.2 fun op hop => by
        simp [registers_of_endOp (endOp_job hpermits hop)]]
      exact Nat.zero_le _

/-- Who can be about to register a function. -/
theorem name_of_registers {n' : Name} (hmay : may n op = true) (hreg : registers n' op = true) :
    n = .main ∧ n' = .watcher ∨ n' = n ∧ n'.ofCollector = true := by
  have hcases : ∀ a, op = .other a → mayDo n a = true →
      (a = .registerProgramEnd n' ∨ ∃ fns, a = .appendProgramEnd fns n') →
        n = .main ∧ n' = .watcher ∨ n' = n ∧ n'.ofCollector = true := by
    intro a _ hmay ha
    cases n with
    | main => rcases ha with rfl | ⟨fns, rfl⟩ <;> exact .inl ⟨rfl, of_decide_eq_true hmay⟩
    | period c =>
        have hn : n' = .period c := by
          rcases ha with rfl | ⟨fns, rfl⟩ <;> exact of_decide_eq_true hmay
        exact .inr ⟨hn, hn ▸ rfl⟩
    | signal c =>
        have hn : n' = .signal c := by
          rcases ha with rfl | ⟨fns, rfl⟩ <;> exact of_decide_eq_true hmay
        exact .inr ⟨hn, hn ▸ rfl⟩
    | _ => rcases ha with rfl | ⟨fns, rfl⟩ <;> cases hmay
  cases op with
  | other a =>
      cases a with
      | registerProgramEnd n₀ =>
          have hn : n₀ = n' := of_decide_eq_true hreg
          exact hcases _ rfl hmay (.inl (by rw [hn]))
      | appendProgramEnd fns n₀ =>
          have hn : n₀ = n' := of_decide_eq_true hreg
          exact hcases _ rfl hmay (.inr ⟨fns, by rw [hn]⟩)
      | _ => cases hreg
  | _ => cases hreg

/-- Nobody else is about to register the same function. -/
theorem registers_unique (hs : SoundProgram s)
    (hstaged : Staged s.threads s.configurationChange)
    (hi : s.threads[i]? = some t) (hj : s.threads[j]? = some t')
    (hop : op ∈ t.code) (hreg : registers n op = true) {op' : Op Mutex Action}
    (hop' : op' ∈ t'.code) (hreg' : registers n op' = true) : i = j := by
  have hmay := (hs.sound t (List.mem_of_getElem? hi)).words _ hop
  have hmay' := (hs.sound t' (List.mem_of_getElem? hj)).words _ hop'
  rcases name_of_registers hmay hreg with ⟨hmain, hn⟩ | ⟨hn, hloop⟩
  · rcases name_of_registers hmay' hreg' with ⟨hmain', -⟩ | ⟨-, hloop⟩
    · exact hstaged.index_eq hi hj (hmain.trans hmain'.symm) (by rw [hmain]; decide)
    · rw [hn] at hloop
      cases hloop
  · rcases name_of_registers hmay' hreg' with ⟨-, hn'⟩ | ⟨hn', -⟩
    · rw [hn'] at hloop
      cases hloop
    · refine hstaged.index_eq hi hj (hn.symm.trans hn') fun hworker => ?_
      rw [hn, hworker] at hloop
      cases hloop

theorem span_of_registers (hreg : registers n op = true) :
    span op = some ((0, 0, 1), (0, 0, 1)) := by
  cases op with
  | other a =>
      cases a with
      | registerProgramEnd n' => rfl
      | appendProgramEnd fns n' => rfl
      | _ => cases hreg
  | _ => cases hreg

/-- A loop is there when it is registered: the watcher was started before. -/
theorem runs_of_registers (hs : SoundProgram s)
    (hstaged : Staged s.threads s.configurationChange) (hwatcher : Coming s .watcher)
    (ht : t ∈ s.threads) (hcode : t.code = op :: code) (hreg : registers n op = true) :
    (∃ t ∈ s.threads, t.name = n) ∧ (n = .watcher ∨ n.ofCollector = true) := by
  have hmay := (hs.sound t ht).words op (hcode ▸ List.mem_cons_self)
  rcases name_of_registers hmay hreg with ⟨hmain, rfl⟩ | ⟨hn, hloop⟩
  · refine ⟨?_, .inl rfl⟩
    rcases hwatcher with hruns | ⟨t₀, ht₀, hop⟩
    · exact hruns
    · exfalso
      have hmain₀ := (hs.sound t₀ ht₀).main hop rfl
      have hsame : t₀ = t :=
        hstaged.eq_of_name ht₀ ht (hmain₀.trans hmain.symm) (by rw [hmain₀]; decide)
      subst hsame
      have hsorted := hstaged.sorted t₀ ht hmain
      rw [hcode] at hsorted hop
      have hlt : Before (0, 0, 1) (0, 0, 0) := by
        refine before_tail hsorted (span_of_registers hreg) ((0, 0, 0), (0, 0, 0)) ?_
        refine List.mem_filterMap.2 ⟨.other (.go (.loop .watcher)), ?_, rfl⟩
        refine (List.mem_cons.1 hop).resolve_left fun heq => ?_
        rw [← heq] at hreg
        cases hreg
      exact absurd hlt (by decide)
  · exact ⟨⟨t, ht, hn.symm⟩, .inr hloop⟩

/-! ## One step of the lists -/

/-- A goroutine goes on without a new registration, and calls only what is listed. -/
structure Keeps (threads : List Goroutine) (arrays : Heap Name) (t t' : Goroutine) : Prop where
  name : t'.name = t.name
  count : ∀ n, t'.code.countP (registers n) ≤ t.code.countP (registers n)
  called : ∀ n, .other (.handOver n) ∈ t'.code → Listed threads arrays n

theorem Keeps.mem (h : Keeps threads arrays t t') (hop : op ∈ t'.code)
    (hreg : registers n op = true) : ∃ op ∈ t.code, registers n op = true := by
  have hpos : 0 < t'.code.countP (registers n) := List.countP_pos_iff.2 ⟨op, hop, hreg⟩
  exact List.countP_pos_iff.1 (Nat.lt_of_lt_of_le hpos (h.count n))

theorem Listed.of_set (ht : Keeps threads arrays t t')
    (h : Listed (threads.set i t') arrays n) : Listed threads arrays n := by
  cases h with
  | appended a k h => exact .appended a k h
  | called t₀ ht₀ hop =>
      rcases mem_set ht₀ with hold | rfl
      · exact .called t₀ hold hop
      · exact ht.called n hop

theorem Lists.set (h : Lists threads arrays) (hi : threads[i]? = some t)
    (ht : Keeps threads arrays t t') : Lists (threads.set i t') arrays where
  single := by
    intro t₀ ht₀ n
    rcases mem_set ht₀ with hold | rfl
    · exact h.single t₀ hold n
    · exact Nat.le_trans (ht.count n) (h.single t (List.mem_of_getElem? hi) n)
  fresh := by
    intro t₀ ht₀ n op hop hreg hlisted
    rcases mem_set ht₀ with hold | rfl
    · exact h.fresh t₀ hold n op hop hreg (hlisted.of_set ht)
    · obtain ⟨op', hop', hreg'⟩ := ht.mem hop hreg
      exact h.fresh t (List.mem_of_getElem? hi) n op' hop' hreg' (hlisted.of_set ht)
  runs n hlisted := exists_name_set hi ht.name (h.runs n (hlisted.of_set ht))
  loop n hlisted := h.loop n (hlisted.of_set ht)
  once := h.once

theorem Lists.append (h : Lists threads arrays) (ht : Starting threads t) :
    Lists (threads ++ [t]) arrays := by
  have hlisted : ∀ n, Listed (threads ++ [t]) arrays n → Listed threads arrays n := by
    intro n hn
    cases hn with
    | appended a k h => exact .appended a k h
    | called t₀ ht₀ hop =>
        rcases List.mem_append.1 ht₀ with hold | hlast
        · exact .called t₀ hold hop
        · rw [List.mem_singleton.1 hlast] at hop
          exact absurd hop (ht.called n)
  constructor
  · intro t₀ ht₀ n
    rcases List.mem_append.1 ht₀ with hold | hlast
    · exact h.single t₀ hold n
    · rw [List.mem_singleton.1 hlast]
      exact ht.single n
  · intro t₀ ht₀ n op hop hreg hn
    rcases List.mem_append.1 ht₀ with hold | hlast
    · exact h.fresh t₀ hold n op hop hreg (hlisted n hn)
    · rw [List.mem_singleton.1 hlast] at hop
      obtain ⟨rfl, hworker⟩ := ht.own n op hop hreg
      obtain ⟨t₁, ht₁, hname⟩ := h.runs _ (hlisted _ hn)
      exact ht.alone hworker t₁ ht₁ hname
  · intro n hn
    obtain ⟨t₁, ht₁, hname⟩ := h.runs n (hlisted n hn)
    exact ⟨t₁, List.mem_append_left _ ht₁, hname⟩
  · exact fun n hn => h.loop n (hlisted n hn)
  · exact h.once

/-- A loop is appended. -/
theorem Lists.appended (h : Lists threads arrays) (hn : Callable threads n)
    (hnew : ¬Listed threads arrays n) {g : Growth} :
    Lists threads (GoSlice.append g arrays fns n).1 := by
  have hlisted : ∀ n', Listed threads (GoSlice.append g arrays fns n).1 n' →
      n' = n ∨ Listed threads arrays n' := by
    intro n' hn'
    cases hn' with
    | appended a k hcell =>
        obtain ⟨b, horigin⟩ := append_cells_origin g arrays fns n a
        rcases horigin k n' hcell with ⟨heq, -⟩ | hold
        · exact .inl heq
        · exact .inr (.appended b k hold)
    | called t ht hop => exact .inr (.called t ht hop)
  refine ⟨h.single, fun t ht n' op hop hreg hn' => ?_, fun n' hn' => ?_, fun n' hn' => ?_, ?_⟩
  · rcases hlisted n' hn' with rfl | hold
    · rw [hn.past t ht op hop] at hreg
      cases hreg
    · exact h.fresh t ht n' op hop hreg hold
  · rcases hlisted n' hn' with rfl | hold
    · exact hn.runs
    · exact h.runs n' hold
  · rcases hlisted n' hn' with rfl | hold
    · exact hn.loop
    · exact h.loop n' hold
  · exact h.once.append fun a k hcell => hnew (.appended a k hcell)

/-- Who is listed has been appended. -/
theorem Lists.callable (h : Lists threads arrays) (hn : Listed threads arrays n) :
    Callable threads n := by
  refine ⟨h.runs n hn, h.loop n hn, fun t ht op hop => ?_⟩
  cases hreg : registers n op with
  | false => rfl
  | true => exact absurd hn (h.fresh t ht n op hop hreg)

/-- New code takes the place of an operation. -/
theorem keeps_cons (ht : t ∈ threads) (hcode : t.code = op :: code) (hname : t'.name = t.name)
    (hcode' : t'.code = code' ++ code)
    (hcount : ∀ n, code'.countP (registers n) ≤ [op].countP (registers n))
    (hcalled : ∀ n, .other (.handOver n) ∈ code' → Listed threads arrays n) :
    Keeps threads arrays t t' := by
  refine ⟨hname, fun n => ?_, fun n hop => ?_⟩
  · rw [hcode, hcode', ← List.singleton_append, List.countP_append, List.countP_append]
    exact Nat.add_le_add_right (hcount n) _
  · rw [hcode'] at hop
    rcases List.mem_append.1 hop with hfresh | hrest
    · exact hcalled n hfresh
    · exact .called t ht (hcode ▸ List.mem_cons_of_mem _ hrest)

/-- A goroutine goes on with what is left of its code. -/
theorem keeps_suffix (ht : t ∈ threads) (hname : t'.name = t.name)
    (hcode : t'.code <:+ t.code) : Keeps threads arrays t t' :=
  ⟨hname, fun _ => hcode.sublist.countP_le, fun _ hop => .called t ht (hcode.subset hop)⟩

/-- A goroutine that has nothing to do gets code in which nobody registers or is called. -/
theorem keeps_fresh (hname : t'.name = t.name)
    (hnew : ∀ op ∈ t'.code, ∀ n, registers n op = false ∧ op ≠ .other (.handOver n)) :
    Keeps threads arrays t t' := by
  refine ⟨hname, fun n => ?_, fun n hop => absurd rfl (hnew _ hop n).2⟩
  rw [List.countP_eq_zero.2 fun op hop => by rw [(hnew op hop n).1]; simp]
  exact Nat.zero_le _

theorem ne_handOver_of_endOp (hop : endOp op = false) : op ≠ .other (.handOver n) := by
  rintro rfl
  cases hop

/-- The code of an action. -/
theorem keeps_action (ht : t ∈ s.threads) (hcode : t.code = .other a :: code)
    (hname : t'.name = t.name) (hcode' : t'.code = expand starts s ch a ++ code) :
    Keeps s.threads s.arrays t t' := by
  refine keeps_cons ht hcode hname hcode' (fun n => ?_) fun n hop => ?_
  · cases a with
    | registerProgramEnd n' =>
        refine Nat.le_of_eq ?_
        by_cases hn : n' = n <;> simp [expand, registers, hn]
    | _ =>
        rw [List.countP_eq_zero.2 fun op hop hreg => ?_]
        · exact Nat.zero_le _
        · first
          | cases registers_expand hop hreg
          | (rw [List.mem_singleton.1 hop] at hreg; cases hreg)
  · cases a with
    | callProgramEnd fns k =>
        obtain ⟨n', hcell, heq⟩ := mem_expand_call hop
        cases heq
        exact .appended _ _ hcell
    | registerProgramEnd n' => cases List.mem_singleton.1 hop
    | appendProgramEnd fns n' => cases List.mem_singleton.1 hop
    | endProgram =>
        obtain ⟨k, -, heq⟩ := List.mem_map.1 hop
        cases heq
    | storeProgramEnd fns => cases hop
    | handOver n' => cases hop
    | exit => cases hop
    | _ => exact absurd rfl (ne_handOver_of_endOp (endOp_expand rfl _ hop))

/-! ## One step of the program -/

theorem starting_launch {held : List Mutex} {job : Job} {handlers : Nat}
    (hpermits : permits held (.go job) = true)
    (hstaged : Staged (threads ++ [launch ch job]) handlers) :
    Starting threads (launch ch job) := by
  refine ⟨fun n hop => ?_, fun n op hop hreg => ?_, fun n => countP_launch hpermits,
    fun hloop t' ht' hname => ?_⟩
  · cases endOp_launch hpermits hop rfl
  · obtain ⟨hn, hcollector⟩ := registers_launch hpermits hop hreg
    refine ⟨hn, fun hworker => ?_⟩
    rw [hworker] at hcollector
    cases hcollector
  · -- no loop runs twice
    have hunique := hstaged.unique
    rw [List.map_append, List.map_singleton] at hunique
    have hworker := (List.pairwise_append.1 hunique).2.2 t'.name (List.mem_map_of_mem ht') _
      (List.mem_singleton_self _) hname
    exact hloop (hname ▸ hworker)

/-- **What a step does to the goroutines, but for an array that `append` writes to.** -/
theorem threads_step (hs : SoundProgram s) (hstaged : Staged s.threads s.configurationChange)
    (he : Steps starts s e s') {P : List Goroutine → Prop}
    (hset : ∀ threads i t t', P threads → threads[i]? = some t →
      Keeps threads s.arrays t t' → P (threads.set i t'))
    (hlaunch : ∀ threads t, P threads → Starting threads t → P (threads ++ [t]))
    (h : P s.threads) : P s'.threads := by
  have hstaged' := hstaged.step hs.sound he
  cases he with
  | lock hi hcode hfree =>
      refine hset _ _ _ _ h hi (keeps_suffix (List.mem_of_getElem? hi) rfl ?_)
      exact hcode ▸ List.suffix_cons _ _
  | unlock hi hcode =>
      refine hset _ _ _ _ h hi (keeps_suffix (List.mem_of_getElem? hi) rfl ?_)
      exact hcode ▸ List.suffix_cons _ _
  | action hi hcode henabled =>
      rename_i i t a code ch
      have hmem := List.mem_of_getElem? hi
      have hperformed : P (s.threads.set i { t with
          code := expand starts s ch a ++ code
          phase := phaseAfter ch t.phase a }) :=
        hset _ _ _ _ h hi (keeps_action hmem hcode rfl rfl)
      by_cases hgo : ∃ job, a = .go job
      · obtain ⟨job, rfl⟩ := hgo
        have hpermits := ((hs.sound t hmem).permits hcode).1
        exact hlaunch _ _ hperformed (starting_launch hpermits hstaged')
      · have hnil : started ch a = [] := started_eq_nil fun job ha => hgo ⟨job, ha⟩
        simp only [perform, hnil, List.append_nil]
        exact hperformed
  | input hi hnil hidle hfirst hcode =>
      rename_i i t x code
      refine hset _ _ _ _ h hi (keeps_fresh rfl fun op hop n => ?_)
      by_cases hmain : t.name = .main
      · rw [hmain] at hcode
        cases x <;> cases hcode
        simp only [List.mem_cons, List.not_mem_nil, or_false] at hop
        rcases hop with rfl | rfl <;> exact ⟨rfl, by simp⟩
      · have hend := endOp_respond hcode hmain op hop
        exact ⟨registers_of_endOp hend, ne_handOver_of_endOp hend⟩
  | release hi hj hnil hreceives hcode hevent =>
      obtain ⟨-, hget⟩ := release_ne hi hj hnil hcode
      refine hset _ _ _ _ (hset _ _ _ _ h hi ?_) (hget _) ?_
      · exact keeps_suffix (List.mem_of_getElem? hi) rfl (List.suffix_refl _)
      · refine keeps_suffix (List.mem_of_getElem? (hget _)) rfl ?_
        exact hcode ▸ List.suffix_cons _ _
  | poll hi hnil hphase halone hnext =>
      exact hset _ _ _ _ h hi (keeps_suffix (List.mem_of_getElem? hi) rfl (List.suffix_refl _))
  | tick hi hnil hname hphase =>
      refine hset _ _ _ _ h hi (keeps_fresh rfl fun op hop n => ?_)
      have hend := endOp_round hop
      exact ⟨registers_of_endOp hend, ne_handOver_of_endOp hend⟩

/-- Who has been appended once is not appended again. -/
theorem Callable.step (h : Callable s.threads n) (hs : SoundProgram s)
    (hstaged : Staged s.threads s.configurationChange) (he : Steps starts s e s') :
    Callable s'.threads n := by
  refine threads_step hs hstaged he (P := fun threads => Callable threads n) ?_ ?_ h
  · intro threads i t t' h hi ht
    refine ⟨exists_name_set hi ht.name h.runs, h.loop, fun t₀ ht₀ op hop => ?_⟩
    rcases mem_set ht₀ with hold | rfl
    · exact h.past t₀ hold op hop
    · cases hreg : registers n op with
      | false => rfl
      | true =>
          obtain ⟨op', hop', hreg'⟩ := ht.mem hop hreg
          rw [h.past t (List.mem_of_getElem? hi) op' hop'] at hreg'
          cases hreg'
  · intro threads t h ht
    obtain ⟨t₁, ht₁, hname⟩ := h.runs
    refine ⟨⟨t₁, List.mem_append_left _ ht₁, hname⟩, h.loop, fun t₀ ht₀ op hop => ?_⟩
    rcases List.mem_append.1 ht₀ with hold | hlast
    · exact h.past t₀ hold op hop
    · rw [List.mem_singleton.1 hlast] at hop
      cases hreg : registers n op with
      | false => rfl
      | true =>
          obtain ⟨hn, hworker⟩ := ht.own n op hop hreg
          rw [hn] at hname hworker
          exact absurd hname (ht.alone hworker t₁ ht₁)

/-- Nothing but `append` writes to an array. -/
theorem arrays_store (ha : ∀ fns n, a ≠ .appendProgramEnd fns n) :
    (store s ch a).arrays = s.arrays := by
  cases a with
  | appendProgramEnd fns n => exact absurd rfl (ha fns n)
  | sendConf _ | callProgramEnd _ _ =>
      simp only [store]
      split <;> rfl
  | _ => rfl

/-- A step that writes to an array. -/
theorem arrays_step (he : Steps starts s e s') : s'.arrays = s.arrays ∨
    ∃ i t code fns n ch, s.threads[i]? = some t ∧
      t.code = .other (.appendProgramEnd fns n) :: code ∧
        s' = perform starts s i t code ch (.appendProgramEnd fns n) := by
  cases he with
  | action hi hcode henabled =>
      rename_i i t a code ch
      by_cases ha : ∃ fns n, a = .appendProgramEnd fns n
      · obtain ⟨fns, n, rfl⟩ := ha
        exact .inr ⟨i, t, code, fns, n, ch, hi, hcode, rfl⟩
      · exact .inl (arrays_store fun fns n heq => ha ⟨fns, n, heq⟩)
  | _ => exact .inl rfl

/-- A loop has been appended. -/
theorem Lists.callable_append (h : Lists s.threads s.arrays) (hs : SoundProgram s)
    (hstaged : Staged s.threads s.configurationChange) (hwatcher : Coming s .watcher)
    (hi : s.threads[i]? = some t) (hcode : t.code = .other (.appendProgramEnd fns n) :: code)
    (hname : t'.name = t.name) (hcode' : t'.code = .other (.storeProgramEnd fns') :: code) :
    Callable (s.threads.set i t') n := by
  have hmem := List.mem_of_getElem? hi
  have hreg : registers n (.other (.appendProgramEnd fns n)) = true := decide_eq_true rfl
  obtain ⟨hruns, hloop⟩ := runs_of_registers hs hstaged hwatcher hmem hcode hreg
  refine ⟨exists_name_set hi hname hruns, hloop, fun t₀ ht₀ op hop => ?_⟩
  cases hreg' : registers n op with
  | false => rfl
  | true =>
      exfalso
      obtain ⟨j, hj⟩ := List.mem_iff_getElem?.1 ht₀
      by_cases hij : i = j
      · subst hij
        obtain ⟨hlt, -⟩ := List.getElem?_eq_some_iff.1 hi
        rw [List.getElem?_set_self hlt] at hj
        cases hj
        rw [hcode'] at hop
        rcases List.mem_cons.1 hop with rfl | hop
        · cases hreg'
        · have hpos : 0 < code.countP (registers n) := List.countP_pos_iff.2 ⟨op, hop, hreg'⟩
          have hsingle := h.single t hmem n
          rw [hcode, List.countP_cons_of_pos hreg] at hsingle
          omega
      · rw [List.getElem?_set_ne hij] at hj
        refine hij (registers_unique hs hstaged hi hj ?_ hreg hop hreg')
        exact hcode ▸ List.mem_cons_self

theorem Lists.step (h : Lists s.threads s.arrays) (hs : SoundProgram s)
    (hstaged : Staged s.threads s.configurationChange) (hwatcher : Coming s .watcher)
    (he : Steps starts s e s') : Lists s'.threads s'.arrays := by
  rcases arrays_step he with harrays | ⟨i, t, code, fns, n, ch, hi, hcode, rfl⟩
  · rw [harrays]
    refine threads_step hs hstaged he (P := fun threads => Lists threads s.arrays) ?_ ?_ h
    · exact fun threads i t t' h hi ht => h.set hi ht
    · exact fun threads t h ht => h.append ht
  · have hmem := List.mem_of_getElem? hi
    have hkeeps : Keeps s.threads s.arrays t { t with
        code := expand starts s ch (.appendProgramEnd fns n) ++ code
        phase := phaseAfter ch t.phase (.appendProgramEnd fns n) } :=
      keeps_action hmem hcode rfl rfl
    have hset := h.set hi hkeeps
    simp only [perform, started, List.append_nil]
    refine hset.appended ?_ fun hlisted => ?_
    · exact h.callable_append hs hstaged hwatcher hi hcode rfl rfl
    · refine h.fresh t hmem n _ (hcode ▸ List.mem_cons_self) ?_ (hlisted.of_set hkeeps)
      exact decide_eq_true rfl

/-! ## Every state of a run -/

theorem countP_programStart (pods : Nat) : (programStart pods).countP (registers n) ≤ 1 := by
  have hpods : (List.replicate pods setContainerPIDs).flatten.countP (registers n) = 0 := by
    rw [List.countP_eq_zero]
    intro op hop hreg
    obtain ⟨block, hblock, hmem⟩ := List.mem_flatten.1 hop
    rw [List.eq_of_mem_replicate hblock] at hmem
    have hend := endOp_respond (n := .controller) (x := .pods) rfl (by decide) op hmem
    rw [registers_of_endOp hend] at hreg
    cases hreg
  rw [programStart, List.countP_append, List.countP_append, hpods]
  by_cases hn : n = .watcher
  · subst hn
    decide
  · simp [registers, Ne.symm hn]

theorem not_listed_start (conf : List Key) (pods : Nat) :
    ¬Listed (start conf pods).threads (start conf pods).arrays n := by
  intro hn
  cases hn with
  | appended a k h => cases h
  | called t ht hop =>
      rw [List.mem_singleton.1 ht] at hop
      cases endOp_programStart hop rfl

theorem lists_start (conf : List Key) (pods : Nat) :
    Lists (start conf pods).threads (start conf pods).arrays where
  single t ht n := by
    rw [List.mem_singleton.1 ht]
    exact countP_programStart pods
  fresh _ _ _ _ _ _ := not_listed_start conf pods
  runs _ hn := absurd hn (not_listed_start conf pods)
  loop _ hn := absurd hn (not_listed_start conf pods)
  once _ _ _ _ hcell := by cases hcell

variable {conf : List Key} {pods : Nat}

/-- The watcher is there before its function. -/
theorem coming_watcher_of_run (h : List Event) (s : Program)
    (hrun : run (step starts) (start conf pods) h = some s) : Coming s .watcher :=
  coming_of_run (by simp [programStart]) h s hrun

/-- **In every state of a run the loops register once, and each is in an array once.** -/
theorem lists_of_run (h : List Event) (s : Program)
    (hrun : run (step starts) (start conf pods) h = some s) : Lists s.threads s.arrays := by
  refine run_invariant (I := fun _ s => Lists s.threads s.arrays) (lists_start conf pods) ?_
    h s hrun
  intro h s e s' hrun hs he
  exact hs.step (sound_of_run h s hrun) (staged_of_run h s hrun) (coming_watcher_of_run h s hrun)
    (steps_of_run hrun he).2

end Kmon.Ports.Goroutines
