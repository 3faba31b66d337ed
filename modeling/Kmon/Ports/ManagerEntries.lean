import Kmon.Ports.Registrations

/-!
# The entries of Manager

A goroutine that sends a section to its collector takes the channel out of `Manager`
without looking whether there is an entry, so a name without one brings the program down
(`MissingCollectors`, once the setup is over).  `Setup` fills `Manager` while the watcher of
the configuration file is running already: the configuration may change before the
collectors are started, between two of them, or before the handler is registered.

Where all configurations name the same collectors, and these can be started, none of that
does any harm.  A sender is the work of a handler, which is registered when all sections
are through, and until then every name has its entry or an operation of `main` that is
still to make it (`provided_or_stored`).  `not_crashed_of_names` is the result.
-/

namespace Kmon.Ports.Goroutines

open Kmon.Verified
open Kmon.Verified.GoSlice
open Kmon.Verified.LockOrder
open Kmon.Verified.Run
open Kmon.Ports.ConfigDelivery (Key)

variable {starts : Key → Bool} {s s' : Program} {e : Event} {i : Nat} {t t' : Goroutine}
variable {n : Name} {code : Code} {a : Action} {ch : Choice} {op : Op Mutex Action}
variable {threads : List Goroutine} {keys : Finset Key} {key : Key}

/-- A configuration names these collectors. -/
def Names (keys : Finset Key) (conf : List Key) : Prop := ∀ key, key ∈ conf ↔ key ∈ keys

/-- An operation that sends to a collector sends to one of these, and one that stores a
configuration stores one with these names. -/
def knows (keys : Finset Key) : Op Mutex Action → Prop
  | .other (.sendConf key) => key ∈ keys
  | .other (.go (.sender key)) => key ∈ keys
  | .other (.setConfiguration conf) => Names keys conf
  | _ => True

/-- An operation that makes the entry of a name. -/
def provides (key : Key) : Op Mutex Action → Prop
  | .other (.getConfiguration .collectors) => True
  | .other (.startCollector _ key') => key' = key
  | .other (.setManager key' _) => key' = key
  | _ => False

/-- `main` has still to make the entry. -/
def Provided (threads : List Goroutine) (key : Key) : Prop :=
  ∃ m ∈ threads, m.name = .main ∧ ∃ op ∈ m.code, provides key op

/-- Only these names are sent to, and each has its entry or will have it. -/
structure Stocked (keys : Finset Key) (s : Program) : Prop where
  configuration : Names keys s.configuration
  knows : ∀ t ∈ s.threads, ∀ op ∈ t.code, knows keys op
  provided_or_stored : ∀ key ∈ keys, Provided s.threads key ∨ key ∈ s.Manager
  alive : s.status ≠ .crashed

/-! ## Names -/

/-- Only the watcher and the goroutines that it brings about deal with names. -/
theorem knows_of_may (hmay : may n op = true) (hwatcher : n ≠ .watcher)
    (hworker : n ≠ .worker) : knows keys op := by
  cases n with
  | watcher => exact absurd rfl hwatcher
  | worker => exact absurd rfl hworker
  | _ =>
      cases op with
      | other a =>
          cases a with
          | go job =>
              cases job with
              | sender key => cases hmay
              | _ => trivial
          | sendConf key => cases hmay
          | setConfiguration conf => cases hmay
          | _ => trivial
      | _ => trivial

/-- The code of an action deals with the names of the stored configuration. -/
theorem knows_expand (hsound : SoundProgram s) (hconf : Names keys s.configuration)
    (hpermits : permits t.held a = true) (hmay : mayDo t.name a = true) :
    ∀ op ∈ expand starts s ch a, knows keys op := by
  intro op hop
  have hword := (fits_expand hsound.unheard hpermits hmay).words op hop
  by_cases hname : t.name ≠ .watcher ∧ t.name ≠ .worker
  · exact knows_of_may hword hname.1 hname.2
  have hname : t.name = .watcher ∨ t.name = .worker := by tauto
  generalize t.name = n at hname hmay
  cases a with
  | getConfiguration r =>
      cases r with
      | handler =>
          obtain ⟨key, hkey, rfl⟩ := List.mem_map.1 hop
          exact (hconf key).1 hkey
      | _ => rcases hname with rfl | rfl <;> cases hmay
  | rangeConfigurationChange =>
      rw [List.eq_of_mem_replicate hop]
      trivial
  | registerProgramEnd n => rcases hname with rfl | rfl <;> cases hmay
  | appendProgramEnd fns n => rcases hname with rfl | rfl <;> cases hmay
  | next c table seen => rcases hname with rfl | rfl <;> cases hmay
  | rangeContainerPIDChange => rcases hname with rfl | rfl <;> cases hmay
  | startCollector c key => rcases hname with rfl | rfl <;> cases hmay
  | endProgram => rcases hname with rfl | rfl <;> cases hmay
  | callProgramEnd fns k => rcases hname with rfl | rfl <;> cases hmay
  | _ => cases hop

/-- A goroutine that was started deals with the names its start dealt with. -/
theorem knows_launch {job : Job} (hpermits : permits t.held (.go job) = true)
    (hmay : mayDo t.name (.go job) = true) (hknows : knows keys (.other (.go job))) :
    ∀ op ∈ (launch ch job).code, knows keys op := by
  intro op hop
  have hword := (fits_launch hpermits hmay ch).2.words op hop
  cases job with
  | loop n =>
      cases n with
      | watcher => cases hop
      | worker =>
          have hmain : t.name = .main := main_of_may hmay rfl
          rw [hmain] at hmay
          exact absurd hmay (by decide)
      | _ => exact knows_of_may hword (by simp [launch]) (by simp [launch])
  | notifyChange c delta =>
      obtain ⟨state, -, rfl⟩ := List.mem_map.1 hop
      trivial
  | pidBuffer =>
      have hop : op ∈ Job.pidBuffer.code := hop
      rw [Job.code, mem_locked, List.mem_singleton] at hop
      rcases hop with rfl | rfl | rfl <;> trivial
  | pidLis c deltas =>
      have hnil : deltas = [] := List.isEmpty_iff.1 hpermits
      subst hnil
      cases hop
  | configurationChange =>
      have hop : op ∈ Job.configurationChange.code := hop
      rw [Job.code, mem_locked, List.mem_singleton] at hop
      rcases hop with rfl | rfl | rfl <;> trivial
  | sender key =>
      have hop : op ∈ [Op.other (Action.sendConf key)] := hop
      rw [List.mem_singleton] at hop
      subst hop
      exact hknows
  | Export b =>
      obtain ⟨d, write, rfl⟩ := mem_Export hop
      trivial

/-- The watcher stores what was written. -/
theorem knows_respond {x : Input} (h : respond n x = some code)
    (hwritten : ∀ conf, x = .write conf → Names keys conf) : ∀ op ∈ code, knows keys op := by
  intro op hop
  have hword := (fits_respond h).words op hop
  cases n with
  | watcher =>
      cases x with
      | write conf =>
          cases h
          rw [setConfiguration, List.mem_append, mem_locked] at hop
          simp only [List.mem_singleton] at hop
          rcases hop with (rfl | rfl | rfl) | rfl
          · trivial
          · exact hwritten conf rfl
          · trivial
          · trivial
      | _ => cases h
  | worker => cases x <;> cases h
  | _ => exact knows_of_may hword (by simp) (by simp)

/-! ## Entries -/

/-- What is still to be done for an entry comes before the handler is registered. -/
theorem not_before_of_provides (h : provides key op) :
    ∃ q ∈ span op, ¬Before (3, 0, 1) q.1 := by
  cases op with
  | other a =>
      cases a with
      | getConfiguration r =>
          cases r with
          | collectors => exact ⟨_, rfl, by decide⟩
          | _ => exact h.elim
      | startCollector c key' => exact ⟨_, rfl, by simp [Before]⟩
      | setManager key' c => exact ⟨_, rfl, by simp [Before]⟩
      | _ => exact h.elim
  | _ => exact h.elim

/-- With the handler registered, all entries are there. -/
theorem Clear.not_provided (h : Clear threads (3, 0, 1)) : ¬Provided threads key := by
  rintro ⟨m, hm, hmain, op, hop, hprovides⟩
  obtain ⟨q, hq, hbefore⟩ := not_before_of_provides hprovides
  exact hbefore (h m hm hmain q (List.mem_filterMap.2 ⟨op, hop, hq⟩))

/-- A goroutine makes a step and keeps what it has to do for an entry. -/
theorem Provided.set (h : Provided threads key) (hi : threads[i]? = some t)
    (hname : t'.name = t.name)
    (hcode : ∀ op ∈ t.code, provides key op → ∃ op' ∈ t'.code, provides key op') :
    Provided (threads.set i t') key := by
  obtain ⟨m, hm, hmain, op, hop, hprovides⟩ := h
  obtain ⟨j, hj⟩ := List.mem_iff_getElem?.1 hm
  by_cases hij : i = j
  · subst hij
    rw [hi] at hj
    cases hj
    obtain ⟨hlt, -⟩ := List.getElem?_eq_some_iff.1 hi
    exact ⟨t', List.mem_of_getElem? (List.getElem?_set_self hlt), hname.trans hmain,
      hcode op hop hprovides⟩
  · have hj' : (threads.set i t')[j]? = some m := by
      rw [List.getElem?_set_ne hij, hj]
    exact ⟨m, List.mem_of_getElem? hj', hmain, op, hop, hprovides⟩

/-- An action for an entry makes it, or leaves code that will. -/
theorem provides_action (hconf : Names keys s.configuration) (hkey : key ∈ keys)
    (hstarts : starts key = true) (h : provides key (.other a)) :
    (∃ op ∈ expand starts s ch a, provides key op) ∨ key ∈ (store s ch a).Manager := by
  cases a with
  | getConfiguration r =>
      cases r with
      | collectors =>
          obtain ⟨k, hk⟩ := List.mem_iff_getElem?.1 ((hconf key).2 hkey)
          refine .inl ⟨.other (.startCollector ⟨k, key.1⟩ key), ?_, rfl⟩
          exact List.mem_map.2 ⟨(key, k), List.mem_zipIdx_iff_getElem?.2 hk, rfl⟩
      | _ => exact h.elim
  | startCollector c key' =>
      have hkey' : key' = key := h
      subst hkey'
      refine .inl ⟨.other (.setManager key' c), ?_, rfl⟩
      rw [expand, if_pos hstarts, startCollector]
      simp
  | setManager key' c =>
      have hkey' : key' = key := h
      exact .inr (Finmap.mem_insert.2 (.inl hkey'.symm))
  | _ => exact h.elim

/-- Entries stay. -/
theorem mem_Manager_store (h : key ∈ s.Manager) : key ∈ (store s ch a).Manager := by
  cases a with
  | setManager key' c => exact Finmap.mem_insert.2 (.inr h)
  | sendConf _ | callProgramEnd _ _ =>
      simp only [store]
      split <;> exact h
  | _ => exact h

/-! ## Steps -/

/-- The configuration that is stored has the names. -/
theorem names_store (hconf : Names keys s.configuration) (hknows : knows keys (.other a)) :
    Names keys (store s ch a).configuration := by
  cases a with
  | setConfiguration conf => exact hknows
  | sendConf _ | callProgramEnd _ _ =>
      simp only [store]
      split <;> exact hconf
  | _ => exact hconf

/-- A goroutine makes a step in which the shared variables stay as they are. -/
theorem Stocked.put (h : Stocked keys s) (hi : s.threads[i]? = some t)
    (hname : t'.name = t.name) (hknows : ∀ op ∈ t'.code, Goroutines.knows keys op)
    (hcode : ∀ key, ∀ op ∈ t.code, provides key op → op ∈ t'.code) :
    Stocked keys (s.put i t') where
  configuration := h.configuration
  knows t₀ ht₀ := by
    rcases mem_set ht₀ with hold | rfl
    · exact h.knows t₀ hold
    · exact hknows
  provided_or_stored key hkey :=
    (h.provided_or_stored key hkey).imp_left fun hprovided =>
      hprovided.set hi hname fun op hop hprovides => ⟨op, hcode key op hop hprovides, hprovides⟩
  alive := h.alive

/-- A goroutine is done with an operation that makes no entry. -/
theorem Stocked.tail (h : Stocked keys s) (hi : s.threads[i]? = some t)
    (hcode : t.code = op :: code) (hop : ∀ {key}, ¬provides key op) {held : List Mutex} :
    Stocked keys (s.put i { t with held := held, code := code }) := by
  have hknows := h.knows t (List.mem_of_getElem? hi)
  rw [hcode] at hknows
  refine h.put hi rfl (List.forall_mem_cons.1 hknows).2 fun key op' hop' hprovides => ?_
  rw [hcode] at hop'
  rcases List.mem_cons.1 hop' with rfl | hrest
  · exact absurd hprovides hop
  · exact hrest

/-- A sender finds its entry, and `EndProgram` a function. -/
theorem Stocked.alive_store (h : Stocked keys s)
    (hstaged : Staged s.threads s.configurationChange) (hregistered : Registered Filled s)
    (hi : s.threads[i]? = some t) (hcode : t.code = .other a :: code) :
    (store s ch a).status ≠ .crashed := by
  cases a with
  | sendConf key =>
      have hmem := List.mem_of_getElem? hi
      have hop : Op.other (Action.sendConf key) ∈ t.code := hcode ▸ List.mem_cons_self
      have hclear := hstaged.passed (3, 0, 1) (.needed t hmem _ hop rfl)
      have hentry : key ∈ s.Manager :=
        (h.provided_or_stored key (h.knows t hmem _ hop)).resolve_left hclear.not_provided
      have hsome : (s.Manager.lookup key).isSome = true := Finmap.lookup_isSome.2 hentry
      simp only [store, if_pos hsome]
      exact h.alive
  | callProgramEnd fns k =>
      have hsome := hregistered.isSome_call (List.mem_of_getElem? hi)
        (hcode ▸ List.mem_cons_self)
      simp only [store, if_pos hsome]
      exact h.alive
  | exit => exact fun hcrashed => by cases hcrashed
  | _ => exact h.alive

/-- An action is done. -/
theorem Stocked.action (h : Stocked keys s) (hstarts : ∀ key ∈ keys, starts key = true)
    (hsound : SoundProgram s) (hstaged : Staged s.threads s.configurationChange)
    (hregistered : Registered Filled s) (hi : s.threads[i]? = some t)
    (hcode : t.code = .other a :: code) :
    Stocked keys (perform starts s i t code ch a) := by
  have hmem := List.mem_of_getElem? hi
  have hknows := h.knows t hmem
  rw [hcode] at hknows
  obtain ⟨ha, htail⟩ := List.forall_mem_cons.1 hknows
  obtain ⟨hpermits, hmay, -⟩ := (hsound.sound t hmem).permits hcode
  refine ⟨names_store h.configuration ha, fun t₀ ht₀ op hop => ?_, fun key hkey => ?_,
    h.alive_store hstaged hregistered hi hcode⟩
  · rcases List.mem_append.1 ht₀ with hset | hnew
    · rcases mem_set hset with hold | rfl
      · exact h.knows t₀ hold op hop
      · rcases List.mem_append.1 hop with hexpand | hrest
        · exact knows_expand hsound h.configuration hpermits hmay op hexpand
        · exact htail op hrest
    · by_cases hgo : ∃ job, a = .go job
      · obtain ⟨job, rfl⟩ := hgo
        rw [List.mem_singleton.1 hnew] at hop
        exact knows_launch hpermits hmay ha op hop
      · rw [started_eq_nil fun job ha => hgo ⟨job, ha⟩] at hnew
        cases hnew
  · by_cases hentry : key ∈ (store s ch a).Manager
    · exact .inr hentry
    -- the entry is not made yet, so it is still to be made
    have hprovided : Provided s.threads key :=
      (h.provided_or_stored key hkey).resolve_right fun hold => hentry (mem_Manager_store hold)
    have hset : Provided (s.threads.set i { t with
        code := expand starts s ch a ++ code
        phase := phaseAfter ch t.phase a }) key := by
      refine hprovided.set hi rfl fun op hop hprovides => ?_
      rw [hcode] at hop
      rcases List.mem_cons.1 hop with rfl | hrest
      · rcases provides_action h.configuration hkey (hstarts key hkey) hprovides with
          ⟨op', hop', hprovides'⟩ | hstored
        · exact ⟨op', List.mem_append_left _ hop', hprovides'⟩
        · exact absurd hstored hentry
      · exact ⟨op, List.mem_append_right _ hrest, hprovides⟩
    obtain ⟨m, hm, hmain⟩ := hset
    exact .inl ⟨m, List.mem_append_left _ hm, hmain⟩

/-- What is written to the file during the run has the names. -/
def Written (keys : Finset Key) : Event → Prop
  | .input _ (.write conf) => Names keys conf
  | _ => True

theorem Stocked.step (h : Stocked keys s) (hstarts : ∀ key ∈ keys, starts key = true)
    (hsound : SoundProgram s) (hstaged : Staged s.threads s.configurationChange)
    (hregistered : Registered Filled s) (hwritten : Written keys e)
    (he : Steps starts s e s') : Stocked keys s' := by
  cases he with
  | lock hi hcode hfree => exact h.tail hi hcode id
  | unlock hi hcode => exact h.tail hi hcode id
  | action hi hcode henabled => exact h.action hstarts hsound hstaged hregistered hi hcode
  | input hi hnil hidle hfirst hcode =>
      rename_i i t x code
      have hput : Stocked keys (s.put i { t with code := code }) := h.put hi rfl
        (knows_respond hcode fun conf hx => by subst hx; exact hwritten)
        fun key op hop => by rw [hnil] at hop; cases hop
      exact ⟨hput.configuration, hput.knows, hput.provided_or_stored, hput.alive⟩
  | release hi hj hnil hreceives hcode hevent =>
      rename_i i j t t' code
      have hput : Stocked keys (s.put i { t with phase := donePhase t }) := h.put hi rfl
        (h.knows t (List.mem_of_getElem? hi)) fun _ _ hop _ => hop
      have hne : i ≠ j := by
        intro hij
        rw [hij, hj] at hi
        cases hi
        rw [hnil] at hcode
        cases hcode
      have hj' : (s.put i { t with phase := donePhase t }).threads[j]? = some t' := by
        show (s.threads.set i _)[j]? = some t'
        rw [List.getElem?_set_ne hne, hj]
      exact hput.tail hj' hcode id
  | poll hi hnil hphase halone hnext =>
      rename_i i t period progress phase
      exact h.put hi rfl (h.knows t (List.mem_of_getElem? hi)) fun _ _ hop _ => hop
  | tick hi hnil hname hphase =>
      rename_i i t c ch
      refine h.put hi rfl (fun op hop => ?_) fun key op hop => by rw [hnil] at hop; cases hop
      exact knows_of_may ((fits_round c ch).words op hop) (by simp) (by simp)

/-- What `main` begins with sends to nobody, and asks for the collectors. -/
theorem stocked_start {conf : List Key} (hconf : Names keys conf) (pods : Nat) :
    Stocked keys (start conf pods) where
  configuration := hconf
  knows t ht op hop := by
    rw [List.mem_singleton.1 ht] at hop
    exact knows_of_may ((fits_programStart pods).words op hop) (by simp) (by simp)
  provided_or_stored key _ := by
    refine .inl ⟨_, List.mem_singleton_self _, rfl, .other (.getConfiguration .collectors), ?_,
      trivial⟩
    rw [programStart]
    simp
  alive hcrashed := by cases hcrashed

/-- **Configurations that name the same collectors do not bring the program down.**  If
the one it was started with and all that are written to the file name the same collectors,
and these can be started, no interleaving dereferences an entry that is not there,
whenever the file is written. -/
theorem not_crashed_of_names {conf : List Key} {pods : Nat} {h : List Event}
    (hstarts : ∀ key ∈ keys, starts key = true) (hconf : Names keys conf)
    (hwritten : ∀ e ∈ h, Written keys e) (hrun : run (step starts) (start conf pods) h = some s) :
    s.status ≠ .crashed := by
  have hinv : ∀ h s, run (step starts) (start conf pods) h = some s →
      (∀ e ∈ h, Written keys e) → Stocked keys s := by
    refine run_invariant (fun _ => stocked_start hconf pods) fun h s e s' hrun hs he hall => ?_
    obtain ⟨hwritten, hearlier⟩ := List.forall_mem_cons.1 hall
    exact (hs hearlier).step hstarts (sound_of_run h s hrun) (staged_of_run h s hrun)
      (registered_of_run h s hrun) hwritten (steps_of_run hrun he).2
  exact (hinv h s hrun hwritten).alive

/-- The file is written when the collector is set up, and the new section is sent. -/
def delivered : List Event :=
  .exec 8 calm :: List.replicate 3 (.exec 7 calm) ++ watcherSteps 5 ++ mainSteps 21

/-- The sender finds the channel of its collector. -/
theorem not_crashed_of_names_delivered :
    ∃ s, run (step fun _ => true) (start [(.ColFcount, "calls")] 0) delivered = some s ∧
      s.queued = [.ConfCh single] ∧ s.status ≠ .crashed := by
  have hqueued : (run (step fun _ => true) (start [(.ColFcount, "calls")] 0) delivered).map
      Program.queued = some [.ConfCh single] := by decide
  obtain ⟨s, hs, hconfCh⟩ := Option.map_eq_some_iff.1 hqueued
  have hnames : Names {(.ColFcount, "calls")} [(.ColFcount, "calls")] := by simp [Names]
  refine ⟨s, hs, hconfCh, not_crashed_of_names (fun _ _ => rfl) hnames (fun e he => ?_) hs⟩
  cases e with
  | input i x =>
      cases x with
      | write conf =>
          have hwrite : i = 1 ∧ conf = [(.ColFcount, "calls")] := by
            simpa [delivered, watcherSteps, mainSteps] using he
          exact hwrite.2 ▸ hnames
      | _ => trivial
  | _ => trivial

end Kmon.Ports.Goroutines
