import Kmon.Ports.Registrations

/-!
# What will still start

`main` starts the loops one after the other, so a loop is there, or `main` is about to start
it (`Coming`).  What is done for the signal loop of a collector (a notification, a message, an
entry of `Manager`) comes out of the setup of that collector, in which the loop is started
next, so whatever is for a signal loop finds it, now or later (`coming_signal_of_run`).
-/

namespace Kmon.Ports.Goroutines

open Kmon.Verified
open Kmon.Verified.LockOrder
open Kmon.Verified.Run
open Kmon.Ports.ConfigDelivery (Kind Key)

variable {starts : Key → Bool} {s s' : Program} {e : Event} {i j : Nat} {t t' : Goroutine}
variable {n : Name} {code code' : Code} {a : Action} {c : Collector} {ch : Choice}
variable {threads : List Goroutine}

/-- Whoever makes a step keeps its name. -/
theorem exists_name_set (hi : threads[i]? = some t) (hname : t'.name = t.name)
    (h : ∃ t ∈ threads, t.name = n) : ∃ t ∈ threads.set i t', t.name = n := by
  have hmem : n ∈ (threads.set i t').map Goroutine.name := by
    rw [Pool.map_set_of_eq Goroutine.name hi hname]
    obtain ⟨t, ht, rfl⟩ := h
    exact List.mem_map_of_mem ht
  obtain ⟨t, ht, rfl⟩ := List.mem_map.1 hmem
  exact ⟨t, ht, rfl⟩

/-- Somebody is about to do something. -/
def Pending (s : Program) (a : Action) : Prop := ∃ t ∈ s.threads, .other a ∈ t.code

/-- A loop runs, or `main` is about to start it. -/
def Coming (s : Program) (n : Name) : Prop :=
  (∃ t ∈ s.threads, t.name = n) ∨ Pending s (.go (.loop n))

/-- The two goroutines of a hand-over are different ones. -/
theorem release_ne {code : Code} (hi : s.threads[i]? = some t) (hj : s.threads[j]? = some t')
    (hnil : t.code = []) {op : Op Mutex Action} (hcode : t'.code = op :: code) :
    i ≠ j ∧ ∀ t₀, (s.put i t₀).threads[j]? = some t' := by
  have hne : i ≠ j := by
    intro hij
    rw [hij, hj] at hi
    cases hi
    rw [hnil] at hcode
    cases hcode
  exact ⟨hne, fun t₀ => by rw [Program.put, List.getElem?_set_ne hne, hj]⟩

/-- Nobody is gone. -/
theorem exists_name_step (he : Steps starts s e s') (h : ∃ t ∈ s.threads, t.name = n) :
    ∃ t ∈ s'.threads, t.name = n := by
  cases he with
  | action hi hcode henabled =>
      rename_i i t a code ch
      have hset : ∃ t₀ ∈ s.threads.set i { t with
          code := expand starts s ch a ++ code
          phase := phaseAfter ch t.phase a }, t₀.name = n := exists_name_set hi rfl h
      obtain ⟨t₀, ht₀, hname⟩ := hset
      exact ⟨t₀, List.mem_append_left _ ht₀, hname⟩
  | release hi hj hnil hreceives hcode hevent =>
      obtain ⟨-, hget⟩ := release_ne hi hj hnil hcode
      exact exists_name_set (hget _) rfl (exists_name_set hi rfl h)
  | lock hi hcode hfree => exact exists_name_set hi rfl h
  | unlock hi hcode => exact exists_name_set hi rfl h
  | input hi hnil hidle hfirst hcode => exact exists_name_set hi rfl h
  | poll hi hnil hphase halone hnext => exact exists_name_set hi rfl h
  | tick hi hnil hname hphase => exact exists_name_set hi rfl h

theorem pending_put (hi : s.threads[i]? = some t)
    (hkeeps : .other a ∈ t.code → .other a ∈ t'.code) (h : Pending s a) :
    Pending (s.put i t') a := by
  obtain ⟨t₀, ht₀, hop⟩ := h
  obtain ⟨j, hj⟩ := List.mem_iff_getElem?.1 ht₀
  by_cases hij : i = j
  · subst hij
    rw [hi] at hj
    cases hj
    obtain ⟨hlt, -⟩ := List.getElem?_eq_some_iff.1 hi
    exact ⟨t', List.mem_set hlt _, hkeeps hop⟩
  · refine ⟨t₀, List.mem_of_getElem? (i := j) ?_, hop⟩
    rw [Program.put, List.getElem?_set_ne hij, hj]

/-- What somebody is about to do stays so until it is done. -/
theorem pending_step (he : Steps starts s e s') (hover : ∀ n, a ≠ .handOver n)
    (h : Pending s a) : Pending s' a ∨ ∃ i t code ch, s.threads[i]? = some t ∧
      t.code = .other a :: code ∧ s' = perform starts s i t code ch a := by
  have htail : ∀ {op : Op Mutex Action} {code code' : Code}, code' = op :: code →
      op ≠ .other a → .other a ∈ code' → .other a ∈ code := by
    intro op code code' hcode hop hmem
    rw [hcode] at hmem
    exact (List.mem_cons.1 hmem).resolve_left fun heq => hop heq.symm
  cases he with
  | lock hi hcode hfree => exact .inl (pending_put hi (htail hcode (by simp)) h)
  | unlock hi hcode => exact .inl (pending_put hi (htail hcode (by simp)) h)
  | action hi hcode henabled =>
      rename_i i t a' code ch
      by_cases ha : a' = a
      · subst ha
        exact .inr ⟨i, t, code, ch, hi, hcode, rfl⟩
      · have hput : Pending (s.put i { t with
            code := expand starts s ch a' ++ code
            phase := phaseAfter ch t.phase a' }) a := by
          refine pending_put hi (fun hop => List.mem_append_right _ ?_) h
          exact htail hcode (fun heq => ha (by cases heq; rfl)) hop
        obtain ⟨t₀, ht₀, hop⟩ := hput
        exact .inl ⟨t₀, List.mem_append_left _ ht₀, hop⟩
  | input hi hnil hidle hfirst hcode =>
      exact .inl (pending_put hi (fun hop => by rw [hnil] at hop; cases hop) h)
  | release hi hj hnil hreceives hcode hevent =>
      obtain ⟨-, hget⟩ := release_ne hi hj hnil hcode
      exact .inl (pending_put (hget _)
        (htail hcode fun heq => hover _ (by cases heq; rfl)) (pending_put hi id h))
  | poll hi hnil hphase halone hnext => exact .inl (pending_put hi id h)
  | tick hi hnil hname hphase =>
      exact .inl (pending_put hi (fun hop => by rw [hnil] at hop; cases hop) h)

theorem coming_step (he : Steps starts s e s') (h : Coming s n) : Coming s' n := by
  rcases h with hruns | hpending
  · exact .inl (exists_name_step he hruns)
  · rcases pending_step he (by simp) hpending with hpending | ⟨i, t, code, ch, hi, hcode, rfl⟩
    · exact .inr hpending
    · exact .inl ⟨launch ch (.loop n), List.mem_append_right _ (List.mem_singleton_self _), rfl⟩

/-- The collector to whose signal loop an operation leads a message. -/
def tells : Op Mutex Action → Option Collector
  | .other (.send (.AddCh c)) => some c
  | .other (.send (.DelCh c)) => some c
  | .other (.send (.ConfCh c)) => some c
  | .other (.go (.notifyChange c _)) => some c
  | .other (.setManager _ c) => some c
  | _ => none

/-- The collector a message is for. -/
def Message.collector : Message → Option Collector
  | AddCh c => some c
  | DelCh c => some c
  | ConfCh c => some c
  | dataCh _ => none

/-- There is something for the signal loop of a collector. -/
inductive Concerns (s : Program) (c : Collector) : Prop where
  | op (t : Goroutine) (ht : t ∈ s.threads) (op : Op Mutex Action) (hop : op ∈ t.code)
      (htells : tells op = some c)
  | message (m : Message) (hm : m ∈ s.queued) (hcollector : m.collector = some c)
  | manager (key : Key) (hkey : s.Manager.lookup key = some c)

/-- A goroutine leads to no collector that its start did not name. -/
theorem tells_job {held : List Mutex} {job : Job} {op : Op Mutex Action}
    (hpermits : permits held (.go job) = true) (hop : op ∈ job.code)
    (htells : tells op = some c) : tells (.other (.go job)) = some c := by
  cases job with
  | loop n => cases hop
  | notifyChange c' delta =>
      obtain ⟨state, -, rfl⟩ := List.mem_map.1 hop
      cases state <;> exact htells
  | pidBuffer =>
      rw [Job.code, mem_locked, List.mem_singleton] at hop
      rcases hop with rfl | rfl | rfl <;> cases htells
  | pidLis c' deltas =>
      have hnil : deltas = [] := List.isEmpty_iff.1 hpermits
      subst hnil
      cases hop
  | configurationChange =>
      rw [Job.code, mem_locked, List.mem_singleton] at hop
      rcases hop with rfl | rfl | rfl <;> cases htells
  | sender key =>
      rw [Job.code, List.mem_singleton] at hop
      subst hop
      cases htells
  | Export b =>
      obtain ⟨d, write, rfl⟩ := mem_Export hop
      cases htells

theorem tells_plain {op : Op Mutex Action} (hop : plain op = true) (htells : tells op = some c) :
    ∃ delta, op = .other (.go (.notifyChange c delta)) := by
  cases op with
  | other a =>
      cases a with
      | send m =>
          cases m with
          | dataCh b => cases htells
          | _ => cases hop
      | go job =>
          cases job with
          | notifyChange c' delta =>
              cases htells
              exact ⟨delta, rfl⟩
          | _ => cases hop
      | access d write => cases htells
      | next c' table seen => cases htells
      | _ => cases hop
  | _ => cases htells

theorem tells_getContainerFromPID {op : Op Mutex Action} (hop : op ∈ getContainerFromPID) :
    tells op = none := by
  rw [getContainerFromPID, mem_locked, List.mem_singleton] at hop
  rcases hop with rfl | rfl | rfl <;> rfl

theorem tells_sendData {b : Batch} {op : Op Mutex Action} (hop : op ∈ sendData b) :
    tells op = none := by
  unfold sendData at hop
  split at hop
  · cases hop
  · rw [List.mem_singleton.1 hop]
    rfl

/-- A loop over a table leads to no collector. -/
theorem tells_next {table : Table} {seen : Nat} {op : Op Mutex Action}
    (hop : op ∈ expand starts s ch (.next c table seen)) : tells op = none := by
  rw [expand] at hop
  split at hop
  · rcases List.mem_append.1 hop with hop | hop
    · cases table with
      | countMap =>
          rcases List.mem_append.1 hop with hop | hop
          · exact tells_getContainerFromPID hop
          · rw [List.mem_singleton.1 hop]
            rfl
      | distMap => rw [List.mem_singleton.1 hop]; rfl
      | controlMap => rw [List.mem_singleton.1 hop]; rfl
    · rw [List.mem_singleton.1 hop]
      rfl
  · cases table with
    | countMap => exact tells_sendData hop
    | distMap =>
        rcases List.mem_append.1 hop with hop | hop
        · obtain ⟨block, hblock, hmem⟩ := List.mem_flatten.1 hop
          rw [List.eq_of_mem_replicate hblock] at hmem
          exact tells_getContainerFromPID hmem
        · exact tells_sendData hop
    | controlMap => cases hop

theorem tells_expand {op : Op Mutex Action} (hop : op ∈ expand starts s ch a)
    (htells : tells op = some c) :
    .other (.go (.loop (.signal c))) ∈ expand starts s ch a := by
  cases a with
  | next c' table seen =>
      rw [tells_next hop] at htells
      cases htells
  | registerProgramEnd n =>
      rw [List.mem_singleton.1 hop] at htells
      cases htells
  | appendProgramEnd fns n =>
      rw [List.mem_singleton.1 hop] at htells
      cases htells
  | getConfiguration r =>
      cases r with
      | collectors =>
          obtain ⟨x, -, rfl⟩ := List.mem_map.1 hop
          cases htells
      | handler =>
          obtain ⟨key, -, rfl⟩ := List.mem_map.1 hop
          cases htells
      | exporters => cases hop
  | rangeConfigurationChange =>
      rw [List.eq_of_mem_replicate hop] at htells
      cases htells
  | rangeContainerPIDChange =>
      obtain ⟨fn, -, rfl⟩ := List.mem_map.1 hop
      cases fn <;> cases htells
  | startCollector c' key =>
      rw [expand] at hop ⊢
      split at hop
      · rename_i hstarts
        rw [if_pos hstarts]
        have hc : c' = c := by
          rw [startCollector, List.cons_append, List.mem_cons, List.mem_append] at hop
          rcases hop with rfl | hop | hop
          · cases htells
          · obtain ⟨delta, rfl⟩ := tells_plain (plain_onConfigChange c' ch op hop) htells
            have hmay := (fits_onConfigChange mayConfigure_signal ch).words _ hop
            exact (of_decide_eq_true hmay : c = c').symm
          · simp only [List.mem_cons, List.not_mem_nil, or_false] at hop
            rcases hop with rfl | rfl | rfl <;> cases htells
            rfl
        subst hc
        simp [startCollector]
      · cases hop
  | endProgram =>
      obtain ⟨k, -, rfl⟩ := List.mem_map.1 hop
      cases htells
  | callProgramEnd fns k =>
      obtain ⟨n, -, rfl⟩ := mem_expand_call hop
      cases htells
  | _ => cases hop

/-- The goroutines that are not there for a collector's PIDs lead to no collector. -/
theorem tells_of_may (hn : n = .watcher ∨ n = .controller ∨ n = .exporter ∨ ∃ c, n = .period c)
    {op : Op Mutex Action} (hmay : may n op = true) : tells op = none := by
  cases op with
  | other a =>
      cases a with
      | send m =>
          rcases hn with rfl | rfl | rfl | ⟨c, rfl⟩ <;> cases m <;> first | rfl | cases hmay
      | setManager key c => rcases hn with rfl | rfl | rfl | ⟨c, rfl⟩ <;> cases hmay
      | go job =>
          cases job with
          | notifyChange c delta => rcases hn with rfl | rfl | rfl | ⟨c, rfl⟩ <;> cases hmay
          | _ => rfl
      | _ => rfl
  | _ => rfl

theorem tells_round {op : Op Mutex Action} (hop : op ∈ round c ch) : tells op = none :=
  tells_of_may (.inr (.inr (.inr ⟨c, rfl⟩))) ((fits_round c ch).words op hop)

/-- Only a signal loop does something with an input that concerns a collector. -/
theorem tells_respond {x : Input} (h : respond n x = some code) {op : Op Mutex Action}
    (hop : op ∈ code) (htells : tells op = some c) : n = .signal c := by
  have hmay := (fits_respond h).words op hop
  cases n with
  | signal c' =>
      obtain ⟨delta, rfl⟩ := tells_plain (plain_respond h op hop) htells
      have hc : c = c' := of_decide_eq_true hmay
      rw [hc]
  | main =>
      cases x with
      | interrupt =>
          cases h
          simp only [List.mem_cons, List.not_mem_nil, or_false] at hop
          rcases hop with rfl | rfl <;> cases htells
      | _ => cases h
  | exporter =>
      rw [tells_of_may (.inr (.inr (.inl rfl))) hmay] at htells
      cases htells
  | watcher =>
      rw [tells_of_may (.inl rfl) hmay] at htells
      cases htells
  | controller =>
      rw [tells_of_may (.inr (.inl rfl)) hmay] at htells
      cases htells
  | period c' => cases x <;> cases h
  | worker => cases x <;> cases h

/-- A message for a collector follows from what concerned it before, or its signal loop is
about to start. -/
theorem concerns_step (hs : SoundProgram s) (he : Steps starts s e s')
    (h : Concerns s' c) : Concerns s c ∨ Coming s' (.signal c) := by
  -- a goroutine that makes a step without new code
  have hput : ∀ {i : Nat} {t t' : Goroutine}, s.threads[i]? = some t →
      (∀ op ∈ t'.code, op ∈ t.code) → Concerns (s.put i t') c → Concerns s c := by
    intro i t t' hi hcode h
    cases h with
    | op t₀ ht₀ op hop htells =>
        rcases mem_set ht₀ with hold | rfl
        · exact .op t₀ hold op hop htells
        · exact .op t (List.mem_of_getElem? hi) op (hcode op hop) htells
    | message m hm hcollector => exact .message m hm hcollector
    | manager key hkey => exact .manager key hkey
  cases he with
  | lock hi hcode hfree =>
      refine .inl (hput hi (fun op hop => ?_) h)
      exact hcode ▸ List.mem_cons_of_mem _ hop
  | unlock hi hcode =>
      refine .inl (hput hi (fun op hop => ?_) h)
      exact hcode ▸ List.mem_cons_of_mem _ hop
  | action hi hcode henabled =>
      rename_i i t a code ch
      have hmem := List.mem_of_getElem? hi
      have hpermits := ((hs.sound t hmem).permits hcode).1
      cases h with
      | op t₀ ht₀ op hop htells =>
          rcases List.mem_append.1 ht₀ with hold | hnew
          · rcases mem_set hold with hold | rfl
            · exact .inl (.op t₀ hold op hop htells)
            · rcases List.mem_append.1 hop with hfresh | hrest
              · refine .inr (.inr ⟨_, List.mem_append_left _ hold, ?_⟩)
                exact List.mem_append_left _ (tells_expand hfresh htells)
              · exact .inl (.op t hmem op (hcode ▸ List.mem_cons_of_mem _ hrest) htells)
          · cases a with
            | go job =>
                rw [started, List.mem_singleton] at hnew
                subst hnew
                cases job with
                | loop n =>
                    cases n with
                    | period c' =>
                        rcases List.mem_cons.1 hop with rfl | hop
                        · cases htells
                        · rw [tells_round hop] at htells
                          cases htells
                    | signal c' =>
                        rw [List.mem_singleton.1 hop] at htells
                        cases htells
                    | _ => cases hop
                | _ =>
                    have htells := tells_job hpermits hop htells
                    exact .inl (.op t hmem _ (hcode ▸ List.mem_cons_self) htells)
            | _ => cases hnew
      | message m hm hcollector =>
          rcases List.mem_append.1 hm with hold | hnew
          · exact .inl (.message m hold hcollector)
          · cases a with
            | send m' =>
                rw [sent, List.mem_singleton] at hnew
                subst hnew
                refine .inl (.op t hmem _ (hcode ▸ List.mem_cons_self) ?_)
                cases m <;> exact hcollector
            | sendConf key =>
                rw [sent, Option.mem_toList, Option.map_eq_some_iff] at hnew
                obtain ⟨c', hkey, rfl⟩ := hnew
                cases hcollector
                exact .inl (.manager key hkey)
            | _ => cases hnew
      | manager key hkey =>
          cases a with
          | setManager key' c' =>
              rw [show (perform starts s i t code ch (.setManager key' c')).Manager =
                s.Manager.insert key' c' from rfl, GoMap.lookup_insert_ite] at hkey
              split at hkey
              · have htells : tells (.other (.setManager key' c')) = some c := hkey
                exact .inl (.op t hmem _ (hcode ▸ List.mem_cons_self) htells)
              · exact .inl (.manager key hkey)
          | sendConf _ | callProgramEnd _ _ =>
              simp only [perform, store] at hkey
              split at hkey <;> exact .inl (.manager key hkey)
          | _ => exact .inl (.manager key hkey)
  | input hi hnil hidle hfirst hcode =>
      rename_i i t x code
      cases h with
      | op t₀ ht₀ op hop htells =>
          rcases mem_set ht₀ with hold | rfl
          · exact .inl (.op t₀ hold op hop htells)
          · exact .inr (.inl ⟨_, ht₀, tells_respond hcode hop htells⟩)
      | message m hm hcollector =>
          refine .inl (.message m ?_ hcollector)
          cases hmessage : message t.name x with
          | none =>
              rw [hmessage] at hm
              exact hm
          | some m' =>
              rw [hmessage] at hm
              exact List.mem_of_mem_erase hm
      | manager key hkey => exact .inl (.manager key hkey)
  | release hi hj hnil hreceives hcode hevent =>
      rename_i i j t t' code
      cases h with
      | op t₀ ht₀ op hop htells =>
          rcases mem_set ht₀ with hold | rfl
          · rcases mem_set hold with hold | rfl
            · exact .inl (.op t₀ hold op hop htells)
            · exact .inl (.op t (List.mem_of_getElem? hi) op hop htells)
          · exact .inl (.op t' (List.mem_of_getElem? hj) op
              (hcode ▸ List.mem_cons_of_mem _ hop) htells)
      | message m hm hcollector => exact .inl (.message m hm hcollector)
      | manager key hkey => exact .inl (.manager key hkey)
  | poll hi hnil hphase halone hnext =>
      refine .inl (hput hi (fun op hop => ?_) h)
      exact hop
  | tick hi hnil hname hphase =>
      rename_i i t c' ch
      cases h with
      | op t₀ ht₀ op hop htells =>
          rcases mem_set ht₀ with hold | rfl
          · exact .inl (.op t₀ hold op hop htells)
          · rw [tells_round hop] at htells
            cases htells
      | message m hm hcollector => exact .inl (.message m hm hcollector)
      | manager key hkey => exact .inl (.manager key hkey)

/-! ## Every state of a run -/

theorem not_concerns_start (conf : List Key) (pods : Nat) : ¬Concerns (start conf pods) c := by
  intro hc
  cases hc with
  | op t ht op hop htells =>
      rw [List.mem_singleton.1 ht] at hop
      replace hop : op ∈ programStart pods := hop
      rw [programStart, List.mem_append, List.mem_append] at hop
      rcases hop with (hop | hop) | hop
      · simp only [List.mem_cons, List.not_mem_nil, or_false] at hop
        rcases hop with rfl | rfl <;> cases htells
      · obtain ⟨block, hblock, hmem⟩ := List.mem_flatten.1 hop
        rw [List.eq_of_mem_replicate hblock] at hmem
        cases tells_respond (n := .controller) (x := .pods) rfl hmem htells
      · simp only [List.mem_cons, List.not_mem_nil, or_false] at hop
        rcases hop with rfl | rfl | rfl | rfl | rfl <;> cases htells
  | message m hm hcollector => cases hm
  | manager key hkey => cases hkey

theorem coming_start {pods : Nat} (conf : List Key)
    (hop : .other (.go (.loop n)) ∈ programStart pods) : Coming (start conf pods) n :=
  .inr ⟨_, List.mem_singleton_self _, hop⟩

variable {conf : List Key} {pods : Nat}

/-- A loop that `programStart` starts is there or will be. -/
theorem coming_of_run (hop : .other (.go (.loop n)) ∈ programStart pods) (h : List Event)
    (s : Program) (hrun : run (step starts) (start conf pods) h = some s) : Coming s n := by
  refine run_invariant (I := fun _ s => Coming s n) (coming_start conf hop) ?_ h s hrun
  intro h s e s' hrun hs he
  exact coming_step (steps_of_run hrun he).2 hs

/-- **What is done for a signal loop finds it, or will.** -/
theorem coming_signal_of_run (h : List Event) (s : Program)
    (hrun : run (step starts) (start conf pods) h = some s) (hc : Concerns s c) :
    Coming s (.signal c) := by
  refine run_invariant (I := fun _ s => Concerns s c → Coming s (.signal c))
    (fun hc => absurd hc (not_concerns_start conf pods)) ?_ h s hrun hc
  intro h s e s' hrun hs he hc
  obtain ⟨-, hsteps⟩ := steps_of_run hrun he
  rcases concerns_step (sound_of_run h s hrun) hsteps hc with hold | hcoming
  · exact coming_step hsteps (hs hold)
  · exact hcoming

end Kmon.Ports.Goroutines
