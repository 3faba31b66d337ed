import Kmon.Ports.ConfigDelivery

/-!
# Configurations that name a collector that is not running

`collector.Setup` enters a collector into `Manager` only if it started.  The handler of
configuration changes starts a goroutine for every section of the new configuration
without looking whether there is such an entry, and the goroutine dereferences it: a nil
pointer for a collector that failed to start or is new, and the end of the program.

The machine of `ConfigDelivery` stops where this happens.  Here the step is taken, and
the program is then dead.  `everyRun_served_iff` says that no schedule kills it, and that
every section can be brought to its collector, exactly when all configurations name
running collectors only.
-/

namespace Kmon.Ports.MissingCollectors

open Kmon.Verified
open Kmon.Verified.Run
open Kmon.Verified.Pool
open Kmon.Ports.Config
open Kmon.Ports.ConfigDelivery

/-- `Setup`: the entries of `Manager`, each with the section its collector has read.
The call for the `i`-th section fails if `fails i`; of two collectors with one name the
later one takes the entry. -/
def setup (totalConfig : Collector) (fails : Nat → Bool) : GoMap Key Section :=
  (sections totalConfig).zipIdx.foldl
    (fun manager p => if fails p.2 then manager else manager.insert p.1.key p.1) ∅

/-- A collector of this kind and name was started. -/
def Started (totalConfig : Collector) (fails : Nat → Bool) (key : Key) : Prop :=
  ∃ i sec, (sections totalConfig)[i]? = some sec ∧ fails i = false ∧ sec.key = key

/-- The program: the delivery, what the handlers have handed to goroutines, what the
collectors have received, and whether a goroutine has panicked. -/
structure Program extends Delivery where
  handed : List Section
  received : List Section
  crashed : Bool

/-- The program after `Setup`. -/
def boot (totalConfig : Collector) (fails : Nat → Bool) : Program :=
  ⟨start totalConfig (setup totalConfig fails), [], [], false⟩

/-- One move of a program that lives.  The goroutine of a section whose entry is
missing panics. -/
def move (s : Program) : Move → Option Program
  | .setConfiguration conf =>
      (ConfigDelivery.step s.toDelivery (.setConfiguration conf)).map fun d =>
        { s with toDelivery := d }
  | .handler =>
      (ConfigDelivery.step s.toDelivery .handler).map fun d =>
        { s with toDelivery := d, handed := s.handed ++ sections s.configuration }
  | .send i =>
      match s.senders[i]? with
      | none => none
      | some localConf =>
          if localConf.key ∈ s.collectors then
            (ConfigDelivery.step s.toDelivery (.send i)).map fun d => { s with toDelivery := d }
          else some { s with crashed := true }
  | .receive key =>
      (ConfigDelivery.step s.toDelivery (.receive key)).map fun d =>
        { s with toDelivery := d, received := s.received ++ (s.confCh.lookup key).toList }

/-- A program that has crashed makes no move. -/
def step (s : Program) (m : Move) : Option Program := if s.crashed then none else move s m

/-- The sections of this value that wait in a channel. -/
def inChannel (s : Program) (sec : Section) : Nat :=
  if s.confCh.lookup sec.key = some sec then 1 else 0

/-- The program lives, no section has got lost on the way, and all that are on the way
can be brought to their collectors. -/
structure Served (s : Program) : Prop where
  alive : s.crashed = false
  accounted : ∀ sec,
    s.handed.count sec = s.senders.count sec + inChannel s sec + s.received.count sec
  finishes : ∃ moves t, configurations moves = [] ∧ run step s moves = some t ∧
    t.crashed = false ∧ Finished t.toDelivery

/-- In every schedule of the calls, finished or not, the program serves its
collectors. -/
def EveryRunServed (totalConfig : Collector) (fails : Nat → Bool) (calls : List Collector) :
    Prop :=
  ∀ moves s, run step (boot totalConfig fails) moves = some s →
    configurations moves <+: calls → Served s

/-! ## Which collectors run -/

theorem mem_foldl_setup (fails : Nat → Bool) (l : List (Section × Nat))
    (manager : GoMap Key Section) (key : Key) :
    key ∈ l.foldl (fun manager p => if fails p.2 then manager else manager.insert p.1.key p.1)
        manager ↔
      key ∈ manager ∨ ∃ p ∈ l, fails p.2 = false ∧ p.1.key = key := by
  induction l generalizing manager with
  | nil => simp
  | cons p l ih =>
      rw [List.foldl_cons, ih]
      cases hfails : fails p.2 with
      | true => simp [hfails]
      | false =>
          simp only [Bool.false_eq_true, if_false, Finmap.mem_insert, List.mem_cons,
            exists_eq_or_imp, hfails, true_and]
          tauto

theorem mem_setup_iff (totalConfig : Collector) (fails : Nat → Bool) (key : Key) :
    key ∈ setup totalConfig fails ↔ Started totalConfig fails key := by
  rw [setup, mem_foldl_setup]
  constructor
  · rintro (hempty | ⟨⟨sec, i⟩, hmem, hstart, hkey⟩)
    · exact absurd hempty Finmap.notMem_empty
    · exact ⟨i, sec, List.mem_zipIdx_iff_getElem?.1 hmem, hstart, hkey⟩
  · rintro ⟨i, sec, hi, hstart, hkey⟩
    exact Or.inr ⟨(sec, i), List.mem_zipIdx_iff_getElem?.2 hi, hstart, hkey⟩

/-! ## Bringing everything to its collector -/

section Delivery

/-- What the delivery needs for this. -/
structure Deliverable (running : Finset Key) (s : Delivery) : Prop where
  collectors : ∀ key, key ∈ s.collectors ↔ key ∈ running
  handlers : 0 < s.handlers → ∀ sec ∈ sections s.configuration, sec.key ∈ running
  senders : ∀ sec ∈ s.senders, sec.key ∈ running
  confCh : ∀ key ∈ s.confCh, key ∈ running

variable {running : Finset Key} {s : Delivery}

/-- First the channels are emptied. -/
theorem exists_received (hs : Deliverable running s) :
    ∃ moves t, configurations moves = [] ∧ run ConfigDelivery.step s moves = some t ∧
      Deliverable running t ∧ t.confCh = ∅ := by
  generalize hn : s.confCh.keys.card = n
  induction n generalizing s with
  | zero =>
      refine ⟨[], s, rfl, rfl, hs, ?_⟩
      rw [Finset.card_eq_zero] at hn
      apply Finmap.ext_lookup
      intro key
      rw [Finmap.lookup_empty, Finmap.lookup_eq_none, ← Finmap.mem_keys, hn]
      exact Finset.notMem_empty key
  | succ n ih =>
      obtain ⟨key, hkey⟩ := Finset.card_pos.1 (by omega : 0 < s.confCh.keys.card)
      have hrunning := hs.confCh key (Finmap.mem_keys.1 hkey)
      obtain ⟨conf, hconf⟩ := Finmap.mem_iff.1 (Finmap.mem_keys.1 hkey)
      have hstep := step_receive hconf
      have hnext : Deliverable running { s with
          confCh := s.confCh.erase key
          collectors := s.collectors.insert key conf } := by
        refine ⟨fun key' => ?_, hs.handlers, hs.senders, fun key' hkey' => ?_⟩
        · show key' ∈ s.collectors.insert key conf ↔ key' ∈ running
          rw [Finmap.mem_insert, hs.collectors]
          exact or_iff_right_of_imp fun h => h ▸ hrunning
        · exact hs.confCh key' (Finmap.mem_erase.1 hkey').2
      obtain ⟨moves, t, hconfs, hrun, ht, hempty⟩ := ih hnext (by
        rw [Finmap.keys_erase, Finset.card_erase_of_mem hkey]
        omega)
      refine ⟨moves ++ [.receive key], t, ?_, run_append_of_run ?_ hrun, ht, hempty⟩
      · rw [configurations_append, hconfs]
        rfl
      · rw [run_cons, run_nil, Option.bind_some, hstep]

/-- Then the handlers run. -/
theorem exists_handled (hs : Deliverable running s) (hch : s.confCh = ∅) :
    ∃ moves t, configurations moves = [] ∧ run ConfigDelivery.step s moves = some t ∧
      Deliverable running t ∧ t.confCh = ∅ ∧ t.handlers = 0 := by
  generalize hn : s.handlers = n
  induction n generalizing s with
  | zero => exact ⟨[], s, rfl, rfl, hs, hch, hn⟩
  | succ n ih =>
      have hsections := hs.handlers (by omega)
      have hstep : ConfigDelivery.step s .handler =
          some { s with handlers := n, senders := s.senders ++ sections s.configuration } := by
        simp only [ConfigDelivery.step, hn]
      have hnext : Deliverable running { s with
          handlers := n
          senders := s.senders ++ sections s.configuration } := by
        refine ⟨hs.collectors, fun _ => hsections, fun sec hsec => ?_, hs.confCh⟩
        rcases List.mem_append.1 hsec with hold | hnew
        · exact hs.senders sec hold
        · exact hsections sec hnew
      obtain ⟨moves, t, hconfs, hrun, ht, hempty, hzero⟩ := ih hnext hch rfl
      refine ⟨moves ++ [.handler], t, ?_, run_append_of_run ?_ hrun, ht, hempty, hzero⟩
      · rw [configurations_append, hconfs]
        rfl
      · rw [run_cons, run_nil, Option.bind_some, hstep]

/-- At last the goroutines send one by one. -/
theorem exists_finished (hs : Deliverable running s) :
    ∃ moves t, configurations moves = [] ∧ run ConfigDelivery.step s moves = some t ∧
      Finished t := by
  obtain ⟨moves₁, t₁, hconfs₁, hrun₁, ht₁, hempty₁⟩ := exists_received hs
  obtain ⟨moves₂, t₂, hconfs₂, hrun₂, ht₂, hempty₂, hzero₂⟩ := exists_handled ht₁ hempty₁
  have hdrain := run_drain [] t₂.senders [] (s := t₂) (by simp) hempty₂
    fun sec hsec => (ht₂.collectors _).2 (ht₂.senders sec hsec)
  refine ⟨drain 0 t₂.senders ++ (moves₂ ++ moves₁), _, ?_,
    run_append_of_run (run_append_of_run hrun₁ hrun₂) hdrain, hzero₂, rfl, hempty₂⟩
  rw [configurations_append, configurations_append, configurations_drain, hconfs₁, hconfs₂]
  rfl

end Delivery

/-! ## From the delivery to the program -/

variable {s t : Program}

theorem step_of_alive (halive : s.crashed = false) (m : Move) : step s m = move s m := by
  unfold step
  rw [halive]
  rfl

/-- A move that the delivery makes is made by a living program. -/
theorem step_of_delivery {m : Move} {d : Delivery} (halive : s.crashed = false)
    (hd : ConfigDelivery.step s.toDelivery m = some d) :
    ∃ t, step s m = some t ∧ t.toDelivery = d ∧ t.crashed = false := by
  rw [step_of_alive halive]
  cases m with
  | setConfiguration conf =>
      rw [move, hd]
      exact ⟨_, rfl, rfl, halive⟩
  | handler =>
      rw [move, hd]
      exact ⟨_, rfl, rfl, halive⟩
  | send i =>
      have hsend := hd
      simp only [ConfigDelivery.step] at hsend
      split at hsend
      · cases hsend
      · rename_i localConf hi
        split at hsend
        · rename_i hrunning
          simp only [move, hi]
          rw [if_pos hrunning.1, hd]
          exact ⟨_, rfl, rfl, halive⟩
        · cases hsend
  | receive key =>
      rw [move, hd]
      exact ⟨_, rfl, rfl, halive⟩

theorem run_of_delivery {moves : List Move} {d : Delivery} (halive : s.crashed = false)
    (hd : run ConfigDelivery.step s.toDelivery moves = some d) :
    ∃ t, run step s moves = some t ∧ t.toDelivery = d ∧ t.crashed = false := by
  induction moves generalizing d with
  | nil =>
      cases hd
      exact ⟨s, rfl, rfl, halive⟩
  | cons m moves ih =>
      obtain ⟨d', hd', hm⟩ := run_cons_eq_some.1 hd
      obtain ⟨t', ht', rfl, halive'⟩ := ih hd'
      obtain ⟨t, ht, htd, hta⟩ := step_of_delivery halive' hm
      exact ⟨t, run_cons_of_step ht' ht, htd, hta⟩

/-! ## One move of a program whose sections all have a collector -/

/-- What holds as long as all configurations that were set name running collectors. -/
structure Sound (running : Finset Key) (s : Program) : Prop where
  alive : s.crashed = false
  collectors : ∀ key, key ∈ s.collectors ↔ key ∈ running
  handlers : 0 < s.handlers → ∀ sec ∈ sections s.configuration, sec.key ∈ running
  senders : ∀ sec ∈ s.senders, sec.key ∈ running
  confCh : ∀ key sec, s.confCh.lookup key = some sec → sec.key = key ∧ key ∈ running
  accounted : ∀ sec,
    s.handed.count sec = s.senders.count sec + inChannel s sec + s.received.count sec

variable {running : Finset Key}

theorem Sound.setConfiguration (hs : Sound running s) {conf : Collector}
    (hnamed : ∀ sec ∈ sections conf, sec.key ∈ running)
    (he : step s (.setConfiguration conf) = some t) : Sound running t := by
  rw [step_of_alive hs.alive, move] at he
  cases he
  exact ⟨hs.alive, hs.collectors, fun _ => hnamed, hs.senders, hs.confCh, hs.accounted⟩

theorem Sound.handler (hs : Sound running s) (he : step s .handler = some t) :
    Sound running t := by
  rw [step_of_alive hs.alive, move] at he
  simp only [ConfigDelivery.step] at he
  split at he
  · cases he
  · rename_i n hn
    cases he
    have hsections : ∀ sec ∈ sections s.configuration, sec.key ∈ running :=
      hs.handlers (by omega)
    refine ⟨hs.alive, hs.collectors, fun _ => hsections, ?_, hs.confCh, fun sec => ?_⟩
    · intro sec hsec
      rcases List.mem_append.1 hsec with hold | hnew
      · exact hs.senders sec hold
      · exact hsections sec hnew
    · have haccount := hs.accounted sec
      show (s.handed ++ sections s.configuration).count sec =
        (s.senders ++ sections s.configuration).count sec + inChannel s sec +
          s.received.count sec
      rw [List.count_append, List.count_append]
      omega

theorem Sound.send (hs : Sound running s) {i : Nat} (he : step s (.send i) = some t) :
    Sound running t := by
  rw [step_of_alive hs.alive, move] at he
  split at he
  · cases he
  · rename_i localConf hi
    have hrunning : localConf.key ∈ running := hs.senders _ (List.mem_of_getElem? hi)
    rw [if_pos ((hs.collectors _).2 hrunning)] at he
    simp only [ConfigDelivery.step, hi] at he
    split at he
    · rename_i hfree
      cases he
      refine ⟨hs.alive, hs.collectors, hs.handlers,
        fun sec hsec => hs.senders sec (List.mem_of_mem_eraseIdx hsec), ?_, fun sec => ?_⟩
      · intro key sec hsec
        rw [GoMap.lookup_insert_ite] at hsec
        split at hsec
        · rename_i hkey
          cases hsec
          exact ⟨hkey.symm, hkey ▸ hrunning⟩
        · exact hs.confCh key sec hsec
      · -- the section moves from the goroutine to the channel, which was empty
        have haccount := hs.accounted sec
        have hnone : s.confCh.lookup localConf.key = none :=
          Finmap.lookup_eq_none.2 hfree.2
        rw [count_eraseIdx hi sec] at haccount
        unfold inChannel at haccount ⊢
        rw [GoMap.lookup_insert_ite]
        by_cases hthis : localConf = sec
        · subst hthis
          rw [hnone] at haccount
          simp only [reduceCtorEq, if_false, if_true] at haccount ⊢
          omega
        · rw [if_neg hthis] at haccount
          by_cases hkey : sec.key = localConf.key
          · rw [hkey, hnone] at haccount
            rw [if_pos hkey, if_neg (fun h => hthis (Option.some.inj h))]
            simp only [reduceCtorEq, if_false] at haccount
            exact haccount
          · rw [if_neg hkey]
            exact haccount
    · cases he

theorem Sound.receive (hs : Sound running s) {key : Key} (he : step s (.receive key) = some t) :
    Sound running t := by
  rw [step_of_alive hs.alive, move] at he
  simp only [ConfigDelivery.step] at he
  split at he
  · cases he
  · rename_i conf hconf
    cases he
    obtain ⟨hkey, hrunning⟩ := hs.confCh key conf hconf
    refine ⟨hs.alive, fun key' => ?_, hs.handlers, hs.senders, ?_, fun sec => ?_⟩
    · show key' ∈ s.collectors.insert key conf ↔ key' ∈ running
      rw [Finmap.mem_insert, hs.collectors]
      exact or_iff_right_of_imp fun h => h ▸ hrunning
    · intro key' sec hsec
      rw [GoMap.lookup_erase_ite] at hsec
      split at hsec
      · cases hsec
      · exact hs.confCh key' sec hsec
    · -- the section moves from the channel to the collector
      have haccount := hs.accounted sec
      show s.handed.count sec = s.senders.count sec +
        (if (s.confCh.erase key).lookup sec.key = some sec then 1 else 0) +
          (s.received ++ (s.confCh.lookup key).toList).count sec
      unfold inChannel at haccount
      rw [hconf, List.count_append, Option.toList_some, GoMap.lookup_erase_ite]
      by_cases hown : sec.key = key
      · rw [hown, hconf] at haccount
        rw [if_pos hown]
        by_cases hthis : conf = sec
        · rw [hthis] at haccount ⊢
          simp only [if_true, List.count_singleton_self, reduceCtorEq, if_false] at haccount ⊢
          omega
        · rw [if_neg fun h => hthis (Option.some.inj h)] at haccount
          have hcount : [conf].count sec = 0 :=
            List.count_eq_zero.2 fun h => hthis (List.mem_singleton.1 h).symm
          simp only [reduceCtorEq, if_false, hcount]
          omega
      · have hcount : [conf].count sec = 0 := by
          refine List.count_eq_zero.2 fun h => hown ?_
          rw [List.mem_singleton.1 h]
          exact hkey
        rw [if_neg hown, hcount]
        exact haccount

/-! ## Every schedule -/

theorem Sound.deliverable (hs : Sound running s) : Deliverable running s.toDelivery where
  collectors := hs.collectors
  handlers := hs.handlers
  senders := hs.senders
  confCh key hkey := by
    obtain ⟨sec, hsec⟩ := Finmap.mem_iff.1 hkey
    exact (hs.confCh key sec hsec).2

theorem Sound.served (hs : Sound running s) : Served s := by
  obtain ⟨moves, d, hconfs, hrun, hfin⟩ := exists_finished hs.deliverable
  obtain ⟨t, ht, rfl, halive⟩ := run_of_delivery hs.alive hrun
  exact ⟨hs.alive, hs.accounted, moves, t, hconfs, ht, halive, hfin⟩

theorem sound_boot (totalConfig : Collector) (fails : Nat → Bool) :
    Sound (setup totalConfig fails).keys (boot totalConfig fails) where
  alive := rfl
  collectors _ := Finmap.mem_keys.symm
  handlers h := absurd h (Nat.lt_irrefl 0)
  senders _ h := by cases h
  confCh key sec h := by
    have hempty : (∅ : GoMap Key Section).lookup key = some sec := h
    rw [Finmap.lookup_empty] at hempty
    cases hempty
  accounted _ := rfl

/-- As long as the configurations name running collectors, the program is sound. -/
theorem run_sound {totalConfig : Collector} {fails : Nat → Bool} {calls : List Collector}
    (hnamed : ∀ conf ∈ calls, ∀ sec ∈ sections conf, sec.key ∈ (setup totalConfig fails).keys) :
    ∀ moves s, run step (boot totalConfig fails) moves = some s →
      configurations moves <+: calls → Sound (setup totalConfig fails).keys s := by
  refine run_invariant (I := fun moves s =>
    configurations moves <+: calls → Sound (setup totalConfig fails).keys s)
    (fun _ => sound_boot totalConfig fails) ?_
  intro moves s e t _ hs he hprefix
  cases e with
  | setConfiguration conf =>
      rw [configurations_cons_set] at hprefix
      have hconf : conf ∈ calls :=
        hprefix.subset (List.mem_append_right _ List.mem_cons_self)
      exact (hs ((List.prefix_append _ _).trans hprefix)).setConfiguration (hnamed conf hconf) he
  | handler => exact (hs hprefix).handler he
  | send i => exact (hs hprefix).send he
  | receive key => exact (hs hprefix).receive he

/-- A configuration that names no running collector kills the program in some
schedule. -/
theorem exists_crashed {totalConfig : Collector} {fails : Nat → Bool} {calls : List Collector}
    {conf : Collector} (hconf : conf ∈ calls) {sec : Section} (hsec : sec ∈ sections conf)
    (hmissing : sec.key ∉ setup totalConfig fails) :
    ∃ moves s, run step (boot totalConfig fails) moves = some s ∧
      configurations moves <+: calls ∧ s.crashed = true := by
  obtain ⟨earlier, later, rfl⟩ := List.append_of_mem hconf
  obtain ⟨s, hs, hd, halive⟩ := run_of_delivery (s := boot totalConfig fails) rfl
    (run_announce (earlier ++ [conf]) (boot totalConfig fails).toDelivery)
  have hmem : sec ∈ s.senders := by
    rw [hd]
    show sec ∈ [] ++ (earlier ++ [conf]).flatMap sections
    rw [List.nil_append]
    exact List.mem_flatMap.2 ⟨conf, List.mem_append_right _ List.mem_cons_self, hsec⟩
  have hcollectors : sec.key ∉ s.collectors := by
    rw [hd]
    exact hmissing
  obtain ⟨i, hi⟩ := List.mem_iff_getElem?.1 hmem
  refine ⟨.send i :: announce (earlier ++ [conf]), { s with crashed := true },
    run_cons_of_step hs ?_, ?_, rfl⟩
  · rw [step_of_alive halive]
    simp only [move, hi]
    exact if_neg hcollectors
  · show configurations (announce (earlier ++ [conf])) <+: earlier ++ conf :: later
    rw [configurations_announce]
    exact ⟨later, by rw [List.append_assoc, List.singleton_append]⟩

/-- **Every schedule of the calls serves the collectors exactly when all the sections of
all configurations name collectors that were started.** -/
theorem everyRun_served_iff (totalConfig : Collector) (fails : Nat → Bool)
    (calls : List Collector) :
    EveryRunServed totalConfig fails calls ↔
      ∀ conf ∈ calls, ∀ sec ∈ sections conf, Started totalConfig fails sec.key := by
  constructor
  · intro hall conf hconf sec hsec
    by_contra hmissing
    rw [← mem_setup_iff] at hmissing
    obtain ⟨moves, s, hrun, hprefix, hcrashed⟩ := exists_crashed hconf hsec hmissing
    have halive := (hall moves s hrun hprefix).alive
    rw [hcrashed] at halive
    cases halive
  · intro hnamed moves s hrun hprefix
    refine (run_sound (fun conf hconf sec hsec => ?_) moves s hrun hprefix).served
    exact Finmap.mem_keys.2 ((mem_setup_iff totalConfig fails sec.key).2
      (hnamed conf hconf sec hsec))

/-- tcpreq fails to start, and the same configuration is set again. -/
theorem failed_start_crashes :
    let conf : Collector := ⟨[], [⟨"tcpreq", 1, ⟨[7], []⟩, ⟨10, "tcpreq", []⟩⟩], [], [], []⟩
    ¬ EveryRunServed conf (fun i => i = 0) [conf] := by
  intro conf hall
  have hserved := hall [.send 0, .handler, .setConfiguration conf] _ rfl (by decide)
  exact absurd hserved.alive (by decide)

end Kmon.Ports.MissingCollectors
