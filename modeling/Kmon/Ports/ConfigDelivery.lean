import Kmon.Verified.GoMap
import Kmon.Verified.Run
import Kmon.Verified.Pool
import Kmon.Ports.Config

/-!
# The way of a configuration to the collectors

`SetConfiguration` (`src/internal/info/setter.go`) stores the configuration and starts
the handler that `collector.Setup` registered.  The handler reads the configuration
stored by then and starts a goroutine for every section, which sends the section to the
collector of that name.  Nothing orders these goroutines, so an older section may reach a
collector after a newer one.

`latest_wins_iff`: whatever the schedule, the collectors end with the configuration that
was set last exactly when the earlier ones have nothing different for its collectors.
-/

namespace Kmon.Ports.ConfigDelivery

open Kmon.Verified
open Kmon.Verified.Run
open Kmon.Verified.Pool
open Kmon.Ports.Config

/-- The lists of `CollectorManager`. -/
inductive Kind where
  | ColFcount
  | ColTcpreq
  | ColBiostat
  | ColTcpdrop
  | ColOffcpu
  deriving DecidableEq, Repr

/-- The section of one collector. -/
inductive Section where
  | fcount (conf : ColFcount)
  | tcpreq (conf : ColTcpreq)
  | biostat (conf : ColBiostat)
  | tcpdrop (conf : ColTcpdrop)
  | offcpu (conf : ColOffcpu)
  deriving DecidableEq, Repr

/-- The list and the name under which `Manager` holds the channel of a collector. -/
abbrev Key := Kind × String

def Section.key : Section → Key
  | fcount conf => (.ColFcount, conf.Name)
  | tcpreq conf => (.ColTcpreq, conf.Name)
  | biostat conf => (.ColBiostat, conf.Name)
  | tcpdrop conf => (.ColTcpdrop, conf.Name)
  | offcpu conf => (.ColOffcpu, conf.Name)

/-- The sections in the order in which the handler ranges over them. -/
def sections (conf : Collector) : List Section :=
  conf.Fcount.map .fcount ++ conf.Tcpreq.map .tcpreq ++ conf.Biostat.map .biostat ++
    conf.Tcpdrop.map .tcpdrop ++ conf.Offcpu.map .offcpu

/-- The stored configuration, the number of handlers that have not run yet, the
`localConf` of the goroutines that have not sent yet, the channels that hold a section,
and the `conf` of every running collector. -/
structure Delivery where
  configuration : Collector
  handlers : Nat
  senders : List Section
  confCh : GoMap Key Section
  collectors : GoMap Key Section

/-- The moves of an interleaving. -/
inductive Move where
  | setConfiguration (conf : Collector)
  | handler
  | send (i : Nat)
  | receive (key : Key)

/-- The state after `Setup`. -/
def start (conf : Collector) (collectors : GoMap Key Section) : Delivery :=
  { configuration := conf, handlers := 0, senders := [], confCh := ∅, collectors := collectors }

/-- One move.  A handler holds `colMutex` and starts its goroutines in one go.  A send
blocks while the channel holds a section, and without a running collector it
dereferences nil. -/
def step (s : Delivery) : Move → Option Delivery
  | .setConfiguration conf => some { s with configuration := conf, handlers := s.handlers + 1 }
  | .handler =>
      match s.handlers with
      | 0 => none
      | n + 1 =>
          some { s with handlers := n, senders := s.senders ++ sections s.configuration }
  | .send i =>
      match s.senders[i]? with
      | none => none
      | some localConf =>
          if localConf.key ∈ s.collectors ∧ localConf.key ∉ s.confCh then
            some { s with
              senders := s.senders.eraseIdx i
              confCh := s.confCh.insert localConf.key localConf }
          else none
  | .receive key =>
      match s.confCh.lookup key with
      | none => none
      | some conf =>
          some { s with
            confCh := s.confCh.erase key
            collectors := s.collectors.insert key conf }

/-- The configurations of a run, in the order of the calls. -/
def configurations (moves : List Move) : List Collector :=
  (moves.filterMap fun
    | .setConfiguration conf => some conf
    | _ => none).reverse

/-- All goroutines have finished and all channels are empty. -/
structure Finished (s : Delivery) : Prop where
  handlers : s.handlers = 0
  senders : s.senders = []
  confCh : s.confCh = ∅

/-- The configurations of successive calls.  Their names denote running collectors and
are distinct. -/
structure Calls (running : Finset Key) where
  earlier : List Collector
  last : Collector
  named : ∀ conf ∈ earlier ++ [last], ∀ sec ∈ sections conf, sec.key ∈ running
  distinct : ∀ conf ∈ earlier ++ [last], ((sections conf).map Section.key).Nodup

/-- In every schedule of the calls the collectors end with the sections of the last
one. -/
def LatestWins (conf : Collector) (collectors : GoMap Key Section)
    (calls : Calls collectors.keys) : Prop :=
  ∀ moves s, run step (start conf collectors) moves = some s →
    configurations moves = calls.earlier ++ [calls.last] → Finished s →
      ∀ sec ∈ sections calls.last, s.collectors.lookup sec.key = some sec

/-! ## What a collector may end with -/

theorem configurations_cons_set (conf : Collector) (moves : List Move) :
    configurations (.setConfiguration conf :: moves) = configurations moves ++ [conf] := by
  simp [configurations]

theorem configurations_append (moves moves' : List Move) :
    configurations (moves ++ moves') = configurations moves' ++ configurations moves := by
  simp [configurations]

/-- The section comes from one of the configurations. -/
def From (confs : List Collector) (sec : Section) : Prop :=
  ∃ conf ∈ confs, sec ∈ sections conf

theorem From.mono {confs : List Collector} {sec : Section} (h : From confs sec)
    (conf : Collector) : From (confs ++ [conf]) sec := by
  obtain ⟨conf', hconf, hsec⟩ := h
  exact ⟨conf', List.mem_append_left _ hconf, hsec⟩

/-- Where the sections of the configuration set last are, once it is set. -/
inductive Arriving (confs : List Collector) (s : Delivery) (sec : Section) : Prop
  | handler (h : 0 < s.handlers)
  | sender (h : sec ∈ s.senders)
  | sent (h : sec.key ∈ s.confCh)
  | received (sec' : Section) (hkey : sec'.key = sec.key) (hfrom : From confs sec')
      (h : s.collectors.lookup sec.key = some sec')

/-- The invariant of the delivery. -/
structure OnTheWay (confs : List Collector) (s : Delivery) : Prop where
  stored : (confs = [] ∧ s.handlers = 0) ∨ confs.getLast? = some s.configuration
  senders : ∀ sec ∈ s.senders, From confs sec
  confCh : ∀ key sec, s.confCh.lookup key = some sec → sec.key = key ∧ From confs sec
  arriving : confs ≠ [] → ∀ sec ∈ sections s.configuration, Arriving confs s sec

theorem onTheWay_start (conf : Collector) (collectors : GoMap Key Section) :
    OnTheWay [] (start conf collectors) where
  stored := Or.inl ⟨rfl, rfl⟩
  senders _ h := by cases h
  confCh key _ h := by
    rw [start, Finmap.lookup_empty] at h
    cases h
  arriving h := absurd rfl h

variable {confs : List Collector} {s t : Delivery}

/-- A new configuration is with its handler. -/
theorem OnTheWay.setConfiguration (hs : OnTheWay confs s) (conf : Collector)
    (he : step s (.setConfiguration conf) = some t) : OnTheWay (confs ++ [conf]) t := by
  cases he
  refine ⟨Or.inr List.getLast?_concat, fun sec hsec => (hs.senders sec hsec).mono conf, ?_,
    fun _ sec _ => .handler (Nat.succ_pos _)⟩
  exact fun key sec hsec => ⟨(hs.confCh key sec hsec).1, (hs.confCh key sec hsec).2.mono conf⟩

/-- A handler hands every section of the stored configuration to a goroutine. -/
theorem OnTheWay.handler (hs : OnTheWay confs s) (he : step s .handler = some t) :
    OnTheWay confs t := by
  rw [step] at he
  split at he
  · cases he
  · cases he
    rename_i n hn
    have hlast : confs.getLast? = some s.configuration := by
      rcases hs.stored with ⟨_, hzero⟩ | hlast
      · omega
      · exact hlast
    have hmem : s.configuration ∈ confs := List.mem_of_getLast? hlast
    refine ⟨Or.inr hlast, ?_, hs.confCh, ?_⟩
    · intro sec hsec
      rcases List.mem_append.1 hsec with hsec | hsec
      · exact hs.senders sec hsec
      · exact ⟨s.configuration, hmem, hsec⟩
    · exact fun _ sec hsec => .sender (List.mem_append_right _ hsec)

/-- A section that is sent is in its channel. -/
theorem OnTheWay.send (hs : OnTheWay confs s) {i : Nat} (he : step s (.send i) = some t) :
    OnTheWay confs t := by
  rw [step] at he
  split at he
  · cases he
  · rename_i localConf hi
    split at he
    · cases he
      have hfrom : From confs localConf := hs.senders _ (List.mem_of_getElem? hi)
      refine ⟨hs.stored, fun sec hsec => hs.senders sec (List.mem_of_mem_eraseIdx hsec), ?_, ?_⟩
      · intro key sec hsec
        rw [GoMap.lookup_insert_ite] at hsec
        split at hsec
        · cases hsec
          exact ⟨Eq.symm ‹_›, hfrom⟩
        · exact hs.confCh key sec hsec
      · intro hne sec hsec
        cases hs.arriving hne sec hsec with
        | handler h => exact .handler h
        | sender h =>
            by_cases hthis : sec = localConf
            · exact .sent (Finmap.mem_insert.2 (Or.inl (congrArg Section.key hthis)))
            · exact .sender (mem_eraseIdx_of_ne hi h hthis)
        | sent h => exact .sent (Finmap.mem_insert.2 (Or.inr h))
        | received sec' hkey hfrom h => exact .received sec' hkey hfrom h
    · cases he

/-- A collector has some section of its own. -/
theorem OnTheWay.receive (hs : OnTheWay confs s) {key : Key}
    (he : step s (.receive key) = some t) : OnTheWay confs t := by
  rw [step] at he
  split at he
  · cases he
  · cases he
    rename_i conf hconf
    obtain ⟨hkey, hfrom⟩ := hs.confCh key conf hconf
    refine ⟨hs.stored, hs.senders, ?_, ?_⟩
    · intro key' sec hsec
      rw [GoMap.lookup_erase_ite] at hsec
      split at hsec
      · cases hsec
      · exact hs.confCh key' sec hsec
    · intro hne sec hsec
      by_cases hown : sec.key = key
      · refine .received conf (hkey.trans hown.symm) hfrom ?_
        rw [hown]
        exact Finmap.lookup_insert _
      · cases hs.arriving hne sec hsec with
        | handler h => exact .handler h
        | sender h => exact .sender h
        | sent h => exact .sent (Finmap.mem_erase.2 ⟨hown, h⟩)
        | received sec' hkey' hfrom' h =>
            exact .received sec' hkey' hfrom' ((Finmap.lookup_insert_of_ne _ hown).trans h)

theorem onTheWay_run (conf : Collector) (collectors : GoMap Key Section) :
    ∀ moves s, run step (start conf collectors) moves = some s →
      OnTheWay (configurations moves) s := by
  refine run_invariant (onTheWay_start conf collectors) ?_
  intro moves s e t _ hs he
  cases e with
  | setConfiguration conf' =>
      rw [configurations_cons_set]
      exact hs.setConfiguration conf' he
  | handler => exact hs.handler he
  | send i => exact hs.send he
  | receive key => exact hs.receive he

/-- In the end a collector named by the last configuration has its section of some
configuration of the run. -/
theorem OnTheWay.received (hs : OnTheWay confs s) (hfin : Finished s) {last : Collector}
    (hlast : confs.getLast? = some last) {sec : Section} (hsec : sec ∈ sections last) :
    ∃ sec', sec'.key = sec.key ∧ From confs sec' ∧ s.collectors.lookup sec.key = some sec' := by
  have hne : confs ≠ [] := by
    rintro rfl
    cases hlast
  have hstored : s.configuration = last := by
    rcases hs.stored with ⟨hnil, _⟩ | hstored
    · exact absurd hnil hne
    · rw [hlast] at hstored
      exact (Option.some.inj hstored).symm
  cases hs.arriving hne sec (hstored ▸ hsec) with
  | handler h => exact absurd hfin.handlers (Nat.pos_iff_ne_zero.1 h)
  | sender h =>
      rw [hfin.senders] at h
      cases h
  | sent h =>
      rw [hfin.confCh] at h
      exact absurd h Finmap.notMem_empty
  | received sec' hkey hfrom h => exact ⟨sec', hkey, hfrom, h⟩

/-! ## A schedule in which a section comes last -/

/-- Every configuration is set and its handler runs before the next. -/
def announce : List Collector → List Move
  | [] => []
  | conf :: confs => announce confs ++ [.handler, .setConfiguration conf]

/-- The goroutines behind the first `j` send their sections one by one, each received
before the next is sent. -/
def drain (j : Nat) : List Section → List Move
  | [] => []
  | sec :: secs => drain j secs ++ [.receive sec.key, .send j]

/-- What the collectors hold after some sections were received in turn. -/
def received (secs : List Section) (collectors : GoMap Key Section) : GoMap Key Section :=
  secs.foldl (fun m sec => m.insert sec.key sec) collectors

theorem configurations_announce (confs : List Collector) :
    configurations (announce confs) = confs := by
  induction confs with
  | nil => rfl
  | cons conf confs ih =>
      rw [announce, configurations_append, ih]
      rfl

theorem configurations_drain (j : Nat) (secs : List Section) :
    configurations (drain j secs) = [] := by
  induction secs with
  | nil => rfl
  | cons sec secs ih =>
      rw [drain, configurations_append, ih]
      rfl

theorem run_announce (confs : List Collector) (s : Delivery) :
    run step s (announce confs) =
      some { s with
        configuration := confs.getLastD s.configuration
        senders := s.senders ++ confs.flatMap sections } := by
  induction confs generalizing s with
  | nil => simp [announce]
  | cons conf confs ih =>
      have hboth : run step s [.handler, .setConfiguration conf] =
          some { s with
            configuration := conf
            senders := s.senders ++ sections conf } := rfl
      rw [announce, run_append, hboth, Option.bind_some, ih, List.flatMap_cons,
        List.append_assoc, List.getLastD_cons]

theorem mem_received {secs : List Section} {collectors : GoMap Key Section} {key : Key}
    (h : key ∈ collectors) : key ∈ received secs collectors := by
  induction secs generalizing collectors with
  | nil => exact h
  | cons sec secs ih => exact ih (Finmap.mem_insert.2 (Or.inr h))

theorem step_send {s : Delivery} {i : Nat} {sec : Section} (hi : s.senders[i]? = some sec)
    (hrunning : sec.key ∈ s.collectors) (hfree : sec.key ∉ s.confCh) :
    step s (.send i) =
      some { s with
        senders := s.senders.eraseIdx i
        confCh := s.confCh.insert sec.key sec } := by
  simp only [step, hi]
  exact if_pos ⟨hrunning, hfree⟩

theorem step_receive {s : Delivery} {key : Key} {conf : Section}
    (hconf : s.confCh.lookup key = some conf) :
    step s (.receive key) =
      some { s with
        confCh := s.confCh.erase key
        collectors := s.collectors.insert key conf } := by
  simp only [step, hconf]

/-- One section is sent and received. -/
theorem run_sendReceive {s : Delivery} {keep rest : List Section} {sec : Section}
    (hsenders : s.senders = keep ++ sec :: rest) (hch : s.confCh = ∅)
    (hrunning : sec.key ∈ s.collectors) :
    run step s [.receive sec.key, .send keep.length] =
      some { s with
        senders := keep ++ rest
        collectors := s.collectors.insert sec.key sec } := by
  have hget : s.senders[keep.length]? = some sec := by
    rw [hsenders, List.getElem?_append_right (Nat.le_refl _), Nat.sub_self,
      List.getElem?_cons_zero]
  have herase : s.senders.eraseIdx keep.length = keep ++ rest := by
    rw [hsenders, List.eraseIdx_append_of_length_le (Nat.le_refl _), Nat.sub_self]
    rfl
  have hempty : ((∅ : GoMap Key Section).insert sec.key sec).erase sec.key = ∅ := by
    rw [GoMap.erase_insert]
    exact Finmap.ext_lookup fun key => by simp [GoMap.lookup_erase_ite]
  rw [run_cons, run_cons, run_nil, Option.bind_some,
    step_send hget hrunning (hch ▸ Finmap.notMem_empty), Option.bind_some,
    step_receive (Finmap.lookup_insert _), hch, herase, hempty]

/-- The sections behind the first `j` are delivered in their order. -/
theorem run_drain (keep secs rest : List Section) {s : Delivery}
    (hsenders : s.senders = keep ++ secs ++ rest) (hch : s.confCh = ∅)
    (hrunning : ∀ sec ∈ secs, sec.key ∈ s.collectors) :
    run step s (drain keep.length secs) =
      some { s with
        senders := keep ++ rest
        collectors := received secs s.collectors } := by
  induction secs generalizing s with
  | nil =>
      rw [List.append_nil] at hsenders
      rw [drain, run_nil, ← hsenders]
      rfl
  | cons sec secs ih =>
      have hfirst : s.senders = keep ++ sec :: (secs ++ rest) := by
        rw [hsenders, List.append_assoc, List.cons_append]
      rw [drain, run_append, run_sendReceive hfirst hch (hrunning sec List.mem_cons_self),
        Option.bind_some]
      refine (ih ?_ ?_ ?_).trans rfl
      · exact (List.append_assoc keep secs rest).symm
      · exact hch
      · exact fun sec' hsec' =>
          Finmap.mem_insert.2 (Or.inr (hrunning sec' (List.mem_cons_of_mem _ hsec')))

/-- Some schedule delivers a section of any of the configurations last. -/
theorem exists_finished_last (conf : Collector) {collectors : GoMap Key Section}
    (calls : Calls collectors.keys) {sec : Section}
    (hsec : From (calls.earlier ++ [calls.last]) sec) :
    ∃ moves s, run step (start conf collectors) moves = some s ∧
      configurations moves = calls.earlier ++ [calls.last] ∧ Finished s ∧
      s.collectors.lookup sec.key = some sec := by
  let confs := calls.earlier ++ [calls.last]
  have hrunning : ∀ sec' ∈ confs.flatMap sections, sec'.key ∈ collectors := by
    intro sec' hsec'
    obtain ⟨conf', hconf', hmem⟩ := List.mem_flatMap.1 hsec'
    exact Finmap.mem_keys.1 (calls.named conf' hconf' sec' hmem)
  obtain ⟨a, b, hsplit⟩ := List.append_of_mem (List.mem_flatMap.2 hsec)
  rw [hsplit] at hrunning
  have hstart := run_announce confs (start conf collectors)
  rw [hsplit] at hstart
  -- Everything before the section, everything behind it, and at last the section.
  have hbefore := run_append_of_run hstart
    (run_drain [] a (sec :: b) rfl rfl fun sec' h => hrunning sec' (by simp [h]))
  have hbehind := run_append_of_run hbefore
    (run_drain [sec] b [] (by simp) rfl fun sec' h =>
      mem_received (hrunning sec' (by simp [h])))
  have hlast := run_append_of_run hbehind
    (run_drain [] [sec] [] rfl rfl fun sec' h =>
      mem_received (mem_received (hrunning sec' (by simp_all))))
  refine ⟨_, _, hlast, ?_, ⟨rfl, rfl, rfl⟩, Finmap.lookup_insert _⟩
  simp only [configurations_append, configurations_drain, configurations_announce,
    List.append_nil]
  rfl

/-! ## Every schedule -/

/-- **Whatever the schedule, the collectors end with the configuration that was set last
exactly when no earlier one has another section for a collector it names.** -/
theorem latest_wins_iff (conf : Collector) (collectors : GoMap Key Section)
    (calls : Calls collectors.keys) :
    LatestWins conf collectors calls ↔
      ∀ conf' ∈ calls.earlier, ∀ sec' ∈ sections conf', ∀ sec ∈ sections calls.last,
        sec'.key = sec.key → sec' = sec := by
  constructor
  · intro hwins conf' hconf' sec' hsec' sec hsec hkey
    obtain ⟨moves, s, hrun, hconfs, hfin, hlook⟩ :=
      exists_finished_last conf calls ⟨conf', List.mem_append_left _ hconf', hsec'⟩
    have hlast := hwins moves s hrun hconfs hfin sec hsec
    rw [← hkey, hlook] at hlast
    exact Option.some.inj hlast
  · intro hsame moves s hrun hconfs hfin sec hsec
    have hway := onTheWay_run conf collectors moves s hrun
    rw [hconfs] at hway
    obtain ⟨sec', hkey, ⟨conf', hconf', hsec'⟩, hlook⟩ :=
      hway.received hfin List.getLast?_concat hsec
    rcases List.mem_append.1 hconf' with hconf' | hconf'
    · rw [hlook, hsame conf' hconf' sec' hsec' sec hsec hkey]
    · cases List.mem_singleton.1 hconf'
      have hnodup := calls.distinct calls.last (List.mem_append_right _ List.mem_cons_self)
      rw [hlook, List.inj_on_of_nodup_map hnodup hsec' hsec hkey]

/-- The verbosity of tcpreq is set to 2 and then to 3, and the goroutine with the 2 runs
last. -/
theorem older_section_overtakes :
    ¬ ∀ (conf : Collector) (collectors : GoMap Key Section) (calls : Calls collectors.keys),
      LatestWins conf collectors calls := by
  intro h
  let tcpreq (verbose : BitVec 32) : ColTcpreq :=
    ⟨"tcpreq", verbose, ⟨[7], []⟩, ⟨1, "tcpreq", []⟩⟩
  let conf (verbose : BitVec 32) : Collector := ⟨[], [tcpreq verbose], [], [], []⟩
  let key : Key := (.ColTcpreq, "tcpreq")
  have hwins := h (conf 1) ((∅ : GoMap Key Section).insert key (.tcpreq (tcpreq 1)))
    ⟨[conf 2], conf 3, by decide, by decide⟩
    [.receive key, .send 0, .receive key, .send 1,
      .handler, .setConfiguration (conf 3), .handler, .setConfiguration (conf 2)]
    _ rfl rfl ⟨rfl, rfl, rfl⟩ (.tcpreq (tcpreq 3)) (by decide)
  revert hwins
  decide

end Kmon.Ports.ConfigDelivery
