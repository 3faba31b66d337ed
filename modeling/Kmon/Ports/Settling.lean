import Kmon.Ports.HandOvers

/-!
# Nobody waits for ever

A period loop sends its batch while it holds the mutex of its collector, `main` waits in
`EndProgram` until a loop takes `done`, and a signal loop that waits for a mutex does not
receive.  None of this ends in a deadlock: `settled_of_atRest` shows that where the program
cannot go on by itself, no mutex is held, the channels are empty, and nobody has anything
left to do.

What it does need is that the loops over the tables come to an end, which nothing in their
code guarantees: a loop that goes round for ever keeps the mutex of its collector
(`exists_run_rounds`).  However many times they go round in all, the program settles,
whatever the schedule (`settles`), and after an interrupt it ends (`ends_of_interrupt`).

The reason is the order of the mutexes with the order of the setup.  Whoever holds a mutex
of the lowest rank could only be waiting to send a batch; the loop of the exporters would
receive it; and if that loop has not started yet, `main` is still in its setup and waits for
a mutex of a collector whose loops it has not started.
-/

namespace Kmon.Ports.Goroutines

open Kmon.Verified
open Kmon.Verified.LockOrder
open Kmon.Verified.Run
open Kmon.Ports.ConfigDelivery (Kind Key)

/-- The program cannot go on by itself: even the loops over the tables are at their ends. -/
def AtRest (starts : Key → Bool) (s : Program) : Prop :=
  ∀ e, Internal s e → goesRound s e = false → step starts s e = none

/-- Nothing is left to do. -/
structure Settled (s : Program) : Prop where
  held : ∀ t ∈ s.threads, t.held = []
  code : ∀ t ∈ s.threads, t.code = []
  queued : s.queued = []

/-- What is known of a state in which the program runs. -/
structure Live (s : Program) : Prop extends Known s where
  running : s.status = .running
  ending : Ending s
  exporter : Coming s .exporter
  signal : ∀ c, Concerns s c → Coming s (.signal c)

variable {starts : Key → Bool} {s : Program} {i j : Nat} {t t' : Goroutine}
variable {n : Name} {code : Code} {a : Action} {c : Collector} {m : Mutex} {msg msg' : Message}

theorem live_of_run {conf : List Key} {pods : Nat} {h : List Event}
    (hrun : run (step starts) (start conf pods) h = some s) (hrunning : s.status = .running) :
    Live s :=
  { known_of_run hrun with
    running := hrunning
    ending := ending_of_run h s hrun hrunning
    exporter := coming_of_run (by simp [programStart]) h s hrun
    signal := fun _ => coming_signal_of_run h s hrun }

/-! ## Who cannot go on -/

/-- What a goroutine with something to do is waiting for. -/
inductive Blocked (s : Program) : Op Mutex Action → Prop where
  | lock (m : Mutex) (t : Goroutine) (ht : t ∈ s.threads) (hm : m ∈ t.held) : Blocked s (.lock m)
  | handOver (n : Name) : Blocked s (.other (.handOver n))
  | send (a : Action) (msg msg' : Message) (hsent : msg ∈ sent s a) (hmsg : msg' ∈ s.queued)
      (hsame : msg.same msg' = true) : Blocked s (.other a)

theorem Message.capacity_pos (msg : Message) : 0 < msg.capacity := by
  cases msg <;> simp [Message.capacity]

theorem blocked_of_enabled (h : enabled s a = false) : Blocked s (.other a) := by
  by_cases hover : ∃ n, a = .handOver n
  · obtain ⟨n, rfl⟩ := hover
    exact .handOver n
  · have hall : ((sent s a).all fun m => s.queued.countP m.same < m.capacity) = false := by
      rw [← h]
      cases a with
      | handOver n => exact absurd ⟨n, rfl⟩ hover
      | _ => rfl
    obtain ⟨msg, hsent, hfull⟩ := List.all_eq_false.1 hall
    have hpos := msg.capacity_pos
    simp only [decide_eq_true_eq, Nat.not_lt] at hfull
    obtain ⟨msg', hmsg, hsame⟩ :=
      List.countP_pos_iff.1 (Nat.lt_of_lt_of_le hpos hfull)
    exact .send a msg msg' hsent hmsg hsame

/-- Whoever has something to do is waiting. -/
theorem AtRest.blocked (h : AtRest starts s) (hs : Live s) (ht : t ∈ s.threads)
    {op : Op Mutex Action} (hcode : t.code = op :: code) : Blocked s op := by
  obtain ⟨i, hi⟩ := List.mem_iff_getElem?.1 ht
  have hstep := h (.exec i calm) trivial rfl
  rw [Goroutines.step, if_pos hs.running] at hstep
  simp only [hi, Option.bind_some, exec, hcode] at hstep
  cases op with
  | lock m =>
      dsimp only at hstep
      split at hstep
      · rename_i hany
        obtain ⟨t', ht', hm⟩ := List.any_eq_true.1 hany
        exact .lock m t' ht' (of_decide_eq_true hm)
      · cases hstep
  | unlock m => cases hstep
  | other a =>
      dsimp only at hstep
      split at hstep
      · cases hstep
      · rename_i henabled
        exact blocked_of_enabled (Bool.not_eq_true _ ▸ henabled)

/-- The messages of one channel. -/
theorem Message.same_eq (h : msg.same msg' = true) : msg'.same = msg.same := by
  cases msg with
  | dataCh b =>
      cases msg' with
      | dataCh b' =>
          funext m
          cases m <;> rfl
      | _ => cases h
  | _ => rw [← of_decide_eq_true h]

/-- Where a message lies in a channel, there is a first one. -/
theorem exists_first (hmsg : msg ∈ s.queued) :
    ∃ msg', msg.same msg' = true ∧ s.queued.find? msg'.same = some msg' := by
  have hself : msg.same msg = true := by
    cases msg <;> simp [Message.same]
  have hsome : (s.queued.find? msg.same).isSome = true :=
    List.find?_isSome.2 ⟨msg, hmsg, hself⟩
  obtain ⟨msg', hfirst⟩ := Option.isSome_iff_exists.1 hsome
  have hsame := List.find?_some hfirst
  exact ⟨msg', hsame, by rw [Message.same_eq hsame, hfirst]⟩

/-- What a free goroutine would receive does not come first in its channel. -/
theorem AtRest.unreceived (h : AtRest starts s) (hs : Live s) (ht : t ∈ s.threads)
    (hnil : t.code = []) (hidle : t.phase = .idle) {x : Input}
    (hmessage : message t.name x = some msg) (hrespond : (respond t.name x).isSome)
    (hfirst : s.queued.find? msg.same = some msg) : False := by
  obtain ⟨i, hi⟩ := List.mem_iff_getElem?.1 ht
  have hstep := h (.input i x) ⟨t.name, by rw [hmessage]; rfl⟩ rfl
  rw [Goroutines.step, if_pos hs.running] at hstep
  obtain ⟨code, hcode⟩ := Option.isSome_iff_exists.1 hrespond
  have hall : ∀ m ∈ message t.name x, s.queued.find? m.same = some m := by
    intro m hm
    rw [hmessage] at hm
    cases hm
    exact hfirst
  simp only [hi, Option.bind_some, input] at hstep
  rw [if_pos ⟨hnil, hidle, hall⟩, hcode] at hstep
  cases hstep

/-- Only the period loops and the short goroutines send. -/
theorem sent_eq_nil (hmay : mayDo n a = true) (hperiod : ∀ c, n ≠ .period c)
    (hworker : n ≠ .worker) : sent s a = [] := by
  cases a with
  | send m =>
      cases n with
      | period c => exact absurd rfl (hperiod c)
      | worker => exact absurd rfl hworker
      | _ => cases hmay
  | sendConf key =>
      cases n with
      | worker => exact absurd rfl hworker
      | _ => cases hmay
  | _ => rfl

/-- A loop that is no period loop is in its `select` until it returns. -/
theorem Live.idle (hs : Live s) (ht : t ∈ s.threads) (hperiod : ∀ c, t.name ≠ .period c)
    (hret : t.phase ≠ .returned) : t.phase = .idle := by
  by_contra hne
  obtain ⟨c, hc⟩ := (hs.sound.sound t ht).polls hne hret
  exact hperiod c hc

/-- The loops that no function ends do not return. -/
theorem Live.not_returned (hs : Live s) (ht : t ∈ s.threads) (hwatcher : t.name ≠ .watcher)
    (hperiod : ∀ c, t.name ≠ .period c) : t.phase ≠ .returned := by
  intro hret
  rcases (hs.waiting t ht).returned hret with hname | ⟨c, hname⟩
  · exact hwatcher hname
  · exact hperiod c hname

/-- The loop of the exporters never waits but to receive. -/
theorem AtRest.exporter (h : AtRest starts s) (hs : Live s) (ht : t ∈ s.threads)
    (hname : t.name = .exporter) : t.code = [] ∧ t.phase = .idle := by
  constructor
  · cases hcode : t.code with
    | nil => rfl
    | cons op code =>
        have hmay := (hs.sound.sound t ht).words op (hcode ▸ List.mem_cons_self)
        rw [hname] at hmay
        cases h.blocked hs ht hcode with
        | lock m t' ht' hm => cases hmay
        | handOver n => cases hmay
        | send a msg msg' hsent hmsg hsame =>
            rw [sent_eq_nil hmay (by simp) (by simp)] at hsent
            cases hsent
  · have hperiod : ∀ c, t.name ≠ .period c := fun c hc => by rw [hname] at hc; cases hc
    have hwatcher : t.name ≠ .watcher := by rw [hname]; decide
    exact hs.idle ht hperiod (hs.not_returned ht hwatcher hperiod)

/-- With the exporters started, no batch waits. -/
theorem AtRest.no_data (h : AtRest starts s) (hs : Live s)
    (hexporter : ∃ t ∈ s.threads, t.name = .exporter) {b : Batch} : .dataCh b ∉ s.queued := by
  intro hb
  obtain ⟨t, ht, hname⟩ := hexporter
  obtain ⟨hnil, hidle⟩ := h.exporter hs ht hname
  obtain ⟨msg, hsame, hfirst⟩ := exists_first hb
  cases msg with
  | dataCh b' =>
      refine h.unreceived hs (x := .data b' 0) ht hnil hidle ?_ ?_ hfirst
      · rw [hname]
        rfl
      · rw [hname]
        rfl
  | _ => cases hsame

/-! ## No mutex is held -/

/-- Nobody sends under a mutex but to `dataCh`. -/
theorem Live.sent_dataCh (hs : Live s) (ht : t ∈ s.threads)
    (hcode : t.code = .other a :: code) (hm : m ∈ t.held) (hsent : msg ∈ sent s a) :
    (∃ b, msg = .dataCh b) ∧ 2 ≤ m.rank := by
  obtain ⟨hpermits, -, -⟩ := (hs.sound.sound t ht).permits hcode
  have hne : t.held.isEmpty ≠ true := by
    intro hempty
    rw [List.isEmpty_iff.1 hempty] at hm
    cases hm
  cases a with
  | send msg' =>
      rw [sent, List.mem_singleton] at hsent
      subst hsent
      cases msg with
      | dataCh b =>
          have hrank := List.all_eq_true.1 hpermits m hm
          exact ⟨⟨b, rfl⟩, of_decide_eq_true hrank⟩
      | _ => exact absurd hpermits hne
  | sendConf key => exact absurd hpermits hne
  | _ => cases hsent

/-- The loop of the exporters runs where a batch waits and somebody holds a mutex.  If it
were still to be started, `main` would wait for a collector that nobody can hold. -/
theorem AtRest.exporter_runs (h : AtRest starts s) (hs : Live s)
    (hlow : ∀ t ∈ s.threads, ∀ m ∈ t.held, 2 ≤ m.rank) :
    ∃ t ∈ s.threads, t.name = .exporter := by
  rcases hs.exporter with hruns | ⟨t, ht, hop⟩
  · exact hruns
  · exfalso
    have hmain := (hs.sound.sound t ht).main hop rfl
    have hlast : ((5, 0, 0), (5, 0, 0)) ∈ spans t.code := List.mem_filterMap.2 ⟨_, hop, rfl⟩
    obtain ⟨op, code, hcode⟩ := List.exists_cons_of_ne_nil (List.ne_nil_of_mem hop)
    have hhead : op ∈ t.code := hcode ▸ List.mem_cons_self
    have hmay := (hs.sound.sound t ht).words op hhead
    rw [hmain] at hmay
    cases h.blocked hs ht hcode with
    | lock m t' ht' hm =>
        have hrank := hlow t' ht' m hm
        cases m with
        | colMutex => cases hmay
        | collector c =>
            -- who holds it has been started behind this lock
            have hspan : ((2, c.index, 1), (2, c.index, 1)) ∈ spans t.code :=
              List.mem_filterMap.2 ⟨_, hhead, rfl⟩
            have hlocks := (hs.sound.sound t' ht').locks _ hm
            have hborn : ∀ k, 1 ≤ k → birth t'.name ≠ some (2, c.index, k) := by
              intro k hk hbirth
              have hlt := hs.staged.passed _ (.born t' ht' hbirth) t ht hmain _ hspan
              simp only [Before] at hlt
              omega
            cases hname : t'.name with
            | main =>
                have hsame : t = t' :=
                  hs.staged.eq_of_name ht ht' (hmain.trans hname.symm) (by rw [hmain]; decide)
                subst hsame
                have hafter := (hs.sound.sound t ht).disciplined
                rw [hcode] at hafter
                exact absurd ((after_lock.1 hafter).1 _ hm) (Nat.lt_irrefl _)
            | period c' =>
                rw [hname] at hlocks hborn
                have hc : c = c' := by simpa [mayLock] using hlocks
                subst hc
                exact hborn 3 (by omega) rfl
            | signal c' =>
                rw [hname] at hlocks hborn
                have hc : c = c' := by simpa [mayLock] using hlocks
                subst hc
                exact hborn 4 (by omega) rfl
            | _ =>
                rw [hname] at hlocks
                simp [mayLock] at hlocks
        | pidLis c => exact absurd hrank (Nat.not_le.2 (Nat.lt_succ_self 1))
        | info => exact absurd hrank (Nat.not_le.2 Nat.zero_lt_two)
    | handOver n =>
        have hlt := hs.staged.passed _ (.needed t ht _ hhead rfl) t ht hmain _ hlast
        exact absurd hlt (by decide)
    | send a msg msg' hsent hmsg hsame =>
        rw [sent_eq_nil hmay (by simp) (by simp)] at hsent
        cases hsent

/-- **At rest no mutex is held.** -/
theorem AtRest.free (h : AtRest starts s) (hs : Live s) : ∀ t ∈ s.threads, t.held = [] := by
  by_contra hheld
  push Not at hheld
  obtain ⟨t₀, ht₀, hne⟩ := hheld
  have hdisciplined : Disciplined rules (s.threads.map Goroutine.thread) := by
    intro thread hthread
    obtain ⟨t, ht, rfl⟩ := List.mem_map.1 hthread
    exact (hs.sound.sound t ht).disciplined
  obtain ⟨thread, hthread, op, code, hcode, hfree, m, hm, hlow⟩ :=
    hdisciplined.exists_unblocked ⟨t₀.thread, List.mem_map_of_mem ht₀, hne⟩
  obtain ⟨t, ht, rfl⟩ := List.mem_map.1 hthread
  have hcode' : t.code = op :: code := hcode
  cases h.blocked hs ht hcode' with
  | lock m' t' ht' hm' => exact hfree m' rfl t'.thread (List.mem_map_of_mem ht') hm'
  | handOver n =>
      obtain ⟨hpermits, -, -⟩ := (hs.sound.sound t ht).permits hcode'
      have hnil : t.held = [] := List.isEmpty_iff.1 hpermits
      rw [show t.thread.1 = t.held from rfl, hnil] at hm
      cases hm
  | send a msg msg' hsent hmsg hsame =>
      obtain ⟨⟨b, rfl⟩, hrank⟩ := hs.sent_dataCh ht hcode' hm hsent
      have hexporter := h.exporter_runs hs fun t' ht' m' hm' =>
        Nat.le_trans hrank (hlow t'.thread (List.mem_map_of_mem ht') m' hm')
      cases msg' with
      | dataCh b' => exact h.no_data hs hexporter hmsg
      | _ => cases hsame

/-! ## Nothing is left to do -/

/-- `main` has started what it is going to start. -/
theorem AtRest.runs (h : AtRest starts s) (hs : Live s) (hcoming : Coming s n)
    (hbirth : ∀ p, birth n = some p → Before p (6, 0, 0)) :
    ∃ t ∈ s.threads, t.name = n := by
  rcases hcoming with hruns | ⟨t, ht, hop⟩
  · exact hruns
  · exfalso
    have hmain := (hs.sound.sound t ht).main hop rfl
    obtain ⟨op, code, hcode⟩ := List.exists_cons_of_ne_nil (List.ne_nil_of_mem hop)
    have hhead : op ∈ t.code := hcode ▸ List.mem_cons_self
    have hmay := (hs.sound.sound t ht).words op hhead
    have hgo := (hs.sound.sound t ht).words _ hop
    rw [hmain] at hmay hgo
    have hn : n ≠ .main ∧ n ≠ .worker := of_decide_eq_true hgo
    cases h.blocked hs ht hcode with
    | lock m t' ht' hm =>
        rw [h.free hs t' ht'] at hm
        cases hm
    | handOver n' =>
        obtain ⟨p, hp⟩ : ∃ p, birth n = some p := by
          cases n with
          | main => exact absurd rfl hn.1
          | worker => exact absurd rfl hn.2
          | _ => exact ⟨_, rfl⟩
        have hspan : (p, p) ∈ spans t.code :=
          List.mem_filterMap.2 ⟨_, hop, by rw [span, hp]; rfl⟩
        have hlt := hs.staged.passed _ (.needed t ht _ hhead rfl) t ht hmain _ hspan
        have hlt' := hbirth p hp
        simp only [Before] at hlt hlt'
        omega
    | send a msg msg' hsent hmsg hsame =>
        rw [sent_eq_nil hmay (by simp) (by simp)] at hsent
        cases hsent

/-- A signal loop with a message would receive it. -/
theorem AtRest.no_message (h : AtRest starts s) (hs : Live s) (hmsg : msg ∈ s.queued)
    (hcollector : msg.collector = some c) : False := by
  obtain ⟨t, ht, hname⟩ := h.runs hs (hs.signal c (.message msg hmsg hcollector))
    fun p hp => by cases hp; simp [Before]
  have hperiod : ∀ c, t.name ≠ .period c := fun c' hc' => by rw [hname] at hc'; cases hc'
  have hwatcher : t.name ≠ .watcher := fun hw => by rw [hname] at hw; cases hw
  have hidle := hs.idle ht hperiod (hs.not_returned ht hwatcher hperiod)
  have hnil : t.code = [] := by
    cases hcode : t.code with
    | nil => rfl
    | cons op code =>
        have hmay := (hs.sound.sound t ht).words op (hcode ▸ List.mem_cons_self)
        rw [hname] at hmay
        cases h.blocked hs ht hcode with
        | lock m t' ht' hm =>
            rw [h.free hs t' ht'] at hm
            cases hm
        | handOver n => cases hmay
        | send a msg msg' hsent hmsg hsame =>
            rw [sent_eq_nil hmay (by simp) (by simp)] at hsent
            cases hsent
  obtain ⟨msg', hsame, hfirst⟩ := exists_first hmsg
  have hreceive : ∀ x, message (.signal c) x = some msg' →
      (respond (.signal c) x).isSome = true → False := by
    intro x hmessage hrespond
    rw [← hname] at hmessage hrespond
    exact h.unreceived hs ht hnil hidle hmessage hrespond hfirst
  cases msg with
  | AddCh c' =>
      cases hcollector
      cases of_decide_eq_true hsame
      exact hreceive .add rfl rfl
  | DelCh c' =>
      cases hcollector
      cases of_decide_eq_true hsame
      exact hreceive .del rfl rfl
  | ConfCh c' =>
      cases hcollector
      cases of_decide_eq_true hsame
      exact hreceive (.conf calm) rfl rfl
  | dataCh b => cases hcollector

theorem AtRest.queued (h : AtRest starts s) (hs : Live s) : s.queued = [] := by
  apply List.eq_nil_iff_forall_not_mem.2
  intro msg hmsg
  cases msg with
  | dataCh b =>
      have hexporter := h.runs hs hs.exporter fun p hp => by cases hp; decide
      exact h.no_data hs hexporter hmsg
  | _ => exact h.no_message hs hmsg rfl

/-- Only `main` can be waiting, to hand over `done`. -/
theorem AtRest.handOver (h : AtRest starts s) (hs : Live s) (ht : t ∈ s.threads)
    {op : Op Mutex Action} (hcode : t.code = op :: code) :
    t.name = .main ∧ ∃ n, op = .other (.handOver n) := by
  cases h.blocked hs ht hcode with
  | lock m t' ht' hm =>
      rw [h.free hs t' ht'] at hm
      cases hm
  | handOver n =>
      exact ⟨(hs.sound.sound _ ht).main (hcode ▸ List.mem_cons_self) rfl, n, rfl⟩
  | send a msg msg' hsent hmsg hsame =>
      rw [h.queued hs] at hmsg
      cases hmsg

/-- A loop without anything to do takes `done`, unless it has returned. -/
theorem AtRest.taken (h : AtRest starts s) (hs : Live s) (ht : t ∈ s.threads)
    (hnil : t.code = []) (hloop : t.name = .watcher ∨ t.name.ofCollector = true)
    (hret : t.phase ≠ .returned) (hwait : waiter s t.name ≠ none) : False := by
  obtain ⟨i, hi⟩ := List.mem_iff_getElem?.1 ht
  obtain ⟨j, hj⟩ := Option.ne_none_iff_exists'.1 hwait
  obtain ⟨t', code, hget, -⟩ := waiter_eq_some hj
  by_cases hperiod : ∃ c, t.name = .period c
  · obtain ⟨c, hc⟩ := hperiod
    cases hphase : t.phase with
    | idle => exact (hs.waiting t ht).period c hc hnil hphase
    | returned => exact hret hphase
    | sleeping =>
        have htick := h (.tick i calm) ⟨t, hi, hwait⟩ rfl
        rw [Goroutines.step, if_pos hs.running] at htick
        simp only [hi, Option.bind_some, tick, hphase, hc, hnil] at htick
        cases htick
    | polling period progress =>
        have hpoll := h (.poll i) ⟨t, hi, hwait⟩ rfl
        rw [Goroutines.step, if_pos hs.running] at hpoll
        simp only [hi, Option.bind_some, poll, hphase, hnil, if_true, hj, Program.release,
          hget] at hpoll
        split at hpoll <;> cases hpoll
  · have hidle := hs.idle ht (fun c hc => hperiod ⟨c, hc⟩) hret
    have hdone := h (.done i) trivial rfl
    rw [Goroutines.step, if_pos hs.running] at hdone
    simp only [hi, Option.bind_some, done, hnil, hidle, and_self, if_true, hj, Program.release,
      hget] at hdone
    cases hname : t.name with
    | watcher =>
        rw [hname] at hdone
        cases hdone
    | signal c =>
        rw [hname] at hdone
        cases hdone
    | period c => exact hperiod ⟨c, hname⟩
    | _ =>
        rw [hname] at hloop
        rcases hloop with hloop | hloop <;> cases hloop

/-- `EndProgram` is not left waiting for a loop. -/
theorem AtRest.finished (h : AtRest starts s) (hs : Live s) : ∀ t ∈ s.threads, t.code = [] := by
  intro m hm
  cases hcode : m.code with
  | nil => rfl
  | cons op code =>
      exfalso
      obtain ⟨hmain, n, rfl⟩ := h.handOver hs hm hcode
      cases hs.ending with
      | before hreturned hnone => exact hnone m hm _ (hcode ▸ List.mem_cons_self) rfl
      | during fns told cur rest hover =>
          have hcalls := hover.main_code hs.toKnown hm hmain
          rw [hcode] at hcalls
          obtain ⟨n', rfl, hop, -⟩ | ⟨k, rest', -, -, hop, -⟩ | ⟨-, -, hop, -⟩ :=
            calls_eq_cons hcalls.symm
          · cases hop
            have hn : n ∈ told ++ (some n).toList :=
              List.mem_append_right _ (List.mem_singleton_self n)
            obtain ⟨⟨t, ht, rfl⟩, hloop, -⟩ := (hover.gone n hn).callable
            have hnil : t.code = [] := by
              cases hcode' : t.code with
              | nil => rfl
              | cons op' code' =>
                  obtain ⟨hmain', -⟩ := h.handOver hs ht hcode'
                  rw [hmain'] at hloop
                  rcases hloop with hloop | hloop <;> cases hloop
            refine h.taken hs ht hnil hloop (fun hret => ?_) fun hnone => ?_
            · -- it would have been told before
              have htold := ((hover.returned t ht).1 hret).1
              exact (List.nodup_append.1 hover.nodup).2.2 _ htold _
                (List.mem_singleton_self _) rfl
            · exact waiter_eq_none_iff.1 hnone m hm code hcode
          · cases hop
          · cases hop

/-- Where the program cannot go on by itself, no mutex is held, the channels are empty, and
no goroutine has anything left to do. -/
theorem settled_of_atRest {conf : List Key} {pods : Nat} {h : List Event}
    (hrun : run (step starts) (start conf pods) h = some s) (hrunning : s.status = .running)
    (hrest : AtRest starts s) : Settled s :=
  ⟨hrest.free (live_of_run hrun hrunning), hrest.finished (live_of_run hrun hrunning),
    hrest.queued (live_of_run hrun hrunning)⟩

/-! ## A loop over a table goes round -/

section Rounds

variable {seen : Nat} {table : Table} (ch : Choice)

theorem step_put (hrunning : s.status = .running) (hlt : i < s.threads.length) :
    step starts (s.put i t) (.exec i ch) = exec starts (s.put i t) i t ch := by
  have hi : (s.put i t).threads[i]? = some t := List.getElem?_set_self hlt
  rw [step, if_pos (show (s.put i t).status = .running from hrunning), hi, Option.bind_some]

theorem put_put : (s.put i t).put i t' = s.put i t' := by
  simp [Program.put]

theorem step_access {d : Datum} {write : Bool} (hrunning : s.status = .running)
    (hlt : i < s.threads.length) (hcode : t.code = .other (.access d write) :: code) :
    step starts (s.put i t) (.exec i ch) = some (s.put i { t with code := code }) := by
  rw [step_put _ hrunning hlt, exec, hcode]
  simp [enabled, sent, perform, store, expand, started, phaseAfter, Program.put]

theorem step_lock (hrunning : s.status = .running) (hlt : i < s.threads.length)
    (hcode : t.code = .lock m :: code) (hfree : ∀ t' ∈ s.threads, m ∉ t'.held)
    (ht : m ∉ t.held) :
    step starts (s.put i t) (.exec i ch) =
      some (s.put i { t with held := m :: t.held, code := code }) := by
  have hnone : ¬(s.put i t).threads.any (fun t => m ∈ t.held) = true := by
    rw [List.any_eq_true]
    rintro ⟨t', ht', hm⟩
    rcases mem_set ht' with hold | rfl
    · exact hfree t' hold (of_decide_eq_true hm)
    · exact ht (of_decide_eq_true hm)
  rw [step_put _ hrunning hlt, exec, hcode]
  simp only [if_neg hnone, put_put]

theorem step_unlock (hrunning : s.status = .running) (hlt : i < s.threads.length)
    (hcode : t.code = .unlock m :: code) :
    step starts (s.put i t) (.exec i ch) =
      some (s.put i { t with held := t.held.erase m, code := code }) := by
  rw [step_put _ hrunning hlt, exec, hcode]
  simp only [put_put]

theorem step_next (hrunning : s.status = .running) (hlt : i < s.threads.length)
    (hcode : t.code = .other (.next c table seen) :: code) :
    step starts (s.put i t) (.exec i busy) = some (s.put i { t with
      code := entry c table ++ .other (.next c table (seen + 1)) :: code }) := by
  rw [step_put _ hrunning hlt, exec, hcode]
  simp [enabled, sent, perform, store, expand, started, phaseAfter, Program.put, busy]

/-- A loop over a table finds another entry, and is where it was. -/
theorem run_round (hrunning : s.status = .running) (hlt : i < s.threads.length)
    (hcode : t.code = .other (.next c table seen) :: code)
    (hfree : ∀ t' ∈ s.threads, .info ∉ t'.held) (ht : .info ∉ t.held) :
    run (step starts) (s.put i t) (List.replicate ((entry c table).length + 1) (.exec i busy)) =
      some (s.put i { t with code := .other (.next c table (seen + 1)) :: code }) := by
  have hnext : run (step starts) (s.put i t) [.exec i busy] = _ :=
    run_cons_of_step rfl (step_next hrunning hlt hcode)
  cases table with
  | countMap =>
      have hlock := run_cons_of_step hnext (step_lock busy hrunning hlt rfl hfree ht)
      have hlookup := run_cons_of_step hlock (step_access busy hrunning hlt rfl)
      have hunlock := run_cons_of_step hlookup (step_unlock busy hrunning hlt rfl)
      have hreset := run_cons_of_step hunlock (step_access busy hrunning hlt rfl)
      rw [List.erase_cons_head] at hreset
      exact hreset
  | distMap => exact run_cons_of_step hnext (step_access busy hrunning hlt rfl)
  | controlMap => exact run_cons_of_step hnext (step_access busy hrunning hlt rfl)

/-- **Nothing ends a loop over a table but its table: however often it has gone round, it may
do so again, and it keeps the mutex of its collector.** -/
theorem exists_run_rounds (hrunning : s.status = .running) (hi : s.threads[i]? = some t)
    (hcode : t.code = .other (.next c table seen) :: code)
    (hfree : ∀ t' ∈ s.threads, .info ∉ t'.held) (k : Nat) :
    ∃ h, (∀ e ∈ h, e = .exec i busy) ∧ run (step starts) s h =
      some (s.put i { t with code := .other (.next c table (seen + k)) :: code }) := by
  obtain ⟨hlt, rfl⟩ := List.getElem?_eq_some_iff.1 hi
  have ht := hfree _ (List.getElem_mem hlt)
  have hself : s = s.put i s.threads[i] := by
    rw [Program.put, List.set_getElem_self]
  induction k with
  | zero =>
      refine ⟨[], fun e he => (by cases he), ?_⟩
      rw [Nat.add_zero, ← hcode, ← hself]
      rfl
  | succ k ih =>
      obtain ⟨h, hexec, hrun⟩ := ih
      refine ⟨_ ++ h, fun e he => ?_, run_append_of_run hrun (run_round hrunning hlt rfl hfree ht)⟩
      exact (List.mem_append.1 he).elim List.eq_of_mem_replicate (hexec e)

end Rounds

/-! ## Whatever the schedule -/

variable {conf : List Key} {pods : Nat} {h : List Event} {s' : Program} {e : Event}

/-- Where there is no step of the program by itself. -/
theorem atRest_of_stuck {k : Nat} (hs : Reachable starts conf pods s)
    (hstuck : ∀ p, ¬LimitedStep starts conf pods p (s, k)) : AtRest starts s := by
  intro e he hround
  cases hstep : step starts s e with
  | none => rfl
  | some s' => exact absurd ⟨hs, e, he, hstep, by rw [hround]; rfl⟩ (hstuck (s', k))

theorem reachable_step {p q : Program × Nat} (hp : Reachable starts conf pods p.1)
    (h : LimitedStep starts conf pods q p) : Reachable starts conf pods q.1 := by
  obtain ⟨-, e, -, he, -⟩ := h
  obtain ⟨h, hrun⟩ := hp
  exact ⟨e :: h, run_cons_of_step hrun he⟩

/-- **From every state that the program reaches it settles, unless it ends: whatever the
schedule, and however often its loops over the tables go round in all, it does a finite number
of steps by itself, and none of its goroutines is left waiting for another.** -/
theorem settles (hrun : run (step starts) (start conf pods) h = some s) (k : Nat) :
    Inevitable (LimitedStep starts conf pods)
      (fun p => Settled p.1 ∨ p.1.status ≠ .running) (s, k) := by
  refine inevitable_of_wellFounded (I := fun p => Reachable starts conf pods p.1)
    (limited_wellFounded starts conf pods) (fun _ _ => reachable_step) ?_ ⟨h, hrun⟩
  rintro ⟨s, k⟩ ⟨h, hrun⟩ hstuck
  by_cases hrunning : s.status = .running
  · exact .inl (settled_of_atRest hrun hrunning (atRest_of_stuck ⟨h, hrun⟩ hstuck))
  · exact .inr hrunning

/-- The setup of one section, and then the period loop finds an entry in its table. -/
def upToEntry : List Event :=
  List.replicate 6 (.exec 4 { calm with more := true }) ++ mainSteps 21

/-- From there, with seven more rounds. -/
theorem settles_single : ∃ s,
    run (step fun _ => true) (start [(.ColFcount, "calls")] 0) upToEntry = some s ∧
    Inevitable (LimitedStep (fun _ => true) [(.ColFcount, "calls")] 0)
      (fun p => Settled p.1 ∨ p.1.status ≠ .running) (s, 7) := by
  have hsome : (run (step fun _ => true) (start [(.ColFcount, "calls")] 0)
      upToEntry).isSome = true := by decide
  obtain ⟨s, hs⟩ := Option.isSome_iff_exists.1 hsome
  exact ⟨s, hs, settles hs 7⟩

/-- After an interrupt `main` is about to exit. -/
theorem pending_exit (hrun : run (step starts) (start conf pods) h = some s)
    (hinterrupt : .input i .interrupt ∈ h) (hrunning : s.status = .running) :
    Pending s .exit := by
  refine run_invariant
    (I := fun h s => .input i .interrupt ∈ h → s.status = .running → Pending s .exit)
    (fun hmem => by cases hmem) ?_ h s hrun hinterrupt hrunning
  intro h s e s' hrun hs he hmem hrunning
  obtain ⟨hbefore, hsteps⟩ := steps_of_run hrun he
  rcases List.mem_cons.1 hmem with rfl | hmem
  · cases hsteps with
    | input hi hnil hidle hfirst hcode =>
        rename_i t code
        obtain ⟨hlt, -⟩ := List.getElem?_eq_some_iff.1 hi
        refine ⟨{ t with code := code }, List.mem_set hlt _, ?_⟩
        cases hname : t.name <;> rw [hname] at hcode <;> cases hcode
        simp
    | release hi hj hnil hreceives hcode hevent => rcases hevent with he | he <;> cases he
  · rcases pending_step hsteps (by simp) (hs hmem hbefore) with hpending | hdone
    · exact hpending
    · obtain ⟨i, t, code, ch, hi, hcode, rfl⟩ := hdone
      cases hrunning

/-- **After an interrupt the program ends, whatever the schedule, unless its loops over the
tables go round for ever.** -/
theorem ends_of_interrupt (hrun : run (step starts) (start conf pods) h = some s)
    (hinterrupt : .input i .interrupt ∈ h) (k : Nat) :
    Inevitable (LimitedStep starts conf pods) (fun p => p.1.status ≠ .running) (s, k) := by
  refine inevitable_of_wellFounded
    (I := fun p => ∃ h, run (step starts) (start conf pods) h = some p.1 ∧
      .input i .interrupt ∈ h)
    (limited_wellFounded starts conf pods) ?_ ?_ ⟨h, hrun, hinterrupt⟩
  · rintro p q ⟨h, hrun, hmem⟩ ⟨-, e, -, he, -⟩
    exact ⟨e :: h, run_cons_of_step hrun he, List.mem_cons_of_mem _ hmem⟩
  · rintro ⟨s, k⟩ ⟨h, hrun, hmem⟩ hstuck hrunning
    have hsettled := settled_of_atRest hrun hrunning (atRest_of_stuck ⟨h, hrun⟩ hstuck)
    obtain ⟨t, ht, hop⟩ := pending_exit hrun hmem hrunning
    rw [hsettled.code t ht] at hop
    cases hop

/-- An interrupt while the period loop goes over its table. -/
theorem ends_of_interrupt_single : ∃ s, run (step fun _ => true)
      (start [(.ColFcount, "calls")] 0) (.input 0 .interrupt :: upToEntry) = some s ∧
    Inevitable (LimitedStep (fun _ => true) [(.ColFcount, "calls")] 0)
      (fun p => p.1.status ≠ .running) (s, 7) := by
  have hsome : (run (step fun _ => true) (start [(.ColFcount, "calls")] 0)
      (.input 0 .interrupt :: upToEntry)).isSome = true := by decide
  obtain ⟨s, hs⟩ := Option.isSome_iff_exists.1 hsome
  exact ⟨s, hs, ends_of_interrupt (i := 0) hs List.mem_cons_self 7⟩

end Kmon.Ports.Goroutines
