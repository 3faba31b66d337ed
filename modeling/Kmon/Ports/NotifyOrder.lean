import Mathlib.Algebra.GroupWithZero.Nat
import Mathlib.Data.List.Chain
import Kmon.Verified.Run
import Kmon.Verified.Pool
import Kmon.Ports.PidListener

/-!
# The goroutines of `notifyChange` against a collector's signal loop

`notifyChange` starts a goroutine that sends the entries of one delta on `AddCh`
and `DelCh`; nothing orders the goroutines of successive configuration changes.
The signal loop of a collector receives from either channel and keeps the key
set of its control map: `SetP` for an added PID, `DeleteP` for a deleted one,
each on the PID cut to 32 bits.  The five collectors do the same here; they
differ in the value they store.

The machine below has a step for each send, each receive and each call, so that
a run is an interleaving.  With the container store fixed, the key set is right
whatever the interleaving exactly when every configuration watches all that the
one before it watched (`delivered_agrees_iff`): then nothing is ever deleted.
As soon as a PID is dropped, its deletion and its earlier addition may be
received in either order.
-/

namespace Kmon.Ports.NotifyOrder

open Kmon.Verified
open Kmon.Verified.Run
open Kmon.Verified.Pool
open Kmon.Ports.Config
open Kmon.Ports.InfoStore
open Kmon.Ports.PidListener

/-- The capacity every collector gives to `AddCh` and `DelCh`. -/
def bufferSize : Nat := 1024

/-- `uint32(pid)`. -/
def uint32 (pid : Int) : BitVec 32 := BitVec.ofInt 32 pid

/-- A listener, the goroutines its notifications run in (the entries each has
still to send), the two channels, and the key set of the control map. -/
structure Notifying where
  lis : PIDLis
  senders : List Delta
  addCh : List Int
  delCh : List Int
  control : Finset (BitVec 32)

/-- The moves of an interleaving. -/
inductive Move where
  | onConfigChange (conf : ListenConfig)
  | send (i : Nat) (pid : Int)
  | receiveAdd
  | receiveDel

/-- The state of a collector that has just built its listener. -/
def fresh : Notifying :=
  { lis := newPIDLis ListenConfig.zero, senders := [], addCh := [], delCh := [], control := ∅ }

/-- One move.  A goroutine may send any entry it has left, in the order in which
it happens to range over its map; it blocks on a full channel. -/
def step (matchString : String → String → Bool) (containerPID : ContainerPID)
    (s : Notifying) : Move → Option Notifying
  | .onConfigChange conf =>
      let changed := onConfigChange matchString containerPID s.lis conf
      some { s with lis := changed.1, senders := s.senders ++ [changed.2] }
  | .send i pid =>
      match s.senders[i]? with
      | none => none
      | some delta =>
          match delta.lookup pid with
          | none => none
          | some true =>
              if s.addCh.length < bufferSize then
                some { s with
                  senders := s.senders.set i (delta.erase pid)
                  addCh := s.addCh ++ [pid] }
              else none
          | some false =>
              if s.delCh.length < bufferSize then
                some { s with
                  senders := s.senders.set i (delta.erase pid)
                  delCh := s.delCh ++ [pid] }
              else none
  | .receiveAdd =>
      match s.addCh with
      | [] => none
      | pid :: rest => some { s with addCh := rest, control := insert (uint32 pid) s.control }
  | .receiveDel =>
      match s.delCh with
      | [] => none
      | pid :: rest => some { s with delCh := rest, control := s.control.erase (uint32 pid) }

/-- The configuration a move calls `OnConfigChange` with. -/
def Move.conf? : Move → Option ListenConfig
  | .onConfigChange conf => some conf
  | _ => none

/-- The configurations of a run, in the order of the calls. -/
def configs (moves : List Move) : List ListenConfig :=
  (moves.filterMap Move.conf?).reverse

/-- Goroutine `i` has still to send the entry `(pid, state)`. -/
def Pending (s : Notifying) (i : Nat) (pid : Int) (state : Bool) : Prop :=
  ∃ delta, s.senders[i]? = some delta ∧ delta.lookup pid = some state

/-- Every notification has been received. -/
structure Delivered (s : Notifying) : Prop where
  sent : ∀ i pid state, ¬ Pending s i pid state
  addCh : s.addCh = []
  delCh : s.delCh = []

/-- The key set of the control map is `pidSet` together with `containerSet`. -/
def Agrees (s : Notifying) : Prop :=
  s.control = s.lis.tracked.image uint32

/-! ## One send -/

section Send

variable {s : Notifying} {i : Nat} {pid : Int} {delta : Delta}

/-- What the goroutines have left once goroutine `i` has sent its entry for
`pid`. -/
theorem pending_set (hi : s.senders[i]? = some delta) {j : Nat} {q : Int} {b : Bool}
    {t : Notifying} (ht : t.senders = s.senders.set i (delta.erase pid)) :
    Pending t j q b ↔ Pending s j q b ∧ ¬ (j = i ∧ q = pid) := by
  have hlt : i < s.senders.length := (List.getElem?_eq_some_iff.1 hi).1
  unfold Pending
  rw [ht]
  by_cases hj : j = i
  · subst hj
    rw [List.getElem?_set_self hlt, hi]
    simp only [Option.some.injEq, exists_eq_left', true_and, GoMap.lookup_erase_ite]
    by_cases hq : q = pid <;> simp [hq]
  · rw [List.getElem?_set_ne (Ne.symm hj)]
    simp only [hj, false_and, not_false_eq_true, and_true]

end Send

section Machine

variable {matchString : String → String → Bool} {containerPID : ContainerPID}

/-- What a successful send does: the entry leaves its goroutine and is the last
of its channel. -/
theorem step_send {s t : Notifying} {i : Nat} {pid : Int}
    (h : step matchString containerPID s (.send i pid) = some t) :
    ∃ delta, s.senders[i]? = some delta ∧
      t.senders = s.senders.set i (delta.erase pid) ∧
      t.lis = s.lis ∧ t.control = s.control ∧
      ((delta.lookup pid = some true ∧ t.addCh = s.addCh ++ [pid] ∧ t.delCh = s.delCh) ∨
        (delta.lookup pid = some false ∧ t.delCh = s.delCh ++ [pid] ∧ t.addCh = s.addCh)) := by
  simp only [step] at h
  split at h
  · cases h
  · rename_i delta hi
    refine ⟨delta, hi, ?_⟩
    split at h
    · cases h
    · rename_i hl
      split at h
      · cases h
        exact ⟨rfl, rfl, rfl, Or.inl ⟨hl, rfl, rfl⟩⟩
      · cases h
    · rename_i hl
      split at h
      · cases h
        exact ⟨rfl, rfl, rfl, Or.inr ⟨hl, rfl, rfl⟩⟩
      · cases h

/-! ## When nothing is ever dropped

Along a run whose configurations watch more and more, no deletion is ever
announced, and every tracked PID is in the control map or on its way there. -/

/-- The PIDs the listener tracks after a sequence of configurations. -/
def lastWatched (matchString : String → String → Bool) (containerPID : ContainerPID)
    (confs : List ListenConfig) : Finset Int :=
  match confs.getLast? with
  | none => ∅
  | some conf => watched matchString containerPID conf

/-- No configuration of the sequence drops a PID its predecessor watched. -/
def Growing (matchString : String → String → Bool) (containerPID : ContainerPID)
    (confs : List ListenConfig) : Prop :=
  confs.IsChain fun conf conf' =>
    watched matchString containerPID conf ⊆ watched matchString containerPID conf'

/-- The invariant of such a run. -/
structure OnlyAdds (s : Notifying) : Prop where
  noDeletion : ∀ i pid, ¬ Pending s i pid false
  delCh : s.delCh = []
  pendingTracked : ∀ i pid, Pending s i pid true → pid ∈ s.lis.tracked
  addTracked : ∀ pid ∈ s.addCh, pid ∈ s.lis.tracked
  controlTracked : ∀ key ∈ s.control, ∃ pid ∈ s.lis.tracked, uint32 pid = key
  onItsWay : ∀ pid ∈ s.lis.tracked,
    uint32 pid ∈ s.control ∨ pid ∈ s.addCh ∨ ∃ i, Pending s i pid true

theorem onlyAdds_fresh : OnlyAdds fresh where
  noDeletion := by simp [Pending, fresh]
  delCh := rfl
  pendingTracked := by simp [Pending, fresh]
  addTracked := by simp [fresh]
  controlTracked := by simp [fresh]
  onItsWay := by simp [fresh]

/-- The goroutines after a notification: those before, and one more with the new
delta. -/
theorem pending_append {s t : Notifying} {delta : Delta}
    (ht : t.senders = s.senders ++ [delta]) {i : Nat} {pid : Int} {b : Bool} :
    Pending t i pid b ↔ Pending s i pid b ∨
      (i = s.senders.length ∧ delta.lookup pid = some b) := by
  unfold Pending
  rw [ht]
  rcases Nat.lt_trichotomy i s.senders.length with hlt | heq | hgt
  · rw [List.getElem?_append_left hlt]
    simp [Nat.ne_of_lt hlt]
  · subst heq
    simp
  · have hnone : s.senders[i]? = none := List.getElem?_eq_none (Nat.le_of_lt hgt)
    have hone : [delta][i - s.senders.length]? = none :=
      List.getElem?_eq_none (by simp only [List.length_singleton]; omega)
    rw [List.getElem?_append_right (Nat.le_of_lt hgt), hnone, hone]
    simp [Nat.ne_of_gt hgt]

/-- What a delta announces: every PID now tracked as added, and every PID no longer
tracked as deleted. -/
def Announces (lis lis' : PIDLis) (delta : Delta) : Prop :=
  ∀ pid, delta.lookup pid =
    if pid ∈ lis'.tracked then some true else if pid ∈ lis.tracked then some false else none

theorem announces_onConfigChange (lis : PIDLis) (conf : ListenConfig) :
    Announces lis (onConfigChange matchString containerPID lis conf).1
      (onConfigChange matchString containerPID lis conf).2 := by
  intro pid
  rw [lookup_onConfigChange_delta, tracked_onConfigChange]

/-- A change of the listener that drops no PID. -/
theorem OnlyAdds.announce {s : Notifying} {lis : PIDLis} {delta : Delta} (h : OnlyAdds s)
    (hgrow : s.lis.tracked ⊆ lis.tracked) (hdelta : Announces s.lis lis delta) :
    OnlyAdds { s with lis := lis, senders := s.senders ++ [delta] } := by
  have hpend : ∀ {i : Nat} {pid : Int} {b : Bool},
      Pending { s with lis := lis, senders := s.senders ++ [delta] } i pid b ↔
        Pending s i pid b ∨ (i = s.senders.length ∧ delta.lookup pid = some b) :=
    pending_append rfl
  refine
    { noDeletion := ?_
      delCh := h.delCh
      pendingTracked := ?_
      addTracked := fun pid hpid => hgrow (h.addTracked pid hpid)
      controlTracked := ?_
      onItsWay := ?_ }
  · intro i pid hp
    rcases hpend.1 hp with hp | ⟨-, hl⟩
    · exact h.noDeletion i pid hp
    · rw [hdelta pid] at hl
      split at hl
      · cases hl
      · rename_i hnot
        split at hl
        · rename_i hold
          exact hnot (hgrow hold)
        · cases hl
  · intro i pid hp
    rcases hpend.1 hp with hp | ⟨-, hl⟩
    · exact hgrow (h.pendingTracked i pid hp)
    · by_contra hnot
      rw [hdelta pid, if_neg hnot] at hl
      split at hl <;> cases hl
  · intro key hkey
    obtain ⟨pid, hpid, heq⟩ := h.controlTracked key hkey
    exact ⟨pid, hgrow hpid, heq⟩
  · intro pid hpid
    refine Or.inr (Or.inr ⟨s.senders.length, hpend.2 (Or.inr ⟨rfl, ?_⟩)⟩)
    rw [hdelta pid, if_pos hpid]

theorem OnlyAdds.onConfigChange {s t : Notifying} {conf : ListenConfig} (h : OnlyAdds s)
    (hgrow : s.lis.tracked ⊆ watched matchString containerPID conf)
    (ht : step matchString containerPID s (.onConfigChange conf) = some t) : OnlyAdds t := by
  cases ht
  rw [← tracked_onConfigChange s.lis conf] at hgrow
  exact h.announce hgrow (announces_onConfigChange s.lis conf)

theorem OnlyAdds.send {s t : Notifying} {i : Nat} {pid : Int} (h : OnlyAdds s)
    (ht : step matchString containerPID s (.send i pid) = some t) : OnlyAdds t := by
  obtain ⟨delta, hi, hsenders, hlis, hcontrol, hcase⟩ := step_send ht
  have hpend : ∀ {j : Nat} {q : Int} {b : Bool},
      Pending t j q b ↔ Pending s j q b ∧ ¬ (j = i ∧ q = pid) := pending_set hi hsenders
  rcases hcase with ⟨hl, hadd, hdel⟩ | ⟨hl, -, -⟩
  · refine
      { noDeletion := fun j q hp => h.noDeletion j q (hpend.1 hp).1
        delCh := hdel.trans h.delCh
        pendingTracked := fun j q hp => by rw [hlis]; exact h.pendingTracked j q (hpend.1 hp).1
        addTracked := ?_
        controlTracked := by rw [hcontrol, hlis]; exact h.controlTracked
        onItsWay := ?_ }
    · intro q hq
      rw [hlis]
      rw [hadd, List.mem_append, List.mem_singleton] at hq
      rcases hq with hq | rfl
      · exact h.addTracked q hq
      · exact h.pendingTracked i q ⟨delta, hi, hl⟩
    · intro q hq
      rw [hlis] at hq
      rw [hcontrol, hadd, List.mem_append, List.mem_singleton]
      rcases h.onItsWay q hq with hc | ha | ⟨j, hj⟩
      · exact Or.inl hc
      · exact Or.inr (Or.inl (Or.inl ha))
      · by_cases hqp : q = pid
        · exact Or.inr (Or.inl (Or.inr hqp))
        · exact Or.inr (Or.inr ⟨j, hpend.2 ⟨hj, fun hji => hqp hji.2⟩⟩)
  · exact absurd ⟨delta, hi, hl⟩ (h.noDeletion i pid)

theorem OnlyAdds.receiveAdd {s t : Notifying} (h : OnlyAdds s)
    (ht : step matchString containerPID s .receiveAdd = some t) : OnlyAdds t := by
  simp only [step] at ht
  split at ht
  · cases ht
  · rename_i pid rest hadd
    cases ht
    refine
      { noDeletion := h.noDeletion
        delCh := h.delCh
        pendingTracked := h.pendingTracked
        addTracked := fun q hq => h.addTracked q (by rw [hadd]; exact List.mem_cons_of_mem _ hq)
        controlTracked := ?_
        onItsWay := ?_ }
    · intro key hkey
      rcases Finset.mem_insert.1 hkey with rfl | hkey
      · exact ⟨pid, h.addTracked pid (by rw [hadd]; exact List.mem_cons_self), rfl⟩
      · exact h.controlTracked key hkey
    · intro q hq
      rcases h.onItsWay q hq with hc | ha | hp
      · exact Or.inl (Finset.mem_insert_of_mem hc)
      · rw [hadd, List.mem_cons] at ha
        rcases ha with rfl | ha
        · exact Or.inl (Finset.mem_insert_self _ _)
        · exact Or.inr (Or.inl ha)
      · exact Or.inr (Or.inr hp)

theorem OnlyAdds.receiveDel {s t : Notifying} (h : OnlyAdds s)
    (ht : step matchString containerPID s .receiveDel = some t) : OnlyAdds t := by
  simp only [step, h.delCh] at ht
  cases ht

/-- After the run the listener tracks what the last configuration watches, and
if the configurations grow, only additions were announced. -/
theorem run_onlyAdds (moves : List Move) (s : Notifying)
    (h : run (step matchString containerPID) fresh moves = some s) :
    s.lis.tracked = lastWatched matchString containerPID (configs moves) ∧
      (Growing matchString containerPID (configs moves) → OnlyAdds s) := by
  refine run_invariant (I := fun moves s =>
    s.lis.tracked = lastWatched matchString containerPID (configs moves) ∧
      (Growing matchString containerPID (configs moves) → OnlyAdds s))
    ⟨rfl, fun _ => onlyAdds_fresh⟩ ?_ moves s h
  rintro moves s e t - ⟨htracked, honly⟩ he
  cases e with
  | onConfigChange conf =>
      have hconfigs : configs (.onConfigChange conf :: moves) = configs moves ++ [conf] := by
        simp [configs, Move.conf?]
      constructor
      · cases he
        rw [hconfigs, lastWatched, List.getLast?_append]
        exact tracked_onConfigChange s.lis conf
      · intro hgrow
        rw [hconfigs, Growing, List.isChain_append] at hgrow
        refine OnlyAdds.onConfigChange (honly hgrow.1) ?_ he
        rw [htracked, lastWatched]
        cases hlast : (configs moves).getLast? with
        | none => exact Finset.empty_subset _
        | some conf' => exact hgrow.2.2 conf' hlast conf rfl
  | send i pid =>
      obtain ⟨delta, -, -, hlis, -, -⟩ := step_send he
      exact ⟨by rw [hlis]; exact htracked, fun hgrow => (honly hgrow).send he⟩
  | receiveAdd =>
      refine ⟨?_, fun hgrow => (honly hgrow).receiveAdd he⟩
      simp only [step] at he
      split at he
      · cases he
      · cases he
        exact htracked
  | receiveDel =>
      refine ⟨?_, fun hgrow => (honly hgrow).receiveDel he⟩
      simp only [step] at he
      split at he
      · cases he
      · cases he
        exact htracked

theorem OnlyAdds.agrees {s : Notifying} (h : OnlyAdds s) (hd : Delivered s) : Agrees s := by
  ext key
  rw [Finset.mem_image]
  constructor
  · exact h.controlTracked key
  · rintro ⟨pid, hpid, rfl⟩
    rcases h.onItsWay pid hpid with hc | ha | ⟨i, hp⟩
    · exact hc
    · rw [hd.addCh] at ha
      cases ha
    · exact absurd hp (hd.sent i pid true)

/-! ## A schedule that receives one chosen entry last

With empty channels any entry can be sent and received at once, so the
goroutines can be drained in any order.  The measure is the number of entries
they have left. -/

/-- The number of entries the goroutines have still to send. -/
def entriesLeft : List Delta → Nat
  | [] => 0
  | delta :: senders => delta.keys.card + entriesLeft senders

/-- Both channels are empty. -/
def Idle (s : Notifying) : Prop := s.addCh = [] ∧ s.delCh = []

/-- What receiving an entry does to the control map. -/
def received (state : Bool) (pid : Int) (control : Finset (BitVec 32)) : Finset (BitVec 32) :=
  if state then insert (uint32 pid) control else control.erase (uint32 pid)

theorem entriesLeft_eq_sum (senders : List Delta) :
    entriesLeft senders = (senders.map fun delta => delta.keys.card).sum := by
  induction senders with
  | nil => rfl
  | cons delta senders ih => rw [entriesLeft, ih, List.map_cons, List.sum_cons]

/-- A send leaves one entry less. -/
theorem entriesLeft_set {pid : Int} {b : Bool} {delta : Delta} (hl : delta.lookup pid = some b)
    {senders : List Delta} {i : Nat} (hi : senders[i]? = some delta) :
    entriesLeft (senders.set i (delta.erase pid)) + 1 = entriesLeft senders := by
  obtain ⟨rest, hsum, hset⟩ :=
    exists_sum_map_set (fun delta : Delta => delta.keys.card) hi (delta.erase pid)
  have hcard : (delta.erase pid).keys.card + 1 = delta.keys.card := by
    rw [Finmap.keys_erase]
    exact Finset.card_erase_add_one (GoMap.mem_keys_iff.2 ⟨b, hl⟩)
  rw [entriesLeft_eq_sum, entriesLeft_eq_sum, hsum, hset]
  omega

variable (matchString containerPID) in
/-- Sending an entry over idle channels and receiving it. -/
theorem run_handOver {s : Notifying} {i : Nat} {pid : Int} {b : Bool} (hidle : Idle s)
    (hp : Pending s i pid b) :
    ∃ moves t, run (step matchString containerPID) s moves = some t ∧
      moves.filterMap Move.conf? = [] ∧ Idle t ∧ t.lis = s.lis ∧
      t.control = received b pid s.control ∧ entriesLeft t.senders + 1 = entriesLeft s.senders ∧
      ∀ j q state, Pending t j q state ↔ Pending s j q state ∧ ¬ (j = i ∧ q = pid) := by
  obtain ⟨delta, hi, hl⟩ := hp
  obtain ⟨hadd, hdel⟩ := hidle
  cases b with
  | true =>
      let t : Notifying :=
        { s with
          senders := s.senders.set i (delta.erase pid)
          control := insert (uint32 pid) s.control }
      refine ⟨[.receiveAdd, .send i pid], t, ?_, rfl, ⟨hadd, hdel⟩, rfl, rfl,
        entriesLeft_set hl hi, fun _ _ _ => pending_set hi rfl⟩
      simp [run, step, hi, hl, hadd, bufferSize, t]
  | false =>
      let t : Notifying :=
        { s with
          senders := s.senders.set i (delta.erase pid)
          control := s.control.erase (uint32 pid) }
      refine ⟨[.receiveDel, .send i pid], t, ?_, rfl, ⟨hadd, hdel⟩, rfl, rfl,
        entriesLeft_set hl hi, fun _ _ _ => pending_set hi rfl⟩
      simp [run, step, hi, hl, hdel, bufferSize, t]

variable (matchString containerPID) in
/-- A schedule may receive any one entry last: it decides whether its key stays
in the control map. -/
theorem exists_schedule {i : Nat} {pid : Int} {b : Bool} :
    ∀ (n : Nat) (s : Notifying), entriesLeft s.senders = n → Idle s → Pending s i pid b →
      ∃ moves t, run (step matchString containerPID) s moves = some t ∧
        moves.filterMap Move.conf? = [] ∧ Delivered t ∧ t.lis = s.lis ∧
        (uint32 pid ∈ t.control ↔ b = true) := by
  intro n
  induction n with
  | zero =>
      intro s hn hidle hp
      obtain ⟨-, t, -, -, -, -, -, hleft, -⟩ :=
        run_handOver matchString containerPID hidle hp
      omega
  | succ n ih =>
      intro s hn hidle hp
      by_cases hother : ∃ j q state, Pending s j q state ∧ ¬ (j = i ∧ q = pid)
      · -- hand over some other entry first; the chosen one stays pending
        obtain ⟨j, q, state, hq, hne⟩ := hother
        obtain ⟨first, u, hu, hnone, huidle, hulis, -, huleft, hupend⟩ :=
          run_handOver matchString containerPID hidle hq
        have hpu : Pending u i pid b :=
          (hupend i pid b).2 ⟨hp, fun h => hne ⟨h.1.symm, h.2.symm⟩⟩
        obtain ⟨rest, t, ht, hrest, hdone, htlis, hkey⟩ := ih u (by omega) huidle hpu
        refine ⟨rest ++ first, t, run_append_of_run hu ht, ?_, hdone, htlis.trans hulis, hkey⟩
        rw [List.filterMap_append, hrest, hnone, List.append_nil]
      · -- the chosen entry is the last one left
        obtain ⟨moves, t, ht, hnone, htidle, htlis, hcontrol, -, hpend⟩ :=
          run_handOver matchString containerPID hidle hp
        refine ⟨moves, t, ht, hnone, ⟨?_, htidle.1, htidle.2⟩, htlis, ?_⟩
        · intro j q state hq
          obtain ⟨hq, hne⟩ := (hpend j q state).1 hq
          exact hother ⟨j, q, state, hq, hne⟩
        · rw [hcontrol, received]
          cases b <;> simp

variable (matchString containerPID) in
/-- All calls may be made before any entry is sent. -/
theorem exists_run_configs (confs : List ListenConfig) :
    ∀ s, ∃ t, run (step matchString containerPID) s
        (confs.reverse.map Move.onConfigChange) = some t ∧
      t.addCh = s.addCh ∧ t.delCh = s.delCh ∧ (∃ new, t.senders = s.senders ++ new) ∧
      t.lis.tracked = match confs.getLast? with
        | none => s.lis.tracked
        | some conf => watched matchString containerPID conf := by
  induction confs using List.reverseRecOn with
  | nil => exact fun s => ⟨s, rfl, rfl, rfl, ⟨[], (List.append_nil _).symm⟩, rfl⟩
  | append_singleton confs conf ih =>
      intro s
      obtain ⟨t, ht, hadd, hdel, ⟨new, hnew⟩, -⟩ := ih s
      let changed := onConfigChange matchString containerPID t.lis conf
      refine ⟨{ t with lis := changed.1, senders := t.senders ++ [changed.2] }, ?_, hadd, hdel,
        ⟨new ++ [changed.2], ?_⟩, ?_⟩
      · rw [List.reverse_append, List.reverse_singleton, List.singleton_append, List.map_cons]
        exact run_cons_of_step ht rfl
      · simp only [hnew, List.append_assoc]
      · rw [List.getLast?_append]
        exact tracked_onConfigChange t.lis conf

theorem configs_map (confs : List ListenConfig) :
    configs (confs.reverse.map Move.onConfigChange) = confs := by
  have hmap : ∀ l : List ListenConfig,
      (l.map Move.onConfigChange).filterMap Move.conf? = l := by
    intro l
    induction l with
    | nil => rfl
    | cons conf l ih => rw [List.map_cons, List.filterMap_cons, ih]; rfl
  rw [configs, hmap, List.reverse_reverse]

/-- Where a configuration drops a PID, the goroutine of its predecessor still has
to announce it and its own goroutine has to announce its deletion. -/
theorem exists_run_conflict (pre post : List ListenConfig) {conf conf' : ListenConfig}
    {pid : Int} (hpid : pid ∈ watched matchString containerPID conf)
    (hdrop : pid ∉ watched matchString containerPID conf') :
    ∃ moves s i, run (step matchString containerPID) fresh moves = some s ∧
      configs moves = pre ++ conf :: conf' :: post ∧ Idle s ∧
      Pending s i pid true ∧ Pending s (i + 1) pid false := by
  obtain ⟨s₁, h₁, hadd₁, hdel₁, -, -⟩ :=
    exists_run_configs matchString containerPID pre fresh
  let first := onConfigChange matchString containerPID s₁.lis conf
  let second := onConfigChange matchString containerPID first.1 conf'
  let s₂ : Notifying :=
    { s₁ with lis := second.1, senders := s₁.senders ++ [first.2] ++ [second.2] }
  have h₂ : run (step matchString containerPID) s₁
      [.onConfigChange conf', .onConfigChange conf] = some s₂ := rfl
  obtain ⟨s₃, h₃, hadd₃, hdel₃, ⟨new, hnew⟩, -⟩ :=
    exists_run_configs matchString containerPID post s₂
  refine ⟨post.reverse.map Move.onConfigChange ++
      ([.onConfigChange conf', .onConfigChange conf] ++ pre.reverse.map Move.onConfigChange),
    s₃, s₁.senders.length, run_append_of_run (run_append_of_run h₁ h₂) h₃, ?_,
    ⟨hadd₃.trans hadd₁, hdel₃.trans hdel₁⟩, ⟨first.2, ?_, ?_⟩, ⟨second.2, ?_, ?_⟩⟩
  · rw [← configs_map (pre ++ conf :: conf' :: post)]
    simp [List.reverse_append]
  · rw [hnew, List.append_assoc, List.append_assoc, List.getElem?_append_right (Nat.le_refl _)]
    simp
  · rw [lookup_onConfigChange_delta, if_pos hpid]
  · rw [hnew, List.append_assoc, List.append_assoc,
      List.getElem?_append_right (Nat.le_add_right _ 1)]
    simp
  · rw [lookup_onConfigChange_delta, if_neg hdrop, if_pos]
    rw [tracked_onConfigChange]
    exact hpid

end Machine

/-! ## Every interleaving -/

/-- **With the container store fixed, the control map is right after every
interleaving exactly when no configuration of the sequence drops a PID that its
predecessor watched.** -/
theorem delivered_agrees_iff (matchString : String → String → Bool)
    (containerPID : ContainerPID) (confs : List ListenConfig) :
    (∀ moves s, run (step matchString containerPID) fresh moves = some s →
        configs moves = confs → Delivered s → Agrees s) ↔
      Growing matchString containerPID confs := by
  constructor
  · intro hall
    rw [Growing, List.isChain_iff_forall_rel_of_append_cons_cons]
    rintro conf conf' pre post rfl
    by_contra hsub
    obtain ⟨pid, hpid, hdrop⟩ := Finset.not_subset.1 hsub
    obtain ⟨moves, s, i, hs, hconfigs, hidle, hadd, hdel⟩ :=
      exists_run_conflict pre post hpid hdrop
    -- whichever of the two entries is received last, the tracked set is the same
    have hlast : ∀ {j : Nat} {b : Bool}, Pending s j pid b →
        (uint32 pid ∈ s.lis.tracked.image uint32 ↔ b = true) := by
      intro j b hp
      obtain ⟨rest, t, ht, hnone, hdone, hlis, hkey⟩ :=
        exists_schedule matchString containerPID _ s rfl hidle hp
      have hagree := hall (rest ++ moves) t (run_append_of_run hs ht) (by
        rw [configs, List.filterMap_append, hnone, List.nil_append]
        exact hconfigs) hdone
      rw [Agrees, hlis] at hagree
      rw [← hagree]
      exact hkey
    have htrue := (hlast hadd).2 rfl
    exact absurd ((hlast hdel).1 htrue) (by decide)
  · intro hgrow moves s hs hconfigs hdone
    subst hconfigs
    exact ((run_onlyAdds moves s hs).2 hgrow).agrees hdone

/-- A PID that one configuration lists and the next one drops is left in the
control map when its deletion overtakes its addition. -/
theorem dropped_pid_left_in_control :
    ∃ moves s, run (step (fun _ _ => false) ∅) fresh moves = some s ∧
      configs moves = [⟨[1], []⟩, ⟨[], []⟩] ∧ Delivered s ∧ ¬ Agrees s := by
  refine ⟨[.receiveAdd, .send 0 1, .receiveDel, .send 1 1,
    .onConfigChange ⟨[], []⟩, .onConfigChange ⟨[1], []⟩],
    { lis := ⟨ListenConfig.zero, some ∅, ∅⟩, senders := [∅, ∅], addCh := [], delCh := [],
      control := {1} }, by rfl, rfl, ⟨?_, rfl, rfl⟩, by unfold Agrees; decide⟩
  rintro (_ | _ | i) pid state ⟨delta, hi, hl⟩
  · cases hi
    cases hl
  · cases hi
    cases hl
  · cases hi

end Kmon.Ports.NotifyOrder
