import Mathlib.Data.List.Chain
import Kmon.Ports.TcpreqProbe

/-!
# The event sequence of a connection

For each 4-tuple the probes of tcpreq submit CONNECT first, never the same type
twice in a row unless it is CONNECT, and after DISCONNECT nothing but CONNECT.
The four probes share no code that would say so.  What carries the law is the
agreement of `conn_map` with the history: the type of an entry is the type of the
last event submitted for its 4-tuple, and an entry is never left at DISCONNECT.
-/

namespace Kmon.Ports.ConnectionEvents

open Kmon.Verified
open Kmon.Verified.Run
open Kmon.Ports.TcpreqProbe

/-- The types of the events submitted for a 4-tuple, in order. -/
def eventTypes (events : List MsgEvent) (conn : ConnPair) : List (BitVec 32) :=
  (events.filter fun ev => ev.conn = conn).map MsgEvent.type

/-- What may follow an event of a 4-tuple. -/
def Follows (prev next : BitVec 32) : Prop :=
  next = msgTypeConnect ∨ (next ≠ prev ∧ prev ≠ msgTypeDisconnect)

/-- The law for the events of one 4-tuple. -/
structure Lawful (types : List (BitVec 32)) : Prop where
  first : ∀ type, types.head? = some type → type = msgTypeConnect
  later : types.IsChain Follows

/-- The law for all 4-tuples, and what `conn_map` knows of the history. -/
structure Recorded (s : Probing) : Prop where
  lawful : ∀ conn, Lawful (eventTypes s.tcpEvent conn)
  last : ∀ conn state, s.maps.connMap.lookup conn = some state →
    (eventTypes s.tcpEvent conn).getLast? = some state.type
  live : ∀ conn state, s.maps.connMap.lookup conn = some state →
    state.type ≠ msgTypeDisconnect

/-! ## One more event -/

theorem eventTypes_append (events : List MsgEvent) (ev : MsgEvent) (conn : ConnPair) :
    eventTypes (events ++ [ev]) conn =
      if ev.conn = conn then eventTypes events conn ++ [ev.type] else eventTypes events conn := by
  rw [eventTypes, List.filter_append, List.map_append]
  by_cases h : ev.conn = conn
  · rw [if_pos h, List.filter_cons_of_pos (by simpa using h)]
    rfl
  · rw [if_neg h, List.filter_cons_of_neg (by simpa using h), List.filter_nil, List.map_nil,
      List.append_nil]
    rfl

/-- A CONNECT may come at any time. -/
theorem Lawful.connect {types : List (BitVec 32)} (h : Lawful types) :
    Lawful (types ++ [msgTypeConnect]) where
  first type htype := by
    cases types with
    | nil =>
        cases htype
        rfl
    | cons head types => exact h.first type htype
  later := by
    refine List.isChain_append.2 ⟨h.later, List.isChain_singleton _, ?_⟩
    intro prev _ next hnext
    cases hnext
    exact Or.inl rfl

/-- Any other event needs one before it that differs and is no DISCONNECT. -/
theorem Lawful.follow {types : List (BitVec 32)} {prev next : BitVec 32} (h : Lawful types)
    (hprev : types.getLast? = some prev) (hne : prev ≠ next) (hlive : prev ≠ msgTypeDisconnect) :
    Lawful (types ++ [next]) where
  first type htype := by
    cases types with
    | nil => cases hprev
    | cons head types => exact h.first type htype
  later := by
    refine List.isChain_append.2 ⟨h.later, List.isChain_singleton _, ?_⟩
    intro prev' hprev' next' hnext'
    cases hnext'
    rw [hprev] at hprev'
    cases hprev'
    exact Or.inr ⟨Ne.symm hne, hlive⟩

/-- An event keeps the law if it does so for its own 4-tuple. -/
theorem lawful_append {events : List MsgEvent} {ev : MsgEvent}
    (h : ∀ conn, Lawful (eventTypes events conn))
    (hev : Lawful (eventTypes events ev.conn ++ [ev.type])) (conn : ConnPair) :
    Lawful (eventTypes (events ++ [ev]) conn) := by
  rw [eventTypes_append]
  split
  · rename_i heq
    rw [← heq]
    exact hev
  · exact h conn

/-! ## One step -/

/-- An event keeps `conn_map` in agreement with the history if the entries of its
own 4-tuple have its type and the others are as before. -/
theorem Recorded.append {s : Probing} {m' : Maps} {ev : MsgEvent} (hs : Recorded s)
    (hlawful : Lawful (eventTypes s.tcpEvent ev.conn ++ [ev.type]))
    (hmap : ∀ conn state, m'.connMap.lookup conn = some state →
      (conn = ev.conn ∧ state.type = ev.type ∧ ev.type ≠ msgTypeDisconnect) ∨
        (conn ≠ ev.conn ∧ s.maps.connMap.lookup conn = some state)) :
    Recorded ⟨m', s.tcpEvent ++ [ev]⟩ where
  lawful := lawful_append hs.lawful hlawful
  last conn state hlook := by
    rw [eventTypes_append]
    rcases hmap conn state hlook with ⟨rfl, htype, -⟩ | ⟨hne, hold⟩
    · rw [if_pos rfl, List.getLast?_append_of_ne_nil _ (by simp), htype]
      rfl
    · rw [if_neg (Ne.symm hne)]
      exact hs.last conn state hold
  live conn state hlook := by
    rcases hmap conn state hlook with ⟨-, htype, hlive⟩ | ⟨-, hold⟩
    · rw [htype]
      exact hlive
    · exact hs.live conn state hold

/-- A move without an event keeps it if it only touches the times. -/
theorem Recorded.silent {s : Probing} {m' : Maps} (hs : Recorded s)
    (hmap : ∀ conn state, m'.connMap.lookup conn = some state →
      ∃ old, s.maps.connMap.lookup conn = some old ∧ state.type = old.type) :
    Recorded ⟨m', s.tcpEvent ++ []⟩ where
  lawful conn := by
    rw [List.append_nil]
    exact hs.lawful conn
  last conn state hlook := by
    obtain ⟨old, hold, htype⟩ := hmap conn state hlook
    rw [List.append_nil, htype]
    exact hs.last conn old hold
  live conn state hlook := by
    obtain ⟨old, hold, htype⟩ := hmap conn state hlook
    rw [htype]
    exact hs.live conn old hold

theorem step_recorded {s t : Probing} {e : Move} (hs : Recorded s) (he : step s e = some t) :
    Recorded t := by
  cases he
  cases probe_effect s.maps e with
  | quiet hmap hev =>
      rw [hev]
      refine hs.silent fun conn state hlook => ⟨state, ?_, rfl⟩
      rw [← hmap]
      exact hlook
  | accept c sockp he hptr hmap hev =>
      rw [hev]
      refine hs.append (hs.lawful _).connect fun conn state hlook => ?_
      rw [hmap] at hlook
      rcases lookup_updateConn hlook with ⟨rfl, rfl⟩ | hold
      · exact Or.inl ⟨rfl, rfl, show msgTypeConnect ≠ msgTypeDisconnect by decide⟩
      · exact Or.inr hold
  | refresh c conn old hcaller htraced hlook hmap hev =>
      rw [hev]
      refine hs.silent fun conn' state hstate => ?_
      rw [hmap, GoMap.lookup_insert_ite] at hstate
      split at hstate
      · rename_i heq
        cases hstate
        exact ⟨old, heq ▸ hlook, rfl⟩
      · exact ⟨state, hstate, rfl⟩
  | traffic c conn old type hcaller htraced hlook hne htype hmap hev =>
      rw [hev]
      have hlive : type ≠ msgTypeDisconnect := by
        rcases htype with rfl | rfl <;> decide
      refine hs.append ((hs.lawful conn).follow (hs.last conn old hlook) hne
        (hs.live conn old hlook)) fun conn' state hstate => ?_
      rw [hmap, GoMap.lookup_insert_ite] at hstate
      split at hstate
      · rename_i heq
        cases hstate
        exact Or.inl ⟨heq, rfl, hlive⟩
      · rename_i hconn
        exact Or.inr ⟨hconn, hstate⟩
  | close c skp old he htraced hlook hne hmap hev =>
      rw [hev]
      refine hs.append ((hs.lawful _).follow (hs.last _ old hlook) hne hne)
        fun conn state hstate => ?_
      rw [hmap, GoMap.lookup_erase_ite] at hstate
      split at hstate
      · cases hstate
      · rename_i hconn
        exact Or.inr ⟨hconn, hstate⟩
  | closeUnknown c skp he htraced hlook hmap hev =>
      rw [hev]
      refine hs.silent fun conn state hstate => ⟨state, ?_, rfl⟩
      rw [hmap, GoMap.lookup_erase_ite] at hstate
      split at hstate
      · cases hstate
      · exact hstate

/-! ## Every run -/

theorem loaded_recorded : Recorded loaded where
  lawful _ := ⟨fun _ h => (by cases h), List.isChain_nil⟩
  last _ _ h := by cases h
  live _ _ h := by cases h

theorem run_recorded : ∀ h s, run step loaded h = some s → Recorded s :=
  run_invariant loaded_recorded fun _ _ _ _ _ hs he => step_recorded hs he

/-- **In every state of a run the events of each 4-tuple obey the law, and the type
of a `conn_map` entry is the type of the last event of its 4-tuple, never
DISCONNECT.** -/
theorem everyState_recorded (moves : List Move) :
    EveryState step loaded (fun _ => Recorded) moves :=
  everyState_of_run run_recorded moves

end Kmon.Ports.ConnectionEvents
