import Mathlib.Logic.Basic

/-!
# Runs of a machine driven by events

A machine is a partial step function `step : S → E → Option S`: every choice the
environment makes (which goroutine moves, in which order a map is ranged over,
what a caller passes in) is carried by the event, and `none` means that the
event cannot happen in the state.  A run is then determined by its *history*,
the list of its events **newest first**, so that a function of the past is a
structural recursion and one more step is a `cons`.

The rules below turn a lemma about one step into a statement about every run:

* `run_invariant` carries an invariant along a run;
* `guarded_invariant` does so along a run whose steps all meet a condition;
* `everyState_iff_guarded` says that a property holds in every state of a run
  exactly when every step of the run meets the condition, given that one step
  keeps the property exactly when it meets the condition;
* `everyStep_iff_guarded` says the same of a property of steps, which may use
  what the good steps before it have kept.
-/

namespace Kmon.Verified.Run

universe u v

variable {S : Type u} {E : Type v}

/-- The state a history leads to, or `none` if one of its events was impossible
where it stands. -/
def run (step : S → E → Option S) (s₀ : S) : List E → Option S
  | [] => some s₀
  | e :: h => (run step s₀ h).bind fun s => step s e

/-- `P` holds in every state the run passes through, the first one included.
`P` sees the history that leads to the state. -/
def EveryState (step : S → E → Option S) (s₀ : S) (P : List E → S → Prop) :
    List E → Prop
  | [] => P [] s₀
  | e :: h => EveryState step s₀ P h ∧
      ∀ t, run step s₀ (e :: h) = some t → P (e :: h) t

/-- Every step of the run meets the condition `G`, a condition on the state
before the step and on the event. -/
def Guarded (step : S → E → Option S) (s₀ : S) (G : S → E → Prop) :
    List E → Prop
  | [] => True
  | e :: h => Guarded step s₀ G h ∧ ∀ s, run step s₀ h = some s → G s e

/-- A condition that can be decided can be decided for a run. -/
instance decidableGuarded (step : S → E → Option S) (s₀ : S) (G : S → E → Prop)
    [∀ s e, Decidable (G s e)] : ∀ h, Decidable (Guarded step s₀ G h)
  | [] => isTrue trivial
  | e :: h =>
      have _ := decidableGuarded step s₀ G h
      inferInstanceAs (Decidable (Guarded step s₀ G h ∧ ∀ s ∈ run step s₀ h, G s e))

/-- Every step of the run has the property `Q`, which sees the history before the
step, the state before it, the event and the state after it. -/
def EveryStep (step : S → E → Option S) (s₀ : S) (Q : List E → S → E → S → Prop) :
    List E → Prop
  | [] => True
  | e :: h => EveryStep step s₀ Q h ∧
      ∀ s t, run step s₀ h = some s → step s e = some t → Q h s e t

variable {step : S → E → Option S} {s₀ : S}

@[simp] theorem run_nil : run step s₀ [] = some s₀ := rfl

theorem run_cons (e : E) (h : List E) :
    run step s₀ (e :: h) = (run step s₀ h).bind fun s => step s e := rfl

/-- A run of one more event is a run to some state and one step from there. -/
theorem run_cons_eq_some {e : E} {h : List E} {t : S} :
    run step s₀ (e :: h) = some t ↔
      ∃ s, run step s₀ h = some s ∧ step s e = some t := by
  rw [run_cons, Option.bind_eq_some_iff]

theorem run_cons_of_step {e : E} {h : List E} {s t : S}
    (hs : run step s₀ h = some s) (he : step s e = some t) :
    run step s₀ (e :: h) = some t :=
  run_cons_eq_some.2 ⟨s, hs, he⟩

/-- Runs compose: the later events `h` run from the state the earlier events
`h'` lead to. -/
theorem run_append (h h' : List E) :
    run step s₀ (h ++ h') = (run step s₀ h').bind fun s => run step s h := by
  induction h with
  | nil => simp [run]
  | cons e h ih => simp only [List.cons_append, run_cons, ih, Option.bind_assoc]

theorem run_append_of_run {h h' : List E} {s t : S}
    (hs : run step s₀ h' = some s) (ht : run step s h = some t) :
    run step s₀ (h ++ h') = some t := by
  rw [run_append, hs, Option.bind_some, ht]

/-- **Invariant rule.**  What holds at the start and is kept by every step of
the run holds where the run ends. -/
theorem run_invariant {I : List E → S → Prop} (h₀ : I [] s₀)
    (hstep : ∀ h s e t, run step s₀ h = some s → I h s → step s e = some t →
      I (e :: h) t) :
    ∀ h t, run step s₀ h = some t → I h t := by
  intro h
  induction h with
  | nil =>
      intro t ht
      cases ht
      exact h₀
  | cons e h ih =>
      intro t ht
      obtain ⟨s, hs, he⟩ := run_cons_eq_some.1 ht
      exact hstep h s e t hs (ih s hs) he

/-- **Guarded invariant rule.**  Only the steps that meet the condition have to
keep the invariant. -/
theorem guarded_invariant {I : List E → S → Prop} {G : S → E → Prop}
    (h₀ : I [] s₀)
    (hstep : ∀ h s e t, I h s → G s e → step s e = some t → I (e :: h) t) :
    ∀ h t, Guarded step s₀ G h → run step s₀ h = some t → I h t := by
  intro h
  induction h with
  | nil =>
      intro t _ ht
      cases ht
      exact h₀
  | cons e h ih =>
      intro t hg ht
      obtain ⟨s, hs, he⟩ := run_cons_eq_some.1 ht
      exact hstep h s e t (ih s hg.1 hs) (hg.2 s hs) he

/-- A condition that every state and event meet. -/
theorem guarded_of_forall {G : S → E → Prop} (hall : ∀ s e, G s e) :
    ∀ h, Guarded step s₀ G h
  | [] => trivial
  | e :: h => ⟨guarded_of_forall hall h, fun s _ => hall s e⟩

/-- The state a run ends in is one of the states it passes through. -/
theorem EveryState.last {P : List E → S → Prop} :
    ∀ {h : List E}, EveryState step s₀ P h → ∀ t, run step s₀ h = some t → P h t
  | [], hP, t, ht => by cases ht; exact hP
  | _ :: _, hP, t, ht => hP.2 t ht

/-- What holds wherever a run ends holds in every state a run passes through. -/
theorem everyState_of_run {P : List E → S → Prop}
    (hend : ∀ h t, run step s₀ h = some t → P h t) : ∀ h, EveryState step s₀ P h := by
  intro h
  induction h with
  | nil => exact hend [] s₀ rfl
  | cons e h ih => exact ⟨ih, hend (e :: h)⟩

/-- What holds wherever a run with good steps ends holds in every state such a
run passes through. -/
theorem everyState_of_guarded {P : List E → S → Prop} {G : S → E → Prop}
    (hend : ∀ h t, Guarded step s₀ G h → run step s₀ h = some t → P h t) :
    ∀ h, Guarded step s₀ G h → EveryState step s₀ P h := by
  intro h
  induction h with
  | nil => exact fun hg => hend [] s₀ hg rfl
  | cons e h ih => exact fun hg => ⟨ih hg.1, fun t ht => hend (e :: h) t hg ht⟩

/-- If only good steps keep a property, a run that has it in every state has good
steps only. -/
theorem guarded_of_everyState {P : List E → S → Prop} {G : S → E → Prop}
    (hstep : ∀ h s e t, run step s₀ h = some s → P h s → step s e = some t →
      P (e :: h) t → G s e)
    (htotal : ∀ h s e, run step s₀ h = some s → step s e = none → G s e) :
    ∀ h, EveryState step s₀ P h → Guarded step s₀ G h := by
  intro h
  induction h with
  | nil => exact fun _ => trivial
  | cons e h ih =>
      rintro ⟨hP, hlast⟩
      refine ⟨ih hP, fun s hs => ?_⟩
      cases he : step s e with
      | none => exact htotal h s e hs he
      | some t => exact hstep h s e t hs (hP.last s hs) he (hlast t (run_cons_of_step hs he))

/-- **Exact guard rule.**  If a step from a state with the property keeps the
property exactly when it meets the condition, then a run has the property in
every state exactly when all its steps meet the condition.  `I` is what holds in
every run whatever the condition. -/
theorem everyState_iff_guarded {I P : List E → S → Prop} {G : S → E → Prop}
    (hI : ∀ h s, run step s₀ h = some s → I h s) (h₀ : P [] s₀)
    (hstep : ∀ h s e t, I h s → P h s → step s e = some t →
      (P (e :: h) t ↔ G s e))
    (htotal : ∀ h s e, I h s → step s e = none → G s e) :
    ∀ h, EveryState step s₀ P h ↔ Guarded step s₀ G h := by
  intro h
  constructor
  · refine guarded_of_everyState ?_ (fun h s e hs => htotal h s e (hI h s hs)) h
    exact fun h s e t hs hP he => (hstep h s e t (hI h s hs) hP he).1
  · induction h with
    | nil => exact fun _ => h₀
    | cons e h ih =>
        rintro ⟨hG, hlast⟩
        refine ⟨ih hG, fun t ht => ?_⟩
        obtain ⟨s, hs, he⟩ := run_cons_eq_some.1 ht
        exact (hstep h s e t (hI h s hs) ((ih hG).last s hs) he).2 (hlast s hs)

/-! ## Properties of steps -/

/-- What every step from a state with the invariant has, every step of a run
has. -/
theorem everyStep_of_invariant {I : List E → S → Prop} {Q : List E → S → E → S → Prop}
    (hI : ∀ h s, run step s₀ h = some s → I h s)
    (hstep : ∀ h s e t, I h s → step s e = some t → Q h s e t) :
    ∀ h, EveryStep step s₀ Q h := by
  intro h
  induction h with
  | nil => trivial
  | cons e h ih => exact ⟨ih, fun s t hs he => hstep h s e t (hI h s hs) he⟩

/-- Good steps that keep an invariant have what every good step from a state with the
invariant has. -/
theorem everyStep_of_guarded {I : List E → S → Prop} {Q : List E → S → E → S → Prop}
    {G : S → E → Prop} (h₀ : I [] s₀)
    (hkeep : ∀ h s e t, I h s → G s e → step s e = some t → I (e :: h) t)
    (hstep : ∀ h s e t, I h s → G s e → step s e = some t → Q h s e t) :
    ∀ h, Guarded step s₀ G h → EveryStep step s₀ Q h := by
  intro h
  induction h with
  | nil => exact fun _ => trivial
  | cons e h ih =>
      intro hg
      refine ⟨ih hg.1, fun s t hs he => ?_⟩
      have hI := guarded_invariant h₀ hkeep h s hg.1 hs
      exact hstep h s e t hI (hg.2 s hs) he

/-- **Exact guard rule for steps.**  Suppose that good steps keep `I`, and that a
step from a state with `I` has the property exactly when it is good.  Then every
step of a run has the property exactly when every step is good. -/
theorem everyStep_iff_guarded {I : List E → S → Prop} {Q : List E → S → E → S → Prop}
    {G : S → E → Prop} (h₀ : I [] s₀)
    (hkeep : ∀ h s e t, run step s₀ h = some s → I h s → G s e → step s e = some t →
      I (e :: h) t)
    (hstep : ∀ h s e t, run step s₀ h = some s → I h s → step s e = some t →
      (Q h s e t ↔ G s e))
    (htotal : ∀ s e, step s e = none → G s e) :
    ∀ h, EveryStep step s₀ Q h ↔ Guarded step s₀ G h := by
  have hinv : ∀ h s, Guarded step s₀ G h → run step s₀ h = some s → I h s := by
    intro h
    induction h with
    | nil =>
        intro s _ hs
        cases hs
        exact h₀
    | cons e h ih =>
        intro t hg ht
        obtain ⟨s, hs, he⟩ := run_cons_eq_some.1 ht
        exact hkeep h s e t hs (ih s hg.1 hs) (hg.2 s hs) he
  intro h
  induction h with
  | nil => exact Iff.rfl
  | cons e h ih =>
      constructor
      · rintro ⟨hQ, hlast⟩
        have hg := ih.1 hQ
        refine ⟨hg, fun s hs => ?_⟩
        cases he : step s e with
        | none => exact htotal s e he
        | some t => exact (hstep h s e t hs (hinv h s hg hs) he).1 (hlast s t hs he)
      · rintro ⟨hg, hlast⟩
        exact ⟨ih.2 hg, fun s t hs he =>
          (hstep h s e t hs (hinv h s hg hs) he).2 (hlast s hs)⟩

end Kmon.Verified.Run
