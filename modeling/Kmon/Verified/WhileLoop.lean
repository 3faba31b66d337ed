import Mathlib.Logic.Basic

/-!
# Loops that may not end

A loop whose round either goes on with a new state or leaves with a result.  `run` makes a
bounded number of rounds and is `none` if the loop has not left by then.

There is one rule for each thing to say about a loop: what every result has in common
(`run_post`), that there is a result (`exists_run`), and that there is none (`run_eq_none`).
-/

namespace Kmon.Verified.WhileLoop

universe u v

variable {σ : Type u} {ρ : Type v}

/-- At most `fuel` rounds of a loop. -/
def run (round : σ → σ ⊕ ρ) : Nat → σ → Option ρ
  | 0, _ => none
  | fuel + 1, s =>
      match round s with
      | .inl s' => run round fuel s'
      | .inr r => some r

variable {round : σ → σ ⊕ ρ}

theorem run_of_inl {s s' : σ} (h : round s = .inl s') (fuel : Nat) :
    run round (fuel + 1) s = run round fuel s' := by
  rw [run, h]

theorem run_of_inr {s : σ} {r : ρ} (h : round s = .inr r) (fuel : Nat) :
    run round (fuel + 1) s = some r := by
  rw [run, h]

variable {Inv : σ → Prop} {Post : ρ → Prop}

/-- What holds of every result of a loop with an invariant. -/
theorem run_post (hround : ∀ s s', Inv s → round s = .inl s' → Inv s')
    (hleave : ∀ s r, Inv s → round s = .inr r → Post r) {fuel : Nat} {s : σ} {r : ρ}
    (hs : Inv s) (hrun : run round fuel s = some r) : Post r := by
  induction fuel generalizing s with
  | zero => cases hrun
  | succ fuel ih =>
      cases hs' : round s with
      | inl s' =>
          rw [run_of_inl hs'] at hrun
          exact ih (hround s s' hs hs') hrun
      | inr r' =>
          rw [run_of_inr hs'] at hrun
          cases hrun
          exact hleave s r hs hs'

/-- A loop with a decreasing measure has a result. -/
theorem exists_run (measure : σ → Nat)
    (h : ∀ s, Inv s →
      (∃ s', round s = .inl s' ∧ Inv s' ∧ measure s' < measure s) ∨
        ∃ r, round s = .inr r ∧ Post r) {s : σ} (hs : Inv s) :
    ∃ fuel r, run round fuel s = some r ∧ Post r := by
  induction hm : measure s using Nat.strongRecOn generalizing s with
  | ind m ih =>
      rcases h s hs with ⟨s', hs', hinv, hlt⟩ | ⟨r, hr, hpost⟩
      · obtain ⟨fuel, r, hrun, hpost⟩ := ih (measure s') (hm ▸ hlt) hinv rfl
        exact ⟨fuel + 1, r, (run_of_inl hs' fuel).trans hrun, hpost⟩
      · exact ⟨1, r, run_of_inr hr 0, hpost⟩

/-- A loop that never leaves. -/
theorem run_eq_none (h : ∀ s, Inv s → ∃ s', round s = .inl s' ∧ Inv s') (fuel : Nat) {s : σ}
    (hs : Inv s) : run round fuel s = none := by
  induction fuel generalizing s with
  | zero => rfl
  | succ fuel ih =>
      obtain ⟨s', hs', hinv⟩ := h s hs
      rw [run_of_inl hs', ih hinv]

end Kmon.Verified.WhileLoop
