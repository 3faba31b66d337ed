import Mathlib.Data.List.Basic
import Mathlib.Data.List.Nodup
import Mathlib.Logic.Hydra

/-!
# Goroutines that take mutexes in order

The code a goroutine has still to run is a list of operations: it locks a mutex,
unlocks one, or does something else.  Every mutex has a rank, and a goroutine that
follows the `Rules` locks only below the ranks of what it holds, unlocks what it
locked last, does the rest only where the rules permit it, and holds nothing in the
end.

`exists_unblocked` is the argument against deadlock: as long as a mutex is held, the
holder of one of the lowest rank is not waiting for a mutex.  `wellFounded_of_tasks`
is the argument that a program comes to rest: every step replaces one task by tasks
that are smaller.  `Inevitable` is what a program comes to whatever its schedule.
-/

namespace Kmon.Verified.LockOrder

universe u v w

/-- One operation of a goroutine. -/
inductive Op (μ : Type u) (α : Type v) where
  | lock (m : μ)
  | unlock (m : μ)
  | other (a : α)
  deriving DecidableEq, Repr

/-- The ranks of the mutexes, and what may be done while some of them are held. -/
structure Rules (μ : Type u) (α : Type v) where
  rank : μ → Nat
  permits : List μ → α → Bool

variable {μ : Type u} {α : Type v} [DecidableEq μ]

/-- `m.Lock()`, what comes in between, and `m.Unlock()`. -/
def locked (m : μ) (body : List (Op μ α)) : List (Op μ α) := .lock m :: body ++ [.unlock m]

/-- The mutexes that are held behind the code, the last one first, or `none` if the code
breaks a rule. -/
def after (rules : Rules μ α) : List μ → List (Op μ α) → Option (List μ)
  | held, [] => some held
  | held, .lock m :: code =>
      if ∀ m' ∈ held, rules.rank m < rules.rank m' then after rules (m :: held) code else none
  | held, .unlock m :: code =>
      if held.head? = some m then after rules held.tail code else none
  | held, .other a :: code => if rules.permits held a then after rules held code else none

variable {rules : Rules μ α} {held held' : List μ} {code code' : List (Op μ α)} {m : μ} {a : α}

@[simp] theorem after_nil : after rules held [] = some held := rfl

theorem after_lock : after rules held (.lock m :: code) = some held' ↔
    (∀ m' ∈ held, rules.rank m < rules.rank m') ∧
      after rules (m :: held) code = some held' := by
  rw [after]
  split
  · rename_i h
    exact (and_iff_right h).symm
  · rename_i h
    simp [h]

theorem after_unlock : after rules held (.unlock m :: code) = some held' ↔
    ∃ rest, held = m :: rest ∧ after rules rest code = some held' := by
  rw [after]
  cases held with
  | nil => simp
  | cons m' rest =>
      by_cases hm : m' = m
      · subst hm
        simp
      · simp [hm]

theorem after_other : after rules held (.other a :: code) = some held' ↔
    rules.permits held a = true ∧ after rules held code = some held' := by
  rw [after]
  split
  · rename_i h
    exact (and_iff_right h).symm
  · rename_i h
    simp [h]

/-- One piece of code behind another. -/
theorem after_append : after rules held (code ++ code') =
    (after rules held code).bind fun held' => after rules held' code' := by
  induction code generalizing held with
  | nil => rfl
  | cons op code ih =>
      cases op with
      | lock m =>
          simp only [List.cons_append, after]
          split
          · exact ih
          · rfl
      | unlock m =>
          simp only [List.cons_append, after]
          split
          · exact ih
          · rfl
      | other a =>
          simp only [List.cons_append, after]
          split
          · exact ih
          · rfl

/-- Code that leaves the mutexes as it found them does not change what follows. -/
theorem after_append_of_balanced (h : after rules held code = some held) :
    after rules held (code ++ code') = after rules held code' := by
  rw [after_append, h, Option.bind_some]

theorem after_flatten {blocks : List (List (Op μ α))}
    (h : ∀ block ∈ blocks, after rules held block = some held) :
    after rules held blocks.flatten = some held := by
  induction blocks with
  | nil => rfl
  | cons block blocks ih =>
      rw [List.flatten_cons, after_append_of_balanced (h block List.mem_cons_self)]
      exact ih fun block hmem => h block (List.mem_cons_of_mem _ hmem)

/-- A locked block, where the mutex may be taken. -/
theorem after_locked (hrank : ∀ m' ∈ held, rules.rank m < rules.rank m')
    (hbody : after rules (m :: held) code = some (m :: held)) :
    after rules held (locked m code) = some held := by
  rw [locked, List.cons_append, after_lock]
  refine ⟨hrank, ?_⟩
  rw [after_append_of_balanced hbody, after_unlock]
  exact ⟨held, rfl, rfl⟩

/-! ## Many goroutines -/

/-- What a goroutine holds, and its code. -/
abbrev Thread (μ : Type u) (α : Type v) := List μ × List (Op μ α)

/-- Every goroutine follows the rules to its end. -/
def Disciplined (rules : Rules μ α) (threads : List (Thread μ α)) : Prop :=
  ∀ t ∈ threads, after rules t.1 t.2 = some []

variable {threads : List (Thread μ α)}

/-- A goroutine that holds a mutex has something left to do. -/
theorem Disciplined.code_ne_nil (h : Disciplined rules threads) {t : Thread μ α}
    (ht : t ∈ threads) (hheld : t.1 ≠ []) : t.2 ≠ [] := by
  intro hcode
  have hafter := h t ht
  rw [hcode, after_nil, Option.some_inj] at hafter
  exact hheld hafter

omit [DecidableEq μ] in
/-- A held mutex of the lowest rank. -/
theorem exists_lowest (rank : μ → Nat) {t : Thread μ α} (ht : t ∈ threads) (hheld : t.1 ≠ []) :
    ∃ t ∈ threads, ∃ m ∈ t.1, ∀ t' ∈ threads, ∀ m' ∈ t'.1, rank m ≤ rank m' := by
  obtain ⟨m, hm⟩ := List.exists_mem_of_ne_nil _ hheld
  induction hr : rank m using Nat.strongRecOn generalizing t m with
  | ind r ih =>
      by_cases hlow : ∀ t' ∈ threads, ∀ m' ∈ t'.1, rank m ≤ rank m'
      · exact ⟨t, ht, m, hm, hlow⟩
      · push Not at hlow
        obtain ⟨t', ht', m', hm', hlt⟩ := hlow
        exact ih (rank m') (hr ▸ hlt) ht' (List.ne_nil_of_mem hm') m' hm' rfl

/-- **While a mutex is held, the holder of one of the lowest rank does not wait for a
mutex.** -/
theorem Disciplined.exists_unblocked (h : Disciplined rules threads)
    (hheld : ∃ t ∈ threads, t.1 ≠ []) :
    ∃ t ∈ threads, ∃ op rest, t.2 = op :: rest ∧
      (∀ m, op = .lock m → ∀ t' ∈ threads, m ∉ t'.1) ∧
      ∃ m ∈ t.1, ∀ t' ∈ threads, ∀ m' ∈ t'.1, rules.rank m ≤ rules.rank m' := by
  obtain ⟨t₀, ht₀, hne⟩ := hheld
  obtain ⟨t, ht, m, hm, hlow⟩ := exists_lowest rules.rank ht₀ hne
  obtain ⟨op, rest, hcode⟩ :=
    List.exists_cons_of_ne_nil (h.code_ne_nil ht (List.ne_nil_of_mem hm))
  refine ⟨t, ht, op, rest, hcode, ?_, m, hm, hlow⟩
  rintro m' rfl t' ht' hmem
  -- what it locks is below all it holds, so below all that is held
  have hafter := h t ht
  rw [hcode] at hafter
  have hlt := (after_lock.1 hafter).1 m hm
  exact absurd (hlow t' ht' m' hmem) (Nat.not_le.2 hlt)

/-! ## Mutual exclusion -/

/-- No mutex is held twice. -/
def Exclusive (threads : List (Thread μ α)) : Prop := (threads.flatMap Prod.fst).Nodup

omit [DecidableEq μ] in
/-- Two goroutines that hold one mutex are one goroutine. -/
theorem Exclusive.index_eq (h : Exclusive threads) {i j : Nat} {t t' : Thread μ α}
    (hi : threads[i]? = some t) (hj : threads[j]? = some t') (ht : m ∈ t.1) (ht' : m ∈ t'.1) :
    i = j := by
  have hpair : ∀ (i j : Nat) (t t' : Thread μ α), threads[i]? = some t →
      threads[j]? = some t' → i < j → m ∈ t.1 → m ∈ t'.1 → False := by
    intro i j t t' hi hj hij ht ht'
    have hdisj := (List.nodup_flatMap.1 h).2
    obtain ⟨hi', rfl⟩ := List.getElem?_eq_some_iff.1 hi
    obtain ⟨hj', rfl⟩ := List.getElem?_eq_some_iff.1 hj
    exact List.pairwise_iff_getElem.1 hdisj i j hi' hj' hij ht ht'
  rcases Nat.lt_trichotomy i j with hij | rfl | hij
  · exact (hpair i j t t' hi hj hij ht ht').elim
  · rfl
  · exact (hpair j i t' t hj hi hij ht' ht).elim

omit [DecidableEq μ] in
/-- What is held all together, before and after one goroutine makes a step. -/
theorem flatMap_set_perm {i : Nat} {t : Thread μ α} (hi : threads[i]? = some t)
    (t' : Thread μ α) :
    ∃ rest, (threads.flatMap Prod.fst).Perm (t.1 ++ rest) ∧
      ((threads.set i t').flatMap Prod.fst).Perm (t'.1 ++ rest) := by
  induction threads generalizing i with
  | nil => cases hi
  | cons a l ih =>
      cases i with
      | zero =>
          cases hi
          exact ⟨l.flatMap Prod.fst, List.Perm.refl _, List.Perm.refl _⟩
      | succ i =>
          obtain ⟨rest, hperm, hset⟩ := ih hi
          refine ⟨a.1 ++ rest, ?_, ?_⟩
          · rw [List.flatMap_cons]
            exact (hperm.append_left _).trans (List.perm_append_comm_assoc _ _ _)
          · rw [List.set_cons_succ, List.flatMap_cons]
            exact (hset.append_left _).trans (List.perm_append_comm_assoc _ _ _)

omit [DecidableEq μ] in
/-- A goroutine takes a mutex that nobody holds. -/
theorem Exclusive.set_lock (h : Exclusive threads) {i : Nat} {t t' : Thread μ α}
    (hi : threads[i]? = some t) (hheld : t'.1 = m :: t.1) (hfree : ∀ t ∈ threads, m ∉ t.1) :
    Exclusive (threads.set i t') := by
  obtain ⟨rest, hperm, hset⟩ := flatMap_set_perm hi t'
  have hnot : m ∉ t.1 ++ rest := by
    intro hm
    obtain ⟨t₀, ht₀, hmem⟩ := List.mem_flatMap.1 (hperm.mem_iff.2 hm)
    exact hfree t₀ ht₀ hmem
  rw [Exclusive, hset.nodup_iff, hheld]
  exact List.nodup_cons.2 ⟨hnot, hperm.nodup_iff.1 h⟩

omit [DecidableEq μ] in
/-- A goroutine takes none. -/
theorem Exclusive.set_sublist (h : Exclusive threads) {i : Nat} {t t' : Thread μ α}
    (hi : threads[i]? = some t) (hheld : t'.1.Sublist t.1) : Exclusive (threads.set i t') := by
  obtain ⟨rest, hperm, hset⟩ := flatMap_set_perm hi t'
  rw [Exclusive, hset.nodup_iff]
  exact (hperm.nodup_iff.1 h).sublist (hheld.append_right rest)

omit [DecidableEq μ] in
/-- Goroutines that hold nothing start. -/
theorem Exclusive.append (h : Exclusive threads) {started : List (Thread μ α)}
    (hstarted : ∀ t ∈ started, t.1 = []) : Exclusive (threads ++ started) := by
  have hnil : started.flatMap Prod.fst = [] := List.flatMap_eq_nil_iff.2 hstarted
  rw [Exclusive, List.flatMap_append, hnil, List.append_nil]
  exact h

/-! ## Coming to rest -/

/-- **A relation is well founded when every step replaces one task by smaller ones.** -/
theorem wellFounded_of_tasks {σ : Type u} {ρ : Type v} [Preorder ρ] [WellFoundedLT ρ]
    {R : σ → σ → Prop} (tasks : σ → Multiset ρ)
    (h : ∀ s s', R s' s →
      ∃ a t, (∀ a' ∈ t, a' < a) ∧ tasks s' + {a} = tasks s + t) : WellFounded R := by
  have hcut : WellFounded (Relation.CutExpand ((· < ·) : ρ → ρ → Prop)) :=
    WellFounded.cutExpand wellFounded_lt
  refine Subrelation.wf (r := InvImage (Relation.CutExpand (· < ·)) tasks) ?_ (InvImage.wf _ hcut)
  intro s' s hs
  obtain ⟨a, t, hlt, htasks⟩ := h s s' hs
  exact ⟨t, a, hlt, htasks⟩

/-- Whatever the steps, a state with the property is reached. -/
inductive Inevitable {σ : Type u} (R : σ → σ → Prop) (P : σ → Prop) : σ → Prop where
  | now {s : σ} (h : P s) : Inevitable R P s
  | later {s : σ} (hgo : ∃ s', R s' s) (h : ∀ s', R s' s → Inevitable R P s') :
      Inevitable R P s

/-- **Steps that come to an end lead to what holds wherever they do.** -/
theorem inevitable_of_wellFounded {σ : Type u} {R : σ → σ → Prop} {I P : σ → Prop}
    (hwf : WellFounded R) (hstep : ∀ s s', I s → R s' s → I s')
    (hend : ∀ s, I s → (∀ s', ¬R s' s) → P s) {s : σ} (hs : I s) : Inevitable R P s := by
  induction s using hwf.induction with
  | _ s ih =>
      by_cases hgo : ∃ s', R s' s
      · exact .later hgo fun s' hs' => ih s' hs' (hstep s s' hs hs')
      · exact .now (hend s hs fun s' hs' => hgo ⟨s', hs'⟩)

end Kmon.Verified.LockOrder
