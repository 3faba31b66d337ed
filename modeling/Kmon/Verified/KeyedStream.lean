import Mathlib.Data.List.Chain
import Mathlib.Data.List.Nodup
import Mathlib.Data.List.TakeWhile

/-!
# Streams whose elements carry a key

A consumer that keeps one state for each key sees, under a key, only the elements
that carry it.  `under` picks these out, `latest` is the last of them, and
`predecessor` is the element a given one comes right after.

When a stream is spread over several channels that keep their own order, the
consumer receives a merge (`IsMerge`).  A merge keeps the order under a key when
all elements with this key travel over one channel (`IsMerge.under_eq`); two
elements on different channels may overtake each other (`isMerge_overtake`).
-/

namespace Kmon.Verified.KeyedStream

universe u v w

variable {ε : Type u} {κ : Type v} {σ : Type w} [DecidableEq κ] [DecidableEq σ]

/-- The elements of a stream under a key. -/
def under (key : ε → κ) (k : κ) (l : List ε) : List ε := l.filter fun a => key a = k

/-- The last element of a stream under a key. -/
def latest (key : ε → κ) (k : κ) (l : List ε) : Option ε := (under key k l).getLast?

variable {key : ε → κ} {source : ε → σ}

theorem mem_under {k : κ} {l : List ε} {a : ε} : a ∈ under key k l ↔ a ∈ l ∧ key a = k := by
  simp [under]

@[simp] theorem under_nil (k : κ) : under key k ([] : List ε) = [] := rfl

theorem under_append (k : κ) (l l' : List ε) :
    under key k (l ++ l') = under key k l ++ under key k l' := List.filter_append ..

theorem under_cons_self {a : ε} (l : List ε) :
    under key (key a) (a :: l) = a :: under key (key a) l :=
  List.filter_cons_of_pos (by simp)

theorem under_cons_of_ne {k : κ} {a : ε} (h : key a ≠ k) (l : List ε) :
    under key k (a :: l) = under key k l :=
  List.filter_cons_of_neg (by simpa using h)

theorem under_under (k : κ) (l : List ε) : under key k (under key k l) = under key k l := by
  rw [under, under, List.filter_filter]
  simp

theorem mem_of_latest {k : κ} {l : List ε} {a : ε} (h : latest key k l = some a) :
    a ∈ l ∧ key a = k :=
  mem_under.1 (List.mem_of_getLast? h)

/-- The latest element after one more. -/
theorem latest_concat (k : κ) (l : List ε) (a : ε) :
    latest key k (l ++ [a]) = if key a = k then some a else latest key k l := by
  rw [latest, under_append]
  by_cases h : key a = k
  · subst h
    rw [if_pos rfl, under_cons_self, under_nil, List.getLast?_concat]
  · rw [if_neg h, under_cons_of_ne h, under_nil, List.append_nil]
    rfl

/-! ## The element before -/

section Predecessor

variable [DecidableEq ε]

/-- The element a given one comes right after, under its key. -/
def predecessor (key : ε → κ) (l : List ε) (e : ε) : Option ε :=
  latest key (key e) (l.takeWhile fun a => a ≠ e)

/-- Elements under other keys do not matter. -/
theorem predecessor_eq (key : ε → κ) (l : List ε) (e : ε) :
    predecessor key l e = ((under key (key e) l).takeWhile fun a => a ≠ e).getLast? := by
  have hsame : (fun a => !decide (key a = key e) || decide (a ≠ e)) = fun a => decide (a ≠ e) := by
    funext a
    by_cases h : a = e
    · simp [h]
    · simp [h]
  rw [predecessor, latest, under, under, List.takeWhile_filter, hsame]

theorem predecessor_congr {l l' : List ε} {e : ε}
    (h : under key (key e) l = under key (key e) l') :
    predecessor key l e = predecessor key l' e := by
  rw [predecessor_eq, predecessor_eq, h]

theorem predecessor_append_cons {pre post : List ε} {e : ε} (h : e ∉ pre) :
    predecessor key (pre ++ e :: post) e = latest key (key e) pre := by
  have hpre : ∀ a ∈ pre, decide (a ≠ e) = true := fun a ha => by
    rw [decide_eq_true_eq]
    rintro rfl
    exact h ha
  rw [predecessor, List.takeWhile_append_of_pos hpre, List.takeWhile_cons_of_neg (by simp),
    List.append_nil]

/-- Of two successive elements under a key, the first is the predecessor of the
second. -/
theorem predecessor_of_under {l first rest : List ε} {p e : ε} {k : κ} (hl : l.Nodup)
    (h : under key k l = first ++ p :: e :: rest) : predecessor key l e = some p := by
  have hnodup : (first ++ p :: e :: rest).Nodup := by
    rw [← h]
    exact hl.filter _
  have hkey : key e = k := (mem_under.1 (h ▸ (by simp : e ∈ first ++ p :: e :: rest))).2
  have hbefore : ∀ a ∈ first ++ [p], decide (a ≠ e) = true := by
    intro a ha
    rw [decide_eq_true_eq]
    rintro rfl
    have hsplit : first ++ p :: a :: rest = (first ++ [p]) ++ a :: rest := by simp
    rw [hsplit] at hnodup
    exact (List.nodup_append.1 hnodup).2.2 a ha a List.mem_cons_self rfl
  have hassoc : first ++ p :: e :: rest = (first ++ [p]) ++ e :: rest := by simp
  rw [predecessor_eq, hkey, h, hassoc, List.takeWhile_append_of_pos hbefore,
    List.takeWhile_cons_of_neg (by simp), List.append_nil, List.getLast?_concat]

end Predecessor

/-! ## Merges -/

/-- Every channel delivers its elements in the order in which they were sent, and
none is lost.  Between channels there is no order. -/
def IsMerge (source : ε → σ) (sent received : List ε) : Prop :=
  ∀ c, under source c received = under source c sent

theorem IsMerge.refl (source : ε → σ) (sent : List ε) : IsMerge source sent sent := fun _ => rfl

variable {sent received : List ε}

theorem IsMerge.mem_iff (h : IsMerge source sent received) {a : ε} : a ∈ received ↔ a ∈ sent := by
  have hmem : a ∈ under source (source a) received ↔ a ∈ under source (source a) sent := by
    rw [h]
  simpa [mem_under] using hmem

theorem IsMerge.perm [DecidableEq ε] (h : IsMerge source sent received) : received.Perm sent := by
  rw [List.perm_iff_count]
  intro a
  have hcount : ∀ l : List ε, (under source (source a) l).count a = l.count a :=
    fun l => List.count_filter (by simp)
  rw [← hcount received, h, hcount sent]

/-- Where the elements with one key all travel over one channel, a merge keeps
their order. -/
theorem IsMerge.under_eq (h : IsMerge source sent received)
    (hone : ∀ a ∈ sent, ∀ b ∈ sent, key a = key b → source a = source b) (k : κ) :
    under key k received = under key k sent := by
  by_cases hsome : ∃ a ∈ sent, key a = k
  · obtain ⟨a, ha, rfl⟩ := hsome
    have hnarrow : ∀ l : List ε, (∀ b ∈ l, b ∈ sent) →
        under key (key a) l = under key (key a) (under source (source a) l) := by
      intro l hl
      rw [under, under, under, List.filter_filter]
      refine List.filter_congr fun b hb => ?_
      by_cases hkey : key b = key a
      · simp [hkey, hone b (hl b hb) a ha hkey]
      · simp [hkey]
    rw [hnarrow received fun b hb => h.mem_iff.1 hb, h, ← hnarrow sent fun b hb => hb]
  · have hnone : ∀ l : List ε, (∀ b ∈ l, b ∈ sent) → under key k l = [] := by
      intro l hl
      rw [under, List.filter_eq_nil_iff]
      intro b hb hkey
      exact hsome ⟨b, hl b hb, by simpa using hkey⟩
    rw [hnone received fun b hb => h.mem_iff.1 hb, hnone sent fun b hb => hb]

/-- Of two elements on different channels the later may be received first,
together with what precedes it on its own channel. -/
theorem isMerge_overtake (source : ε → σ) (pre mid post : List ε) {e e' : ε}
    (hne : source e ≠ source e') :
    IsMerge source (pre ++ e :: (mid ++ e' :: post))
      ((pre ++ under source (source e') mid) ++
        e' :: e :: (mid.filter (fun a => source a ≠ source e') ++ post)) := by
  intro c
  by_cases hc : source e' = c
  · subst hc
    have hother : under source (source e') (mid.filter fun a => source a ≠ source e') = [] := by
      rw [under, List.filter_filter, List.filter_eq_nil_iff]
      simp
    rw [under_append, under_append, under_under, under_cons_self, under_cons_of_ne hne,
      under_append, hother, under_append, under_cons_of_ne hne, under_append, under_cons_self,
      List.nil_append, List.append_assoc]
  · have hgone : under source c (under source (source e') mid) = [] := by
      rw [under, under, List.filter_filter, List.filter_eq_nil_iff]
      intro a _ hboth
      simp only [Bool.and_eq_true, decide_eq_true_eq] at hboth
      exact hc (hboth.2.symm.trans hboth.1)
    have hkept :
        under source c (mid.filter fun a => source a ≠ source e') = under source c mid := by
      rw [under, List.filter_filter]
      refine List.filter_congr fun a _ => ?_
      by_cases ha : source a = c
      · simp [ha, Ne.symm hc]
      · simp [ha]
    have hlist : ∀ l l' : List ε, under source c (e :: (l ++ l')) =
        under source c [e] ++ (under source c l ++ under source c l') := by
      intro l l'
      rw [← under_append, ← under_append]
      rfl
    rw [under_append, under_append, hgone, List.append_nil, under_cons_of_ne hc, hlist, hkept,
      under_append, hlist, under_cons_of_ne hc]

omit [DecidableEq σ] in
/-- Where elements under a key come from several sources, two successive ones do. -/
theorem exists_successive {l : List ε} {a b : ε} (ha : a ∈ l) (hb : b ∈ l)
    (hkey : key a = key b) (hne : source a ≠ source b) :
    ∃ first p e rest, under key (key b) l = first ++ p :: e :: rest ∧ source p ≠ source e := by
  by_contra hsame
  push Not at hsame
  have hchain : ((under key (key b) l).map source).IsChain (· = ·) := by
    rw [List.isChain_map, List.isChain_iff_forall_rel_of_append_cons_cons]
    exact fun p e first rest heq => hsame first p e rest heq
  have hall := (List.isChain_iff_pairwise.1 hchain).forall_of_forall fun _ _ => rfl
  exact hne (hall (List.mem_map_of_mem (mem_under.2 ⟨ha, hkey⟩))
    (List.mem_map_of_mem (mem_under.2 ⟨hb, rfl⟩)))

/-- Where elements under a key come from several sources, some merge receives one of
them while its predecessor is still to come. -/
theorem exists_isMerge_overtaken [DecidableEq ε] {l : List ε} (hl : l.Nodup) {a b : ε}
    (ha : a ∈ l) (hb : b ∈ l) (hkey : key a = key b) (hne : source a ≠ source b) :
    ∃ pre e post p, IsMerge source l (pre ++ e :: post) ∧
      predecessor key l e = some p ∧ p ∉ pre := by
  obtain ⟨first, p, e, rest, hunder, hsource⟩ := exists_successive ha hb hkey hne
  have hpair : [p, e].Sublist l := by
    have hsub : [p, e].Sublist (under key (key b) l) := by
      rw [hunder]
      exact (((List.nil_sublist rest).cons_cons e).cons_cons p).trans
        (List.sublist_append_right first _)
    exact hsub.trans List.filter_sublist
  obtain ⟨before, after, rfl, hp, hrest⟩ := List.cons_sublist_iff.1 hpair
  obtain ⟨pre, mid, rfl⟩ := List.append_of_mem hp
  obtain ⟨mid', post, rfl⟩ := List.append_of_mem (List.singleton_sublist.1 hrest)
  have hassoc : (pre ++ p :: mid) ++ (mid' ++ e :: post) =
      pre ++ p :: ((mid ++ mid') ++ e :: post) := by simp
  have hpred := predecessor_of_under hl hunder
  rw [hassoc] at hl hpred ⊢
  refine ⟨_, e, _, p, isMerge_overtake source pre (mid ++ mid') post hsource, hpred, ?_⟩
  have hsplit := List.nodup_append.1 hl
  intro hmem
  rcases List.mem_append.1 hmem with hmem | hmem
  · exact hsplit.2.2 p hmem p List.mem_cons_self rfl
  · exact (List.nodup_cons.1 hsplit.2.1).1
      (List.mem_append_left _ (mem_under.1 hmem).1)

end Kmon.Verified.KeyedStream
