import Mathlib.Data.List.Basic

/-!
# The lines of a text

Every line of a text ends at a newline, the last one possibly at the end of the text.
`lines_cons` reads back a line in front of a text, and `lines_append` is what remains of it
when what was written has newlines inside.
-/

namespace Kmon.Verified.Lines

/-- The parts between the newlines; what follows the last newline is a line if it is not
empty. -/
def lines (text : List Char) : List (List Char) :=
  let parts := text.splitOn '\n'
  if parts.getLast? = some [] then parts.dropLast else parts

/-- What is in front of a newline does not depend on what follows it. -/
theorem lines_append (text text' : List Char) :
    lines (text ++ '\n' :: text') = text.splitOn '\n' ++ lines text' := by
  have hne : text'.splitOn '\n' ≠ [] := List.splitOn_ne_nil '\n' text'
  unfold lines
  rw [List.splitOn_append_cons_self]
  dsimp only
  rw [List.getLast?_append_of_ne_nil _ hne]
  split
  · rw [List.dropLast_append_of_ne_nil hne]
  · rfl

/-- A line in front of a text. -/
theorem lines_cons {line : List Char} (h : '\n' ∉ line) (text : List Char) :
    lines (line ++ '\n' :: text) = line :: lines text := by
  rw [lines_append, List.splitOn_eq_singleton h, List.singleton_append]

/-- The parts are made of the text and hold no separator. -/
theorem mem_splitOn {c : Char} {text part : List Char} (h : part ∈ text.splitOn c) :
    (∀ a ∈ part, a ∈ text) ∧ c ∉ part := by
  induction text generalizing part with
  | nil =>
      rw [List.splitOn_nil, List.mem_singleton] at h
      subst h
      exact ⟨fun _ ha => ha, List.not_mem_nil⟩
  | cons b text ih =>
      rw [List.splitOn_cons_eq_if_modifyHead] at h
      obtain ⟨first, parts, hsplit⟩ := List.exists_cons_of_ne_nil (List.splitOn_ne_nil c text)
      rw [hsplit] at ih h
      split at h
      · rcases List.mem_cons.1 h with rfl | hmem
        · exact ⟨fun _ ha => absurd ha List.not_mem_nil, List.not_mem_nil⟩
        · obtain ⟨hsub, hnot⟩ := ih hmem
          exact ⟨fun a ha => List.mem_cons_of_mem b (hsub a ha), hnot⟩
      · rename_i hbc
        have hbc : c ≠ b := fun heq => hbc (by simp [heq])
        rw [List.modifyHead_cons] at h
        rcases List.mem_cons.1 h with rfl | hmem
        · obtain ⟨hsub, hnot⟩ := ih List.mem_cons_self
          refine ⟨fun a ha => ?_, fun hc => ?_⟩
          · rcases List.mem_cons.1 ha with rfl | ha
            · exact List.mem_cons_self
            · exact List.mem_cons_of_mem b (hsub a ha)
          · rcases List.mem_cons.1 hc with heq | hc
            · exact hbc heq
            · exact hnot hc
        · obtain ⟨hsub, hnot⟩ := ih (List.mem_cons_of_mem first hmem)
          exact ⟨fun a ha => List.mem_cons_of_mem b (hsub a ha), hnot⟩

/-- A line holds no newline. -/
theorem newline_notMem_lines {text line : List Char} (h : line ∈ lines text) :
    '\n' ∉ line := by
  unfold lines at h
  dsimp only at h
  split at h
  · exact (mem_splitOn (List.dropLast_subset _ h)).2
  · exact (mem_splitOn h).2

/-- A text has one part more than separators. -/
theorem length_splitOn (c : Char) (text : List Char) :
    (text.splitOn c).length = text.count c + 1 := by
  induction text with
  | nil => rfl
  | cons a text ih =>
      rw [List.splitOn_cons_eq_if_modifyHead, List.count_cons]
      split
      · rw [List.length_cons, ih]
      · rw [List.length_modifyHead, ih, Nat.add_zero]

end Kmon.Verified.Lines
