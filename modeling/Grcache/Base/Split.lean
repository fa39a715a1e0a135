import Mathlib.Data.List.DropRight

/-!
# Separated and trimmed lists

What splitting at a separator and trimming at both ends compute, said of the
list that is read: it is its pieces with the separator between them, and it is
its core with elements to drop around it.
-/

namespace Grcache.Base

-- ---------------------------------------------------------------------------
-- Pieces
-- ---------------------------------------------------------------------------

/-- The list is these pieces with the separator between them. -/
structure Separated (sep : α) (pieces : List (List α)) (l : List α) : Prop where
  nonempty : pieces ≠ []
  clean : ∀ piece ∈ pieces, sep ∉ piece
  joined : [sep].intercalate pieces = l

section
variable {sep : α} {l piece : List α} [BEq α] [LawfulBEq α]

theorem notMem_of_mem_splitOn (h : piece ∈ l.splitOn sep) : sep ∉ piece := by
  induction l generalizing piece with
  | nil =>
    rw [List.splitOn_nil, List.mem_singleton] at h
    simp [h]
  | cons a l ih =>
    rw [List.splitOn_cons_eq_if_modifyHead] at h
    split at h
    · rcases List.mem_cons.mp h with rfl | h
      · exact List.not_mem_nil
      · exact ih h
    next ha =>
      obtain ⟨first, rest, hsplit⟩ := List.exists_cons_of_ne_nil (List.splitOn_ne_nil sep l)
      rw [hsplit, List.modifyHead_cons] at h
      rw [hsplit] at ih
      rcases List.mem_cons.mp h with rfl | h
      · have hfirst := ih List.mem_cons_self
        rw [List.mem_cons, not_or]
        exact ⟨fun hsep => ha (beq_iff_eq.mpr hsep.symm), hfirst⟩
      · exact ih (List.mem_cons_of_mem _ h)

theorem splitOn_separated (sep : α) (l : List α) : Separated sep (l.splitOn sep) l where
  nonempty := List.splitOn_ne_nil sep l
  clean _ h := notMem_of_mem_splitOn h
  joined := List.intercalate_splitOn sep

theorem Separated.splitOn_eq (h : Separated sep pieces l) : l.splitOn sep = pieces := by
  rw [← h.joined]
  exact List.splitOn_intercalate sep h.clean h.nonempty

/-- Splitting finds the pieces, and there is one way to write the list. -/
theorem splitOn_eq_iff : l.splitOn sep = pieces ↔ Separated sep pieces l :=
  ⟨fun h => h ▸ splitOn_separated sep l, Separated.splitOn_eq⟩

end

-- ---------------------------------------------------------------------------
-- Trimming
-- ---------------------------------------------------------------------------

structure Trimmed (p : α → Bool) (l core : List α) : Prop where
  around : ∃ before after, l = before ++ core ++ after ∧ (∀ a ∈ before, p a) ∧ ∀ a ∈ after, p a
  head : ∀ a ∈ core.head?, ¬ p a
  last : ∀ a ∈ core.getLast?, ¬ p a

variable {p : α → Bool}

theorem rdropWhile_append (h : ∀ a ∈ l', p a) (l : List α) :
    (l ++ l').rdropWhile p = l.rdropWhile p := by
  have hrev : ∀ a ∈ l'.reverse, p a := fun a ha => h a (List.mem_reverse.mp ha)
  unfold List.rdropWhile
  rw [List.reverse_append, List.dropWhile_append_of_pos hrev]

theorem Trimmed.trim_eq (h : Trimmed p l core) : (l.dropWhile p).rdropWhile p = core := by
  obtain ⟨before, after, rfl, hbefore, hafter⟩ := h.around
  rw [List.append_assoc, List.dropWhile_append_of_pos hbefore]
  cases core with
  | nil => simp [List.dropWhile_eq_nil_iff.mpr hafter]
  | cons a core =>
    rw [List.cons_append, List.dropWhile_cons_of_neg (h.head a rfl), ← List.cons_append,
      rdropWhile_append hafter, List.rdropWhile_eq_self_iff]
    intro hne
    exact h.last _ (List.getLast?_eq_getLast_of_ne_nil hne)

theorem trim_trimmed (p : α → Bool) (l : List α) :
    Trimmed p l ((l.dropWhile p).rdropWhile p) where
  around := by
    refine ⟨l.takeWhile p, (l.dropWhile p).rtakeWhile p, ?_, ?_, ?_⟩
    · rw [List.append_assoc, List.rdropWhile_append_rtakeWhile, List.takeWhile_append_dropWhile]
    · exact fun a ha => List.mem_takeWhile_imp ha
    · exact fun a ha => List.mem_rtakeWhile_imp ha
  head a ha := by
    -- the core starts where the list does once its first elements are dropped
    obtain ⟨after, hafter⟩ := List.rdropWhile_prefix p (l.dropWhile p)
    have hhead : (l.dropWhile p).head? = some a := by
      rw [← hafter, List.head?_append, Option.mem_def.mp ha, Option.some_or]
    have hnot := List.head?_dropWhile_not p l
    rw [hhead] at hnot
    exact Bool.eq_false_iff.mp hnot
  last a ha := by
    have hne : (l.dropWhile p).rdropWhile p ≠ [] := by
      intro hnil
      simp [hnil] at ha
    rw [List.getLast?_eq_getLast_of_ne_nil hne] at ha
    cases ha
    exact List.rdropWhile_last_not p _ hne

theorem trim_eq_iff : (l.dropWhile p).rdropWhile p = core ↔ Trimmed p l core :=
  ⟨fun h => h ▸ trim_trimmed p l, Trimmed.trim_eq⟩

end Grcache.Base
