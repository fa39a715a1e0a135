import Mathlib.Data.List.Basic
import Mathlib.Data.List.Forall2

/-!
# Lists as slots

A list whose places are numbered: a new element takes the place after the last
one, and an element is changed where it stands. What is found at a place after
such a change, and what the change does to a map or a count over the list.
-/

namespace Grcache.Base

variable {l : List α} {i j : Nat}

theorem getElem?_snoc_cases (h : (l ++ [b])[i]? = some a) :
    l[i]? = some a ∨ i = l.length ∧ a = b := by
  rw [List.getElem?_append] at h
  split at h
  · exact .inl h
  · rw [List.getElem?_singleton] at h
    split at h
    · cases h
      exact .inr ⟨by omega, rfl⟩
    · cases h

theorem getElem?_modify_cases (h : (l.modify i f)[j]? = some b) :
    (∃ a, l[j]? = some a ∧ i = j ∧ b = f a) ∨ (l[j]? = some b ∧ i ≠ j) := by
  rw [List.getElem?_modify] at h
  obtain ⟨a, ha, hb⟩ := Option.map_eq_some_iff.mp h
  split at hb
  next hij => exact .inl ⟨a, ha, hij, hb.symm⟩
  next hij => exact .inr ⟨hb ▸ ha, hij⟩

theorem mem_modify_cases (h : b ∈ l.modify i f) : b ∈ l ∨ ∃ a, l[i]? = some a ∧ b = f a := by
  obtain ⟨j, hj⟩ := List.mem_iff_getElem?.mp h
  rcases getElem?_modify_cases hj with ⟨a, ha, rfl, rfl⟩ | ⟨ha, -⟩
  · exact .inr ⟨a, ha, rfl⟩
  · exact .inl (List.mem_of_getElem? ha)

theorem exists_split (h : l[i]? = some a) :
    ∃ l₁ l₂, l = l₁ ++ a :: l₂ ∧ (∀ f, l.modify i f = l₁ ++ f a :: l₂) ∧
      l.eraseIdx i = l₁ ++ l₂ := by
  induction l generalizing i with
  | nil => simp at h
  | cons b l ih =>
    cases i with
    | zero =>
      cases h
      exact ⟨[], l, rfl, fun _ => rfl, rfl⟩
    | succ i =>
      obtain ⟨l₁, l₂, hl, hmodify, herase⟩ := ih (by simpa using h)
      exact ⟨b :: l₁, l₂, by rw [hl]; rfl, fun f => by simp [hmodify], by simp [herase]⟩

theorem map_modify {f : α → β} {g : α → α} (hg : ∀ a, f (g a) = f a) (l : List α) (i : Nat) :
    (l.modify i g).map f = l.map f := by
  induction l generalizing i with
  | nil => simp
  | cons a l ih =>
    cases i with
    | zero => simp [hg]
    | succ i => simp [ih]

theorem countP_modify (h : l[i]? = some a) (f : α → α) (p : α → Bool) :
    (l.modify i f).countP p + (p a).toNat = l.countP p + (p (f a)).toNat := by
  obtain ⟨l₁, l₂, rfl, hmodify, -⟩ := exists_split h
  rw [hmodify, List.countP_append, List.countP_append, List.countP_cons, List.countP_cons]
  cases p a <;> cases p (f a) <;> simp <;> omega

section
variable {R : α → β → Prop} {l₁ : List α} {l₂ : List β}

theorem forall₂_getElem? (h : List.Forall₂ R l₁ l₂) (i : Nat) : Option.Rel R l₁[i]? l₂[i]? := by
  induction h generalizing i with
  | nil => exact .none
  | cons hab _ ih =>
    cases i with
    | zero => exact .some hab
    | succ i => simpa using ih i

theorem forall₂_eraseIdx (h : List.Forall₂ R l₁ l₂) (i : Nat) :
    List.Forall₂ R (l₁.eraseIdx i) (l₂.eraseIdx i) := by
  rw [List.eraseIdx_eq_take_drop_succ, List.eraseIdx_eq_take_drop_succ]
  exact List.rel_append (List.forall₂_take i h) (List.forall₂_drop (i + 1) h)

end

end Grcache.Base
