import Mathlib.Data.List.Sort
import Mathlib.Data.List.Lex
import Mathlib.Data.List.Dedup

/-!
# Ordered sets and byte strings

A `BTreeSet` is the list its iterator yields: strictly ascending, so two sets
with the same members are equal. Byte strings are ordered as Rust orders `str`
and `[u8]`, lexicographically by byte.
-/

namespace Grcache.Base

abbrev Bytes := List UInt8

instance instLinearOrderByte : LinearOrder UInt8 where
  le_refl := UInt8.le_refl
  le_trans _ _ _ := UInt8.le_trans
  lt_iff_le_not_ge _ _ := by rw [UInt8.not_le, UInt8.lt_iff_le_and_ne]; grind
  le_antisymm _ _ := UInt8.le_antisymm
  le_total := UInt8.le_total
  toDecidableLE := inferInstance
  toDecidableLT := inferInstance

structure BTreeSet (α : Type*) [LinearOrder α] where
  toList : List α
  sorted : toList.Pairwise (· < ·)
  deriving DecidableEq

namespace BTreeSet

variable {α : Type*} [LinearOrder α]

instance : Membership α (BTreeSet α) := ⟨fun s a => a ∈ s.toList⟩

theorem mem_def {s : BTreeSet α} : a ∈ s ↔ a ∈ s.toList := Iff.rfl

instance (a : α) (s : BTreeSet α) : Decidable (a ∈ s) := inferInstanceAs (Decidable (a ∈ s.toList))

theorem ext {s t : BTreeSet α} (h : ∀ a, a ∈ s ↔ a ∈ t) : s = t := by
  obtain ⟨s, hs⟩ := s
  obtain ⟨t, ht⟩ := t
  have hp : s.Perm t :=
    (List.perm_ext_iff_of_nodup (hs.imp ne_of_lt) (ht.imp ne_of_lt)).mpr h
  have hst : s = t := hp.eq_of_pairwise (fun a b _ _ hab hba => absurd hab hba.asymm) hs ht
  subst hst
  rfl

protected def empty : BTreeSet α := ⟨[], .nil⟩

def ofList (l : List α) : BTreeSet α where
  toList := l.dedup.insertionSort (· ≤ ·)
  sorted := by
    have hle := List.pairwise_insertionSort (· ≤ ·) l.dedup
    have hnd : (l.dedup.insertionSort (· ≤ ·)).Nodup :=
      (List.perm_insertionSort (· ≤ ·) l.dedup).nodup_iff.mpr l.nodup_dedup
    exact (hle.and hnd).imp fun h => lt_of_le_of_ne h.1 h.2

@[simp] theorem mem_ofList {l : List α} : a ∈ ofList l ↔ a ∈ l := by
  simp [mem_def, ofList]

@[simp] theorem notMem_empty {a : α} : a ∉ (BTreeSet.empty : BTreeSet α) := by
  simp [mem_def, BTreeSet.empty]

end BTreeSet
end Grcache.Base
