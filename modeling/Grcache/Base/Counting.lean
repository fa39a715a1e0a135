import Grcache.Base.Slots
import Mathlib.Data.List.AList
import Mathlib.Data.List.Count

/-!
# Counting what containers hold

Owners of a shared resource are kept in containers: a map with one entry per
key, a list whose elements leave from any place. The rules here say how often a
resource is held after such a container changed, so that a reference count can
be compared with its owners one change at a time.
-/

namespace Grcache.Base

theorem count_map_eraseIdx [BEq β] {l : List α} {f : α → β} (h : l[i]? = some a) (x : β) :
    ((l.eraseIdx i).map f).count x + [f a].count x = (l.map f).count x := by
  obtain ⟨l₁, l₂, rfl, -, herase⟩ := exists_split h
  rw [herase]
  simp only [List.map_append, List.map_cons, List.count_append, List.count_cons, List.count_nil]
  omega

theorem count_eraseIdx [BEq α] {l : List α} (h : l[i]? = some a) (x : α) :
    (l.eraseIdx i).count x + [a].count x = l.count x := by
  simpa using count_map_eraseIdx (f := id) h x

section
variable {κ : Type*} {β : κ → Type*} [DecidableEq κ] {γ : Type*}

/-- What the entries of a map hold, when a value holds at most one. -/
def heldBy (f : ∀ k, β k → Option γ) (m : AList β) : List γ :=
  m.entries.filterMap fun e => f e.1 e.2

variable {f : ∀ k, β k → Option γ} {m : AList β}

theorem mem_heldBy : c ∈ heldBy f m ↔ ∃ k b, m.lookup k = some b ∧ f k b = some c := by
  simp only [heldBy, List.mem_filterMap, Sigma.exists, ← Option.mem_def, AList.mem_lookup_iff]

theorem count_heldBy_insert [BEq γ] (k : κ) (b : β k) (x : γ) :
    (heldBy f (m.insert k b)).count x + ((m.lookup k).bind (f k)).toList.count x =
      (heldBy f m).count x + (f k b).toList.count x := by
  have hcons : ∀ (c : β k) (es : List (Sigma β)),
      ((⟨k, c⟩ :: es).filterMap fun e => f e.1 e.2).count x =
        (f k c).toList.count x + (es.filterMap fun e => f e.1 e.2).count x := by
    intro c es
    cases hc : f k c with
    | none => simp [hc]
    | some y =>
      simp only [List.filterMap_cons, hc, Option.toList_some, List.count_cons, List.count_nil]
      omega
  unfold heldBy
  rw [AList.entries_insert, hcons]
  cases hk : m.lookup k with
  | none =>
    rw [List.kerase_of_notMem_keys (AList.lookup_eq_none.mp hk)]
    simp only [Option.bind_none, Option.toList_none, List.count_nil]
    omega
  | some c =>
    have hmem : k ∈ m.entries.keys := AList.lookup_isSome.mp (by rw [hk]; rfl)
    obtain ⟨c', es₁, es₂, -, hsplit, herase⟩ := List.exists_of_kerase hmem
    have hc' : m.lookup k = some c' :=
      AList.mem_lookup_iff.mpr (by rw [hsplit]; simp)
    obtain rfl : c = c' := Option.some.inj (hk.symm.trans hc')
    rw [herase, hsplit, List.filterMap_append, List.filterMap_append, List.count_append,
      List.count_append, hcons]
    simp only [Option.bind_some]
    omega

end

end Grcache.Base
