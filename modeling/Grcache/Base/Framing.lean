import Mathlib

/-!
# Framing of byte streams

Two framings meet in one stream: entries closed by a separator, with no count in
front, and then fields behind a fixed-width little-endian length. An entry is a
name, one separator, a value, two separators. Nothing marks the end of the
entries, so the first length has to be told apart from one more entry.

`entries_append_inj` is the unambiguity of the whole: it needs that neither
names nor values hold the separator, that only the first name may be empty, and
that the length does not start with two separators but goes on with five.
-/

namespace Grcache.Base

variable {α : Type*} {z : α}

/-- The first separator ends the same field on both sides. -/
theorem cut_inj (ha : z ∉ a) (hb : z ∉ b) (h : a ++ z :: x = b ++ z :: y) : a = b ∧ x = y := by
  induction a generalizing b with
  | nil =>
    cases b with
    | nil => simpa using h
    | cons c b =>
      simp only [List.nil_append, List.cons_append, List.cons.injEq] at h
      exact absurd h.1 (List.ne_of_not_mem_cons hb)
  | cons c a ih =>
    cases b with
    | nil =>
      simp only [List.nil_append, List.cons_append, List.cons.injEq] at h
      exact absurd h.1.symm (List.ne_of_not_mem_cons ha)
    | cons d b =>
      simp only [List.cons_append, List.cons.injEq] at h
      obtain ⟨rfl, h⟩ := h
      obtain ⟨rfl, rfl⟩ := ih (List.not_mem_of_not_mem_cons ha) (List.not_mem_of_not_mem_cons hb) h
      exact ⟨rfl, rfl⟩

def entry (z : α) (e : List α × List α) : List α := e.1 ++ z :: (e.2 ++ [z, z])

def entries (z : α) (es : List (List α × List α)) : List α := es.flatMap (entry z)

structure Clean (z : α) (es : List (List α × List α)) : Prop where
  name : ∀ e ∈ es, z ∉ e.1
  value : ∀ e ∈ es, z ∉ e.2
  -- of an ascending list of names, only the first can be empty
  nonempty : ∀ e ∈ es.tail, e.1 ≠ []

theorem Clean.tail (h : Clean z (e :: es)) : Clean z es where
  name e' he' := h.name e' (List.mem_cons_of_mem _ he')
  value e' he' := h.value e' (List.mem_cons_of_mem _ he')
  nonempty e' he' := h.nonempty e' (List.mem_of_mem_tail he')

def ShortLength (z : α) (t : List α) : Prop :=
  ∃ a b rest, (a ≠ z ∨ b ≠ z) ∧ t = a :: b :: z :: z :: z :: z :: z :: rest

theorem ShortLength.not_two (h : ShortLength z t) : ¬ ∃ rest, t = z :: z :: rest := by
  rintro ⟨rest, rfl⟩
  obtain ⟨a, b, r, hab, heq⟩ := h
  simp only [List.cons.injEq] at heq
  rcases hab with ha | hb
  · exact ha heq.1.symm
  · exact hb heq.2.1.symm

/-- Reading a length as an entry leaves at least two of its separators. -/
theorem ShortLength.as_entry (h : ShortLength z t) (hn : z ∉ e.1) (hv : z ∉ e.2)
    (heq : entry z e ++ rest = t) : ∃ r, rest = z :: z :: r := by
  obtain ⟨n, v⟩ := e
  obtain ⟨a, b, r, hab, rfl⟩ := h
  -- the value stops at the first separator, so it is empty wherever one stands first
  have hempty : ∀ w x y, z ∉ w → w ++ z :: x = z :: y → w = [] ∧ x = y := fun w x y hw hxy =>
    (cut_inj hw (by simp) (b := []) hxy)
  simp only [entry, List.append_assoc, List.cons_append, List.nil_append] at heq hn hv
  match n with
  | [] =>
    simp only [List.nil_append, List.cons.injEq] at heq
    obtain ⟨rfl, heq⟩ := heq
    cases v with
    | nil => simp_all
    | cons c v =>
      simp only [List.cons_append, List.cons.injEq] at heq
      obtain ⟨-, hx⟩ := hempty v _ _ (List.not_mem_of_not_mem_cons hv) heq.2
      simp only [List.cons.injEq, true_and] at hx
      exact ⟨_, hx⟩
  | [c] =>
    simp only [List.cons_append, List.nil_append, List.cons.injEq] at heq
    obtain ⟨-, hx⟩ := hempty v _ _ hv heq.2.2
    simp only [List.cons.injEq, true_and] at hx
    exact ⟨_, hx⟩
  | [c, d] =>
    simp only [List.cons_append, List.nil_append, List.cons.injEq] at heq
    obtain ⟨-, hx⟩ := hempty v _ _ hv heq.2.2.2
    simp only [List.cons.injEq, true_and] at hx
    exact ⟨_, hx⟩
  | c :: d :: f :: n =>
    simp only [List.cons_append, List.cons.injEq] at heq
    simp [heq.2.2.1] at hn

theorem entries_not_length (hc : Clean z (e :: es)) (ht : ShortLength z t) (ht' : ShortLength z t')
    (h : t = entries z (e :: es) ++ t') : False := by
  have h : entry z e ++ (entries z es ++ t') = t := by
    simpa [entries] using h.symm
  obtain ⟨r, hr⟩ := ht.as_entry (hc.name e (by simp)) (hc.value e (by simp)) h
  cases es with
  | nil => exact ht'.not_two ⟨r, hr⟩
  | cons e₂ es =>
    -- the next entry has a name, and a name does not start with a separator
    have hne := hc.nonempty e₂ (by simp)
    have hz := hc.name e₂ (by simp)
    obtain ⟨n, v⟩ := e₂
    cases n with
    | nil => exact hne rfl
    | cons c n =>
      simp only [entries, entry, List.flatMap_cons, List.cons_append, List.append_assoc,
        List.cons.injEq] at hr
      simp [hr.1] at hz

theorem entries_append_inj (hc : Clean z es) (hc' : Clean z es') (ht : ShortLength z t)
    (ht' : ShortLength z t') (h : entries z es ++ t = entries z es' ++ t') : es = es' ∧ t = t' := by
  induction es generalizing es' with
  | nil =>
    cases es' with
    | nil => exact ⟨rfl, h⟩
    | cons e' es' => exact (entries_not_length hc' ht ht' h).elim
  | cons e es ih =>
    cases es' with
    | nil => exact (entries_not_length hc ht' ht h.symm).elim
    | cons e' es' =>
      simp only [entries, entry, List.flatMap_cons, List.append_assoc, List.cons_append,
        List.nil_append] at h
      obtain ⟨hn, h⟩ := cut_inj (hc.name e (by simp)) (hc'.name e' (by simp)) h
      obtain ⟨hv, h⟩ := cut_inj (hc.value e (by simp)) (hc'.value e' (by simp)) h
      simp only [List.cons.injEq, true_and] at h
      obtain ⟨rfl, rfl⟩ := ih hc.tail hc'.tail h
      exact ⟨by rw [Prod.ext hn hv], rfl⟩

/-- `to_le_bytes` of a number of `width` bytes; what does not fit is cut off. -/
def leBytes : (width n : Nat) → List UInt8
  | 0, _ => []
  | width + 1, n => UInt8.ofNat (n % 256) :: leBytes width (n / 256)

@[simp] theorem length_leBytes : (leBytes width n).length = width := by
  induction width generalizing n with
  | zero => rfl
  | succ width ih => simp [leBytes, ih]

def ofLeBytes : List UInt8 → Nat
  | [] => 0
  | b :: bs => b.toNat + 256 * ofLeBytes bs

theorem ofLeBytes_leBytes (hn : n < 256 ^ width) : ofLeBytes (leBytes width n) = n := by
  induction width generalizing n with
  | zero =>
    simp only [Nat.pow_zero] at hn
    simp only [leBytes, ofLeBytes]
    omega
  | succ width ih =>
    have hhigh : n / 256 < 256 ^ width :=
      Nat.div_lt_of_lt_mul (by rw [Nat.pow_succ'] at hn; exact hn)
    simp only [leBytes, ofLeBytes, ih hhigh, UInt8.toNat_ofNat']
    omega

theorem leBytes_inj (hn : n < 256 ^ width) (hm : m < 256 ^ width)
    (h : leBytes width n = leBytes width m) : n = m := by
  rw [← ofLeBytes_leBytes hn, h, ofLeBytes_leBytes hm]

theorem leBytes_short (hpos : 0 < n) (hn : n < 2 ^ 16) (rest : List UInt8) :
    ShortLength 0 (leBytes 8 n ++ rest) := by
  have hhigh : n / 256 / 256 = 0 := by omega
  refine ⟨UInt8.ofNat (n % 256), UInt8.ofNat (n / 256 % 256), 0 :: rest, ?_, ?_⟩
  · have hbyte : ∀ x, UInt8.ofNat (x % 256) = 0 → x % 256 = 0 := by
      intro x hx
      have := congrArg UInt8.toNat hx
      simpa using this
    by_contra hcon
    simp only [not_or, ne_eq, not_not] at hcon
    have h0 := hbyte n hcon.1
    have h1 := hbyte (n / 256) hcon.2
    omega
  · simp [leBytes, hhigh]

def getNumber (bs : List UInt8) : Option (Nat × List UInt8) :=
  if bs.length < 8 then none else some (ofLeBytes (bs.take 8), bs.drop 8)

theorem getNumber_leBytes (hn : n < 256 ^ 8) (rest : List UInt8) :
    getNumber (leBytes 8 n ++ rest) = some (n, rest) := by
  have hlength : ¬ (leBytes 8 n ++ rest).length < 8 := by simp
  rw [getNumber, if_neg hlength, List.take_left' length_leBytes, List.drop_left' length_leBytes,
    ofLeBytes_leBytes hn]

def putField (b : List UInt8) : List UInt8 := leBytes 8 b.length ++ b

def getField (bs : List UInt8) : Option (List UInt8 × List UInt8) :=
  match getNumber bs with
  | none => none
  | some (length, bs) => if bs.length < length then none else some (bs.take length, bs.drop length)

theorem getField_putField (hb : b.length < 256 ^ 8) (rest : List UInt8) :
    getField (putField b ++ rest) = some (b, rest) := by
  have hlength : ¬ (b ++ rest).length < b.length := by simp
  rw [getField, putField, List.append_assoc, getNumber_leBytes hb]
  simp only [hlength, ↓reduceIte]
  rw [List.take_left, List.drop_left]

end Grcache.Base
