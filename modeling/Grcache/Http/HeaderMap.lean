import Grcache.Base.BTreeSet

/-!
# Header maps

The parts of the `http` crate the proxy relies on. Names in a map are lower-case
tokens, values hold no control bytes but the tab, and a lookup by string ignores
case. A string that is no header name finds nothing, since no name equals it.
-/

namespace Grcache.Http

open Base (Bytes)

def ascii (s : String) : Bytes := s.toList.map fun c => UInt8.ofNat c.toNat

def isNameByte (b : UInt8) : Bool :=
  (48 ≤ b && b ≤ 57) || (97 ≤ b && b ≤ 122) ||
    [33, 35, 36, 37, 38, 39, 42, 43, 45, 46, 94, 95, 96, 124, 126].contains b

def isValueByte (b : UInt8) : Bool := (32 ≤ b && b ≠ 127) || b = 9

def isVisibleAscii (b : UInt8) : Bool := (32 ≤ b && b < 127) || b = 9

def toLower (b : UInt8) : UInt8 := if 65 ≤ b && b ≤ 90 then b + 32 else b

structure HeaderName where
  bytes : Bytes
  valid : bytes ≠ [] ∧ bytes.all isNameByte = true
  deriving DecidableEq

structure HeaderValue where
  bytes : Bytes
  valid : bytes.all isValueByte = true
  deriving DecidableEq

/-- A multimap; the values of one name keep their order. -/
abbrev HeaderMap := List (HeaderName × HeaderValue)

variable (headers : HeaderMap)

def HeaderMap.getAll (key : Bytes) : List HeaderValue :=
  (headers.filter fun h => h.1.bytes = key.map toLower).map Prod.snd

def HeaderMap.get (key : Bytes) : Option HeaderValue := (HeaderMap.getAll headers key).head?

/-- Each name once; the order of the iterator is not modelled. -/
def HeaderMap.keys : List HeaderName := (headers.map Prod.fst).dedup

def HeaderMap.remove (key : Bytes) : HeaderMap :=
  headers.filter fun h => h.1.bytes ≠ key.map toLower

def joined (values : List HeaderValue) : Bytes :=
  (ascii ", ").intercalate (values.map HeaderValue.bytes)

inductive ToStrError
  | mk
  deriving DecidableEq, Repr

def HeaderValue.toStr (v : HeaderValue) : Except ToStrError Bytes :=
  if v.bytes.all isVisibleAscii then .ok v.bytes else .error .mk

theorem toLower_nameByte (h : isNameByte b = true) : toLower b = b := by
  have hupper : ¬ (65 ≤ b ∧ b ≤ 90) := by
    rintro ⟨h1, h2⟩
    simp only [isNameByte, Bool.or_eq_true, Bool.and_eq_true, decide_eq_true_eq,
      List.contains_eq_mem, UInt8.le_iff_toNat_le] at h h1 h2
    rcases h with (h | h) | h
    · exact absurd (h1.trans h.2) (by decide)
    · exact absurd (h.1.trans h2) (by decide)
    · have hlist : ∀ x ∈ ([33, 35, 36, 37, 38, 39, 42, 43, 45, 46, 94, 95, 96, 124, 126] : Bytes),
          ¬ (65 ≤ x.toNat ∧ x.toNat ≤ 90) := by decide +kernel
      exact hlist b h ⟨h1, h2⟩
  simp [toLower, hupper]

theorem HeaderName.lower (n : HeaderName) : n.bytes.map toLower = n.bytes := by
  have hall := List.all_eq_true.mp n.valid.2
  calc n.bytes.map toLower = n.bytes.map id :=
        List.map_congr_left fun b hb => toLower_nameByte (hall b hb)
    _ = n.bytes := List.map_id _

theorem HeaderName.bytes_inj {a b : HeaderName} : a.bytes = b.bytes ↔ a = b := by
  cases a
  cases b
  simp

theorem HeaderValue.no_nul (v : HeaderValue) : (0 : UInt8) ∉ v.bytes := by
  intro h
  have := List.all_eq_true.mp v.valid 0 h
  revert this
  decide

theorem joined_no_nul (values : List HeaderValue) : (0 : UInt8) ∉ joined values := by
  unfold joined
  induction values with
  | nil => simp
  | cons v vs ih =>
    cases vs with
    | nil => simpa using v.no_nul
    | cons w ws =>
      simp only [List.map_cons, List.intercalate_cons_cons, List.mem_append, not_or]
      exact ⟨⟨v.no_nul, by decide⟩, by simpa using ih⟩

theorem getAll_eq_nil : HeaderMap.getAll headers key = [] ↔
    ∀ h ∈ headers, h.1.bytes ≠ key.map toLower := by
  simp [HeaderMap.getAll]

theorem mem_keys : name ∈ HeaderMap.keys headers ↔ ∃ h ∈ headers, h.1 = name := by
  simp [HeaderMap.keys]

theorem mem_keys_iff_getAll (name : HeaderName) :
    name ∈ HeaderMap.keys headers ↔ HeaderMap.getAll headers name.bytes ≠ [] := by
  rw [mem_keys, Ne, getAll_eq_nil, name.lower]
  simp only [HeaderName.bytes_inj, ne_eq, not_forall, not_not, exists_prop]

/-- Only stored names are found, so two maps agree on a string if they do on names. -/
theorem getAll_congr {headers headers' : HeaderMap} {key : Bytes}
    (h : ∀ name : HeaderName, name.bytes = key.map toLower →
      HeaderMap.getAll headers name.bytes = HeaderMap.getAll headers' name.bytes) :
    HeaderMap.getAll headers key = HeaderMap.getAll headers' key := by
  have hlower : ∀ (m : HeaderMap) (name : HeaderName), name.bytes = key.map toLower →
      HeaderMap.getAll m name.bytes = HeaderMap.getAll m key := by
    intro m name heq
    unfold HeaderMap.getAll
    rw [name.lower, heq]
  by_cases hname : ∃ name : HeaderName, name.bytes = key.map toLower
  · obtain ⟨name, heq⟩ := hname
    rw [← hlower headers name heq, ← hlower headers' name heq]
    exact h name heq
  · have hnil : ∀ m : HeaderMap, HeaderMap.getAll m key = [] := by
      intro m
      rw [getAll_eq_nil]
      exact fun x _ heq => hname ⟨x.1, heq⟩
    rw [hnil, hnil]

end Grcache.Http
