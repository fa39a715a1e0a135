import Grcache.Http.HeaderMap
import Mathlib.Data.List.DropRight

/-!
# Vary headers and stripping

`make_vary_headers_set` collects the names a client declares in its `vary`
headers, `find_strip_headers` lists the request headers that must not reach the
upstream of a cached call.
-/

namespace Grcache.Grpc

open Base (Bytes BTreeSet)
open Http

inductive ErrorType
  | httpStatus (code : Nat)
  | invalidHTTPHeader
  /-- Reading from the client failed. -/
  | readError
  | internalError
  deriving DecidableEq, Repr

structure PingoraError where
  etype : ErrorType
  context : String
  deriving DecidableEq, Repr

/-- `char::is_whitespace` on the bytes `to_str` lets through. -/
def isWhitespace (b : UInt8) : Bool := (9 ≤ b && b ≤ 13) || b = 32

def trim (s : Bytes) : Bytes := (s.dropWhile isWhitespace).rdropWhile isWhitespace

def comma : UInt8 := 44

/-- The `Err` of a value is turned into an iterator, which yields nothing. -/
def splitVary : Except ToStrError Bytes → List (Except ToStrError Bytes)
  | .ok i => (i.splitOn comma).map .ok
  | .error _ => []

def makeVaryHeadersSet (headers : HeaderMap) : Except PingoraError (BTreeSet Bytes) :=
  let items := (((HeaderMap.getAll headers (ascii "vary")).map HeaderValue.toStr).flatMap
    splitVary).map (Except.map trim)
  match items.mapM id with
  | .ok names => .ok (BTreeSet.ofList names)
  | .error _ => .error ⟨.invalidHTTPHeader, "invalid vary header"⟩

def coreHeaders : List Bytes :=
  [ascii "host", ascii "content-type", ascii "te", ascii "vary", ascii "user-agent"]

def findStripHeaders (reqHeaders : HeaderMap) (varySet propagationSet : BTreeSet Bytes) :
    List Bytes :=
  ((HeaderMap.keys reqHeaders).map HeaderName.bytes).filter fun key =>
    let keepHeader := key ∈ coreHeaders ∨ key ∈ varySet ∨ key ∈ propagationSet
    !decide keepHeader

def stripHeaders (headers : HeaderMap) (strip : List Bytes) : HeaderMap :=
  strip.foldl HeaderMap.remove headers

/-- The declared names, of the values that are visible ASCII. -/
def varyNames (headers : HeaderMap) : List Bytes :=
  (((HeaderMap.getAll headers (ascii "vary")).map HeaderValue.bytes).filter
    (List.all · isVisibleAscii)).flatMap fun v => (v.splitOn comma).map trim

theorem mapM_ok (l : List α) : (l.map fun a => (.ok a : Except ε α)).mapM id = .ok l := by
  induction l with
  | nil => rfl
  | cons a l ih =>
    rw [List.map_cons, List.mapM_cons, ih]
    rfl

/-- No error survives `into_iter`, so the set is always built. -/
theorem makeVaryHeadersSet_eq (headers : HeaderMap) :
    makeVaryHeadersSet headers = .ok (BTreeSet.ofList (varyNames headers)) := by
  have hitems : (((HeaderMap.getAll headers (ascii "vary")).map HeaderValue.toStr).flatMap
      splitVary).map (Except.map trim) = (varyNames headers).map .ok := by
    unfold varyNames
    generalize HeaderMap.getAll headers (ascii "vary") = values
    induction values with
    | nil => rfl
    | cons v vs ih =>
      simp only [List.map_cons, List.flatMap_cons, List.map_append, ih]
      by_cases hv : v.bytes.all isVisibleAscii = true
      · simp [HeaderValue.toStr, hv, splitVary, Function.comp_def, Except.map]
      · simp [HeaderValue.toStr, hv, splitVary]
  simp only [makeVaryHeadersSet, hitems, mapM_ok]

theorem mem_trim (h : b ∈ trim s) : b ∈ s := by
  have h1 : b ∈ s.dropWhile isWhitespace := (List.rdropWhile_prefix _ _).subset h
  exact (List.dropWhile_suffix _).subset h1

theorem mem_intercalate (sep : Bytes) (hp : piece ∈ pieces) (hb : b ∈ piece) :
    b ∈ List.intercalate sep pieces := by
  induction pieces with
  | nil => cases hp
  | cons p ps ih =>
    cases ps with
    | nil =>
      rw [List.mem_singleton.mp hp] at hb
      simpa using hb
    | cons q qs =>
      simp only [List.intercalate_cons_cons, List.mem_append]
      rcases List.mem_cons.mp hp with rfl | hp
      · exact .inl (.inl hb)
      · exact .inr (ih hp)

theorem varyNames_no_nul (h : n ∈ varyNames headers) : (0 : UInt8) ∉ n := by
  intro h0
  simp only [varyNames, List.mem_flatMap, List.mem_filter, List.mem_map] at h
  obtain ⟨v, ⟨⟨value, -, rfl⟩, -⟩, piece, hpiece, rfl⟩ := h
  have hmem := mem_intercalate [comma] hpiece (mem_trim h0)
  rw [List.intercalate_splitOn] at hmem
  exact value.no_nul hmem

theorem getAll_remove (headers : HeaderMap) (key name : Bytes) :
    HeaderMap.getAll (HeaderMap.remove headers key) name =
      if name.map toLower = key.map toLower then [] else HeaderMap.getAll headers name := by
  unfold HeaderMap.getAll HeaderMap.remove
  rw [List.filter_filter]
  split
  next h => simp [h]
  next h =>
    congr 1
    apply List.filter_congr
    intro x _
    by_cases hx : x.1.bytes = name.map toLower
    · simp [hx, h]
    · simp [hx]

theorem getAll_stripHeaders (headers : HeaderMap) (strip : List Bytes) (name : Bytes) :
    HeaderMap.getAll (stripHeaders headers strip) name =
      if name.map toLower ∈ strip.map (List.map toLower) then [] else
        HeaderMap.getAll headers name := by
  unfold stripHeaders
  induction strip generalizing headers with
  | nil => simp
  | cons key strip ih =>
    simp only [List.foldl_cons, ih, getAll_remove, List.map_cons, List.mem_cons]
    by_cases h1 : name.map toLower ∈ strip.map (List.map toLower)
    · simp [h1]
    · by_cases h2 : name.map toLower = key.map toLower
      · simp [h2]
      · simp [h1, h2]

theorem mem_findStripHeaders : key ∈ findStripHeaders headers varySet propagationSet ↔
    (∃ name ∈ HeaderMap.keys headers, name.bytes = key) ∧
      ¬ (key ∈ coreHeaders ∨ key ∈ varySet ∨ key ∈ propagationSet) := by
  simp [findStripHeaders]

/-- What is left of a name: nothing, unless its lower-case spelling is one of
those kept. -/
theorem getAll_stripHeaders_find (headers : HeaderMap) (varySet propagationSet : BTreeSet Bytes)
    (name : Bytes) :
    HeaderMap.getAll (stripHeaders headers (findStripHeaders headers varySet propagationSet)) name =
      if name.map toLower ∈ coreHeaders ∨ name.map toLower ∈ varySet ∨
          name.map toLower ∈ propagationSet then
        HeaderMap.getAll headers name
      else [] := by
  rw [getAll_stripHeaders]
  have hmem : name.map toLower ∈
        (findStripHeaders headers varySet propagationSet).map (List.map toLower) ↔
      (∃ h ∈ headers, h.1.bytes = name.map toLower) ∧
        ¬ (name.map toLower ∈ coreHeaders ∨ name.map toLower ∈ varySet ∨
          name.map toLower ∈ propagationSet) := by
    simp only [List.mem_map, mem_findStripHeaders, HeaderMap.keys, List.mem_dedup]
    constructor
    · rintro ⟨key, ⟨⟨n, ⟨h, hh, rfl⟩, rfl⟩, hkeep⟩, heq⟩
      rw [HeaderName.lower] at heq
      exact ⟨⟨h, hh, heq⟩, heq ▸ hkeep⟩
    · rintro ⟨⟨h, hh, heq⟩, hkeep⟩
      exact ⟨h.1.bytes, ⟨⟨h.1, ⟨h, hh, rfl⟩, rfl⟩, heq ▸ hkeep⟩, by rw [HeaderName.lower, heq]⟩
  split
  next hstrip => rw [if_neg (hmem.mp hstrip).2]
  next hstrip =>
    split
    next => rfl
    next hkeep =>
      rw [getAll_eq_nil]
      exact fun x hx heq => hstrip (hmem.mpr ⟨⟨x, hx, heq⟩, hkeep⟩)

/-- What the upstream of a cached call sees of a name: nothing, unless its
lower-case spelling is a core or a declared name. -/
theorem getAll_stripped (headers : HeaderMap) (varySet : BTreeSet Bytes) (name : Bytes) :
    HeaderMap.getAll (stripHeaders headers (findStripHeaders headers varySet .empty)) name =
      if name.map toLower ∈ coreHeaders ∨ name.map toLower ∈ varySet then
        HeaderMap.getAll headers name
      else [] := by
  simp only [getAll_stripHeaders_find, BTreeSet.notMem_empty, or_false]

end Grcache.Grpc
