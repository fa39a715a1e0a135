import Grcache.Base.Split
import Grcache.Grpc.Hash

/-!
# Declared names

What a request declares in its `vary` headers, said of the header values alone.
`make_vary_headers_set` collects these names; a value that cannot be read is
dropped, and so is the error. Two spellings of one declaration give one set, so
they keep the same headers and feed the hasher the same bytes. The letter case is
not part of that: stripping compares names exactly and the lookup of a hashed
header does not.
-/

namespace Grcache.Grpc

open Base (Bytes BTreeSet Separated Trimmed)
open Http

def varyValues (headers : HeaderMap) : List HeaderValue :=
  HeaderMap.getAll headers (ascii "vary")

def readableValues (headers : HeaderMap) : List HeaderValue :=
  (varyValues headers).filter (·.bytes.all isVisibleAscii)

/-- The name stands in one of the values, between commas and with white space
around it. -/
def Declared (values : List HeaderValue) (n : Bytes) : Prop :=
  ∃ value ∈ values, ∃ pieces, Separated comma pieces value.bytes ∧
    ∃ piece ∈ pieces, Trimmed isWhitespace piece n

def Visible (headers : HeaderMap) : Prop :=
  ∀ value ∈ varyValues headers, value.bytes.all isVisibleAscii = true

instance (headers : HeaderMap) : Decidable (Visible headers) :=
  inferInstanceAs (Decidable (∀ value ∈ varyValues headers, _ = true))

theorem declared_iff : Declared values n ↔
    ∃ value ∈ values, n ∈ (value.bytes.splitOn comma).map trim := by
  unfold Declared
  simp only [List.mem_map, trim, Base.trim_eq_iff, ← Base.splitOn_eq_iff, exists_eq_left']

theorem mem_varyNames : n ∈ varyNames headers ↔ Declared (readableValues headers) n := by
  rw [declared_iff]
  simp [varyNames, readableValues, varyValues, and_assoc]

theorem Visible.mem_varyNames (h : Visible headers) :
    n ∈ varyNames headers ↔ Declared (varyValues headers) n := by
  have hreadable : readableValues headers = varyValues headers := List.filter_eq_self.mpr h
  rw [Grpc.mem_varyNames, hreadable]

theorem exists_declared : (∃ n, Declared values n) ↔ values ≠ [] := by
  simp only [declared_iff]
  constructor
  · rintro ⟨n, value, hvalue, -⟩
    exact List.ne_nil_of_mem hvalue
  · intro hne
    obtain ⟨value, values, rfl⟩ := List.exists_cons_of_ne_nil hne
    obtain ⟨piece, pieces, hsplit⟩ :=
      List.exists_cons_of_ne_nil (List.splitOn_ne_nil comma value.bytes)
    exact ⟨trim piece, value, List.mem_cons_self, by simp [hsplit]⟩

-- ---------------------------------------------------------------------------
-- Reading the declaration
-- ---------------------------------------------------------------------------

/-- An unreadable value is an error, and otherwise the set is what is declared. -/
structure VaryExact (headers : HeaderMap) : Prop where
  rejects : (∃ e, makeVaryHeadersSet headers = .error e) ↔
    ∃ value ∈ varyValues headers, ∃ e, value.toStr = .error e
  collects : (∀ value ∈ varyValues headers, ∃ s, value.toStr = .ok s) →
    ∃ set, makeVaryHeadersSet headers = .ok set ∧ ∀ n, n ∈ set ↔ Declared (varyValues headers) n

theorem toStr_error : (∃ e, HeaderValue.toStr value = .error e) ↔
    ¬ value.bytes.all isVisibleAscii = true := by
  unfold HeaderValue.toStr
  split
  next h => simp [h]
  next h => exact iff_of_true ⟨.mk, rfl⟩ h

theorem visible_iff : Visible headers ↔
    ¬ ∃ value ∈ varyValues headers, ∃ e, value.toStr = .error e := by
  unfold Visible
  simp only [toStr_error, not_exists, not_and, not_not]

theorem Visible.makeVaryHeadersSet (h : Visible headers) :
    ∃ set, makeVaryHeadersSet headers = .ok set ∧
      ∀ n, n ∈ set ↔ Declared (varyValues headers) n := by
  refine ⟨_, makeVaryHeadersSet_eq headers, fun n => ?_⟩
  rw [BTreeSet.mem_ofList, h.mem_varyNames]

/-- The set is exact, errors included, exactly if there is no error to report:
`into_iter` drops the one of an unreadable value. -/
theorem varyExact_iff (headers : HeaderMap) : VaryExact headers ↔ Visible headers := by
  have hnever : ¬ ∃ e, makeVaryHeadersSet headers = .error e := by
    rintro ⟨e, he⟩
    rw [makeVaryHeadersSet_eq] at he
    cases he
  constructor
  · intro h
    exact visible_iff.mpr fun hbad => hnever (h.rejects.mpr hbad)
  · intro h
    exact ⟨iff_of_false hnever (visible_iff.mp h), fun _ => h.makeVaryHeadersSet⟩

def varyHeader : HeaderName := ⟨ascii "vary", vary_isName⟩

/-- `vary: x-locale`, then one that is a single byte outside of ASCII. -/
def unreadableVary : HeaderMap :=
  [(varyHeader, ⟨ascii "x-locale", by decide⟩), (varyHeader, ⟨[0xe9], by decide⟩)]

theorem unreadableVary_accepted : ¬ VaryExact unreadableVary := by
  intro h
  have hbad : ∃ value ∈ varyValues unreadableVary, ∃ e, value.toStr = .error e := by
    exact ⟨⟨[0xe9], by decide⟩, by decide, .mk, by decide⟩
  obtain ⟨e, he⟩ := h.rejects.mpr hbad
  rw [makeVaryHeadersSet_eq] at he
  cases he

-- ---------------------------------------------------------------------------
-- Stripping and hashing
-- ---------------------------------------------------------------------------

/-- The header is in the map and not to be stripped. -/
def Kept (headers : HeaderMap) (varySet propagationSet : BTreeSet Bytes)
    (name : HeaderName) : Prop :=
  name ∈ HeaderMap.keys headers ∧ name.bytes ∉ findStripHeaders headers varySet propagationSet

/-- The lookup of `hash_vary` finds values of that header. -/
def Selects (headers : HeaderMap) (key : Bytes) (name : HeaderName) : Prop :=
  HeaderMap.getAll (headers.filter (·.1 = name)) key ≠ []

/-- A header that only its declaration can save is kept if and only if it is hashed. -/
def StripAgrees (headers : HeaderMap) (propagationSet : BTreeSet Bytes) : Prop :=
  ∀ varySet, makeVaryHeadersSet headers = .ok varySet →
    ∀ name ∈ HeaderMap.keys headers, name.bytes ∉ coreHeaders → name.bytes ∉ propagationSet →
      (Kept headers varySet propagationSet name ↔ ∃ key ∈ varySet, Selects headers key name)

/-- Where an upper-case spelling of such a header is declared, its lower-case one
is too. -/
def LowerDeclared (headers : HeaderMap) (propagationSet : BTreeSet Bytes) : Prop :=
  ∀ n, Declared (readableValues headers) n → n.map toLower ≠ n →
    ∀ name ∈ HeaderMap.keys headers, name.bytes = n.map toLower →
      name.bytes ∉ coreHeaders → name.bytes ∉ propagationSet →
        Declared (readableValues headers) name.bytes

theorem kept_iff : Kept headers varySet propagationSet name ↔
    name ∈ HeaderMap.keys headers ∧
      (name.bytes ∈ coreHeaders ∨ name.bytes ∈ varySet ∨ name.bytes ∈ propagationSet) := by
  unfold Kept
  rw [mem_findStripHeaders, not_and, not_not]
  constructor
  · rintro ⟨hname, hkeep⟩
    exact ⟨hname, hkeep ⟨name, hname, rfl⟩⟩
  · rintro ⟨hname, hkeep⟩
    exact ⟨hname, fun _ => hkeep⟩

theorem kept_iff_mem_varySet (hname : name ∈ HeaderMap.keys headers)
    (hcore : name.bytes ∉ coreHeaders) (hprop : name.bytes ∉ propagationSet) :
    Kept headers varySet propagationSet name ↔ name.bytes ∈ varySet := by
  simp only [kept_iff, hname, hcore, hprop, true_and, false_or, or_false]

theorem selects_iff (hname : name ∈ HeaderMap.keys headers) :
    Selects headers key name ↔ name.bytes = key.map toLower := by
  obtain ⟨h, hh, rfl⟩ := (mem_keys headers).mp hname
  unfold Selects
  rw [Ne, getAll_eq_nil]
  constructor
  · intro hfound
    by_contra hne
    apply hfound
    intro x hx
    rw [of_decide_eq_true (List.mem_filter.mp hx).2]
    exact hne
  · intro heq hnone
    exact hnone h (List.mem_filter.mpr ⟨hh, decide_eq_true rfl⟩) heq

/-- Stripping and hashing agree exactly if no header is declared in upper case only. -/
theorem stripAgrees_iff (headers : HeaderMap) (propagationSet : BTreeSet Bytes) :
    StripAgrees headers propagationSet ↔ LowerDeclared headers propagationSet := by
  unfold StripAgrees LowerDeclared
  simp only [makeVaryHeadersSet_eq, Except.ok.injEq, forall_eq', ← mem_varyNames]
  constructor
  · intro hagree n hn _ name hname heq hcore hprop
    have hkept := (hagree name hname hcore hprop).mpr
      ⟨n, BTreeSet.mem_ofList.mpr hn, (selects_iff hname).mpr heq⟩
    rw [kept_iff_mem_varySet hname hcore hprop] at hkept
    exact BTreeSet.mem_ofList.mp hkept
  · intro hlower name hname hcore hprop
    rw [kept_iff_mem_varySet hname hcore hprop]
    constructor
    · intro hdeclared
      exact ⟨name.bytes, hdeclared, (selects_iff hname).mpr name.lower.symm⟩
    · rintro ⟨key, hkey, hselects⟩
      have heq := (selects_iff hname).mp hselects
      have hkey := BTreeSet.mem_ofList.mp hkey
      rw [BTreeSet.mem_ofList]
      by_cases hcase : key.map toLower = key
      · rwa [heq, hcase]
      · exact hlower key hkey hcase name hname heq hcore hprop

def localeHeader : HeaderName := ⟨ascii "x-locale", by decide⟩

def upperLocale : HeaderMap :=
  [(varyHeader, ⟨ascii "X-Locale", by decide⟩), (localeHeader, ⟨ascii "en", by decide⟩)]

-- The lookup of `X-Locale` finds the header, the set does not hold its stored name.
theorem upperLocale_stripped : ¬ StripAgrees upperLocale .empty := by
  intro h
  have hname : localeHeader ∈ HeaderMap.keys upperLocale := by decide
  have hagree := h _ (makeVaryHeadersSet_eq _) localeHeader hname (by decide) (by decide)
  have hselects : ∃ key ∈ BTreeSet.ofList (varyNames upperLocale),
      Selects upperLocale key localeHeader :=
    ⟨ascii "X-Locale", by decide, (selects_iff hname).mpr (by decide)⟩
  rw [kept_iff_mem_varySet hname (by decide) (by decide)] at hagree
  have hdeclared := hagree.mpr hselects
  revert hdeclared
  decide

-- ---------------------------------------------------------------------------
-- Spellings of one declaration
-- ---------------------------------------------------------------------------

/-- The maps declare the same names, in any order and number, on any lines, and
agree on every other header, wherever it stands. -/
structure SameDeclaration (headers headers' : HeaderMap) : Prop where
  visible : Visible headers
  visible' : Visible headers'
  declared : ∀ n, Declared (varyValues headers) n ↔ Declared (varyValues headers') n
  not_vary : ∀ n, Declared (varyValues headers) n → n.map toLower ≠ ascii "vary"
  others : ∀ name : HeaderName, name.bytes ≠ ascii "vary" →
    HeaderMap.getAll headers name.bytes = HeaderMap.getAll headers' name.bytes

namespace SameDeclaration

variable {headers headers' : HeaderMap} (h : SameDeclaration headers headers')
include h

theorem varySet_eq :
    BTreeSet.ofList (varyNames headers) = BTreeSet.ofList (varyNames headers') := by
  apply BTreeSet.ext
  intro n
  rw [BTreeSet.mem_ofList, BTreeSet.mem_ofList, h.visible.mem_varyNames,
    h.visible'.mem_varyNames]
  exact h.declared n

theorem keys_iff : name ∈ HeaderMap.keys headers ↔ name ∈ HeaderMap.keys headers' := by
  rw [mem_keys_iff_getAll, mem_keys_iff_getAll]
  by_cases hvary : name.bytes = ascii "vary"
  · rw [hvary]
    change varyValues headers ≠ [] ↔ varyValues headers' ≠ []
    rw [← exists_declared, ← exists_declared]
    exact exists_congr h.declared
  · rw [h.others name hvary]

theorem kept_iff' : Kept headers varySet propagationSet name ↔
    Kept headers' varySet propagationSet name := by
  rw [kept_iff, kept_iff, h.keys_iff]

theorem getAll_eq (hn : n ∈ BTreeSet.ofList (varyNames headers)) :
    HeaderMap.getAll headers n = HeaderMap.getAll headers' n := by
  rw [BTreeSet.mem_ofList, h.visible.mem_varyNames] at hn
  apply getAll_congr
  intro name heq
  exact h.others name (heq ▸ h.not_vary n hn)

theorem getAll_stripped_eq (propagationSet : BTreeSet Bytes)
    (hn : n ∈ BTreeSet.ofList (varyNames headers)) :
    HeaderMap.getAll (stripHeaders headers (findStripHeaders headers
        (.ofList (varyNames headers)) propagationSet)) n =
      HeaderMap.getAll (stripHeaders headers' (findStripHeaders headers'
        (.ofList (varyNames headers)) propagationSet)) n := by
  rw [getAll_stripHeaders_find, getAll_stripHeaders_find, h.getAll_eq hn]

end SameDeclaration

/-- Requests that spell one declaration differently get one set, keep the same
headers and feed the hasher the same bytes, before and after the stripping. -/
theorem declaration_normalised (h : SameDeclaration headers headers')
    (propagationSet : BTreeSet Bytes) (rawPath body : Bytes) :
    ∃ varySet, makeVaryHeadersSet headers = .ok varySet ∧
      makeVaryHeadersSet headers' = .ok varySet ∧
      (∀ name, Kept headers varySet propagationSet name ↔
        Kept headers' varySet propagationSet name) ∧
      hashVary varySet headers ++ hashBody rawPath body =
        hashVary varySet headers' ++ hashBody rawPath body ∧
      hashVary varySet (stripHeaders headers
          (findStripHeaders headers varySet propagationSet)) ++ hashBody rawPath body =
        hashVary varySet (stripHeaders headers'
          (findStripHeaders headers' varySet propagationSet)) ++ hashBody rawPath body := by
  refine ⟨.ofList (varyNames headers), makeVaryHeadersSet_eq headers, ?_, ?_, ?_, ?_⟩
  · rw [h.varySet_eq]
    exact makeVaryHeadersSet_eq headers'
  · exact fun name => h.kept_iff'
  · rw [hashVary_congr fun n hn => congrArg joined (h.getAll_eq hn)]
  · rw [hashVary_congr fun n hn => congrArg joined (h.getAll_stripped_eq propagationSet hn)]

def oneVaryLine : HeaderMap :=
  [(varyHeader, ⟨ascii "x-user, x-locale", by decide⟩), (localeHeader, ⟨ascii "en", by decide⟩)]

def twoVaryLines : HeaderMap :=
  [(varyHeader, ⟨ascii "x-locale", by decide⟩), (localeHeader, ⟨ascii "en", by decide⟩),
    (varyHeader, ⟨ascii " x-user,x-locale", by decide⟩)]

theorem oneVaryLine_declared :
    Declared (varyValues oneVaryLine) n ↔ n ∈ [ascii "x-user", ascii "x-locale"] := by
  have hvisible : Visible oneVaryLine := by decide
  have hnames : varyNames oneVaryLine = [ascii "x-user", ascii "x-locale"] := by decide
  rw [← hvisible.mem_varyNames, hnames]

theorem twoVaryLines_declared : Declared (varyValues twoVaryLines) n ↔
    n ∈ [ascii "x-locale", ascii "x-user", ascii "x-locale"] := by
  have hvisible : Visible twoVaryLines := by decide
  have hnames : varyNames twoVaryLines =
      [ascii "x-locale", ascii "x-user", ascii "x-locale"] := by decide
  rw [← hvisible.mem_varyNames, hnames]

theorem varyLines_same : SameDeclaration oneVaryLine twoVaryLines where
  visible := by decide
  visible' := by decide
  declared n := by
    rw [oneVaryLine_declared, twoVaryLines_declared]
    simp [or_comm]
  not_vary n hn := by
    have hnames : ∀ n ∈ [ascii "x-user", ascii "x-locale"], n.map toLower ≠ ascii "vary" := by
      decide
    exact hnames n (oneVaryLine_declared.mp hn)
  others name hname := by
    have hvary : ¬ varyHeader.bytes = name.bytes := fun h => hname h.symm
    unfold HeaderMap.getAll
    rw [name.lower]
    simp [oneVaryLine, twoVaryLines, List.filter_cons, hvary]

theorem varyLines_normalised :
    ∃ varySet, makeVaryHeadersSet oneVaryLine = .ok varySet ∧
      makeVaryHeadersSet twoVaryLines = .ok varySet := by
  obtain ⟨varySet, hone, htwo, -⟩ := declaration_normalised varyLines_same .empty
    (ascii "/example.Users/Get") [1]
  exact ⟨varySet, hone, htwo⟩

end Grcache.Grpc
