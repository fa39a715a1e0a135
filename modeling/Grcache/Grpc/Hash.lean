import Grcache.Base.Framing
import Grcache.Grpc.Headers

/-!
# The hashed byte stream

`hash_vary` and `hash_body` feed one hasher: the declared headers in order of
their names, then the path and the body behind their lengths. A hasher is the
concatenation of the updates made to it.

`stream_inj` reads the request back from the stream.
-/

namespace Grcache.Grpc

open Base (Bytes BTreeSet leBytes entries)
open Http

/-- The sorted list of `vary` values the source also collects is never used. -/
def hashVary (varySet : BTreeSet Bytes) (headers : HeaderMap) : Bytes :=
  varySet.toList.flatMap fun varyHeader =>
    varyHeader ++ [0] ++ joined (HeaderMap.getAll headers varyHeader) ++ [0, 0]

def hashBody (rawPath body : Bytes) : Bytes :=
  leBytes 8 rawPath.length ++ rawPath ++ leBytes 8 body.length ++ body

/-- Of the headers, only the joined values of the declared names are hashed. -/
theorem hashVary_congr (h : ∀ n ∈ varySet,
      joined (HeaderMap.getAll headers n) = joined (HeaderMap.getAll headers' n)) :
    hashVary varySet headers = hashVary varySet headers' := by
  unfold hashVary
  apply List.flatMap_congr
  intro n hn
  rw [h n hn]

def varyEntries (varySet : BTreeSet Bytes) (headers : HeaderMap) : List (Bytes × Bytes) :=
  varySet.toList.map fun name => (name, joined (HeaderMap.getAll headers name))

theorem hashVary_eq (varySet : BTreeSet Bytes) (headers : HeaderMap) :
    hashVary varySet headers = entries 0 (varyEntries varySet headers) := by
  simp [hashVary, entries, varyEntries, Base.entry, List.flatMap_map]

theorem BTreeSet.tail_nonempty (s : BTreeSet Bytes) (h : n ∈ s.toList.tail) : n ≠ [] := by
  obtain ⟨l, hl⟩ := s
  cases l with
  | nil => cases h
  | cons a l =>
    rintro rfl
    exact absurd ((List.pairwise_cons.mp hl).1 [] h) (List.not_lt_nil a)

theorem varyEntries_clean (hs : ∀ n ∈ varySet, (0 : UInt8) ∉ n) (headers : HeaderMap) :
    Base.Clean 0 (varyEntries varySet headers) where
  name e he := by
    obtain ⟨n, hn, rfl⟩ := List.mem_map.mp he
    exact hs n hn
  value e he := by
    obtain ⟨n, -, rfl⟩ := List.mem_map.mp he
    exact joined_no_nul _
  nonempty e he := by
    rw [varyEntries, ← List.map_tail] at he
    obtain ⟨n, hn, rfl⟩ := List.mem_map.mp he
    exact BTreeSet.tail_nonempty varySet hn

theorem hashBody_inj (hp : p.length < 2 ^ 16) (hp' : p'.length < 2 ^ 16)
    (h : hashBody p b = hashBody p' b') : p = p' ∧ b = b' := by
  simp only [hashBody, List.append_assoc] at h
  obtain ⟨hle, hrest⟩ := List.append_inj h (by simp)
  have hlen : p.length = p'.length := Base.leBytes_inj (by omega) (by omega) hle
  obtain ⟨hpath, hbody⟩ := List.append_inj hrest hlen
  exact ⟨hpath, (List.append_inj hbody (by simp)).2⟩

/-- The stream determines the vary set, the joined value of each declared name,
the path and the body. -/
theorem stream_inj (hs : ∀ n ∈ s, (0 : UInt8) ∉ n) (hs' : ∀ n ∈ s', (0 : UInt8) ∉ n)
    (hp : p ≠ []) (hp' : p' ≠ []) (hlen : p.length < 2 ^ 16) (hlen' : p'.length < 2 ^ 16)
    (h : hashVary s m ++ hashBody p b = hashVary s' m' ++ hashBody p' b') :
    s = s' ∧ (∀ n ∈ s, joined (HeaderMap.getAll m n) = joined (HeaderMap.getAll m' n)) ∧
      p = p' ∧ b = b' := by
  have hshort : ∀ {q : Bytes} {c : Bytes}, q ≠ [] → q.length < 2 ^ 16 →
      Base.ShortLength 0 (hashBody q c) := by
    intro q c hq hql
    simp only [hashBody, List.append_assoc]
    exact Base.leBytes_short (List.length_pos_iff.mpr hq) hql _
  rw [hashVary_eq, hashVary_eq] at h
  obtain ⟨hes, hbody⟩ := Base.entries_append_inj (varyEntries_clean hs m) (varyEntries_clean hs' m')
    (hshort hp hlen) (hshort hp' hlen') h
  have hlist : s.toList = s'.toList := by
    have := congrArg (List.map Prod.fst) hes
    simpa [varyEntries, Function.comp_def] using this
  have hset : s = s' := by
    cases s
    cases s'
    simpa using hlist
  subst hset
  refine ⟨rfl, fun n hn => ?_, hashBody_inj hlen hlen' hbody⟩
  have := List.map_inj_left.mp hes n hn
  exact (Prod.mk.inj this).2

theorem makeVaryHeadersSet_no_nul (h : makeVaryHeadersSet headers = .ok s) (hn : n ∈ s) :
    (0 : UInt8) ∉ n := by
  rw [makeVaryHeadersSet_eq] at h
  cases h
  exact varyNames_no_nul (BTreeSet.mem_ofList.mp hn)

/-- Two requests that feed the hasher the same bytes declare the same names,
with the same joined values, and have the same path and body. The headers that
are hashed need not be the ones that declare. -/
theorem hashed_stream_unambiguous (hs : makeVaryHeadersSet headers = .ok s)
    (hs' : makeVaryHeadersSet headers' = .ok s') (hp : p ≠ []) (hp' : p' ≠ [])
    (hlen : p.length < 2 ^ 16) (hlen' : p'.length < 2 ^ 16)
    (h : hashVary s m ++ hashBody p b = hashVary s' m' ++ hashBody p' b') :
    s = s' ∧ (∀ n ∈ s, joined (HeaderMap.getAll m n) = joined (HeaderMap.getAll m' n)) ∧
      p = p' ∧ b = b' :=
  stream_inj (fun _ => makeVaryHeadersSet_no_nul hs) (fun _ => makeVaryHeadersSet_no_nul hs')
    hp hp' hlen hlen' h

theorem vary_isName : ascii "vary" ≠ [] ∧ (ascii "vary").all isNameByte = true := by decide

def declares (names : Bytes) (h : names.all isValueByte = true := by decide) : HeaderMap :=
  [(⟨ascii "vary", vary_isName⟩, ⟨names, h⟩)]

theorem reordered_same_set :
    BTreeSet.ofList (varyNames (declares (ascii "x-b, x-a,"))) =
      .ofList (varyNames (declares (ascii ",x-a,x-b"))) := by
  have hpath : ascii "/example.Users/Get" ≠ [] := by decide
  have hshort : (ascii "/example.Users/Get").length < 2 ^ 16 := by decide
  have hstream : hashVary (.ofList (varyNames (declares (ascii "x-b, x-a,")))) [] ++
        hashBody (ascii "/example.Users/Get") [1] =
      hashVary (.ofList (varyNames (declares (ascii ",x-a,x-b")))) [] ++
        hashBody (ascii "/example.Users/Get") [1] := by decide
  exact (hashed_stream_unambiguous (makeVaryHeadersSet_eq _) (makeVaryHeadersSet_eq _) hpath hpath
    hshort hshort hstream).1

end Grcache.Grpc
