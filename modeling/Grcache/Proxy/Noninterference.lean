import Grcache.Grpc.Vary
import Grcache.Proxy.CacheKey

/-!
# Header noninterference

A response cached for one request may be served to another one that feeds the
same stream to the hasher. For that to be safe, the two requests must look alike
to the upstream in every header but the core ones. Only what is left after the
stripping is hashed, so no header slips by; but the stream does not tell an absent
header from an empty one.
-/

namespace Grcache.Proxy

open Base (Bytes)
open Http Grpc

variable {proxy proxy' : GrpcProxy} {request request' : Session}

/-- Everything `hash_vary` and `hash_body` feed to the hasher. -/
def CachedCall.stream (c : CachedCall proxy request) : Bytes :=
  hashVary c.grpcMeta.varySet c.session.reqHeader.headers ++
    hashBody c.session.reqHeader.rawPath c.body

def CachedCall.forwarded (c : CachedCall proxy request) (name : Bytes) : List HeaderValue :=
  HeaderMap.getAll c.session.reqHeader.headers name

/-- Both forwarded requests lack the header, or both carry it with one value. -/
def SameForwarded (c : CachedCall proxy request) (c' : CachedCall proxy' request')
    (name : Bytes) : Prop :=
  (c.forwarded name = [] ∧ c'.forwarded name = []) ∨
    (c.forwarded name ≠ [] ∧ c'.forwarded name ≠ [] ∧
      joined (c.forwarded name) = joined (c'.forwarded name))

/-- No leak between the two calls: one stream, one upstream request. -/
def NoLeak (c : CachedCall proxy request) (c' : CachedCall proxy' request') : Prop :=
  c.stream = c'.stream →
    (∀ name : HeaderName, name.bytes ∉ coreHeaders → SameForwarded c c' name.bytes) ∧
      request.reqHeader.rawPath = request'.reqHeader.rawPath ∧ c.body = c'.body

/-- A declared name whose header survives the stripping. -/
def Hashed (c : CachedCall proxy request) (n : Bytes) : Prop :=
  n ∈ c.grpcMeta.varySet ∧
    (n.map toLower ∈ coreHeaders ∨ n.map toLower ∈ c.grpcMeta.varySet)

/-- The requests agree on everything hashed, an absent header counting as an
empty one. -/
def Alike (c : CachedCall proxy request) (c' : CachedCall proxy' request') : Prop :=
  request.reqHeader.rawPath = request'.reqHeader.rawPath ∧ c.body = c'.body ∧
    c.grpcMeta.varySet = c'.grpcMeta.varySet ∧
    ∀ n, Hashed c n → joined (HeaderMap.getAll request.reqHeader.headers n) =
      joined (HeaderMap.getAll request'.reqHeader.headers n)

def SamePresence (c : CachedCall proxy request) (request' : Session) : Prop :=
  ∀ name : HeaderName, name.bytes ∈ c.grpcMeta.varySet → name.bytes ∉ coreHeaders →
    (HeaderMap.getAll request.reqHeader.headers name.bytes = [] ↔
      HeaderMap.getAll request'.reqHeader.headers name.bytes = [])

theorem forwarded_eq (c : CachedCall proxy request) (n : Bytes) :
    c.forwarded n = if n.map toLower ∈ coreHeaders ∨ n.map toLower ∈ c.grpcMeta.varySet then
      HeaderMap.getAll request.reqHeader.headers n else [] := by
  rw [CachedCall.forwarded, c.spec.headers, getAll_stripped]

theorem forwarded_hashed (c : CachedCall proxy request) (h : Hashed c n) :
    c.forwarded n = HeaderMap.getAll request.reqHeader.headers n := by
  rw [forwarded_eq, if_pos h.2]

theorem hashed_declared (c : CachedCall proxy request) (name : HeaderName)
    (h : name.bytes ∈ c.grpcMeta.varySet) : Hashed c name.bytes :=
  ⟨h, .inr (by rwa [name.lower])⟩

theorem joined_forwarded (c : CachedCall proxy request) (c' : CachedCall proxy' request')
    (hv : c.grpcMeta.varySet = c'.grpcMeta.varySet)
    (h : ∀ n, Hashed c n → joined (HeaderMap.getAll request.reqHeader.headers n) =
      joined (HeaderMap.getAll request'.reqHeader.headers n)) (hn : n ∈ c.grpcMeta.varySet) :
    joined (c.forwarded n) = joined (c'.forwarded n) := by
  rw [forwarded_eq, forwarded_eq, ← hv]
  split
  next hkeep => exact h n ⟨hn, hkeep⟩
  next => rfl

theorem alike_iff_stream (c : CachedCall proxy request) (c' : CachedCall proxy' request')
    (hlen : request.reqHeader.rawPath.length < 2 ^ 16)
    (hlen' : request'.reqHeader.rawPath.length < 2 ^ 16) :
    Alike c c' ↔ c.stream = c'.stream := by
  have hpath := c.spec.rawPath
  have hpath' := c'.spec.rawPath
  unfold Alike CachedCall.stream
  constructor
  · rintro ⟨hp, hb, hv, hj⟩
    have hvary : hashVary c.grpcMeta.varySet c.session.reqHeader.headers =
        hashVary c'.grpcMeta.varySet c'.session.reqHeader.headers := by
      rw [← hv]
      exact hashVary_congr fun n hn => joined_forwarded c c' hv hj hn
    rw [hvary, hb, hpath, hpath', hp]
  · intro h
    obtain ⟨hv, hj, hp, hb⟩ := stream_inj (fun _ hn => c.varySet_no_nul hn)
      (fun _ hn => c'.varySet_no_nul hn) (by rw [hpath]; exact c.rawPath_ne_nil)
      (by rw [hpath']; exact c'.rawPath_ne_nil) (by rwa [hpath]) (by rwa [hpath']) h
    rw [hpath, hpath'] at hp
    refine ⟨hp, hb, hv, fun n hn => ?_⟩
    have hn' : Hashed c' n := ⟨hv ▸ hn.1, hv ▸ hn.2⟩
    rw [← forwarded_hashed c hn, ← forwarded_hashed c' hn']
    exact hj n hn.1

/-- Of a declared header, only the presence can differ between calls that are alike. -/
theorem sameForwarded_declared (c : CachedCall proxy request) (c' : CachedCall proxy' request')
    (halike : Alike c c') {name : HeaderName} (hname : name.bytes ∈ c.grpcMeta.varySet) :
    SameForwarded c c' name.bytes ↔
      (HeaderMap.getAll request.reqHeader.headers name.bytes = [] ↔
        HeaderMap.getAll request'.reqHeader.headers name.bytes = []) := by
  obtain ⟨-, -, hv, hj⟩ := halike
  have hname' : name.bytes ∈ c'.grpcMeta.varySet := hv ▸ hname
  have hjoined := hj name.bytes (hashed_declared c name hname)
  unfold SameForwarded
  rw [forwarded_hashed c (hashed_declared c name hname),
    forwarded_hashed c' (hashed_declared c' name hname')]
  constructor
  · rintro (⟨h1, h2⟩ | ⟨h1, h2, -⟩)
    · exact iff_of_true h1 h2
    · exact iff_of_false h1 h2
  · intro hpresent
    by_cases habsent : HeaderMap.getAll request.reqHeader.headers name.bytes = []
    · exact .inl ⟨habsent, hpresent.mp habsent⟩
    · exact .inr ⟨habsent, fun h => habsent (hpresent.mpr h), hjoined⟩

theorem sameForwarded_undeclared (c : CachedCall proxy request) (c' : CachedCall proxy' request')
    (hv : c.grpcMeta.varySet = c'.grpcMeta.varySet) {name : HeaderName}
    (hcore : name.bytes ∉ coreHeaders) (hname : name.bytes ∉ c.grpcMeta.varySet) :
    SameForwarded c c' name.bytes := by
  have hstripped : ¬ (name.bytes.map toLower ∈ coreHeaders ∨
      name.bytes.map toLower ∈ c.grpcMeta.varySet) := by
    rw [name.lower]
    exact not_or.mpr ⟨hcore, hname⟩
  left
  rw [forwarded_eq, forwarded_eq, ← hv, if_neg hstripped, if_neg hstripped]
  exact ⟨rfl, rfl⟩

/-- Two cached calls cannot leak into each other exactly when requests that are
alike in all that is hashed also carry the same declared headers. -/
theorem noLeak_iff (c : CachedCall proxy request) (c' : CachedCall proxy' request')
    (hlen : request.reqHeader.rawPath.length < 2 ^ 16)
    (hlen' : request'.reqHeader.rawPath.length < 2 ^ 16) :
    NoLeak c c' ↔ (Alike c c' → SamePresence c request') := by
  unfold NoLeak
  rw [← alike_iff_stream c c' hlen hlen']
  constructor
  · intro h halike name hname hcore
    exact (sameForwarded_declared c c' halike hname).mp ((h halike).1 name hcore)
  · intro h halike
    refine ⟨fun name hcore => ?_, halike.1, halike.2.1⟩
    by_cases hname : name.bytes ∈ c.grpcMeta.varySet
    · exact (sameForwarded_declared c c' halike hname).mpr (h halike name hname hcore)
    · exact sameForwarded_undeclared c c' halike.2.2.1 hcore hname

def tenantName : HeaderName := ⟨ascii "x-tenant", by decide⟩

def missingTenant : HeaderMap := [(varyHeader, ⟨ascii "x-tenant", by decide⟩)]

def emptyTenant : HeaderMap := missingTenant ++ [(tenantName, ⟨[], by decide⟩)]

theorem noLeak_users :
    NoLeak (usersCall missingTenant [1]) (usersCall emptyTenant [1]) ↔
      (Alike (usersCall missingTenant [1]) (usersCall emptyTenant [1]) →
        SamePresence (usersCall missingTenant [1]) (usersRequest emptyTenant [1])) :=
  noLeak_iff _ _ (by decide) (by decide)

theorem emptyTenant_leaks :
    ¬ NoLeak (usersCall missingTenant [1]) (usersCall emptyTenant [1]) := by
  intro h
  have hstream : (usersCall missingTenant [1]).stream =
      (usersCall emptyTenant [1]).stream := by decide
  have hsame := (h hstream).1 tenantName (by decide)
  revert hsame
  unfold SameForwarded
  decide

end Grcache.Proxy
