import Grcache.Grpc.Hash
import Grcache.Grpc.Status
import Grcache.Store.Model

/-!
# The request path of the proxy

The callbacks pingora runs on a request before it looks into the cache:
`request_filter`, `request_cache_filter` and `cache_key_callback`. Spans and log
lines are left out.

Of a session the model keeps the request header, what reading the body to its
end gives, and the retry buffer. pingora hands out the retry buffer only when it
holds at least one byte and was not truncated.
-/

namespace Grcache.Proxy

open Base (Bytes BTreeSet Exec unwrap raise mapErr)
open Http Grpc Store
open Service (MethodSpec CacheSpec)

-- ---------------------------------------------------------------------------
-- Paths
-- ---------------------------------------------------------------------------

inductive PathError
  | utf8
  /-- "path must lead with /" -/
  | mustLeadWithSlash
  /-- "path must have exactly 2 elements for gRPC" -/
  | mustHaveTwoElements
  deriving DecidableEq, Repr

def parseGrpcPath (path : Bytes) : Exec PathError (String × String) :=
  match fromUtf8 path with
  | none => .error (.error .utf8)
  | some path =>
    let parts := path.toList.splitOn '/'
    if parts.head? ≠ some [] then .error (.error .mustLeadWithSlash)
    else
      -- each `parts.next()` takes the head
      let parts := parts.tail
      let service := parts.head?
      let parts := parts.tail
      let method := parts.head?
      let parts := parts.tail
      if method.isNone || parts.head?.isSome then .error (.error .mustHaveTwoElements)
      else do
        let service ← unwrap service
        let method ← unwrap method
        pure (String.ofList service, String.ofList method)

-- ---------------------------------------------------------------------------
-- Sessions
-- ---------------------------------------------------------------------------

structure RequestHeader where
  /-- The URI as it is displayed. -/
  uri : String
  rawPath : Bytes
  headers : HeaderMap
  deriving DecidableEq

structure Session where
  reqHeader : RequestHeader
  body : Except PingoraError Bytes
  retryBuffer : Option Bytes

def Session.getRetryBuffer (session : Session) : Option Bytes :=
  session.retryBuffer.filter (· ≠ [])

structure GrpcMeta where
  serviceData : ServiceData
  methodName : String
  varySet : BTreeSet Bytes

def GrpcMeta.methodSpec (grpcMeta : GrpcMeta) : Option MethodSpec :=
  grpcMeta.serviceData.serviceSpec.bind fun s => s.methods grpcMeta.methodName

structure RequestCtx where
  doCache : Bool
  grpcMeta : Option GrpcMeta

structure GrpcProxy where
  services : Services
  /-- Above this size pingora truncates the retry buffer. -/
  retryBufferLimit : Nat

-- ---------------------------------------------------------------------------
-- Request filter
-- ---------------------------------------------------------------------------

/-- A service is present only if it has a load balancer. -/
def GrpcProxy.lookupService (proxy : GrpcProxy) (serviceName : String) :
    Except PingoraError ServiceData :=
  match (proxy.services serviceName).filter (·.loadBalancer.isSome) with
  | some data => .ok data
  | none => .error ⟨.httpStatus 404, "unknown service"⟩

/-- The caching gate: the method has a cache spec with a positive ttl. -/
def GrpcMeta.cacheGate (grpcMeta : GrpcMeta) : Option CacheSpec :=
  (grpcMeta.methodSpec.bind (·.cacheSpec)).filter (0 < ·.descriptor.cacheTtl)

def GrpcProxy.readBody (proxy : GrpcProxy) (session : Session) : Except PingoraError Bytes :=
  match session.body with
  | .error e => .error e
  | .ok body =>
    if proxy.retryBufferLimit < body.length then
      .error ⟨.httpStatus 413, "request body size above buffer size for cache"⟩
    else .ok body

def GrpcProxy.requestFilter (proxy : GrpcProxy) (session : Session) :
    Exec PingoraError (Session × RequestCtx) := do
  let (serviceName, method) ← mapErr (fun _cause => ⟨.httpStatus 400, "invalid grpc http path"⟩)
    (parseGrpcPath session.reqHeader.rawPath)
  let serviceData ← raise (proxy.lookupService serviceName)
  let varySet ← raise (makeVaryHeadersSet session.reqHeader.headers)
  let grpcMeta : GrpcMeta := ⟨serviceData, method, varySet⟩
  match grpcMeta.cacheGate with
  | none => pure (session, ⟨false, some grpcMeta⟩)
  | some _cacheSpec =>
    let body ← raise (proxy.readBody session)
    -- the configured propagation headers are not wired up
    let strip := findStripHeaders session.reqHeader.headers varySet .empty
    let reqHeader := { session.reqHeader with
      headers := stripHeaders session.reqHeader.headers strip }
    pure ({ session with reqHeader, retryBuffer := some body }, ⟨true, some grpcMeta⟩)

def requestCacheFilter (ctx : RequestCtx) : Bool := ctx.doCache

-- ---------------------------------------------------------------------------
-- Cache keys
-- ---------------------------------------------------------------------------

structure CacheKey where
  ns : String
  primary : String
  primaryBinOverride : Option Bytes
  deriving DecidableEq, Repr

/-- `CacheKey::default`: the URI and nothing else. -/
def CacheKey.ofUri (header : RequestHeader) : CacheKey := ⟨"", header.uri, none⟩

/-- What the cache backends look an entry up by. -/
def CacheKey.primaryBin (blake2b128 : Bytes → Bytes) (key : CacheKey) : Bytes :=
  key.primaryBinOverride.getD (blake2b128 (key.ns.toUTF8.toList ++ key.primary.toUTF8.toList))

def cacheKeyCallback (blake2b128 : Bytes → Bytes) (session : Session) (ctx : RequestCtx) :
    Exec PingoraError CacheKey := do
  let grpcMeta ← unwrap ctx.grpcMeta
  let reqHeader := session.reqHeader
  let requestBody ← unwrap session.getRetryBuffer
  let keyHash := blake2b128 (hashVary grpcMeta.varySet reqHeader.headers ++
    hashBody reqHeader.rawPath requestBody)
  -- built from the hash, and not returned
  let _cacheKey : CacheKey :=
    { (⟨"", "", none⟩ : CacheKey) with primaryBinOverride := some keyHash }
  pure (CacheKey.ofUri reqHeader)

-- ---------------------------------------------------------------------------
-- What the filter lets through
-- ---------------------------------------------------------------------------

theorem parseGrpcPath_ne_nil (h : parseGrpcPath path = .ok p) : path ≠ [] := by
  rintro rfl
  revert h
  unfold parseGrpcPath
  have hempty : fromUtf8 [] = some "" := by decide
  simp [hempty]

-- A second element comes after a first one, so neither `unwrap` fails.
theorem parseGrpcPath_ne_panic (path : Bytes) : parseGrpcPath path ≠ .error .panic := by
  unfold parseGrpcPath
  split
  · simp
  next path _ =>
    generalize path.toList.splitOn '/' = parts
    simp only
    split
    · simp
    · rcases parts with _ | ⟨first, _ | ⟨service, _ | ⟨method, rest⟩⟩⟩
      · simp
      · simp
      · simp
      · cases rest <;> simp

theorem requestFilter_ne_panic (proxy : GrpcProxy) (session : Session) :
    proxy.requestFilter session ≠ .error .panic := by
  unfold GrpcProxy.requestFilter
  refine Base.bind_ne_panic (Base.mapErr_ne_panic (parseGrpcPath_ne_panic _)) ?_
  rintro ⟨serviceName, method⟩ -
  refine Base.bind_ne_panic Base.raise_ne_panic fun data _ => ?_
  refine Base.bind_ne_panic Base.raise_ne_panic fun varySet _ => ?_
  simp only
  split
  · simp
  · exact Base.bind_ne_panic Base.raise_ne_panic fun body _ => by simp

theorem lookupService_ok {proxy : GrpcProxy} (h : proxy.lookupService name = .ok data) :
    proxy.services name = some data ∧ data.loadBalancer.isSome = true := by
  unfold GrpcProxy.lookupService at h
  split at h
  next hf =>
    cases h
    exact Option.filter_eq_some_iff.mp hf
  next => cases h

theorem readBody_ok {proxy : GrpcProxy} (h : proxy.readBody session = .ok body) :
    session.body = .ok body := by
  unfold GrpcProxy.readBody at h
  split at h
  · cases h
  next hb =>
    split at h
    · cases h
    · cases h
      exact hb

/-- A request to a cached method that the filter let through, with what it
leaves for the later callbacks. -/
structure CachedCall (proxy : GrpcProxy) (request : Session) where
  session : Session
  grpcMeta : GrpcMeta
  body : Bytes
  filtered : proxy.requestFilter request = .ok (session, ⟨true, some grpcMeta⟩)
  buffered : session.retryBuffer = some body

theorem requestFilter_cases {proxy : GrpcProxy}
    (h : proxy.requestFilter request = .ok (session, ctx)) :
    ∃ name method data, parseGrpcPath request.reqHeader.rawPath = .ok (name, method) ∧
      proxy.lookupService name = .ok data ∧
      ∃ grpcMeta : GrpcMeta, ctx.grpcMeta = some grpcMeta ∧
        grpcMeta = ⟨data, method, .ofList (varyNames request.reqHeader.headers)⟩ ∧
        ((grpcMeta.cacheGate = none ∧ ctx.doCache = false ∧ session = request) ∨
          ∃ spec body, grpcMeta.cacheGate = some spec ∧ ctx.doCache = true ∧
            proxy.readBody request = .ok body ∧
            session = { request with
              reqHeader := { request.reqHeader with
                headers := stripHeaders request.reqHeader.headers
                  (findStripHeaders request.reqHeader.headers grpcMeta.varySet .empty) }
              retryBuffer := some body }) := by
  unfold GrpcProxy.requestFilter at h
  obtain ⟨⟨name, method⟩, hpath, h⟩ := Base.bind_eq_ok_iff.mp h
  obtain ⟨data, hdata, h⟩ := Base.bind_eq_ok_iff.mp h
  obtain ⟨varySet, hvary, h⟩ := Base.bind_eq_ok_iff.mp h
  rw [Base.mapErr_ok] at hpath
  rw [Base.raise_ok] at hdata hvary
  rw [makeVaryHeadersSet_eq] at hvary
  cases hvary
  refine ⟨name, method, data, hpath, hdata, ?_⟩
  simp only at h
  split at h
  next hgate =>
    cases h
    exact ⟨_, rfl, rfl, .inl ⟨hgate, rfl, rfl⟩⟩
  next spec hgate =>
    obtain ⟨body, hbody, h⟩ := Base.bind_eq_ok_iff.mp h
    rw [Base.raise_ok] at hbody
    cases h
    exact ⟨_, rfl, rfl, .inr ⟨spec, body, hgate, rfl, hbody, rfl⟩⟩

theorem requestFilter_unknown {proxy : GrpcProxy}
    (hpath : parseGrpcPath request.reqHeader.rawPath = .ok (name, method))
    (hlook : proxy.lookupService name = .error e) :
    proxy.requestFilter request = .error (.error e) := by
  unfold GrpcProxy.requestFilter
  simp only [hpath, hlook, mapErr, raise, Base.ok_bind, Base.error_bind]

theorem requestFilter_cached {proxy : GrpcProxy}
    (hpath : parseGrpcPath request.reqHeader.rawPath = .ok (name, method))
    (hlook : proxy.lookupService name = .ok data)
    (hgate : GrpcMeta.cacheGate ⟨data, method, .ofList (varyNames request.reqHeader.headers)⟩ =
      some spec)
    (hbody : proxy.readBody request = .ok body) :
    proxy.requestFilter request =
      .ok ({ request with
        reqHeader := { request.reqHeader with
          headers := stripHeaders request.reqHeader.headers (findStripHeaders
            request.reqHeader.headers (.ofList (varyNames request.reqHeader.headers)) .empty) }
        retryBuffer := some body },
        ⟨true, some ⟨data, method, .ofList (varyNames request.reqHeader.headers)⟩⟩) := by
  unfold GrpcProxy.requestFilter
  simp only [hpath, hlook, makeVaryHeadersSet_eq, hgate, hbody, mapErr, raise, Base.ok_bind,
    Base.pure_eq_ok]

section
variable {proxy : GrpcProxy} (c : CachedCall proxy request)

structure CachedCall.Spec : Prop where
  body : request.body = .ok c.body
  uri : c.session.reqHeader.uri = request.reqHeader.uri
  rawPath : c.session.reqHeader.rawPath = request.reqHeader.rawPath
  varySet : c.grpcMeta.varySet = .ofList (varyNames request.reqHeader.headers)
  headers : c.session.reqHeader.headers = stripHeaders request.reqHeader.headers
    (findStripHeaders request.reqHeader.headers c.grpcMeta.varySet .empty)

theorem CachedCall.spec : c.Spec := by
  obtain ⟨session, grpcMeta, body, hf, hbuf⟩ := c
  obtain ⟨_, _, _, -, -, grpcMeta', hmeta, heq, hcase⟩ := requestFilter_cases hf
  cases hmeta
  rcases hcase with ⟨-, hd, -⟩ | ⟨_, body', -, -, hbody, hs⟩
  · cases hd
  · subst hs
    cases hbuf
    exact ⟨readBody_ok hbody, rfl, rfl, congrArg GrpcMeta.varySet heq, rfl⟩

include c in
theorem CachedCall.rawPath_ne_nil : request.reqHeader.rawPath ≠ [] := by
  obtain ⟨_, _, _, hpath, -⟩ := requestFilter_cases c.filtered
  exact parseGrpcPath_ne_nil hpath

theorem CachedCall.cacheGate_isSome : ∃ spec, c.grpcMeta.cacheGate = some spec := by
  obtain ⟨_, _, _, -, -, grpcMeta, hmeta, -, hcase⟩ := requestFilter_cases c.filtered
  cases hmeta
  rcases hcase with ⟨-, hd, -⟩ | ⟨spec, _, hgate, -⟩
  · cases hd
  · exact ⟨spec, hgate⟩

theorem CachedCall.varySet_no_nul (hn : n ∈ c.grpcMeta.varySet) : (0 : UInt8) ∉ n := by
  rw [c.spec.varySet, BTreeSet.mem_ofList] at hn
  exact varyNames_no_nul hn

end

end Grcache.Proxy
