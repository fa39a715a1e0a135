import Grcache.Proxy.Freshness

/-!
# A request through the callbacks

pingora runs the callbacks of a request in a fixed order and stops at the first
error; the service map may change between any two of them. The later callbacks
unwrap what `request_filter` is to have left: the snapshot of the service, the
method with its cache spec, the load balancer, and the retry buffer. The last of
these is there only if the body has a byte.
-/

namespace Grcache.Proxy

open Base (Bytes Exec unwrap)
open Grpc Store

-- ---------------------------------------------------------------------------
-- Choosing an upstream
-- ---------------------------------------------------------------------------

inductive SocketAddr
  | inet (ip : UInt32) (port : UInt16)
  | unix (path : String)
  deriving DecidableEq, Repr

def SocketAddr.asInet : SocketAddr → Option (UInt32 × UInt16)
  | .inet ip port => some (ip, port)
  | .unix _ => none

/-- What the round robin balancer of a handle answers. Discovery puts in inet
addresses only. -/
structure RoundRobin where
  select : BackendsHandle → Option SocketAddr
  inet : select handle = some addr → addr.asInet.isSome = true

inductive ALPN
  | h2
  deriving DecidableEq, Repr

structure HttpPeer where
  addr : UInt32 × UInt16
  tls : Bool
  sni : String
  alpn : ALPN
  deriving DecidableEq, Repr

def upstreamPeer (balancer : RoundRobin) (ctx : RequestCtx) : Exec PingoraError HttpPeer := do
  let grpcMeta ← unwrap ctx.grpcMeta
  let loadBalancer ← unwrap grpcMeta.serviceData.loadBalancer
  match balancer.select loadBalancer with
  | some addr =>
    let inet ← unwrap addr.asInet
    pure ⟨inet, false, "", .h2⟩
  | none => .error (.error ⟨.httpStatus 502, "no upstream available"⟩)

-- ---------------------------------------------------------------------------
-- The order of the callbacks
-- ---------------------------------------------------------------------------

/-- The callback that runs next, with what the ones before have left, or how the
request ended. -/
inductive Stage
  | requestFilter
  | requestCacheFilter (session : Session) (ctx : RequestCtx)
  | cacheKeyCallback (session : Session) (ctx : RequestCtx)
  | cacheHitFilter (entry : CacheMeta) (ctx : RequestCtx)
  | upstreamPeer (ctx : RequestCtx)
  | served (entry : CacheMeta)
  | proxied (peer : HttpPeer)
  | failed (error : PingoraError)
  | panicked

def Stage.next (result : Exec PingoraError α) (next : α → Stage) : Stage :=
  match result with
  | .ok a => next a
  | .error (.error e) => .failed e
  | .error .panic => .panicked

/-- What a callback meets outside: the time, the entry that the storage has for
a key, and the balancers. -/
structure Outside where
  now : Nat
  found : CacheKey → Option CacheMeta
  balancer : RoundRobin

structure Handling where
  proxy : GrpcProxy
  stage : Stage

inductive HandlingAction
  | update (serviceName : String) (data : Option ServiceData)
  | callback (outside : Outside)

section
variable (blake2b128 : Bytes → Bytes) (request : Session)

def Handling.callback (h : Handling) (outside : Outside) : Stage :=
  match h.stage with
  | .requestFilter => .next (h.proxy.requestFilter request) fun (session, ctx) =>
      .requestCacheFilter session ctx
  | .requestCacheFilter session ctx =>
    if requestCacheFilter ctx then .cacheKeyCallback session ctx else .upstreamPeer ctx
  | .cacheKeyCallback session ctx => .next (cacheKeyCallback blake2b128 session ctx) fun key =>
      match outside.found key with
      | some entry => .cacheHitFilter entry ctx
      | none => .upstreamPeer ctx
  | .cacheHitFilter entry ctx => .next (cacheHitFilter outside.now entry ctx) fun forceExpired =>
      if !forceExpired && entry.isFresh outside.now then .served entry else .upstreamPeer ctx
  | .upstreamPeer ctx => .next (Proxy.upstreamPeer outside.balancer ctx) .proxied
  | stage => stage

def Handling.step (h : Handling) : HandlingAction → Handling
  | .update serviceName data =>
    { h with proxy := { h.proxy with
        services := Function.update h.proxy.services serviceName data } }
  | .callback outside => { h with stage := h.callback blake2b128 request outside }

end

def GrpcProxy.handle (proxy : GrpcProxy) : Handling := ⟨proxy, .requestFilter⟩

/-- `cache_key_callback` runs only on a request with a body. -/
def KeyedWithBody (request : Session) (h : Handling) : HandlingAction → Prop
  | .callback _ => ∀ session ctx, h.stage = .cacheKeyCallback session ctx → request.body ≠ .ok []
  | .update _ _ => True

-- ---------------------------------------------------------------------------
-- What the callbacks rely on
-- ---------------------------------------------------------------------------

variable {request : Session}

structure Prepared (ctx : RequestCtx) (grpcMeta : GrpcMeta) : Prop where
  snapshot : ctx.grpcMeta = some grpcMeta
  loadBalancer : grpcMeta.serviceData.loadBalancer.isSome = true
  gate : ctx.doCache = true → grpcMeta.cacheGate.isSome = true

def Buffered (request session : Session) : Prop :=
  ∃ body, request.body = .ok body ∧ session.retryBuffer = some body

theorem requestFilter_prepared {proxy : GrpcProxy}
    (h : proxy.requestFilter request = .ok (session, ctx)) :
    (∃ grpcMeta, Prepared ctx grpcMeta) ∧ (ctx.doCache = true → Buffered request session) := by
  obtain ⟨name, method, data, -, hlook, grpcMeta, hmeta, rfl, hcase⟩ := requestFilter_cases h
  obtain ⟨-, hlb⟩ := lookupService_ok hlook
  rcases hcase with ⟨-, hd, -⟩ | ⟨spec, body, hgate, hd, hbody, rfl⟩
  · refine ⟨⟨_, hmeta, hlb, ?_⟩, ?_⟩
    · simp [hd]
    · simp [hd]
  · exact ⟨⟨_, hmeta, hlb, fun _ => by rw [hgate]; rfl⟩, fun _ => ⟨body, readBody_ok hbody, rfl⟩⟩

theorem cacheHitFilter_ne_panic (hp : Prepared ctx grpcMeta) (hc : ctx.doCache = true) :
    cacheHitFilter now entry ctx ≠ .error .panic := by
  obtain ⟨spec, hgate⟩ := Option.isSome_iff_exists.mp (hp.gate hc)
  obtain ⟨hspec, -⟩ := Option.filter_eq_some_iff.mp hgate
  obtain ⟨methodSpec, hm, hcache⟩ := Option.bind_eq_some_iff.mp hspec
  simp [cacheHitFilter, hp.snapshot, hm, hcache]

theorem upstreamPeer_ne_panic (hp : Prepared ctx grpcMeta) :
    upstreamPeer balancer ctx ≠ .error .panic := by
  obtain ⟨loadBalancer, hlb⟩ := Option.isSome_iff_exists.mp hp.loadBalancer
  unfold upstreamPeer
  simp only [hp.snapshot, hlb, Base.unwrap_some, Base.ok_bind]
  split
  next addr haddr =>
    obtain ⟨inet, hinet⟩ := Option.isSome_iff_exists.mp (balancer.inet haddr)
    simp [hinet]
  next => simp

/-- The one unwrap that depends on the client. -/
theorem cacheKeyCallback_panic_iff (blake2b128 : Bytes → Bytes) (hp : Prepared ctx grpcMeta)
    (hb : Buffered request session) :
    cacheKeyCallback blake2b128 session ctx = .error .panic ↔ request.body = .ok [] := by
  obtain ⟨body, hbody, hbuffer⟩ := hb
  unfold cacheKeyCallback
  simp only [hp.snapshot, Session.getRetryBuffer, hbuffer, hbody, Base.unwrap_some, Base.ok_bind,
    Option.filter_some]
  by_cases hempty : body = []
  · simp [hempty, Base.unwrap]
  · simp [hempty]

def StageOk (request : Session) : Stage → Prop
  | .requestCacheFilter session ctx =>
    (∃ grpcMeta, Prepared ctx grpcMeta) ∧ (ctx.doCache = true → Buffered request session)
  | .cacheKeyCallback session ctx =>
    (∃ grpcMeta, Prepared ctx grpcMeta) ∧ ctx.doCache = true ∧ Buffered request session
  | .cacheHitFilter _ ctx => (∃ grpcMeta, Prepared ctx grpcMeta) ∧ ctx.doCache = true
  | .upstreamPeer ctx => ∃ grpcMeta, Prepared ctx grpcMeta
  | .panicked => False
  | _ => True

theorem StageOk.next {result : Exec PingoraError α} {k : α → Stage} (hr : result ≠ .error .panic)
    (hk : ∀ a, result = .ok a → StageOk request (k a)) : StageOk request (.next result k) := by
  unfold Stage.next
  split
  · exact hk _ rfl
  · trivial
  · exact absurd rfl hr

theorem StageOk.callback {h : Handling} (hok : StageOk request h.stage)
    (hbody : ∀ session ctx, h.stage = .cacheKeyCallback session ctx → request.body ≠ .ok []) :
    StageOk request (h.callback blake2b128 request outside) := by
  obtain ⟨proxy, stage⟩ := h
  unfold Handling.callback
  cases stage with
  | requestFilter =>
    refine .next (requestFilter_ne_panic proxy request) ?_
    rintro ⟨session, ctx⟩ hf
    exact requestFilter_prepared hf
  | requestCacheFilter session ctx =>
    obtain ⟨hp, hb⟩ := hok
    simp only
    by_cases hc : Proxy.requestCacheFilter ctx = true
    · rw [if_pos hc]
      exact ⟨hp, hc, hb hc⟩
    · rw [if_neg hc]
      exact hp
  | cacheKeyCallback session ctx =>
    obtain ⟨⟨grpcMeta, hp⟩, hc, hb⟩ := hok
    refine .next (fun hpanic => ?_) fun key _ => ?_
    · exact hbody session ctx rfl ((cacheKeyCallback_panic_iff _ hp hb).mp hpanic)
    · cases outside.found key with
      | some entry => exact ⟨⟨grpcMeta, hp⟩, hc⟩
      | none => exact ⟨grpcMeta, hp⟩
  | cacheHitFilter entry ctx =>
    obtain ⟨⟨grpcMeta, hp⟩, hc⟩ := hok
    refine .next (cacheHitFilter_ne_panic hp hc) fun forceExpired _ => ?_
    cases !forceExpired && entry.isFresh outside.now with
    | true => trivial
    | false => exact ⟨grpcMeta, hp⟩
  | upstreamPeer ctx =>
    obtain ⟨grpcMeta, hp⟩ := hok
    exact .next (upstreamPeer_ne_panic hp) fun _ _ => trivial
  | served entry => trivial
  | proxied peer => trivial
  | failed error => trivial
  | panicked => exact hok

/-- Whatever updates of the service map come between the callbacks of a request,
none of them panics exactly when `cache_key_callback` does not run on an empty
body. -/
theorem callbacks_never_panic_iff (blake2b128 : Bytes → Bytes) (proxy : GrpcProxy)
    (request : Session) (as : List HandlingAction) :
    Base.Throughout (Handling.step blake2b128 request) (fun h => h.stage ≠ .panicked)
        proxy.handle as ↔
      Base.Always (Handling.step blake2b128 request) (KeyedWithBody request) proxy.handle as := by
  have hstart : StageOk request proxy.handle.stage := trivial
  refine Base.throughout_iff_always (I := fun h => StageOk request h.stage) hstart ?_ ?_ ?_
  · intro h a hok hbody
    cases a with
    | update serviceName data => exact hok
    | callback outside => exact hok.callback hbody
  · intro h hok hpanic
    rw [hpanic] at hok
    exact hok
  · intro h a hok hbody
    cases a with
    | update serviceName data => exact absurd trivial hbody
    | callback outside =>
      simp only [KeyedWithBody, not_forall, not_not] at hbody
      obtain ⟨session, ctx, hstage, hempty⟩ := hbody
      rw [hstage] at hok
      obtain ⟨⟨grpcMeta, hp⟩, -, hb⟩ := hok
      have hpanic := (cacheKeyCallback_panic_iff blake2b128 hp hb).mpr hempty
      rw [not_not]
      simp only [Handling.step, Handling.callback, hstage, hpanic, Stage.next]

def outside : Outside := ⟨0, fun _ => none, ⟨fun _ => none, nofun⟩⟩

/-- An empty body to a cached method. -/
theorem emptyBody_panics : ¬ Base.Throughout (Handling.step id (usersRequest [] []))
    (fun h => h.stage ≠ .panicked) usersProxy.handle
    [.callback outside, .callback outside, .callback outside] := by
  intro h
  refine h _ List.prefix_rfl ?_
  have hf := (usersCall [] []).filtered
  have hb : (usersCall [] []).session.retryBuffer = some [] := rfl
  simp [GrpcProxy.handle, Handling.step, Handling.callback, Stage.next, hf, requestCacheFilter,
    cacheKeyCallback, Session.getRetryBuffer, hb, Option.filter_some, Base.unwrap]

end Grcache.Proxy
