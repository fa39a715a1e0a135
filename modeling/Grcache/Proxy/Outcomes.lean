import Grcache.Proxy.Callbacks

/-!
# How a request ends

The service map is read once, when `request_filter` runs; the later callbacks
work on the snapshot it took. So the end of a request is decided by one entry of
the map at one moment and by what the callbacks meet outside, and there are
thirteen stages it can have come to.
-/

namespace Grcache.Proxy

open Base (Bytes Exec)
open Grpc Store

variable {proxy : GrpcProxy} {request : Session}

-- ---------------------------------------------------------------------------
-- One snapshot
-- ---------------------------------------------------------------------------

/-- The proxy as the first callback of a run finds it. -/
def GrpcProxy.atFilter (proxy : GrpcProxy) : List HandlingAction → GrpcProxy
  | .update serviceName data :: as => GrpcProxy.atFilter { proxy with
      services := Function.update proxy.services serviceName data } as
  | _ => proxy

def callbacksOf (as : List HandlingAction) : List Outside :=
  as.filterMap fun a =>
    match a with
    | .callback outside => some outside
    | .update _ _ => none

def GrpcProxy.respond (blake2b128 : Bytes → Bytes) (proxy : GrpcProxy) (request : Session)
    (outsides : List Outside) : Stage :=
  Base.run (fun stage => Handling.callback blake2b128 request ⟨proxy, stage⟩) .requestFilter
    outsides

theorem next_ne_requestFilter {result : Exec PingoraError α} {k : α → Stage}
    (hk : ∀ a, k a ≠ .requestFilter) : Stage.next result k ≠ .requestFilter := by
  unfold Stage.next
  split
  · exact hk _
  · nofun
  · nofun

theorem callback_ne_requestFilter (blake2b128 : Bytes → Bytes) (request : Session)
    (h : Handling) (outside : Outside) :
    h.callback blake2b128 request outside ≠ .requestFilter := by
  obtain ⟨proxy, stage⟩ := h
  unfold Handling.callback
  cases stage with
  | requestFilter => exact next_ne_requestFilter nofun
  | requestCacheFilter session ctx =>
    simp only
    split <;> nofun
  | cacheKeyCallback session ctx =>
    refine next_ne_requestFilter fun key => ?_
    split <;> nofun
  | cacheHitFilter entry ctx =>
    refine next_ne_requestFilter fun forceExpired => ?_
    split <;> nofun
  | upstreamPeer ctx => exact next_ne_requestFilter nofun
  | _ => nofun

-- Only `request_filter` reads the map.
theorem callback_proxy (proxy' : GrpcProxy) (outside : Outside) (hs : stage ≠ .requestFilter) :
    Handling.callback blake2b128 request ⟨proxy, stage⟩ outside =
      Handling.callback blake2b128 request ⟨proxy', stage⟩ outside := by
  cases stage with
  | requestFilter => exact absurd rfl hs
  | _ => rfl

theorem run_past_filter (blake2b128 : Bytes → Bytes) (proxy' : GrpcProxy)
    (as : List HandlingAction) (hs : stage ≠ .requestFilter) :
    (Base.run (Handling.step blake2b128 request) ⟨proxy, stage⟩ as).stage =
      Base.run (fun stage => Handling.callback blake2b128 request ⟨proxy', stage⟩) stage
        (callbacksOf as) := by
  induction as generalizing proxy stage with
  | nil => rfl
  | cons a as ih =>
    cases a with
    | update serviceName data => exact ih hs
    | callback outside =>
      have hstage := callback_ne_requestFilter blake2b128 request ⟨proxy, stage⟩ outside
      rw [Base.run_cons, Handling.step, ih hstage]
      simp only [callbacksOf, List.filterMap_cons, Base.run_cons]
      rw [callback_proxy proxy' outside hs]

/-- A request fares as if the map had stood still since `request_filter`. -/
theorem run_respond (blake2b128 : Bytes → Bytes) (proxy : GrpcProxy) (request : Session)
    (as : List HandlingAction) :
    (Base.run (Handling.step blake2b128 request) proxy.handle as).stage =
      (proxy.atFilter as).respond blake2b128 request (callbacksOf as) := by
  induction as generalizing proxy with
  | nil => rfl
  | cons a as ih =>
    cases a with
    | update serviceName data => exact ih _
    | callback outside =>
      exact run_past_filter blake2b128 proxy as (callback_ne_requestFilter blake2b128 _ _ outside)

def SameEntry (request : Session) (proxy proxy' : GrpcProxy) : Prop :=
  proxy.retryBufferLimit = proxy'.retryBufferLimit ∧
    ∀ name method, parseGrpcPath request.reqHeader.rawPath = .ok (name, method) →
      proxy.services name = proxy'.services name

theorem requestFilter_entry {proxy' : GrpcProxy} (h : SameEntry request proxy proxy') :
    proxy.requestFilter request = proxy'.requestFilter request := by
  obtain ⟨hlimit, hentry⟩ := h
  unfold GrpcProxy.requestFilter
  cases hpath : parseGrpcPath request.reqHeader.rawPath with
  | error e => cases e <;> rfl
  | ok p =>
    obtain ⟨name, method⟩ := p
    have hlook : proxy.lookupService name = proxy'.lookupService name := by
      unfold GrpcProxy.lookupService
      rw [hentry name method hpath]
    have hread : proxy.readBody request = proxy'.readBody request := by
      unfold GrpcProxy.readBody
      rw [hlimit]
    simp only [Base.mapErr, Base.ok_bind, hlook, hread]

theorem respond_entry {proxy' : GrpcProxy} (h : SameEntry request proxy proxy')
    (outsides : List Outside) :
    proxy.respond blake2b128 request outsides = proxy'.respond blake2b128 request outsides := by
  have hcallback : ∀ stage, Handling.callback blake2b128 request ⟨proxy, stage⟩ =
      Handling.callback blake2b128 request ⟨proxy', stage⟩ := by
    intro stage
    funext outside
    by_cases hs : stage = .requestFilter
    · subst hs
      simp only [Handling.callback, requestFilter_entry h]
    · exact callback_proxy proxy' outside hs
  unfold GrpcProxy.respond
  simp only [hcallback]

/-- The end of a request depends on one entry of the service map, as it is when
`request_filter` runs: two runs in which the callbacks meet the same, and that
agree on this entry, go alike, whatever other updates come before, between and
after the callbacks. -/
theorem handling_reads_one_entry (blake2b128 : Bytes → Bytes) (proxy proxy' : GrpcProxy)
    (request : Session) (as as' : List HandlingAction) (hout : callbacksOf as = callbacksOf as')
    (hentry : SameEntry request (proxy.atFilter as) (proxy'.atFilter as')) :
    (Base.run (Handling.step blake2b128 request) proxy.handle as).stage =
      (Base.run (Handling.step blake2b128 request) proxy'.handle as').stage := by
  rw [run_respond, run_respond, ← hout]
  exact respond_entry hentry _

-- The service is withdrawn, and another one added, while the request is on its way.
theorem users_reads_one_entry :
    (Base.run (Handling.step id (usersRequest [] [1])) usersProxy.handle
      [.callback outside, .update "example.Users" none, .callback outside]).stage =
    (Base.run (Handling.step id (usersRequest [] [1])) usersProxy.handle
      [.update "example.People" none, .callback outside, .callback outside]).stage := by
  refine handling_reads_one_entry id usersProxy usersProxy _ _ _ rfl ⟨rfl, ?_⟩
  intro name method hpath
  rw [usersRequest_path] at hpath
  cases hpath
  simp [GrpcProxy.atFilter]

-- ---------------------------------------------------------------------------
-- Outcomes
-- ---------------------------------------------------------------------------

structure Admitted (proxy : GrpcProxy) (request : Session) (grpcMeta : GrpcMeta)
    (loadBalancer : BackendsHandle) : Prop where
  path : ∃ name, parseGrpcPath request.reqHeader.rawPath = .ok (name, grpcMeta.methodName) ∧
    proxy.services name = some grpcMeta.serviceData
  balancer : grpcMeta.serviceData.loadBalancer = some loadBalancer

/-- How a request can stand that was handled on this map and met these things
outside. -/
inductive Outcome (proxy : GrpcProxy) (request : Session) (outsides : List Outside) :
    Stage → Prop
  | waiting : Outcome proxy request outsides .requestFilter
  | filtered (h : proxy.requestFilter request = .ok (session, ctx)) :
      Outcome proxy request outsides (.requestCacheFilter session ctx)
  | keyed (h : proxy.requestFilter request = .ok (session, ctx)) (hc : ctx.doCache = true) :
      Outcome proxy request outsides (.cacheKeyCallback session ctx)
  | found (h : proxy.requestFilter request = .ok (session, ctx)) (hc : ctx.doCache = true)
      (hstored : ∃ outside ∈ outsides, outside.found (.ofUri request.reqHeader) = some entry) :
      Outcome proxy request outsides (.cacheHitFilter entry ctx)
  | connecting (h : proxy.requestFilter request = .ok (session, ctx)) :
      Outcome proxy request outsides (.upstreamPeer ctx)
  | badPath (h : ∀ p, parseGrpcPath request.reqHeader.rawPath ≠ .ok p) :
      Outcome proxy request outsides (.failed ⟨.httpStatus 400, "invalid grpc http path"⟩)
  | unknown (hpath : parseGrpcPath request.reqHeader.rawPath = .ok (name, method))
      (h : ∀ data, proxy.services name = some data → data.loadBalancer = none) :
      Outcome proxy request outsides (.failed ⟨.httpStatus 404, "unknown service"⟩)
  | badBody (ha : Admitted proxy request grpcMeta lb) (hgate : grpcMeta.cacheGate = some spec)
      (h : request.body = .error e) : Outcome proxy request outsides (.failed e)
  | tooLarge (ha : Admitted proxy request grpcMeta lb) (hgate : grpcMeta.cacheGate = some spec)
      (hbody : request.body = .ok body) (h : proxy.retryBufferLimit < body.length) :
      Outcome proxy request outsides
        (.failed ⟨.httpStatus 413, "request body size above buffer size for cache"⟩)
  | emptyBody (ha : Admitted proxy request grpcMeta lb) (hgate : grpcMeta.cacheGate = some spec)
      (h : request.body = .ok []) : Outcome proxy request outsides .panicked
  | served (ha : Admitted proxy request grpcMeta lb) (hgate : grpcMeta.cacheGate = some spec)
      (hstored : ∃ outside ∈ outsides, outside.found (.ofUri request.reqHeader) = some entry)
      (hfresh : ∃ outside ∈ outsides, outside.now < entry.freshUntil ∧
        ¬ Int64.ofNat (entry.ageSec outside.now) < spec.descriptor.cacheTtl.toInt64) :
      Outcome proxy request outsides (.served entry)
  | proxied (ha : Admitted proxy request grpcMeta lb)
      (hselected : ∃ outside ∈ outsides, (outside.balancer.select lb).bind SocketAddr.asInet =
        some inet) : Outcome proxy request outsides (.proxied ⟨inet, false, "", .h2⟩)
  | noUpstream (ha : Admitted proxy request grpcMeta lb)
      (hselected : ∃ outside ∈ outsides, outside.balancer.select lb = none) :
      Outcome proxy request outsides (.failed ⟨.httpStatus 502, "no upstream available"⟩)

variable {outside : Outside} {outsides : List Outside}

theorem requestFilter_admitted (h : proxy.requestFilter request = .ok (session, ctx)) :
    ∃ grpcMeta lb, ctx.grpcMeta = some grpcMeta ∧ Admitted proxy request grpcMeta lb ∧
      (ctx.doCache = true → ∃ spec body, grpcMeta.cacheGate = some spec ∧
        request.body = .ok body ∧ session.retryBuffer = some body ∧
        session.reqHeader.uri = request.reqHeader.uri) := by
  obtain ⟨name, method, data, hpath, hlook, grpcMeta, hmeta, rfl, hcase⟩ := requestFilter_cases h
  obtain ⟨hdata, hlb⟩ := lookupService_ok hlook
  obtain ⟨lb, hlb⟩ := Option.isSome_iff_exists.mp hlb
  refine ⟨_, lb, hmeta, ⟨⟨name, hpath, hdata⟩, hlb⟩, fun hc => ?_⟩
  rcases hcase with ⟨-, hd, -⟩ | ⟨spec, body, hgate, -, hbody, rfl⟩
  · rw [hd] at hc
    cases hc
  · exact ⟨spec, body, hgate, readBody_ok hbody, rfl, rfl⟩

theorem lookupService_error (h : proxy.lookupService name = .error e) :
    e = ⟨.httpStatus 404, "unknown service"⟩ ∧
      ∀ data, proxy.services name = some data → data.loadBalancer = none := by
  unfold GrpcProxy.lookupService at h
  split at h
  · cases h
  next hnone =>
    cases h
    refine ⟨rfl, fun data hdata => ?_⟩
    rw [hdata] at hnone
    simpa [Option.filter_eq_none_iff] using hnone

theorem readBody_error (h : proxy.readBody request = .error e) :
    request.body = .error e ∨
      ∃ body, request.body = .ok body ∧ proxy.retryBufferLimit < body.length ∧
        e = ⟨.httpStatus 413, "request body size above buffer size for cache"⟩ := by
  unfold GrpcProxy.readBody at h
  split at h
  next hbody =>
    cases h
    exact .inl hbody
  next body hbody =>
    split at h
    next hlarge =>
      cases h
      exact .inr ⟨body, hbody, hlarge, rfl⟩
    next => cases h

theorem requestFilter_error (h : proxy.requestFilter request = .error (.error e)) :
    Outcome proxy request outsides (.failed e) := by
  unfold GrpcProxy.requestFilter at h
  cases hpath : parseGrpcPath request.reqHeader.rawPath with
  | error err =>
    have hbad : Outcome proxy request outsides
        (.failed ⟨.httpStatus 400, "invalid grpc http path"⟩) := .badPath (by simp [hpath])
    cases err with
    | panic => exact absurd hpath (parseGrpcPath_ne_panic _)
    | error err =>
      simp only [hpath, Base.mapErr, Base.error_bind, Except.error.injEq,
        Base.Fault.error.injEq] at h
      exact h ▸ hbad
  | ok p =>
    obtain ⟨name, method⟩ := p
    simp only [hpath, Base.mapErr, Base.ok_bind, makeVaryHeadersSet_eq] at h
    cases hlook : proxy.lookupService name with
    | error e' =>
      obtain ⟨rfl, hnone⟩ := lookupService_error hlook
      simp only [hlook, Base.raise, Base.error_bind, Except.error.injEq,
        Base.Fault.error.injEq] at h
      exact h ▸ .unknown hpath hnone
    | ok data =>
      obtain ⟨hdata, hlb⟩ := lookupService_ok hlook
      obtain ⟨lb, hlb⟩ := Option.isSome_iff_exists.mp hlb
      simp only [hlook, Base.raise, Base.ok_bind] at h
      split at h
      · cases h
      next spec hgate =>
        have ha : Admitted proxy request
            ⟨data, method, .ofList (varyNames request.reqHeader.headers)⟩ lb :=
          ⟨⟨name, hpath, hdata⟩, hlb⟩
        cases hbody : proxy.readBody request with
        | ok body => simp [hbody] at h
        | error e' =>
          simp only [hbody, Base.error_bind, Except.error.injEq, Base.Fault.error.injEq] at h
          subst h
          rcases readBody_error hbody with hfail | ⟨body, hread, hlarge, rfl⟩
          · exact .badBody ha hgate hfail
          · exact .tooLarge ha hgate hread hlarge

theorem Outcome.upstreamPeer (h : proxy.requestFilter request = .ok (session, ctx))
    (hmem : outside ∈ outsides) :
    Outcome proxy request outsides (.next (Proxy.upstreamPeer outside.balancer ctx) .proxied) := by
  obtain ⟨grpcMeta, lb, hmeta, ha, -⟩ := requestFilter_admitted h
  unfold Proxy.upstreamPeer
  simp only [hmeta, ha.balancer, Base.unwrap_some, Base.ok_bind]
  cases hselect : outside.balancer.select lb with
  | none => exact .noUpstream ha ⟨outside, hmem, hselect⟩
  | some addr =>
    obtain ⟨inet, hinet⟩ := Option.isSome_iff_exists.mp (outside.balancer.inet hselect)
    simp only [hinet, Base.unwrap_some, Base.ok_bind, Base.pure_eq_ok, Stage.next]
    exact .proxied ha ⟨outside, hmem, by rw [hselect, Option.bind_some, hinet]⟩

theorem Outcome.cacheKeyCallback (h : proxy.requestFilter request = .ok (session, ctx))
    (hc : ctx.doCache = true) (hmem : outside ∈ outsides) :
    Outcome proxy request outsides
      (Handling.callback blake2b128 request ⟨proxy, .cacheKeyCallback session ctx⟩ outside) := by
  obtain ⟨grpcMeta, lb, hmeta, ha, hcached⟩ := requestFilter_admitted h
  obtain ⟨spec, body, hgate, hbody, hbuffer, huri⟩ := hcached hc
  have hkey : CacheKey.ofUri session.reqHeader = .ofUri request.reqHeader := by
    simp [CacheKey.ofUri, huri]
  simp only [Handling.callback, Proxy.cacheKeyCallback, hmeta, Session.getRetryBuffer, hbuffer,
    Base.unwrap_some, Base.ok_bind, Option.filter_some]
  by_cases hempty : body = []
  · subst hempty
    exact .emptyBody ha hgate hbody
  · simp only [hempty, ne_eq, not_false_eq_true, decide_true, ↓reduceIte, Base.unwrap_some,
      Base.ok_bind, Base.pure_eq_ok, Stage.next, hkey]
    cases hfound : outside.found (.ofUri request.reqHeader) with
    | none => exact .connecting h
    | some entry => exact .found h hc ⟨outside, hmem, hfound⟩

theorem Outcome.cacheHitFilter (h : proxy.requestFilter request = .ok (session, ctx))
    (hc : ctx.doCache = true)
    (hstored : ∃ outside ∈ outsides, outside.found (.ofUri request.reqHeader) = some entry)
    (hmem : outside ∈ outsides) :
    Outcome proxy request outsides
      (Handling.callback blake2b128 request ⟨proxy, .cacheHitFilter entry ctx⟩ outside) := by
  obtain ⟨grpcMeta, lb, hmeta, ha, hcached⟩ := requestFilter_admitted h
  obtain ⟨spec, body, hgate, -, -, -⟩ := hcached hc
  obtain ⟨hspec, -⟩ := Option.filter_eq_some_iff.mp hgate
  obtain ⟨methodSpec, hm, hcache⟩ := Option.bind_eq_some_iff.mp hspec
  simp only [Handling.callback, Proxy.cacheHitFilter, hmeta, hm, hcache, Base.unwrap_some,
    Base.ok_bind, Base.pure_eq_ok, Stage.next]
  split
  next hhit =>
    simp only [CacheMeta.isFresh, Bool.and_eq_true, Bool.not_eq_true', decide_eq_false_iff_not,
      decide_eq_true_eq] at hhit
    exact .served ha hgate hstored ⟨outside, hmem, hhit.2, hhit.1⟩
  next => exact .connecting h

theorem Outcome.callback (h : Outcome proxy request outsides stage) (hmem : outside ∈ outsides) :
    Outcome proxy request outsides
      (Handling.callback blake2b128 request ⟨proxy, stage⟩ outside) := by
  cases h with
  | waiting =>
    simp only [Handling.callback]
    cases hf : proxy.requestFilter request with
    | ok p => exact .filtered hf
    | error e =>
      cases e with
      | panic => exact absurd hf (requestFilter_ne_panic proxy request)
      | error e => exact requestFilter_error hf
  | filtered hf =>
    simp only [Handling.callback]
    split
    next hc => exact .keyed hf hc
    next => exact .connecting hf
  | keyed hf hc => exact .cacheKeyCallback hf hc hmem
  | found hf hc hstored => exact .cacheHitFilter hf hc hstored hmem
  | connecting hf => exact .upstreamPeer hf hmem
  | badPath hbad => exact .badPath hbad
  | unknown hpath hnone => exact .unknown hpath hnone
  | badBody ha hgate hbody => exact .badBody ha hgate hbody
  | tooLarge ha hgate hbody hlarge => exact .tooLarge ha hgate hbody hlarge
  | emptyBody ha hgate hbody => exact .emptyBody ha hgate hbody
  | served ha hgate hstored hfresh => exact .served ha hgate hstored hfresh
  | proxied ha hselected => exact .proxied ha hselected
  | noUpstream ha hselected => exact .noUpstream ha hselected

/-- However the updates of the map and the callbacks interleave, a request
stands and ends as the map that `request_filter` saw allows: every error has its
cause there or in the request, a request is proxied to an address of the
balancer of its service, and an entry is served only to a cached method. -/
theorem requests_end_as_allowed (blake2b128 : Bytes → Bytes) (proxy : GrpcProxy)
    (request : Session) (as : List HandlingAction) :
    Outcome (proxy.atFilter as) request (callbacksOf as)
      (Base.run (Handling.step blake2b128 request) proxy.handle as).stage := by
  rw [run_respond]
  exact Base.run_invariant (C := fun _ outside => outside ∈ callbacksOf as) .waiting
    (fun _ _ h hmem => h.callback hmem)
    fun _ _ hp => hp.subset (List.mem_append_right _ List.mem_cons_self)

end Grcache.Proxy
