import Grcache.Proxy.CacheKey

/-!
# Caching is opt-in

A request is cached exactly when the method it names opted in: the descriptor of
the service gives the method a positive `cache_ttl`. A negative one is reported
when the service is built and costs that method its caching, and no other.
-/

namespace Grcache.Proxy

open Http Grpc Store
open Service

inductive Built (linker : Linker) (descriptorSet : FileDescriptorSet)
    (service : QualifiedService) : ServiceSpec → Prop
  | passthrough : Built linker descriptorSet service (.buildPassthrough service)
  | build : ServiceSpec.build linker descriptorSet service = .ok (spec, errors) →
      Built linker descriptorSet service spec

/-- The declaration of the method asks for caching. -/
def OptedIn (descriptorSet : FileDescriptorSet) (service : QualifiedService)
    (method : String) : Prop :=
  ∃ s, descriptorSet.firstService service = some s ∧
    ∃ m ∈ s.methods, m.name = method ∧ ∃ opt, m.grcache = some opt ∧ 0 < opt.cacheTtl

-- ---------------------------------------------------------------------------
-- One service
-- ---------------------------------------------------------------------------

section
variable {linker : Linker} {descriptorSet : FileDescriptorSet} {service : QualifiedService}

theorem Built.gate (h : Built linker descriptorSet service spec)
    (hdistinct : ∀ s, descriptorSet.firstService service = some s →
      (s.methods.map (·.name)).Nodup) (method : String) :
    (∃ ms, spec.methods method = some ms ∧
        ∃ c, ms.cacheSpec = some c ∧ 0 < c.descriptor.cacheTtl) ↔
      spec.passthrough = false ∧ OptedIn descriptorSet service method := by
  cases h with
  | passthrough => simp [ServiceSpec.buildPassthrough]
  | build hbuild =>
    obtain ⟨s, hs, rfl, rfl⟩ := ServiceSpec.build_ok hbuild
    constructor
    · rintro ⟨ms, hms, hc⟩
      obtain ⟨m, hm, hname, rfl⟩ := methodMap_eq_some hms
      exact ⟨rfl, s, hs, m, hm, hname, (MethodSpec.build_gate m).mp hc⟩
    · rintro ⟨-, s', hs', m, hm, rfl, hopt⟩
      cases hs.symm.trans hs'
      exact ⟨_, methodMap_of_mem (hdistinct s hs) hm, (MethodSpec.build_gate m).mpr hopt⟩

end

-- ---------------------------------------------------------------------------
-- Requests
-- ---------------------------------------------------------------------------

theorem cacheGate_isSome (grpcMeta : GrpcMeta) :
    grpcMeta.cacheGate.isSome ↔ ∃ spec ms, grpcMeta.serviceData.serviceSpec = some spec ∧
      spec.methods grpcMeta.methodName = some ms ∧
      ∃ c, ms.cacheSpec = some c ∧ 0 < c.descriptor.cacheTtl := by
  simp only [Option.isSome_iff_exists, GrpcMeta.cacheGate, GrpcMeta.methodSpec,
    Option.filter_eq_some_iff, Option.bind_eq_some_iff, decide_eq_true_eq]
  constructor
  · rintro ⟨c, ⟨ms, ⟨spec, hspec, hms⟩, hc⟩, hpos⟩
    exact ⟨spec, ms, hspec, hms, c, hc, hpos⟩
  · rintro ⟨spec, ms, hspec, hms, c, hc, hpos⟩
    exact ⟨c, ⟨ms, ⟨spec, hspec, hms⟩, hc⟩, hpos⟩

theorem requestCacheFilter_iff {proxy : GrpcProxy}
    (hpath : parseGrpcPath request.reqHeader.rawPath = .ok (name, method))
    (hdata : proxy.services name = some data)
    (h : proxy.requestFilter request = .ok (session, ctx)) :
    requestCacheFilter ctx = true ↔ ∃ spec ms, data.serviceSpec = some spec ∧
      spec.methods method = some ms ∧
      ∃ c, ms.cacheSpec = some c ∧ 0 < c.descriptor.cacheTtl := by
  obtain ⟨name', method', data', hpath', hlook, grpcMeta, -, rfl, hcase⟩ := requestFilter_cases h
  cases hpath.symm.trans hpath'
  cases hdata.symm.trans (lookupService_ok hlook).1
  rw [← cacheGate_isSome ⟨data, method, .ofList (varyNames request.reqHeader.headers)⟩]
  rcases hcase with ⟨hgate, hd, -⟩ | ⟨c, _, hgate, hd, -⟩
  · rw [hgate, requestCacheFilter, hd]
    simp
  · rw [hgate, requestCacheFilter, hd]
    simp

/-- For every descriptor set and service whose methods have distinct names:
whatever entry the service has, a request that is let through is cached exactly
when the entry is not passthrough and the method of the path opted in. A build
reports the negative ttls in method order and drops the caching of these methods
only. -/
theorem caching_opt_in (linker : Linker) (descriptorSet : FileDescriptorSet)
    (service : QualifiedService)
    (hdistinct : ∀ s, descriptorSet.firstService service = some s →
      (s.methods.map (·.name)).Nodup) :
    (∀ spec, Built linker descriptorSet service spec →
      ∀ (proxy : GrpcProxy) (request session : Session) (ctx : RequestCtx)
        (name method : String) (data : ServiceData),
        parseGrpcPath request.reqHeader.rawPath = .ok (name, method) →
        proxy.services name = some data → data.serviceSpec = some spec →
        proxy.requestFilter request = .ok (session, ctx) →
        (requestCacheFilter ctx = true ↔
          spec.passthrough = false ∧ OptedIn descriptorSet service method)) ∧
    ∀ spec errors, ServiceSpec.build linker descriptorSet service = .ok (spec, errors) →
      ∃ s, descriptorSet.firstService service = some s ∧ Validated s spec errors := by
  refine ⟨fun spec hbuilt proxy request session ctx name method data hpath hdata hspec h => ?_,
    fun spec errors hbuild => ?_⟩
  · rw [requestCacheFilter_iff hpath hdata h, ← hbuilt.gate hdistinct]
    simp [hspec]
  · obtain ⟨s, hs, rfl, rfl⟩ := ServiceSpec.build_ok hbuild
    exact ⟨s, hs, validated_methodMap service s (hdistinct s hs)⟩

def linkAny : Linker where
  newDynamic descr _ := .ok ⟨descr⟩
  proto_eq h := by cases h; rfl

def usersSet : FileDescriptorSet :=
  ⟨[⟨"example", [⟨"Users", [⟨"Get", some ⟨10⟩⟩, ⟨"Put", some ⟨-1⟩⟩]⟩]⟩]⟩

def usersEntry : ServiceSpec :=
  ⟨⟨"example", "Users"⟩, false, methodMap [⟨"Get", some ⟨10⟩⟩, ⟨"Put", some ⟨-1⟩⟩]⟩

def usersEntryProxy : GrpcProxy where
  services n :=
    if n = "example.Users" then some ⟨0, some usersEntry, some ⟨"users-rpc", 50051⟩⟩ else none
  retryBufferLimit := 65536

theorem usersEntry_filter : ∃ session grpcMeta,
    usersEntryProxy.requestFilter (usersRequest [] [1]) = .ok (session, ⟨true, some grpcMeta⟩) :=
  ⟨_, _, requestFilter_cached (usersRequest_path [] [1]) rfl
    (show GrpcMeta.cacheGate ⟨⟨0, some usersEntry, some ⟨"users-rpc", 50051⟩⟩, "Get", _⟩ =
      some ⟨⟨10⟩⟩ from rfl) rfl⟩

/-- The request is cached because its method opted in. -/
theorem usersEntry_get_opted_in :
    OptedIn usersSet ⟨"example", "Users"⟩ "Get" ∧
    ∃ s, usersSet.firstService ⟨"example", "Users"⟩ = some s ∧
      Validated s usersEntry [.invalidCacheTTL (-1)] := by
  have hdistinct : ∀ s, usersSet.firstService ⟨"example", "Users"⟩ = some s →
      (s.methods.map (·.name)).Nodup := by
    intro s hs
    rw [show usersSet.firstService ⟨"example", "Users"⟩ =
      some ⟨"Users", [⟨"Get", some ⟨10⟩⟩, ⟨"Put", some ⟨-1⟩⟩]⟩ by decide] at hs
    cases hs
    decide
  have hbuild : ServiceSpec.build linkAny usersSet ⟨"example", "Users"⟩ =
      .ok (usersEntry, [.invalidCacheTTL (-1)]) := rfl
  obtain ⟨session, grpcMeta, hfilter⟩ := usersEntry_filter
  obtain ⟨hcached, hvalid⟩ := caching_opt_in linkAny usersSet ⟨"example", "Users"⟩ hdistinct
  exact ⟨((hcached usersEntry (.build hbuild) usersEntryProxy (usersRequest [] [1]) session _ _ _ _
    (usersRequest_path [] [1]) rfl rfl hfilter).mp rfl).2, hvalid usersEntry _ hbuild⟩

end Grcache.Proxy
