import Grcache.Proxy.Request

/-!
# Cache keys

`cache_key_callback` hashes the declared headers, the path and the body into a
key, and then returns another one: `CacheKey::default`, which holds the request
URI only. Two calls of one URI share a key whatever their bodies and declared
headers are.
-/

namespace Grcache.Proxy

open Base (Bytes)
open Http Grpc Store
open Service (ServiceSpec)

variable {proxy proxy' : GrpcProxy} {request request' : Session}

/-- The two requests may share a response: same path, body and vary set, and the
same value of every declared header. -/
def SameRequest (c : CachedCall proxy request) (c' : CachedCall proxy' request') : Prop :=
  request.reqHeader.rawPath = request'.reqHeader.rawPath ∧ c.body = c'.body ∧
    c.grpcMeta.varySet = c'.grpcMeta.varySet ∧
    ∀ n ∈ c.grpcMeta.varySet, joined (HeaderMap.getAll request.reqHeader.headers n) =
      joined (HeaderMap.getAll request'.reqHeader.headers n)

def CachedCall.key (c : CachedCall proxy request) (blake2b128 : Bytes → Bytes) :
    Base.Exec PingoraError CacheKey :=
  cacheKeyCallback blake2b128 c.session ⟨true, some c.grpcMeta⟩

theorem key_ok (c : CachedCall proxy request) (h : c.key blake2b128 = .ok key) :
    key = ⟨"", request.reqHeader.uri, none⟩ := by
  unfold CachedCall.key cacheKeyCallback at h
  simp only [Base.unwrap_some, Base.ok_bind] at h
  obtain ⟨body, -, h⟩ := Base.bind_eq_ok_iff.mp h
  cases h
  rw [CacheKey.ofUri, c.spec.uri]

/-- Equal keys separate two calls exactly when their URIs differ, or when there
is nothing to separate. -/
theorem cacheKey_separates_iff (blake2b128 : Bytes → Bytes)
    (c : CachedCall proxy request) (c' : CachedCall proxy' request')
    (hk : c.key blake2b128 = .ok key) (hk' : c'.key blake2b128 = .ok key') :
    (key = key' → SameRequest c c') ↔
      (request.reqHeader.uri ≠ request'.reqHeader.uri ∨ SameRequest c c') := by
  have hkey : key = key' ↔ request.reqHeader.uri = request'.reqHeader.uri := by
    rw [key_ok c hk, key_ok c' hk']
    simp
  rw [hkey]
  exact imp_iff_not_or

def usersSpec : ServiceSpec :=
  ⟨⟨"example", "Users"⟩, false, fun m =>
    if m = "Get" then some ⟨"Get", ⟨"Get", some ⟨10⟩⟩, some ⟨⟨10⟩⟩⟩ else none⟩

def usersProxy : GrpcProxy where
  services n :=
    if n = "example.Users" then some ⟨0, some usersSpec, some ⟨"users-rpc", 50051⟩⟩ else none
  retryBufferLimit := 65536

def usersRequest (headers : HeaderMap) (body : Bytes) : Session where
  reqHeader := ⟨"http://grcache:50052/example.Users/Get", ascii "/example.Users/Get", headers⟩
  body := .ok body
  retryBuffer := none

def usersMeta (headers : HeaderMap) : GrpcMeta :=
  ⟨⟨0, some usersSpec, some ⟨"users-rpc", 50051⟩⟩, "Get", .ofList (varyNames headers)⟩

theorem usersRequest_path (headers : HeaderMap) (body : Bytes) :
    parseGrpcPath (usersRequest headers body).reqHeader.rawPath = .ok ("example.Users", "Get") := by
  change parseGrpcPath (ascii "/example.Users/Get") = _
  decide

theorem usersRequest_filter (headers : HeaderMap) (hb : body.length ≤ 65536) :
    usersProxy.requestFilter (usersRequest headers body) =
      .ok ({ usersRequest headers body with
        reqHeader := { (usersRequest headers body).reqHeader with
          headers := stripHeaders headers
            (findStripHeaders headers (.ofList (varyNames headers)) .empty) }
        retryBuffer := some body }, ⟨true, some (usersMeta headers)⟩) := by
  have hread : usersProxy.readBody (usersRequest headers body) = .ok body := by
    simp [GrpcProxy.readBody, usersRequest, usersProxy, Nat.not_lt.mpr hb]
  exact requestFilter_cached (usersRequest_path headers body) rfl
    (show (usersMeta headers).cacheGate = some ⟨⟨10⟩⟩ from rfl) hread

def usersCall (headers : HeaderMap) (body : Bytes) (hb : body.length ≤ 65536 := by decide) :
    CachedCall usersProxy (usersRequest headers body) :=
  ⟨_, usersMeta headers, body, usersRequest_filter headers hb, rfl⟩

theorem cacheKey_separates_users :
    ((⟨"", "http://grcache:50052/example.Users/Get", none⟩ : CacheKey) =
        ⟨"", "http://grcache:50052/example.Users/Get", none⟩ →
      SameRequest (usersCall [] [1]) (usersCall [] [2])) ↔
    ((usersRequest [] [1]).reqHeader.uri ≠ (usersRequest [] [2]).reqHeader.uri ∨
      SameRequest (usersCall [] [1]) (usersCall [] [2])) :=
  cacheKey_separates_iff id (usersCall [] [1])
    (usersCall [] [2]) rfl rfl

/-- Two different messages to one method get one key. -/
theorem bodies_share_cacheKey :
    ∃ key, (usersCall [] [1]).key id = .ok key ∧
      (usersCall [] [2]).key id = .ok key ∧
      ¬ SameRequest (usersCall [] [1]) (usersCall [] [2]) := by
  refine ⟨_, rfl, rfl, ?_⟩
  rintro ⟨-, hbody, -⟩
  revert hbody
  decide

end Grcache.Proxy
