import Grcache.Cache.Decoding
import Grcache.Proxy.Freshness
import Grcache.Proxy.Trailers

/-!
# Where entries come from

Any number of proxies share the Redis instances. A miss is private to its
request until it is finished, so to the instances an upstream response is one
write at most, at that moment and through the pools of that proxy. Redis may
drop a key at any time, and an instance may come back empty. Whatever a lookup
finds then is a response that some proxy stored whole.
-/

namespace Grcache.Cache

open Base (Bytes Exec raise)
open Grpc (PingoraError)
open Discovery (Backend)
open Proxy (CacheKey CacheMeta Clock UpstreamResponse Visit bodyOf responseCacheFilter)

-- ---------------------------------------------------------------------------
-- The shared instances
-- ---------------------------------------------------------------------------

structure Answer where
  key : CacheKey
  clock : Clock
  response : UpstreamResponse

def Answer.entry (a : Answer) : Option (CacheMeta × Bytes) := (a.response.fill a.clock).committed

inductive CacheAction
  | answer (a : Answer) (net : Net) (pools : RedisPools)
  | evict (backend : Backend) (key : Bytes)
  | restart (backend : Backend)

section
variable (codecs : Codecs) (blake2b128 : Bytes → Bytes)

def store (a : Answer) (net : Net) (pools : RedisPools) (redis : Redis) :
    Exec PingoraError Redis :=
  match a.entry with
  | none => pure redis
  | some (cacheMeta, body) => do
    let miss ← raise (getMissHandler codecs blake2b128 a.key cacheMeta)
    let (_, redis) ← (miss.writeBody body).finish codecs net pools redis
    pure redis

def Redis.step (redis : Redis) : CacheAction → Redis
  | .answer a net pools =>
    match store codecs blake2b128 a net pools redis with
    | .ok redis => redis
    | .error _ => redis
  | .evict backend key => Function.update redis backend (Function.update (redis backend) key none)
  | .restart backend => Function.update redis backend fun _ => none

def redisAfter (actions : List CacheAction) : Redis :=
  Base.run (Redis.step codecs blake2b128) (fun _ _ => none) actions

/-- These bytes are what the answer left under its key. -/
def Leaves (a : Answer) (key data : Bytes) : Prop :=
  a.key.primaryBin blake2b128 = key ∧ ∃ cacheMeta body encodedMeta encoded,
    a.entry = some (cacheMeta, body) ∧ codecs.cacheMeta.serialize cacheMeta = .ok encodedMeta ∧
      codecs.bincode.serialize ⟨encodedMeta, body⟩ = .ok encoded ∧ data = 0 :: encoded

theorem finish_spec {miss : RedisCacheMiss}
    (h : miss.finish codecs net pools redis = .ok (written, redis')) :
    redis' = redis ∨ ∃ backend encoded,
      codecs.bincode.serialize ⟨miss.cacheMeta, miss.value⟩ = .ok encoded ∧
        redis' = redis.set backend miss.hash (0 :: encoded) := by
  unfold RedisCacheMiss.finish at h
  split at h
  · cases h
    exact .inl rfl
  next pool hpool =>
    split at h
    · cases h
      exact .inl rfl
    · obtain ⟨encoded, hencoded, h⟩ := Base.bind_eq_ok_iff.mp h
      rw [Base.unwrapOk_ok, Base.raise_ok] at hencoded
      cases h
      split
      · exact .inr ⟨pool.backend, encoded, hencoded, rfl⟩
      · exact .inl rfl

theorem set_get {redis : Redis} (h : redis.set backend key value backend' key' = some data) :
    redis backend' key' = some data ∨ key' = key ∧ data = value := by
  unfold Redis.set at h
  by_cases hb : backend' = backend
  · subst hb
    rw [Function.update_self] at h
    by_cases hk : key' = key
    · subst hk
      rw [Function.update_self] at h
      exact .inr ⟨rfl, (Option.some.inj h).symm⟩
    · rw [Function.update_of_ne hk] at h
      exact .inl h
  · rw [Function.update_of_ne hb] at h
    exact .inl h

-- A response writes under its own key, if it writes at all.
theorem store_spec (h : store codecs blake2b128 a net pools redis = .ok redis')
    (hdata : redis' backend key = some data) :
    redis backend key = some data ∨ Leaves codecs blake2b128 a key data := by
  unfold store at h
  split at h
  · cases h
    exact .inl hdata
  next cacheMeta body hentry =>
    obtain ⟨miss, hmiss, h⟩ := Base.bind_eq_ok_iff.mp h
    rw [Base.raise_ok] at hmiss
    obtain ⟨encodedMeta, hmeta, hmiss⟩ := Base.bind_eq_ok_iff.mp hmiss
    obtain rfl := Except.ok.inj hmiss
    obtain ⟨⟨written, redis₁⟩, hfinish, h⟩ := Base.bind_eq_ok_iff.mp h
    cases h
    rcases finish_spec codecs hfinish with rfl | ⟨backend', encoded, hencoded, rfl⟩
    · exact .inl hdata
    · refine (set_get hdata).imp_right ?_
      rintro ⟨rfl, rfl⟩
      exact ⟨rfl, cacheMeta, body, encodedMeta, encoded, hentry, hmeta, hencoded, rfl⟩

def Explained (actions : List CacheAction) (redis : Redis) : Prop :=
  ∀ backend key data, redis backend key = some data →
    ∃ a net pools, .answer a net pools ∈ actions ∧ Leaves codecs blake2b128 a key data

theorem Explained.step (h : Explained codecs blake2b128 actions redis) (ha : action ∈ actions) :
    Explained codecs blake2b128 actions (redis.step codecs blake2b128 action) := by
  intro backend key data hdata
  cases action with
  | answer a net pools =>
    cases hstore : store codecs blake2b128 a net pools redis with
    | ok redis' =>
      simp only [Redis.step, hstore] at hdata
      rcases store_spec codecs blake2b128 hstore hdata with hdata | hleaves
      · exact h backend key data hdata
      · exact ⟨a, net, pools, ha, hleaves⟩
    | error e =>
      simp only [Redis.step, hstore] at hdata
      exact h backend key data hdata
  | evict backend' key' =>
    refine h backend key data ?_
    simp only [Redis.step, Function.update_apply] at hdata
    split at hdata
    next hb =>
      subst hb
      rw [Function.update_apply] at hdata
      split at hdata
      · cases hdata
      · exact hdata
    next => exact hdata
  | restart backend' =>
    refine h backend key data ?_
    simp only [Redis.step, Function.update_apply] at hdata
    split at hdata
    · cases hdata
    · exact hdata

theorem redisAfter_explained (actions : List CacheAction) :
    Explained codecs blake2b128 actions (redisAfter codecs blake2b128 actions) :=
  Base.run_invariant (C := fun _ action => action ∈ actions) (fun _ _ _ h => nomatch h)
    (fun _ _ h ha => h.step codecs blake2b128 ha)
    fun _ _ hp => hp.subset (List.mem_append_right _ List.mem_cons_self)

-- ---------------------------------------------------------------------------
-- Lookups
-- ---------------------------------------------------------------------------

/-- The answer was given in this history, to a call whose key has the same hash,
was cacheable, and is what the hit shows. -/
structure OriginOf (actions : List CacheAction) (key : CacheKey) (cacheMeta : CacheMeta)
    (hit : RedisCacheHit) (a : Answer) : Prop where
  given : ∃ net pools, .answer a net pools ∈ actions
  sameHash : a.key.primaryBin blake2b128 = key.primaryBin blake2b128
  cacheable : Proxy.Cacheable a.response
  cacheMeta_eq : cacheMeta = responseCacheFilter a.clock a.response.header
  body_eq : hit.data = bodyOf a.response

theorem lookup_leaves (hdata : Leaves codecs blake2b128 a (key.primaryBin blake2b128) data)
    (hgiven : ∃ net pools, .answer a net pools ∈ actions) :
    ∃ cacheMeta hit, decode codecs data = .ok (some (cacheMeta, hit)) ∧
      OriginOf blake2b128 actions key cacheMeta hit a := by
  obtain ⟨hkey, cacheMeta, body, encodedMeta, encoded, hentry, hmeta, hencoded, rfl⟩ := hdata
  have hcommitted : (a.response.fill a.clock).committed = some (cacheMeta, body) := hentry
  have heq := Proxy.committed_eq hcommitted
  refine ⟨cacheMeta, ⟨body⟩, ?_, hgiven, hkey, ?_, congrArg Prod.fst heq, congrArg Prod.snd heq⟩
  · simp [decode, codecs.bincode.inverse hencoded, codecs.cacheMeta.inverse hmeta, raise]
  · exact (Proxy.cacheable_iff a.clock a.response).mpr (by rw [hcommitted]; rfl)

theorem lookup_cases (net : Net) (pools : RedisPools) (redis : Redis) (key : CacheKey) :
    lookup codecs blake2b128 net pools redis key = .ok none ∨
      ∃ pool data, redis (Pool.backend pool) (key.primaryBin blake2b128) = some data ∧
        lookup codecs blake2b128 net pools redis key = decode codecs data := by
  cases hpool : pools.poolForHash (key.primaryBin blake2b128) with
  | none => exact .inl (by simp [lookup, hpool])
  | some pool =>
    cases hconnects : net.connects pool with
    | false => exact .inl (by simp [lookup, hpool, hconnects])
    | true =>
      cases hanswers : net.answers with
      | false => exact .inl (by simp [lookup, hpool, hconnects, hanswers])
      | true =>
        cases hdata : redis pool.backend (key.primaryBin blake2b128) with
        | none => exact .inl (by simp [lookup, hpool, hconnects, hanswers, hdata])
        | some data =>
          refine .inr ⟨pool, data, hdata, ?_⟩
          exact found_eq ⟨codecs, blake2b128, key, net, pools, pool, redis, data, hpool, hconnects,
            hanswers, hdata⟩

theorem lookup_spec (actions : List CacheAction) (net : Net) (pools : RedisPools)
    (key : CacheKey) :
    lookup codecs blake2b128 net pools (redisAfter codecs blake2b128 actions) key = .ok none ∨
      ∃ cacheMeta hit a,
        lookup codecs blake2b128 net pools (redisAfter codecs blake2b128 actions) key =
          .ok (some (cacheMeta, hit)) ∧ OriginOf blake2b128 actions key cacheMeta hit a := by
  refine (lookup_cases codecs blake2b128 net pools _ key).imp_right ?_
  rintro ⟨pool, data, hdata, hlookup⟩
  obtain ⟨a, net', pools', hmem, hleaves⟩ :=
    redisAfter_explained codecs blake2b128 actions _ _ _ hdata
  obtain ⟨cacheMeta, hit, hdecode, horigin⟩ :=
    lookup_leaves codecs blake2b128 hleaves ⟨net', pools', hmem⟩
  exact ⟨cacheMeta, hit, a, hlookup.trans hdecode, horigin⟩

/-- After any history of answers, evictions and restarts, a lookup through any
pools returns without an error, and what it finds is the whole of a cacheable
answer that was given to a key of the same hash. -/
theorem lookups_find_answers (actions : List CacheAction) (net : Net) (pools : RedisPools)
    (key : CacheKey) :
    ∃ found, lookup codecs blake2b128 net pools (redisAfter codecs blake2b128 actions) key =
        .ok found ∧
      ∀ cacheMeta hit, found = some (cacheMeta, hit) →
        ∃ a, OriginOf blake2b128 actions key cacheMeta hit a := by
  rcases lookup_spec codecs blake2b128 actions net pools key with
    hnone | ⟨cacheMeta, hit, a, hlookup, horigin⟩
  · exact ⟨none, hnone, nofun⟩
  · refine ⟨_, hlookup, ?_⟩
    rintro _ _ ⟨⟩
    exact ⟨a, horigin⟩

-- ---------------------------------------------------------------------------
-- Service
-- ---------------------------------------------------------------------------

theorem OriginOf.stored (h : OriginOf blake2b128 actions key cacheMeta hit a) :
    Proxy.Stored (some cacheMeta) := by
  rintro e ⟨rfl⟩
  rw [h.cacheMeta_eq]
  exact Nat.add_le_add_right a.clock.ordered _

end

end Grcache.Cache
