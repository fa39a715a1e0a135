import Grcache.Base.Framing
import Grcache.Discovery.Dns
import Grcache.Proxy.Request
import Grcache.Proxy.Response

/-!
# The Redis replicas backend

Entries are kept in the Redis instance that a consistent balancer selects for
the key: a version tag, then the bincode encoding of the serialized meta and the
body. A miss gathers the body and writes the entry when it is finished; a lookup
reads it back into a hit, whose body pingora drains by calling `read_body` until
it returns nothing.

bincode and the serialization of the meta are libraries and come as codecs. What
the network answers is an argument of each call.
-/

namespace Grcache.Cache

open Base (Bytes Exec unwrap unwrapOk raise)
open Discovery (Backend)
open Grpc (PingoraError)
open Proxy (CacheKey CacheMeta)

-- ---------------------------------------------------------------------------
-- Codecs
-- ---------------------------------------------------------------------------

structure CacheData where
  cacheMeta : Bytes × Bytes
  data : Bytes
  deriving DecidableEq

inductive BincodeError
  | mk
  deriving DecidableEq, Repr

/-- What is serialized is deserialized to the same again. -/
structure Codec (ε α β : Type) where
  serialize : α → Except ε β
  deserialize : β → Except ε α
  inverse : serialize a = .ok b → deserialize b = .ok a

structure Codecs where
  cacheMeta : Codec PingoraError CacheMeta (Bytes × Bytes)
  bincode : Codec BincodeError CacheData Bytes

-- ---------------------------------------------------------------------------
-- Pools
-- ---------------------------------------------------------------------------

/-- A connection pool; two pools for one backend are told apart by their number. -/
structure Pool where
  backend : Backend
  serial : Nat
  deriving DecidableEq, Repr

structure RedisPools where
  /-- The balancer's choice for a key among the backends it is let choose. -/
  selectWith : Bytes → (Backend → Bool) → Option Backend
  healthy : Backend → Bool
  pools : Backend → Option Pool

def RedisPools.selectBackend (p : RedisPools) (key : Bytes) : Option Backend :=
  p.selectWith key fun backend => if !p.healthy backend then false else (p.pools backend).isSome

def RedisPools.poolForHash (p : RedisPools) (hash : Bytes) : Option Pool :=
  match p.selectBackend hash with
  | some backend => p.pools backend
  | none => none

/-- What a call meets: whether the pool has a connection, and whether the
command it sends is carried out. -/
structure Net where
  connects : Pool → Bool
  answers : Bool

abbrev Redis := Backend → Bytes → Option Bytes

def Redis.set (redis : Redis) (backend : Backend) (key value : Bytes) : Redis :=
  Function.update redis backend (Function.update (redis backend) key (some value))

-- ---------------------------------------------------------------------------
-- Misses
-- ---------------------------------------------------------------------------

structure RedisCacheMiss where
  cacheMeta : Bytes × Bytes
  hash : Bytes
  value : Bytes
  deriving DecidableEq

def getMissHandler (codecs : Codecs) (blake2b128 : Bytes → Bytes) (key : CacheKey)
    (cacheMeta : CacheMeta) : Except PingoraError RedisCacheMiss := do
  let cacheMeta ← codecs.cacheMeta.serialize cacheMeta
  pure ⟨cacheMeta, key.primaryBin blake2b128, []⟩

def RedisCacheMiss.writeBody (miss : RedisCacheMiss) (data : Bytes) : RedisCacheMiss :=
  { miss with value := miss.value ++ data }

-- The pools are shared with the backend, so `finish` sees them as they are then.
def RedisCacheMiss.finish (codecs : Codecs) (net : Net) (pools : RedisPools) (redis : Redis)
    (miss : RedisCacheMiss) : Exec PingoraError (Nat × Redis) :=
  match pools.poolForHash miss.hash with
  | none => pure (0, redis)
  | some pool =>
    if !net.connects pool then pure (0, redis)
    else do
      let encoded ← unwrapOk (raise (codecs.bincode.serialize ⟨miss.cacheMeta, miss.value⟩))
      let data := 0 :: encoded
      -- a failed write is only logged
      pure (data.length, if net.answers then redis.set pool.backend miss.hash data else redis)

-- ---------------------------------------------------------------------------
-- Hits
-- ---------------------------------------------------------------------------

structure RedisCacheHit where
  data : Bytes
  deriving DecidableEq

def RedisCacheHit.readBody (hit : RedisCacheHit) : Option Bytes × RedisCacheHit :=
  (some hit.data, hit)

def lookup (codecs : Codecs) (blake2b128 : Bytes → Bytes) (net : Net) (pools : RedisPools)
    (redis : Redis) (key : CacheKey) : Exec PingoraError (Option (CacheMeta × RedisCacheHit)) :=
  let hash := key.primaryBin blake2b128
  match pools.poolForHash hash with
  | none => pure none
  | some pool =>
    if !net.connects pool then pure none
    else
      match if net.answers then redis pool.backend hash else none with
      | none => pure none
      | some data => do
        let version ← unwrap data.head?
        if version ≠ 0 then pure none
        else
          match codecs.bincode.deserialize data.tail with
          | .ok cacheData =>
            let cacheMeta ← raise (codecs.cacheMeta.deserialize cacheData.cacheMeta)
            pure (some (cacheMeta, ⟨cacheData.data⟩))
          | .error _ => pure none

/-- pingora's loop over a hit, for as many calls as it is given; `none` when it
has not come to an end by then. -/
def drain : Nat → RedisCacheHit → Option Bytes
  | 0, _ => none
  | calls + 1, hit =>
    match hit.readBody with
    | (none, _) => some []
    | (some data, hit) => (drain calls hit).map (data ++ ·)

-- ---------------------------------------------------------------------------
-- Storing and replaying
-- ---------------------------------------------------------------------------

/-- An entry that was written to the instance selected for its key, and a later
lookup that reaches the same instance, where the key still has that value. -/
structure StoreThenLookup where
  codecs : Codecs
  blake2b128 : Bytes → Bytes
  key : CacheKey
  cacheMeta : CacheMeta
  chunks : List Bytes
  -- the write
  net : Net
  pools : RedisPools
  pool : Pool
  redis : Redis
  miss : RedisCacheMiss
  written : Nat
  stored : Redis
  getMissHandler_ok : getMissHandler codecs blake2b128 key cacheMeta = .ok miss
  pool_selected : pools.poolForHash (key.primaryBin blake2b128) = some pool
  connected : net.connects pool = true
  answered : net.answers = true
  finish_ok : (chunks.foldl RedisCacheMiss.writeBody miss).finish codecs net pools redis =
    .ok (written, stored)
  -- the lookup
  net' : Net
  pools' : RedisPools
  pool' : Pool
  redis' : Redis
  pool_selected' : pools'.poolForHash (key.primaryBin blake2b128) = some pool'
  connected' : net'.connects pool' = true
  answered' : net'.answers = true
  same_instance : pool'.backend = pool.backend
  same_value : redis' pool.backend (key.primaryBin blake2b128) =
    stored pool.backend (key.primaryBin blake2b128)

namespace StoreThenLookup

variable (r : StoreThenLookup)

def found : Exec PingoraError (Option (CacheMeta × RedisCacheHit)) :=
  lookup r.codecs r.blake2b128 r.net' r.pools' r.redis' r.key

/-- The hit has the meta that was stored, and draining it comes to an end with
the chunks that were written. -/
def Replays : Prop :=
  ∃ hit, r.found = .ok (some (r.cacheMeta, hit)) ∧ ∃ calls, drain calls hit = some r.chunks.flatten

end StoreThenLookup

theorem writeBody_chunks (miss : RedisCacheMiss) (chunks : List Bytes) :
    chunks.foldl RedisCacheMiss.writeBody miss =
      { miss with value := miss.value ++ chunks.flatten } := by
  induction chunks generalizing miss with
  | nil => simp
  | cons chunk chunks ih => simp [ih, RedisCacheMiss.writeBody]

-- Everything is as stored up to the hit ...
theorem lookup_stored (r : StoreThenLookup) :
    r.found = .ok (some (r.cacheMeta, ⟨r.chunks.flatten⟩)) := by
  obtain ⟨encodedMeta, hmeta, hmiss⟩ := Base.bind_eq_ok_iff.mp r.getMissHandler_ok
  have hmiss : r.miss = ⟨encodedMeta, r.key.primaryBin r.blake2b128, []⟩ :=
    (Except.ok.inj hmiss).symm
  have hfinish := r.finish_ok
  rw [writeBody_chunks, hmiss] at hfinish
  simp only [RedisCacheMiss.finish, r.pool_selected, r.connected, r.answered, Bool.not_true,
    Bool.false_eq_true, ↓reduceIte, List.nil_append] at hfinish
  obtain ⟨encoded, hencoded, hstored⟩ := Base.bind_eq_ok_iff.mp hfinish
  rw [Base.unwrapOk_ok, Base.raise_ok] at hencoded
  have hvalue : r.redis' r.pool'.backend (r.key.primaryBin r.blake2b128) = some (0 :: encoded) := by
    rw [r.same_instance, r.same_value]
    rw [← (Prod.mk.inj (Except.ok.inj hstored)).2]
    simp [Redis.set]
  have hdata := r.codecs.bincode.inverse hencoded
  have hback := r.codecs.cacheMeta.inverse hmeta
  simp [StoreThenLookup.found, lookup, r.pool_selected', r.connected', r.answered', hvalue, hdata,
    hback, raise]

-- ... and the hit never says that it is done.
theorem drain_endless (calls : Nat) (hit : RedisCacheHit) : drain calls hit = none := by
  induction calls with
  | zero => rfl
  | succ calls ih => simp [drain, RedisCacheHit.readBody, ih]

/-- Every stored entry is found again, and none can be replayed. -/
theorem stored_never_replays (r : StoreThenLookup) :
    (∃ hit, r.found = .ok (some (r.cacheMeta, hit)) ∧ hit.data = r.chunks.flatten) ∧
      ¬ r.Replays := by
  refine ⟨⟨_, lookup_stored r, rfl⟩, ?_⟩
  rintro ⟨hit, -, calls, hdrain⟩
  rw [drain_endless] at hdrain
  cases hdrain

-- ---------------------------------------------------------------------------
-- One replica
-- ---------------------------------------------------------------------------

-- bincode writes three byte strings behind their lengths, and ignores what
-- follows them when it reads.
def bincode : Codec BincodeError CacheData Bytes where
  serialize d :=
    if d.cacheMeta.1.length < 256 ^ 8 ∧ d.cacheMeta.2.length < 256 ^ 8 ∧
        d.data.length < 256 ^ 8 then
      .ok (Base.putField d.cacheMeta.1 ++ (Base.putField d.cacheMeta.2 ++ Base.putField d.data))
    else .error .mk
  deserialize bs :=
    match Base.getField bs with
    | none => .error .mk
    | some (internal, bs) =>
      match Base.getField bs with
      | none => .error .mk
      | some (header, bs) =>
        match Base.getField bs with
        | none => .error .mk
        | some (data, _) => .ok ⟨(internal, header), data⟩
  inverse := by
    intro d b h
    split at h
    next hlen =>
      obtain ⟨hinternal, hheader, hdata⟩ := hlen
      cases h
      have hlast : Base.getField (Base.putField d.data) = some (d.data, []) := by
        simpa using Base.getField_putField hdata []
      simp only [Base.getField_putField hinternal, Base.getField_putField hheader, hlast]
    next => cases h

-- Metas of responses without headers, which is all one stored entry needs.
def plainMeta : Codec PingoraError CacheMeta (Bytes × Bytes) where
  serialize m :=
    if m.header.headers = [] ∧ m.freshUntil < 256 ^ 8 ∧ m.created < 256 ^ 8 ∧
        m.staleWhileRevalidateSec < 256 ^ 8 ∧ m.staleIfErrorSec < 256 ^ 8 ∧
        m.header.status < 256 ^ 8 then
      .ok (Base.leBytes 8 m.freshUntil ++ (Base.leBytes 8 m.created ++
        (Base.leBytes 8 m.staleWhileRevalidateSec ++ Base.leBytes 8 m.staleIfErrorSec)),
        Base.leBytes 8 m.header.status)
    else .error ⟨.internalError, "failed to encode cache meta"⟩
  deserialize b :=
    let cacheMeta : Option CacheMeta := do
      let (freshUntil, bs) ← Base.getNumber b.1
      let (created, bs) ← Base.getNumber bs
      let (revalidate, bs) ← Base.getNumber bs
      let (error, _) ← Base.getNumber bs
      let (status, _) ← Base.getNumber b.2
      pure ⟨freshUntil, created, revalidate, error, ⟨status, []⟩⟩
    match cacheMeta with
    | some cacheMeta => .ok cacheMeta
    | none => .error ⟨.internalError, "failed to decode cache meta"⟩
  inverse := by
    intro m b h
    split at h
    next hm =>
      obtain ⟨hheaders, hfresh, hcreated, hrevalidate, herror, hstatus⟩ := hm
      cases h
      obtain ⟨freshUntil, created, revalidate, error, ⟨status, headers⟩⟩ := m
      simp only at hheaders hfresh hcreated hrevalidate herror hstatus
      subst hheaders
      have hlast : Base.getNumber (Base.leBytes 8 error) = some (error, []) := by
        simpa using Base.getNumber_leBytes herror []
      have hhead : Base.getNumber (Base.leBytes 8 status) = some (status, []) := by
        simpa using Base.getNumber_leBytes hstatus []
      simp [Base.getNumber_leBytes hfresh, Base.getNumber_leBytes hcreated,
        Base.getNumber_leBytes hrevalidate, hlast, hhead]
    next => cases h

def replica : Backend := ⟨0x7f000001, 6379, 1⟩

def onePool : RedisPools where
  selectWith _ accept := if accept replica then some replica else none
  healthy _ := true
  pools backend := if backend = replica then some ⟨replica, 0⟩ else none

def usersEntry : CacheMeta := ⟨Proxy.secs 60, 0, 10, 10, ⟨200, []⟩⟩

-- A body of two chunks, stored under the key of `example.Users/Get`.
def usersReplay : StoreThenLookup where
  codecs := ⟨plainMeta, bincode⟩
  blake2b128 := List.take 16
  key := ⟨"", "http://grcache:50052/example.Users/Get", none⟩
  cacheMeta := usersEntry
  chunks := [[0, 0], [0, 0, 0]]
  net := ⟨fun _ => true, true⟩
  pools := onePool
  pool := ⟨replica, 0⟩
  redis _ _ := none
  miss := _
  written := _
  stored := _
  getMissHandler_ok := rfl
  pool_selected := rfl
  connected := rfl
  answered := rfl
  finish_ok := rfl
  net' := ⟨fun _ => true, true⟩
  pools' := onePool
  pool' := ⟨replica, 0⟩
  redis' := _
  pool_selected' := rfl
  connected' := rfl
  answered' := rfl
  same_instance := rfl
  same_value := rfl

theorem users_never_replays : ¬ usersReplay.Replays := by
  rintro ⟨hit, -, calls, hdrain⟩
  rw [drain_endless] at hdrain
  cases hdrain

end Grcache.Cache
