import Grcache.Cache.RedisReplicas

/-!
# Reading what is stored

The instances are shared with other versions of the proxy, so a key can hold any
bytes. A lookup takes a wrong version tag or an encoding that does not decode
for a miss. Two kinds of bytes slip through: none at all, for which there is no
tag to read, and an entry that decodes but for its meta, whose error is passed
on.
-/

namespace Grcache.Cache

open Base (Bytes Exec unwrap raise)
open Grpc (PingoraError)
open Proxy (CacheKey CacheMeta)

/-- A lookup whose key holds some bytes in the instance it reaches. -/
structure Lookup where
  codecs : Codecs
  blake2b128 : Bytes → Bytes
  key : CacheKey
  net : Net
  pools : RedisPools
  pool : Pool
  redis : Redis
  data : Bytes
  pool_selected : pools.poolForHash (key.primaryBin blake2b128) = some pool
  connected : net.connects pool = true
  answered : net.answers = true
  stored : redis pool.backend (key.primaryBin blake2b128) = some data

namespace Lookup

variable (r : Lookup)

def found : Exec PingoraError (Option (CacheMeta × RedisCacheHit)) :=
  lookup r.codecs r.blake2b128 r.net r.pools r.redis r.key

/-- The bytes are an entry: the version tag, then a `CacheData` with a meta. -/
def Holds (cacheMeta : CacheMeta) (body : Bytes) : Prop :=
  ∃ encoded cacheData, r.data = 0 :: encoded ∧
    r.codecs.bincode.deserialize encoded = .ok cacheData ∧
    r.codecs.cacheMeta.deserialize cacheData.cacheMeta = .ok cacheMeta ∧ cacheData.data = body

/-- An entry is a hit, and everything else is a miss. -/
structure Robust : Prop where
  hit : ∀ cacheMeta body, r.Holds cacheMeta body → r.found = .ok (some (cacheMeta, ⟨body⟩))
  miss : (∀ cacheMeta body, ¬ r.Holds cacheMeta body) → r.found = .ok none

end Lookup

variable {r : Lookup}

def decode (codecs : Codecs) (data : Bytes) :
    Exec PingoraError (Option (CacheMeta × RedisCacheHit)) := do
  let version ← unwrap data.head?
  if version ≠ 0 then pure none
  else
    match codecs.bincode.deserialize data.tail with
    | .ok cacheData =>
      let cacheMeta ← raise (codecs.cacheMeta.deserialize cacheData.cacheMeta)
      pure (some (cacheMeta, ⟨cacheData.data⟩))
    | .error _ => pure none

theorem found_eq (r : Lookup) : r.found = decode r.codecs r.data := by
  simp only [Lookup.found, lookup, r.pool_selected, r.connected, r.answered, r.stored,
    Bool.not_true, Bool.false_eq_true, ↓reduceIte]
  rfl

theorem found_nil (h : r.data = []) : r.found = .error .panic := by
  rw [found_eq, h]
  rfl

theorem found_version (h : r.data = version :: encoded) (hv : version ≠ 0) :
    r.found = .ok none := by
  simp [found_eq, decode, h, hv]

theorem found_undecodable (h : r.data = 0 :: encoded)
    (hd : r.codecs.bincode.deserialize encoded = .error e) : r.found = .ok none := by
  simp [found_eq, decode, h, hd]

theorem found_hit (h : r.data = 0 :: encoded)
    (hd : r.codecs.bincode.deserialize encoded = .ok cacheData)
    (hm : r.codecs.cacheMeta.deserialize cacheData.cacheMeta = .ok cacheMeta) :
    r.found = .ok (some (cacheMeta, ⟨cacheData.data⟩)) := by
  simp [found_eq, decode, h, hd, hm, raise]

theorem found_bad_meta (h : r.data = 0 :: encoded)
    (hd : r.codecs.bincode.deserialize encoded = .ok cacheData)
    (hm : r.codecs.cacheMeta.deserialize cacheData.cacheMeta = .error e) :
    r.found = .error (.error e) := by
  simp [found_eq, decode, h, hd, hm, raise]

theorem not_holds_nil (h : r.data = []) : ¬ r.Holds cacheMeta body := by
  rintro ⟨encoded, _, hdata, -⟩
  simp [h] at hdata

theorem not_holds_bad_meta (h : r.data = 0 :: encoded)
    (hd : r.codecs.bincode.deserialize encoded = .ok cacheData)
    (hm : r.codecs.cacheMeta.deserialize cacheData.cacheMeta = .error e) :
    ¬ r.Holds cacheMeta body := by
  rintro ⟨encoded', cacheData', hdata', hd', hm', -⟩
  rw [h] at hdata'
  cases hdata'
  rw [hd] at hd'
  cases hd'
  rw [hm] at hm'
  cases hm'

/-- A lookup treats its bytes as it should exactly when there is a byte, and an
entry that decodes has a meta that does. -/
theorem lookup_robust_iff (r : Lookup) :
    r.Robust ↔ r.data ≠ [] ∧ ∀ encoded cacheData, r.data = 0 :: encoded →
      r.codecs.bincode.deserialize encoded = .ok cacheData →
      ∃ cacheMeta, r.codecs.cacheMeta.deserialize cacheData.cacheMeta = .ok cacheMeta := by
  constructor
  · intro h
    refine ⟨fun hnil => ?_, fun encoded cacheData hdata hd => ?_⟩
    · have hmiss := h.miss fun _ _ => not_holds_nil hnil
      rw [found_nil hnil] at hmiss
      cases hmiss
    · cases hm : r.codecs.cacheMeta.deserialize cacheData.cacheMeta with
      | ok cacheMeta => exact ⟨cacheMeta, rfl⟩
      | error e =>
        have hmiss := h.miss fun _ _ => not_holds_bad_meta hdata hd hm
        rw [found_bad_meta hdata hd hm] at hmiss
        cases hmiss
  · rintro ⟨hne, hmeta⟩
    refine ⟨?_, fun hnone => ?_⟩
    · rintro cacheMeta body ⟨encoded, cacheData, hdata, hd, hm, rfl⟩
      exact found_hit hdata hd hm
    · obtain ⟨version, encoded, hdata⟩ := List.exists_cons_of_ne_nil hne
      by_cases hv : version = 0
      · subst hv
        cases hd : r.codecs.bincode.deserialize encoded with
        | error e => exact found_undecodable hdata hd
        | ok cacheData =>
          obtain ⟨cacheMeta, hm⟩ := hmeta encoded cacheData hdata hd
          exact absurd ⟨encoded, cacheData, hdata, hd, hm, rfl⟩ (hnone cacheMeta cacheData.data)
      · exact found_version hdata hv

-- A key that holds the empty string, as `SET key ""` leaves it.
def emptyEntry : Lookup where
  codecs := usersReplay.codecs
  blake2b128 := usersReplay.blake2b128
  key := usersReplay.key
  net := usersReplay.net
  pools := usersReplay.pools
  pool := usersReplay.pool
  redis _ _ := some []
  data := []
  pool_selected := usersReplay.pool_selected
  connected := usersReplay.connected
  answered := usersReplay.answered
  stored := rfl

theorem emptyEntry_not_robust : emptyEntry.found = .error .panic ∧ ¬ emptyEntry.Robust := by
  have hpanic : emptyEntry.found = .error .panic := found_nil rfl
  refine ⟨hpanic, fun h => ?_⟩
  have hmiss := h.miss fun _ _ => not_holds_nil rfl
  rw [hpanic] at hmiss
  cases hmiss

end Grcache.Cache
