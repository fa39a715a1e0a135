import Grcache.Proxy.CacheKey
import Grcache.Proxy.Response

/-!
# How long an entry is served

Two rules bound the life of an entry: the fresh-until instant that
`response_cache_filter` writes at store time, sixty seconds on, and the ttl of
the method that `cache_hit_filter` compares with the age at lookup time. To
pingora the answer of `cache_hit_filter` says whether the entry is to be
force-expired; the code answers whether it is a hit.
-/

namespace Grcache.Proxy

open Base (Exec unwrap)
open Http Grpc

/-- Zero for an entry from the future, as `CacheMeta::age` has it. -/
def CacheMeta.age (entry : CacheMeta) (now : Nat) : Nat := now - entry.created

def CacheMeta.ageSec (entry : CacheMeta) (now : Nat) : Nat := entry.age now / secs 1

def CacheMeta.isFresh (entry : CacheMeta) (now : Nat) : Bool := now < entry.freshUntil

def cacheHitFilter (now : Nat) (entry : CacheMeta) (ctx : RequestCtx) :
    Exec PingoraError Bool := do
  let grpcMeta ← unwrap ctx.grpcMeta
  let methodSpec ← unwrap grpcMeta.methodSpec
  let cacheSpec ← unwrap methodSpec.cacheSpec
  -- the age in seconds is a `u64`, cast to `i64`
  let hit := Int64.ofNat (entry.ageSec now) < cacheSpec.descriptor.cacheTtl.toInt64
  pure hit

/-- A cached call at a time, with the snapshot of the services it saw, and what
the upstream answers and when, should it be asked. -/
structure Visit where
  proxy : GrpcProxy
  request : Session
  call : CachedCall proxy request
  now : Nat
  resp : ResponseHeader
  clock : Clock

def Visit.ttl (v : Visit) : Int32 :=
  (v.call.grpcMeta.cacheGate.map (·.descriptor.cacheTtl)).getD 0

def Visit.served (v : Visit) : Option CacheMeta → Bool
  | none => false
  | some entry =>
    match cacheHitFilter v.now entry ⟨true, some v.call.grpcMeta⟩ with
    | .ok forceExpired => !forceExpired && entry.isFresh v.now
    | .error _ => false

/-- A call that is not answered from the entry stores one of its own. -/
def visit (entry : Option CacheMeta) (v : Visit) : Option CacheMeta :=
  if v.served entry then entry else some (responseCacheFilter v.clock v.resp)

/-- Served exactly when the entry is younger than the ttl and still fresh. -/
def ServedWithinTtl (entry : Option CacheMeta) (v : Visit) : Prop :=
  v.served entry = true ↔
    ∃ e, entry = some e ∧ (e.ageSec v.now : Int) < v.ttl.toInt ∧ v.now < e.freshUntil

def NothingFresh (entry : Option CacheMeta) (v : Visit) : Prop :=
  ∀ e, entry = some e → e.freshUntil ≤ v.now

-- The gate of the request filter leaves no unwrap of the hit filter to fail.
theorem Visit.cacheHitFilter_eq (v : Visit) (entry : CacheMeta) :
    cacheHitFilter v.now entry ⟨true, some v.call.grpcMeta⟩ =
      .ok (decide (Int64.ofNat (entry.ageSec v.now) < v.ttl.toInt64)) := by
  obtain ⟨spec, hgate⟩ := v.call.cacheGate_isSome
  obtain ⟨hspec, -⟩ := Option.filter_eq_some_iff.mp hgate
  obtain ⟨methodSpec, hm, hc⟩ := Option.bind_eq_some_iff.mp hspec
  simp [cacheHitFilter, Visit.ttl, hm, hc, hgate]

/-- The invariant of the stored entry: fresh for at most a minute of its age. -/
def Stored (entry : Option CacheMeta) : Prop :=
  ∀ e, entry = some e → e.freshUntil ≤ e.created + secs 60

theorem Stored.visit (h : Stored entry) (v : Visit) : Stored (visit entry v) := by
  unfold Proxy.visit
  split
  · exact h
  · rintro e ⟨rfl⟩
    exact Nat.add_le_add_right v.clock.ordered _

theorem Stored.ageSec_lt (h : Stored (some e)) (hfresh : now < e.freshUntil) :
    e.ageSec now < 60 := by
  have hbound := h e rfl
  simp only [secs] at hbound
  rw [CacheMeta.ageSec, CacheMeta.age, Nat.div_lt_iff_lt_mul (by decide)]
  simp only [secs]
  omega

-- A fresh entry is too young for its age to wrap.
theorem Stored.hit_iff (h : Stored (some e)) (hfresh : v.now < e.freshUntil) :
    Int64.ofNat (e.ageSec v.now) < (Visit.ttl v).toInt64 ↔
      (e.ageSec v.now : Int) < v.ttl.toInt := by
  have hage := h.ageSec_lt hfresh
  rw [Int64.lt_iff_toInt_lt, Int64.toInt_ofNat_of_lt (by omega), Int32.toInt_toInt64]

-- On a fresh entry the code does the opposite of the rule, on another one both
-- refuse.
theorem Stored.servedWithinTtl_iff (h : Stored entry) (v : Visit) :
    ServedWithinTtl entry v ↔ NothingFresh entry v := by
  unfold ServedWithinTtl NothingFresh
  cases entry with
  | none => simp [Visit.served]
  | some e =>
    simp only [Visit.served, v.cacheHitFilter_eq, CacheMeta.isFresh, Option.some.injEq,
      exists_eq_left', forall_eq']
    by_cases hfresh : v.now < e.freshUntil
    · simp only [← h.hit_iff hfresh, hfresh, Nat.not_le.mpr hfresh, decide_true, Bool.and_true,
        and_true, iff_false, Bool.not_eq_true', decide_eq_false_iff_not]
      tauto
    · simp [hfresh, Nat.not_lt.mp hfresh]

/-- In a run of calls to one key, whatever the times and the ttls, every call is
served by the rule exactly when none of them finds a fresh entry. -/
theorem ttl_bounds_service_iff (visits : List Visit) :
    Base.Always visit ServedWithinTtl none visits ↔
      Base.Always visit NothingFresh none visits := by
  have hstored : ∀ pre : List Visit, Stored (Base.run visit none pre) := fun pre =>
    Base.run_invariant (C := fun _ _ => True) (by simp [Stored])
      (fun entry v h _ => h.visit v) Base.always_true
  constructor
  · intro h pre v hp
    exact ((hstored pre).servedWithinTtl_iff v).mp (h pre v hp)
  · intro h pre v hp
    exact ((hstored pre).servedWithinTtl_iff v).mpr (h pre v hp)

def usersVisit (now : Nat) : Visit where
  proxy := usersProxy
  request := usersRequest [] [1]
  call := usersCall [] [1]
  now := now
  resp := ⟨200, []⟩
  clock := ⟨now, now, le_rfl⟩

/-- With a ttl of ten seconds, an entry is served at the age of thirty. -/
theorem entry_outlives_ttl :
    (usersVisit (secs 30)).ttl = 10 ∧
      (usersVisit (secs 30)).served (Base.run visit none [usersVisit 0]) = true ∧
      ¬ Base.Always visit ServedWithinTtl none [usersVisit 0, usersVisit (secs 30)] := by
  refine ⟨by decide, by decide, ?_⟩
  intro h
  obtain ⟨e, he, hage, -⟩ := (h [usersVisit 0] (usersVisit (secs 30)) List.prefix_rfl).mp
    (by decide)
  cases he
  revert hage
  decide

end Grcache.Proxy
