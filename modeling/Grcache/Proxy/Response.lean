import Grcache.Base.Runs
import Grcache.Grpc.Status

/-!
# Filling the cache

The callbacks pingora runs on an upstream response, and what they leave in the
cache. `response_cache_filter` opens a miss on the response header; the body and
trailer filters run before their event is cached and may disable the cache,
which drops the miss; the miss is committed at the first event that carries the
end of the stream, or at the end of the response.

The trailer filter is where the gRPC status counts. A response can end without
reaching it: with the header, or with neither an end-of-stream chunk nor a
trailer.
-/

namespace Grcache.Proxy

open Base (Bytes)
open Http Grpc

structure ResponseHeader where
  status : Nat
  headers : HeaderMap
  deriving DecidableEq

/-- Times are nanoseconds since the epoch. -/
structure CacheMeta where
  freshUntil : Nat
  created : Nat
  staleWhileRevalidateSec : Nat
  staleIfErrorSec : Nat
  header : ResponseHeader
  deriving DecidableEq

def secs (n : Nat) : Nat := n * 1000000000

/-- The two clock readings of `response_cache_filter`, in their order. -/
structure Clock where
  first : Nat
  second : Nat
  ordered : first ≤ second
  deriving DecidableEq

/-- Every response is cacheable as far as the header goes. -/
def responseCacheFilter (clock : Clock) (resp : ResponseHeader) : CacheMeta :=
  ⟨clock.first + secs 60, clock.second, 10, 10, resp⟩

inductive HttpTask
  | header (resp : ResponseHeader) (endOfStream : Bool)
  | body (data : Option Bytes) (endOfStream : Bool)
  | trailer (trailers : HeaderMap)
  | done
  deriving DecidableEq

/-- The cache side of a response: why it was disabled, the open miss with the
bytes written so far, and what was committed to the storage. -/
structure Fill where
  disabled : Option String
  miss : Option (CacheMeta × Bytes)
  committed : Option (CacheMeta × Bytes)
  deriving DecidableEq

def Fill.init : Fill := ⟨none, none, none⟩

def Fill.disable (f : Fill) (reason : String) : Fill :=
  { f with disabled := some reason, miss := none }

def Fill.finish (f : Fill) : Fill :=
  match f.miss with
  | some m => { f with miss := none, committed := some m }
  | none => f

def Fill.write (f : Fill) (data : Option Bytes) : Fill :=
  { f with miss := f.miss.map fun m => (m.1, m.2 ++ data.getD []) }

def upstreamResponseBodyFilter (f : Fill) (endOfStream : Bool) : Fill :=
  if endOfStream then f.disable "no trailers in request" else f

def upstreamResponseTrailerFilter (f : Fill) (upstreamTrailers : HeaderMap) : Fill :=
  match GrpcStatus.parse upstreamTrailers with
  | .error _error => f.disable "invalid trailers"
  | .ok status => if !status.isOk then f.disable "non-cachable trailers" else f

def Fill.onTask (clock : Clock) (f : Fill) : HttpTask → Fill
  | .header resp endOfStream =>
    let f := if f.disabled.isNone then
      { f with miss := some (responseCacheFilter clock resp, []) } else f
    if endOfStream then f.finish else f
  | .body data endOfStream =>
    let f := (upstreamResponseBodyFilter f endOfStream).write data
    if endOfStream then f.finish else f
  | .trailer trailers => upstreamResponseTrailerFilter f trailers
  | .done => f.finish

structure UpstreamResponse where
  header : ResponseHeader
  headerEnds : Bool
  chunks : List (Option Bytes × Bool)
  trailer : Option HeaderMap
  deriving DecidableEq

def UpstreamResponse.tasks (r : UpstreamResponse) : List HttpTask :=
  .header r.header r.headerEnds :: (r.chunks.map fun c => .body c.1 c.2) ++
    (r.trailer.map .trailer).toList ++ [.done]

def UpstreamResponse.fill (clock : Clock) (r : UpstreamResponse) : Fill :=
  Base.run (Fill.onTask clock) .init r.tasks

def TrailerOk (trailers : HeaderMap) : Prop := GrpcStatus.parse trailers = .ok ⟨0⟩

instance (t : HeaderMap) : Decidable (TrailerOk t) := inferInstanceAs (Decidable (_ = _))

-- With no open miss, only a header changes what is committed.
theorem closed_step (clock : Clock) (f : Fill) (hf : f.miss = none) (t : HttpTask)
    (ht : ∀ resp e, t ≠ .header resp e) :
    (f.onTask clock t).miss = none ∧ (f.onTask clock t).committed = f.committed := by
  cases t with
  | header resp e => exact absurd rfl (ht resp e)
  | body data e =>
    cases e <;> simp [Fill.onTask, upstreamResponseBodyFilter, Fill.write, Fill.finish,
      Fill.disable, hf]
  | trailer trailers =>
    simp only [Fill.onTask, upstreamResponseTrailerFilter]
    split
    · exact ⟨rfl, rfl⟩
    · split
      · exact ⟨rfl, rfl⟩
      · exact ⟨hf, rfl⟩
  | done => simp [Fill.onTask, Fill.finish, hf]

theorem closed_run (tasks : List HttpTask) (ht : ∀ t ∈ tasks, ∀ resp e, t ≠ .header resp e)
    (f : Fill) (hf : f.miss = none) :
    (Base.run (Fill.onTask clock) f tasks).miss = none ∧
      (Base.run (Fill.onTask clock) f tasks).committed = f.committed := by
  induction tasks generalizing f with
  | nil => exact ⟨hf, rfl⟩
  | cons t tasks ih =>
    obtain ⟨hmiss, hcommitted⟩ := closed_step clock f hf t (ht t List.mem_cons_self)
    rw [Base.run_cons, ← hcommitted]
    exact ih (fun t' ht' => ht t' (List.mem_cons_of_mem _ ht')) _ hmiss

theorem chunks_noHeader (chunks : List (Option Bytes × Bool)) :
    ∀ t ∈ chunks.map (fun c => HttpTask.body c.1 c.2), ∀ resp e, t ≠ .header resp e := by
  intro t ht resp e heq
  obtain ⟨c, -, hc⟩ := List.mem_map.mp ht
  rw [heq] at hc
  cases hc

theorem ending_noHeader (trailer : Option HeaderMap) :
    ∀ t ∈ (trailer.map HttpTask.trailer).toList ++ [.done], ∀ resp e, t ≠ .header resp e := by
  intro t ht resp e heq
  subst heq
  cases trailer <;> simp at ht

-- Chunks are gathered until one of them ends the stream ...
theorem chunks_gathered (chunks : List (Option Bytes × Bool)) (hopen : ∀ c ∈ chunks, c.2 = false)
    (m : CacheMeta) (data : Bytes) :
    Base.run (Fill.onTask clock) ⟨none, some (m, data), none⟩
        (chunks.map fun c => HttpTask.body c.1 c.2) =
      ⟨none, some (m, data ++ chunks.flatMap fun c => c.1.getD []), none⟩ := by
  induction chunks generalizing data with
  | nil => simp
  | cons c chunks ih =>
    obtain ⟨d, e⟩ := c
    obtain rfl : e = false := hopen _ List.mem_cons_self
    have hstep : (⟨none, some (m, data), none⟩ : Fill).onTask clock (.body d false) =
        ⟨none, some (m, data ++ d.getD []), none⟩ := rfl
    rw [List.map_cons, Base.run_cons, hstep,
      ih (fun c hc => hopen c (List.mem_cons_of_mem _ hc))]
    simp

-- ... and that one disables the cache before it is cached.
theorem chunks_closed (clock : Clock) (chunks : List (Option Bytes × Bool))
    (hend : ∃ c ∈ chunks, c.2 = true)
    (m : CacheMeta) (data : Bytes) :
    (Base.run (Fill.onTask clock) ⟨none, some (m, data), none⟩
        (chunks.map fun c => HttpTask.body c.1 c.2)).miss = none ∧
      (Base.run (Fill.onTask clock) ⟨none, some (m, data), none⟩
        (chunks.map fun c => HttpTask.body c.1 c.2)).committed = none := by
  induction chunks generalizing data with
  | nil =>
    obtain ⟨c, hc, -⟩ := hend
    cases hc
  | cons c chunks ih =>
    obtain ⟨d, e⟩ := c
    rw [List.map_cons, Base.run_cons]
    cases e with
    | true => exact closed_run _ (chunks_noHeader chunks) _ rfl
    | false =>
      refine ih ?_ _
      obtain ⟨c, hc, hc2⟩ := hend
      rcases List.mem_cons.mp hc with rfl | hc
      · cases hc2
      · exact ⟨c, hc, hc2⟩

theorem trailer_ok (f : Fill) (ht : TrailerOk t) : f.onTask clock (.trailer t) = f := by
  unfold TrailerOk at ht
  simp [Fill.onTask, upstreamResponseTrailerFilter, ht, GrpcStatus.isOk]

theorem trailer_rejected (clock : Clock) (f : Fill) (ht : ¬ TrailerOk t) :
    (f.onTask clock (.trailer t)).miss = none ∧
      (f.onTask clock (.trailer t)).committed = f.committed := by
  unfold TrailerOk at ht
  simp only [Fill.onTask, upstreamResponseTrailerFilter]
  split
  · exact ⟨rfl, rfl⟩
  next status hp =>
    -- a status that parses and is not 0
    have hcode : status.code ≠ 0 := by
      intro hcode
      obtain ⟨code⟩ := status
      simp only at hcode
      exact ht (by rw [hp, hcode])
    simp [GrpcStatus.isOk, hcode, Fill.disable]

-- An open miss survives to the end unless a trailer takes it away.
theorem ending_committed (m : CacheMeta × Bytes) (trailer : Option HeaderMap) :
    (Base.run (Fill.onTask clock) ⟨none, some m, none⟩
        ((trailer.map HttpTask.trailer).toList ++ [.done])).committed.isSome = true ↔
      ∀ t, trailer = some t → TrailerOk t := by
  cases trailer with
  | none => simp [Base.run, Fill.onTask, Fill.finish]
  | some t =>
    simp only [Option.map_some, Option.toList_some, List.cons_append, List.nil_append,
      Base.run_cons, Base.run_nil, Option.some.injEq, forall_eq']
    by_cases hok : TrailerOk t
    · rw [trailer_ok _ hok]
      simp [Fill.onTask, Fill.finish, hok]
    · obtain ⟨hmiss, hcommitted⟩ := trailer_rejected clock ⟨none, some m, none⟩ hok
      rw [(closed_step clock _ hmiss .done (by simp)).2, hcommitted]
      simp [hok]

theorem fill_headerEnds (hr : r.headerEnds = true) :
    (UpstreamResponse.fill clock r).committed = some (responseCacheFilter clock r.header, []) := by
  obtain ⟨header, headerEnds, chunks, trailer⟩ := r
  simp only at hr
  subst hr
  have hnoheader : ∀ t ∈ (chunks.map fun c => HttpTask.body c.1 c.2) ++
      ((trailer.map HttpTask.trailer).toList ++ [.done]), ∀ resp e, t ≠ .header resp e := by
    intro t ht
    rcases List.mem_append.mp ht with ht | ht
    · exact chunks_noHeader chunks t ht
    · exact ending_noHeader trailer t ht
  -- committed with the header; nothing later takes it back
  have hfill : (UpstreamResponse.mk header true chunks trailer).fill clock =
      Base.run (Fill.onTask clock) ⟨none, none, some (responseCacheFilter clock header, [])⟩
        ((chunks.map fun c => HttpTask.body c.1 c.2) ++
          ((trailer.map HttpTask.trailer).toList ++ [.done])) := by
    rw [← List.append_assoc]
    rfl
  rw [hfill]
  exact (closed_run _ hnoheader _ rfl).2

theorem fill_headerOpen (hr : r.headerEnds = false) :
    (UpstreamResponse.fill clock r) =
      Base.run (Fill.onTask clock)
        (Base.run (Fill.onTask clock) ⟨none, some (responseCacheFilter clock r.header, []), none⟩
          (r.chunks.map fun c => HttpTask.body c.1 c.2))
        ((r.trailer.map HttpTask.trailer).toList ++ [.done]) := by
  obtain ⟨header, headerEnds, chunks, trailer⟩ := r
  simp only at hr
  subst hr
  rw [← Base.run_append, ← List.append_assoc]
  rfl

theorem committed_iff (clock : Clock) (r : UpstreamResponse) :
    (r.fill clock).committed.isSome = true ↔
      r.headerEnds = true ∨
        (¬ (∃ c ∈ r.chunks, c.2 = true) ∧ ∀ t, r.trailer = some t → TrailerOk t) := by
  cases hr : r.headerEnds with
  | true => simp [fill_headerEnds hr]
  | false =>
    rw [fill_headerOpen hr]
    simp only [Bool.false_eq_true, false_or]
    by_cases hend : ∃ c ∈ r.chunks, c.2 = true
    · obtain ⟨hmiss, hcommitted⟩ :=
        chunks_closed clock r.chunks hend (responseCacheFilter clock r.header) []
      rw [(closed_run _ (ending_noHeader r.trailer) _ hmiss).2, hcommitted]
      simp only [Option.isSome_none, Bool.false_eq_true, false_iff]
      exact fun h => h.1 hend
    · have hopen : ∀ c ∈ r.chunks, c.2 = false := fun c hc =>
        Bool.eq_false_iff.mpr fun hc2 => hend ⟨c, hc, hc2⟩
      rw [chunks_gathered r.chunks hopen, ending_committed]
      simp [hend]

def CachesOnlySuccess (clock : Clock) (r : UpstreamResponse) : Prop :=
  (r.fill clock).committed.isSome = true → ∃ t, r.trailer = some t ∧ TrailerOk t

-- The stream comes to an end that one of the filters sees: unless the header
-- itself ends it, by an end-of-stream chunk or by a trailer.
def EndIsChecked (r : UpstreamResponse) : Prop :=
  if r.headerEnds then ∃ t, r.trailer = some t ∧ TrailerOk t
  else (∃ c ∈ r.chunks, c.2 = true) ∨ r.trailer.isSome = true

theorem caches_only_success_iff (clock : Clock) (r : UpstreamResponse) :
    CachesOnlySuccess clock r ↔ EndIsChecked r := by
  unfold CachesOnlySuccess EndIsChecked
  rw [committed_iff]
  cases r.headerEnds with
  | true => simp
  | false =>
    cases r.trailer with
    | none => simp
    | some t =>
      simp only [Bool.false_eq_true, false_or, Option.some.injEq, forall_eq', exists_eq_left',
        Option.isSome_some, or_true, ↓reduceIte, iff_true]
      exact fun h => h.2

-- A "Trailers-Only" response: status 5, not found, in the header.
def trailersOnly : UpstreamResponse where
  header := ⟨200, [(⟨ascii "grpc-status", by decide⟩, ⟨ascii "5", by decide⟩)]⟩
  headerEnds := true
  chunks := []
  trailer := none

theorem trailersOnly_is_cached : ¬ CachesOnlySuccess ⟨0, 0, le_rfl⟩ trailersOnly := by
  unfold CachesOnlySuccess
  intro h
  obtain ⟨t, ht, -⟩ := h (by decide)
  cases ht

end Grcache.Proxy
