import Grcache.Proxy.GrpcPath
import Grcache.Proxy.Response

/-!
# The trailers of a cached response

`GrpcStatus::parse` leaves the number to `str::parse::<u8>`, which takes any
number of leading zeros and one plus. The trailers that let a response into the
cache are therefore those whose first `grpc-status` is a row of zeros, perhaps
behind a plus.
-/

namespace Grcache.Proxy

open Base (Bytes)
open Http Grpc

-- ---------------------------------------------------------------------------
-- Numbers
-- ---------------------------------------------------------------------------

def decimal (acc : Nat) (digits : List Char) : Nat :=
  digits.foldl (fun acc c => acc * 10 + (c.toNat - '0'.toNat)) acc

theorem le_decimal (acc : Nat) (digits : List Char) : acc ≤ decimal acc digits := by
  induction digits generalizing acc with
  | nil => exact le_rfl
  | cons c digits ih =>
    have hle : acc ≤ acc * 10 + (c.toNat - '0'.toNat) := by omega
    exact hle.trans (ih _)

-- A number that overflows on the way is too large in the end.
theorem parseDigits_ok_iff {code : UInt8} (hacc : acc < 256) : parseDigits acc cs = .ok code ↔
    (∀ c ∈ cs, c.isDigit = true) ∧ decimal acc cs = code.toNat := by
  induction cs generalizing acc with
  | nil =>
    simp only [parseDigits, Except.ok.injEq, List.not_mem_nil, false_implies, implies_true,
      true_and, decimal, List.foldl_nil]
    rw [← UInt8.toNat_inj, UInt8.toNat_ofNat_of_lt' hacc]
  | cons c cs ih =>
    simp only [parseDigits]
    cases hdigit : c.isDigit with
    | false => simp [hdigit]
    | true =>
      have hall : (∀ d ∈ c :: cs, d.isDigit = true) ↔ ∀ d ∈ cs, d.isDigit = true := by
        simp [hdigit]
      simp only [hall, not_true_eq_false, ↓reduceIte]
      split
      next hlarge =>
        have hle := le_decimal (acc * 10 + (c.toNat - '0'.toNat)) cs
        have hlt := code.toNat_lt
        refine ⟨nofun, fun h => absurd h.2 ?_⟩
        simp only [decimal, List.foldl_cons] at hle ⊢
        omega
      next hsmall => exact ih (Nat.not_le.mp hsmall)

structure IsNumber (cs : List Char) (n : Nat) : Prop where
  digits : ∃ digits, (cs = digits ∨ cs = '+' :: digits) ∧ digits ≠ [] ∧
    (∀ c ∈ digits, c.isDigit = true) ∧ decimal 0 digits = n

theorem parseU8_ok_iff {code : UInt8} : parseU8 cs = .ok code ↔ IsNumber cs code.toNat := by
  have hplus : '+'.isDigit = false := by decide
  have hparse : ∀ cs, parseDigits 0 cs = .ok code ↔
      (∀ c ∈ cs, c.isDigit = true) ∧ decimal 0 cs = code.toNat :=
    fun cs => parseDigits_ok_iff (by decide)
  unfold parseU8
  split
  · refine ⟨nofun, ?_⟩
    rintro ⟨digits, hcs | hcs, hne, -⟩
    · exact absurd hcs.symm hne
    · cases hcs
  · refine ⟨nofun, ?_⟩
    rintro ⟨digits, hcs | hcs, hne, hall, -⟩
    · have hbad := hall '+' (by simp [← hcs])
      rw [hplus] at hbad
      cases hbad
    · exact absurd (List.cons.inj hcs).2.symm hne
  next cs hne =>
    rw [hparse]
    constructor
    · rintro ⟨hall, hvalue⟩
      exact ⟨cs, .inr rfl, fun h => hne h, hall, hvalue⟩
    · rintro ⟨digits, hcs | hcs, -, hall, hvalue⟩
      · have hbad := hall '+' (by simp [← hcs])
        rw [hplus] at hbad
        cases hbad
      · obtain rfl := (List.cons.inj hcs).2
        exact ⟨hall, hvalue⟩
  next hempty hone hlead =>
    rw [hparse]
    constructor
    · rintro ⟨hall, hvalue⟩
      exact ⟨cs, .inl rfl, fun h => hempty h, hall, hvalue⟩
    · rintro ⟨digits, rfl | rfl, hne, hall, hvalue⟩
      · exact ⟨hall, hvalue⟩
      · exact absurd rfl (hlead digits)

theorem decimal_eq_zero (h : ∀ c ∈ digits, c.isDigit = true) :
    decimal 0 digits = 0 ↔ ∀ c ∈ digits, c = '0' := by
  induction digits with
  | nil => simp [decimal]
  | cons c digits ih =>
    obtain ⟨hc, hdigits⟩ := List.forall_mem_cons.mp h
    have hcons : decimal 0 (c :: digits) = decimal (c.toNat - '0'.toNat) digits := by
      simp [decimal]
    rw [hcons, List.forall_mem_cons, ← ih hdigits]
    constructor
    · intro hzero
      have hle := le_decimal (c.toNat - '0'.toNat) digits
      have hsub : c.toNat - '0'.toNat = 0 := by omega
      have hge : '0'.toNat ≤ c.toNat := by
        simp only [Char.isDigit, Bool.and_eq_true, decide_eq_true_eq] at hc
        exact hc.1
      refine ⟨Char.toNat_inj.mp (by omega), ?_⟩
      rw [hsub] at hzero
      exact hzero
    · rintro ⟨rfl, hzero⟩
      simpa using hzero

theorem isNumber_zero : IsNumber cs 0 ↔
    ∃ n, cs = List.replicate (n + 1) '0' ∨ cs = '+' :: List.replicate (n + 1) '0' := by
  constructor
  · rintro ⟨digits, hcs, hne, hall, hvalue⟩
    have hzeros := (decimal_eq_zero hall).mp hvalue
    obtain ⟨n, hn⟩ := Nat.exists_eq_succ_of_ne_zero (List.length_pos_iff.mpr hne).ne'
    obtain rfl : digits = List.replicate (n + 1) '0' := List.eq_replicate_iff.mpr ⟨hn, hzeros⟩
    exact ⟨n, hcs⟩
  · rintro ⟨n, hcs⟩
    have hzeros : ∀ c ∈ List.replicate (n + 1) '0', c = '0' :=
      fun _ hc => List.eq_of_mem_replicate hc
    have hall : ∀ c ∈ List.replicate (n + 1) '0', c.isDigit = true := by
      intro c hc
      rw [hzeros c hc]
      decide
    exact ⟨_, hcs, by simp, hall, (decimal_eq_zero hall).mpr hzeros⟩

-- ---------------------------------------------------------------------------
-- Trailers
-- ---------------------------------------------------------------------------

/-- The first `grpc-status` is a row of zeros, perhaps behind a plus. -/
def StatusZero (trailers : HeaderMap) : Prop :=
  ∃ value, HeaderMap.get trailers (ascii "grpc-status") = some value ∧
    ∃ (status : String) (n : Nat), value.bytes = utf8 status ∧
      (status.toList = List.replicate (n + 1) '0' ∨
        status.toList = '+' :: List.replicate (n + 1) '0')

theorem status_ok_iff {code : UInt8} : GrpcStatus.parse trailers = .ok ⟨code⟩ ↔
    ∃ value, HeaderMap.get trailers (ascii "grpc-status") = some value ∧
      ∃ status : String, value.bytes = utf8 status ∧ IsNumber status.toList code.toNat := by
  unfold GrpcStatus.parse
  cases hget : HeaderMap.get trailers (ascii "grpc-status") with
  | none => simp
  | some value =>
    simp only [Option.some.injEq, exists_eq_left']
    cases hutf8 : fromUtf8 value.bytes with
    | none =>
      refine ⟨nofun, ?_⟩
      rintro ⟨status, hbytes, -⟩
      rw [fromUtf8_eq_some.mpr hbytes.symm] at hutf8
      cases hutf8
    | some status =>
      have hbytes := fromUtf8_eq_some.mp hutf8
      have hstatus : ∀ status', value.bytes = utf8 status' ↔ status' = status := by
        intro status'
        constructor
        · intro h
          rw [fromUtf8_eq_some.mpr h.symm] at hutf8
          exact Option.some.inj hutf8
        · rintro rfl
          exact hbytes.symm
      simp only [hstatus, exists_eq_left, ← parseU8_ok_iff]
      cases parseU8 status.toList <;> simp

theorem trailerOk_iff : TrailerOk trailers ↔ StatusZero trailers := by
  unfold TrailerOk StatusZero
  rw [status_ok_iff]
  simp only [UInt8.toNat_zero, isNumber_zero, exists_and_left]

-- ---------------------------------------------------------------------------
-- What is committed
-- ---------------------------------------------------------------------------

/-- The response ends with its header, or neither with a chunk nor with trailers
that say anything but zero. -/
def Cacheable (r : UpstreamResponse) : Prop :=
  r.headerEnds = true ∨
    (¬ (∃ c ∈ r.chunks, c.2 = true) ∧ ∀ t, r.trailer = some t → StatusZero t)

theorem cacheable_iff (clock : Clock) (r : UpstreamResponse) :
    Cacheable r ↔ (r.fill clock).committed.isSome = true := by
  simp only [Cacheable, committed_iff, trailerOk_iff]

def bodyOf (r : UpstreamResponse) : Bytes :=
  if r.headerEnds then [] else r.chunks.flatMap fun c => c.1.getD []

theorem ending_commits {trailer : Option HeaderMap}
    (h : (Base.run (Fill.onTask clock) ⟨none, some m, none⟩
      ((trailer.map HttpTask.trailer).toList ++ [.done])).committed = some m') : m' = m := by
  cases trailer with
  | none =>
    simp only [Option.map_none, Option.toList_none, List.nil_append, Base.run_cons, Base.run_nil,
      Fill.onTask, Fill.finish, Option.some.injEq] at h
    exact h.symm
  | some t =>
    simp only [Option.map_some, Option.toList_some, List.cons_append, List.nil_append,
      Base.run_cons, Base.run_nil] at h
    by_cases hok : TrailerOk t
    · rw [trailer_ok _ hok] at h
      simp only [Fill.onTask, Fill.finish, Option.some.injEq] at h
      exact h.symm
    · obtain ⟨hmiss, hcommitted⟩ := trailer_rejected clock ⟨none, some m, none⟩ hok
      rw [(closed_step clock _ hmiss .done (by simp)).2, hcommitted] at h
      cases h

/-- A response is committed whole, or not at all. -/
theorem committed_eq (h : (UpstreamResponse.fill clock r).committed = some m) :
    m = (responseCacheFilter clock r.header, bodyOf r) := by
  unfold bodyOf
  cases hr : r.headerEnds with
  | true =>
    rw [fill_headerEnds hr] at h
    exact (Option.some.inj h).symm
  | false =>
    rw [fill_headerOpen hr] at h
    by_cases hend : ∃ c ∈ r.chunks, c.2 = true
    · obtain ⟨hmiss, hcommitted⟩ :=
        chunks_closed clock r.chunks hend (responseCacheFilter clock r.header) []
      rw [(closed_run _ (ending_noHeader r.trailer) _ hmiss).2, hcommitted] at h
      cases h
    · have hopen : ∀ c ∈ r.chunks, c.2 = false := fun c hc =>
        Bool.eq_false_iff.mpr fun hc2 => hend ⟨c, hc, hc2⟩
      rw [chunks_gathered r.chunks hopen] at h
      exact ending_commits h

/-- What any upstream response leaves in the cache: the whole of a cacheable
one, and nothing of any other. -/
theorem committed_exactly (clock : Clock) (r : UpstreamResponse) (m : CacheMeta × Bytes) :
    (r.fill clock).committed = some m ↔
      Cacheable r ∧ m = (responseCacheFilter clock r.header, bodyOf r) := by
  rw [cacheable_iff clock r]
  constructor
  · intro h
    exact ⟨by rw [h]; rfl, committed_eq h⟩
  · rintro ⟨hsome, rfl⟩
    obtain ⟨m, hm⟩ := Option.isSome_iff_exists.mp hsome
    rw [hm, committed_eq hm]

end Grcache.Proxy
