import Grcache.Base.Runs
import Grcache.Base.Slots
import Grcache.Base.Watch
import Grcache.Cache.RedisReplicas
import Mathlib.Data.Finset.Sort
import Mathlib.Data.Prod.Lex

/-!
# The pool maintenance loop

`RedisPools` keeps one connection pool for each backend that discovery has
published. A background loop waits for the published set to change, takes a copy
of it, drops the pools it has no backend for and builds the missing ones, one
after the other. Discovery may publish again at any time, and requests look
pools up at any time.

The loop and the lookups are cut at their awaits and at their operations on the
shared map.
-/

namespace Grcache.Cache

open Base (Watch Receiver)
open Discovery (Backend)

-- The derived order: address and port, then weight.
def backendKey (b : Backend) : Nat ×ₗ (Nat ×ₗ Nat) :=
  toLex (b.ip.toNat, toLex (b.port.toNat, b.weight))

theorem backendKey_injective : Function.Injective backendKey := by
  rintro ⟨ip, port, weight⟩ ⟨ip', port', weight'⟩ h
  have h := congrArg (fun k => (ofLex k, ofLex (ofLex k).2)) h
  simp only [backendKey, ofLex_toLex, Prod.mk.injEq, UInt32.toNat_inj, UInt16.toNat_inj] at h
  obtain ⟨⟨rfl, -⟩, rfl, rfl⟩ := h
  rfl

instance instLinearOrderBackend : LinearOrder Backend :=
  LinearOrder.lift' backendKey backendKey_injective

inductive Stage
  | waiting
  | changed
  | retaining (backends : Finset Backend)
  | adding (backends : Finset Backend) (rest : List Backend)
  /-- Not in the map when it was looked up; its pool is being built. -/
  | building (backends : Finset Backend) (backend : Backend) (rest : List Backend)
  | panicked
  deriving DecidableEq

/-- A `pool_for_hash` call. The balancer offers backends in the order of its
ring for the hash, each with its health. -/
inductive PoolCall
  | selecting (offered : List (Backend × Bool))
  | getting (backend : Backend)
  | returned (backend : Option Backend) (pool : Option Pool)
  deriving DecidableEq

structure Maintenance where
  backends : Watch (Finset Backend)
  changedHandler : Receiver
  stage : Stage
  pools : Backend → Option Pool
  built : Nat
  calls : List PoolCall

def Maintenance.init : Maintenance :=
  ⟨Watch.channel ∅, Receiver.markChanged ⟨some 0⟩, .waiting, fun _ => none, 0, []⟩

variable (s : Maintenance)

/-- How a discovery loop sends what it resolved. -/
def replaceIfNew (backends val : Finset Backend) : Finset Backend × Bool :=
  if val ≠ backends then (backends, true) else (val, false)

def Maintenance.publish (backends : Finset Backend) : Maintenance :=
  { s with backends := s.backends.sendIfModified (replaceIfNew backends) }

def Maintenance.maintain : Maintenance :=
  match s.stage with
  | .waiting =>
    match s.changedHandler.changed s.backends with
    | .pending => s
    | .changed changedHandler => { s with changedHandler, stage := .changed }
    | .closed => { s with stage := .panicked }
  | .changed => { s with stage := .retaining s.backends.value }
  | .retaining backends =>
    { s with
      pools := fun k => if k ∈ backends then s.pools k else none
      stage := .adding backends (backends.sort (· ≤ ·)) }
  | .adding _ [] => { s with stage := .waiting }
  | .adding backends (backend :: rest) =>
    if (s.pools backend).isSome then { s with stage := .adding backends rest }
    else { s with stage := .building backends backend rest }
  | .building backends backend rest =>
    { s with
      pools := Function.update s.pools backend (some ⟨backend, s.built⟩)
      built := s.built + 1
      stage := .adding backends rest }
  | .panicked => s

def PoolCall.proceed (pools : Backend → Option Pool) : PoolCall → PoolCall
  | .selecting [] => .returned none none
  | .selecting ((backend, healthy) :: offered) =>
    if !healthy then .selecting offered
    else if (pools backend).isSome then .getting backend
    else .selecting offered
  | .getting backend => .returned (some backend) (pools backend)
  | .returned backend pool => .returned backend pool

inductive PoolAction
  | publish (backends : Finset Backend)
  | close
  | maintain
  | poolForHash (offered : List (Backend × Bool))
  | proceed (i : Nat)

def Maintenance.step : PoolAction → Maintenance
  | .publish backends => s.publish backends
  | .close => { s with backends := s.backends.close }
  | .maintain => s.maintain
  | .poolForHash offered => { s with calls := s.calls ++ [.selecting offered] }
  | .proceed i => { s with calls := s.calls.modify i (PoolCall.proceed s.pools) }

variable {s s' : Maintenance}

-- ---------------------------------------------------------------------------
-- Copies of the published set
-- ---------------------------------------------------------------------------

theorem replaceIfNew_honest (backends : Finset Backend) : Base.Honest (replaceIfNew backends) := by
  intro val h
  unfold replaceIfNew at *
  split at h
  · cases h
  next hsame => rw [if_neg hsame]

/-- What the newest version, once seen, is to the loop. -/
def Stage.Reflects (pools : Backend → Option Pool) : Stage → Finset Backend → Prop
  | .waiting, value => ∀ b, (pools b).isSome ↔ b ∈ value
  | .retaining backends, value => value = backends
  | .adding backends _, value => value = backends
  | .building backends _ _, value => value = backends
  | .changed, _ => True
  | .panicked, _ => True

/-- The pools are those of the copy but for the backends still to come. -/
structure Covers (pools : Backend → Option Pool) (backends : Finset Backend)
    (rest : List Backend) : Prop where
  listed : rest ⊆ backends.sort (· ≤ ·)
  known : ∀ b, (pools b).isSome → b ∈ backends
  covered : ∀ b ∈ backends, (pools b).isSome ∨ b ∈ rest

def Stage.Progress (pools : Backend → Option Pool) : Stage → Prop
  | .adding backends rest => Covers pools backends rest
  | .building backends backend rest => Covers pools backends (backend :: rest)
  | _ => True

section
variable {pools : Backend → Option Pool} {backends : Finset Backend}

theorem Covers.retained (pools : Backend → Option Pool) (backends : Finset Backend) :
    Covers (fun k => if k ∈ backends then pools k else none) backends (backends.sort (· ≤ ·)) where
  listed := List.Subset.refl _
  known b hb := by
    by_contra hmem
    simp [hmem] at hb
  covered b hb := .inr ((Finset.mem_sort _).mpr hb)

theorem Covers.head_mem (h : Covers pools backends (backend :: rest)) : backend ∈ backends :=
  (Finset.mem_sort _).mp (h.listed List.mem_cons_self)

theorem Covers.present (h : Covers pools backends (backend :: rest))
    (hpool : (pools backend).isSome) : Covers pools backends rest where
  listed b hb := h.listed (List.mem_cons_of_mem _ hb)
  known := h.known
  covered b hb := by
    rcases h.covered b hb with hsome | hmem
    · exact .inl hsome
    · rcases List.mem_cons.mp hmem with rfl | hmem
      · exact .inl hpool
      · exact .inr hmem

theorem Covers.insert (h : Covers pools backends (backend :: rest)) (p : Pool) :
    Covers (Function.update pools backend (some p)) backends rest where
  listed b hb := h.listed (List.mem_cons_of_mem _ hb)
  known b hb := by
    by_cases hbb : b = backend
    · exact hbb ▸ h.head_mem
    · exact h.known b (by simpa [hbb] using hb)
  covered b hb := by
    by_cases hbb : b = backend
    · simp [hbb]
    · rcases h.covered b hb with hsome | hmem
      · simp [hbb, hsome]
      · exact .inr ((List.mem_cons.mp hmem).resolve_left hbb)

theorem Covers.done (h : Covers pools backends []) (b : Backend) :
    (pools b).isSome ↔ b ∈ backends :=
  ⟨h.known b, fun hb => (h.covered b hb).resolve_right List.not_mem_nil⟩

end

structure InStep (s : Maintenance) : Prop where
  follows : Base.Follows s.changedHandler s.backends (s.stage.Reflects s.pools)
  progress : s.stage.Progress s.pools
  own : ∀ b p, s.pools b = some p → p.backend = b

theorem InStep.init : InStep .init where
  follows := ⟨fun _ h => (nomatch h), fun h => (nomatch h)⟩
  progress := trivial
  own _ _ h := nomatch h

inductive Turn (s : Maintenance) : Maintenance → Prop
  | idle : Turn s s
  | changed (hstage : s.stage = .waiting) :
      Turn s { s with changedHandler := ⟨some s.backends.version⟩, stage := .changed }
  | closed (hstage : s.stage = .waiting) : Turn s { s with stage := .panicked }
  | copy (hstage : s.stage = .changed) : Turn s { s with stage := .retaining s.backends.value }
  | retain (hstage : s.stage = .retaining backends) :
      Turn s { s with
        pools := fun k => if k ∈ backends then s.pools k else none
        stage := .adding backends (backends.sort (· ≤ ·)) }
  | done (hstage : s.stage = .adding backends []) : Turn s { s with stage := .waiting }
  | present (hstage : s.stage = .adding backends (backend :: rest))
      (hpool : (s.pools backend).isSome) : Turn s { s with stage := .adding backends rest }
  | missing (hstage : s.stage = .adding backends (backend :: rest))
      (hpool : s.pools backend = none) : Turn s { s with stage := .building backends backend rest }
  | insert (hstage : s.stage = .building backends backend rest) :
      Turn s { s with
        pools := Function.update s.pools backend (some ⟨backend, s.built⟩)
        built := s.built + 1
        stage := .adding backends rest }

theorem maintain_turn (s : Maintenance) : Turn s s.maintain := by
  unfold Maintenance.maintain
  split
  next hstage =>
    unfold Receiver.changed
    by_cases hseen : s.changedHandler.seen ≠ some s.backends.version
    · simp only [if_pos hseen]
      exact .changed hstage
    · simp only [if_neg hseen]
      cases s.backends.closed
      · exact .idle
      · exact .closed hstage
  next hstage => exact .copy hstage
  next hstage => exact .retain hstage
  next hstage => exact .done hstage
  next hstage =>
    split
    next hpool => exact .present hstage hpool
    next hpool => exact .missing hstage (by simpa using hpool)
  next hstage => exact .insert hstage
  next => exact .idle

theorem InStep.turn (h : InStep s) (ht : Turn s s') : InStep s' := by
  obtain ⟨hfollows, hprogress, hown⟩ := h
  cases ht with
  | idle => exact ⟨hfollows, hprogress, hown⟩
  | changed hstage => exact ⟨⟨fun v hv => (Option.some.inj hv).ge, fun _ => trivial⟩, trivial, hown⟩
  | closed hstage => exact ⟨⟨hfollows.seen_le, fun _ => trivial⟩, trivial, hown⟩
  | copy hstage => exact ⟨⟨hfollows.seen_le, fun _ => rfl⟩, trivial, hown⟩
  | @retain backends hstage =>
    rw [hstage] at hfollows
    refine ⟨⟨hfollows.seen_le, hfollows.current⟩, Covers.retained s.pools backends, ?_⟩
    intro b p hp
    simp only at hp
    split at hp
    · exact hown b p hp
    · cases hp
  | @done backends hstage =>
    rw [hstage] at hfollows hprogress
    -- the whole copy is applied
    refine ⟨⟨hfollows.seen_le, fun hseen b => ?_⟩, trivial, hown⟩
    rw [show s.backends.value = backends from hfollows.current hseen]
    exact Covers.done hprogress b
  | present hstage hpool =>
    rw [hstage] at hfollows hprogress
    exact ⟨⟨hfollows.seen_le, hfollows.current⟩, Covers.present hprogress hpool, hown⟩
  | missing hstage hpool =>
    rw [hstage] at hfollows hprogress
    exact ⟨⟨hfollows.seen_le, hfollows.current⟩, hprogress, hown⟩
  | @insert backends backend rest hstage =>
    rw [hstage] at hfollows hprogress
    refine ⟨⟨hfollows.seen_le, hfollows.current⟩, Covers.insert hprogress _, ?_⟩
    intro b p hp
    by_cases hbb : b = backend
    · subst hbb
      simp only [Function.update_self] at hp
      cases hp
      rfl
    · simp only [Function.update_of_ne hbb] at hp
      exact hown b p hp

theorem InStep.step (h : InStep s) (a : PoolAction) : InStep (s.step a) := by
  cases a with
  | publish backends =>
    exact ⟨h.follows.sendIfModified (replaceIfNew_honest backends), h.progress, h.own⟩
  | close => exact ⟨h.follows.close, h.progress, h.own⟩
  | maintain => exact h.turn (maintain_turn s)
  | poolForHash offered => exact ⟨h.follows, h.progress, h.own⟩
  | proceed i => exact ⟨h.follows, h.progress, h.own⟩

-- ---------------------------------------------------------------------------
-- A pool that stays
-- ---------------------------------------------------------------------------

def Stage.copy : Stage → Option (Finset Backend)
  | .retaining backends => some backends
  | .adding backends _ => some backends
  | .building backends _ _ => some backends
  | .waiting | .changed | .panicked => none

/-- The loop will neither drop the pool nor build another. -/
structure Stays (b : Backend) (p : Pool) (s : Maintenance) : Prop where
  pool : s.pools b = some p
  copied : ∀ backends, s.stage.copy = some backends → b ∈ backends
  built : ∀ backends rest, s.stage ≠ .building backends b rest

/-- The step does not take a copy without the backend. -/
def TakesWith (b : Backend) (s : Maintenance) (a : PoolAction) : Prop :=
  a = .maintain → s.stage = .changed → b ∈ s.backends.value

theorem Stays.turn (h : Stays b p s) (hc : s.stage = .changed → b ∈ s.backends.value)
    (ht : Turn s s') : Stays b p s' := by
  obtain ⟨hpool, hcopied, hbuilt⟩ := h
  cases ht with
  | idle => exact ⟨hpool, hcopied, hbuilt⟩
  | changed hstage => exact ⟨hpool, nofun, nofun⟩
  | closed hstage => exact ⟨hpool, nofun, nofun⟩
  | copy hstage =>
    refine ⟨hpool, ?_, nofun⟩
    rintro _ ⟨rfl⟩
    exact hc hstage
  | @retain backends hstage =>
    have hb := hcopied backends (by rw [hstage]; rfl)
    refine ⟨?_, ?_, nofun⟩
    · simp only [hb, ↓reduceIte]
      exact hpool
    · rintro _ ⟨rfl⟩
      exact hb
  | done hstage => exact ⟨hpool, nofun, nofun⟩
  | present hstage hp =>
    refine ⟨hpool, ?_, nofun⟩
    rintro _ ⟨rfl⟩
    exact hcopied _ (by rw [hstage]; rfl)
  | @missing backends backend rest hstage hp =>
    refine ⟨hpool, ?_, ?_⟩
    · rintro _ ⟨rfl⟩
      exact hcopied _ (by rw [hstage]; rfl)
    · rintro _ _ heq
      cases heq
      simp [hp] at hpool
  | @insert backends backend rest hstage =>
    have hne : b ≠ backend := by
      rintro rfl
      exact hbuilt _ _ hstage
    refine ⟨?_, ?_, nofun⟩
    · simp only [Function.update_of_ne hne]
      exact hpool
    · rintro _ ⟨rfl⟩
      exact hcopied _ (by rw [hstage]; rfl)

theorem Stays.step (h : Stays b p s) (hc : TakesWith b s a) : Stays b p (s.step a) := by
  cases a with
  | maintain => exact h.turn (hc rfl) (maintain_turn s)
  | publish backends => exact ⟨h.pool, h.copied, h.built⟩
  | close => exact ⟨h.pool, h.copied, h.built⟩
  | poolForHash offered => exact ⟨h.pool, h.copied, h.built⟩
  | proceed i => exact ⟨h.pool, h.copied, h.built⟩

-- Only the loop makes pools, and only for a backend of its copy.
theorem InStep.created (h : InStep s) (hbefore : s.pools b ≠ some p)
    (hafter : (s.step a).pools b = some p) : Stays b p (s.step a) := by
  cases a with
  | maintain =>
    have ht := maintain_turn s
    simp only [Maintenance.step] at hafter ⊢
    generalize s.maintain = s' at ht hafter
    have hprogress := h.progress
    cases ht with
    | @insert backends backend rest hstage =>
      by_cases hb : b = backend
      · subst hb
        rw [hstage] at hprogress
        refine ⟨hafter, ?_, nofun⟩
        rintro _ ⟨rfl⟩
        exact Covers.head_mem hprogress
      · simp only [Function.update_of_ne hb] at hafter
        exact absurd hafter hbefore
    | retain hstage =>
      simp only at hafter
      split at hafter
      · exact absurd hafter hbefore
      · cases hafter
    | _ => exact absurd hafter hbefore
  | publish backends => exact absurd hafter hbefore
  | close => exact absurd hafter hbefore
  | poolForHash offered => exact absurd hafter hbefore
  | proceed i => exact absurd hafter hbefore

-- ---------------------------------------------------------------------------
-- Lookups
-- ---------------------------------------------------------------------------

def after (as : List PoolAction) : Maintenance := Base.run Maintenance.step .init as

theorem after_snoc : after (as ++ [a]) = (after as).step a := Base.run_snoc

/-- The pool a call returned was in the map when it was taken from there. -/
def FromMap (as : List PoolAction) (i : Nat) (b : Backend) (p : Pool) : Prop :=
  ∃ pre, pre ++ [.proceed i] <+: as ∧ (after pre).calls[i]? = some (.getting b) ∧
    (after pre).pools b = some p

theorem FromMap.snoc (h : FromMap as i b p) : FromMap (as ++ [a]) i b p := by
  obtain ⟨pre, hp, h⟩ := h
  exact ⟨pre, hp.trans (List.prefix_append _ _), h⟩

theorem proceed_returned {call : PoolCall} (h : call.proceed pools = .returned (some b) (some p)) :
    call = .returned (some b) (some p) ∨ call = .getting b ∧ pools b = some p := by
  unfold PoolCall.proceed at h
  split at h
  · cases h
  · split at h
    · cases h
    · split at h <;> cases h
  · right
    simp only [PoolCall.returned.injEq, Option.some.injEq] at h
    obtain ⟨rfl, hp⟩ := h
    exact ⟨rfl, hp⟩
  · exact .inl h

theorem returned_fromMap (as : List PoolAction) :
    ∀ i b p, (after as).calls[i]? = some (.returned (some b) (some p)) → FromMap as i b p := by
  induction as using List.reverseRecOn with
  | nil =>
    intro i b p h
    simp [after, Maintenance.init] at h
  | append_singleton as a ih =>
    intro i b p h
    rw [after_snoc] at h
    cases a with
    | proceed j =>
      rcases Base.getElem?_modify_cases h with ⟨call, hcall, rfl, hret⟩ | ⟨hcall, -⟩
      · rcases proceed_returned hret.symm with rfl | ⟨rfl, hp⟩
        · exact (ih _ _ _ hcall).snoc
        · exact ⟨as, List.prefix_rfl, hcall, hp⟩
      · exact (ih _ _ _ hcall).snoc
    | poolForHash offered =>
      rcases Base.getElem?_snoc_cases h with hcall | ⟨-, hnew⟩
      · exact (ih _ _ _ hcall).snoc
      · cases hnew
    | publish backends => exact (ih _ _ _ h).snoc
    | close => exact (ih _ _ _ h).snoc
    | maintain =>
      have hcalls : ∀ {t}, Turn (after as) t → t.calls = (after as).calls := fun ht => by
        cases ht <;> rfl
      rw [Maintenance.step, hcalls (maintain_turn _)] at h
      exact (ih _ _ _ h).snoc

-- ---------------------------------------------------------------------------
-- Runs
-- ---------------------------------------------------------------------------

theorem after_inStep (as : List PoolAction) : InStep (after as) :=
  Base.run_invariant (C := fun _ _ => True) InStep.init (fun _ a h _ => h.step a) Base.always_true

/-- Whatever discovery publishes and whenever: a loop that waits and has seen
the newest version has a pool for exactly the published backends; a pool stays
as long as every copy taken since it was built has its backend; and a pool that
a lookup returns is its selected backend's, in the map when it was taken. -/
theorem pools_follow_backends (as : List PoolAction) :
    ((after as).stage = .waiting →
      (after as).changedHandler.seen = some (after as).backends.version →
      ∀ b, ((after as).pools b).isSome ↔ b ∈ (after as).backends.value) ∧
    (∀ a bs b p, (after as).pools b ≠ some p → (after (as ++ [a])).pools b = some p →
      Base.Always Maintenance.step (TakesWith b) (after (as ++ [a])) bs →
      (after (as ++ [a] ++ bs)).pools b = some p) ∧
    ∀ i b p, (after as).calls[i]? = some (.returned (some b) (some p)) →
      p.backend = b ∧ FromMap as i b p := by
  have hin := after_inStep as
  refine ⟨?_, ?_, ?_⟩
  · intro hstage hseen
    have hcurrent := hin.follows.current hseen
    rw [hstage] at hcurrent
    exact hcurrent
  · intro a bs b p hbefore hafter hcopies
    have hstays : Stays b p (after (as ++ [a])) := by
      rw [after_snoc] at hafter ⊢
      exact hin.created hbefore hafter
    have hrun := Base.run_invariant hstays (fun _ _ h hc => h.step hc) hcopies
    rw [after, Base.run_append]
    exact hrun.pool
  · intro i b p hret
    obtain ⟨pre, hpre, hcall, hpool⟩ := returned_fromMap as i b p hret
    exact ⟨(after_inStep pre).own b p hpool, pre, hpre, hcall, hpool⟩

end Grcache.Cache
