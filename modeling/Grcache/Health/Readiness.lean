import Grcache.Base.Runs
import Grcache.Base.Slots
import Grcache.Base.Watch
import Mathlib.Data.UInt

/-!
# Readiness

A `Health` counts the endpoints that block readiness. An endpoint's `ready` may
be called any number of times, from several threads at once, and is called once
more when the endpoint is dropped; the first call to clear the endpoint's flag
takes one off the counter, and the one that finds itself last sets the ready
flag.

A call is cut at its atomic operations. The counter wraps as an `AtomicU64`
does. `blocksReady`, `indicated`, `dropped` and `subtracted` are history: no
operation but `drop` reads them, which an endpoint goes through once.
-/

namespace Grcache.Health

open Base (Watch exists_split countP_modify getElem?_modify_cases mem_modify_cases)

structure HealthEndpoint where
  canIndicateReady : Bool
  blocksReady : Bool
  /-- `ready` was called. -/
  indicated : Bool
  dropped : Bool
  /-- It has taken its one off the counter. -/
  subtracted : Bool
  deriving DecidableEq, Repr

/-- The next operation of a `ready` call. -/
inductive Operation
  | swap
  | fetchSub
  | sendIfModified
  deriving DecidableEq, Repr

structure Call where
  endpoint : Nat
  next : Operation
  deriving DecidableEq, Repr

structure State where
  readyBlocks : UInt64
  ready : Watch Bool
  endpoints : List HealthEndpoint
  /-- The `ready` calls in progress. -/
  calls : List Call
  deriving DecidableEq, Repr

def HealthEndpoint.new (blocksReady : Bool) : HealthEndpoint :=
  ⟨blocksReady, blocksReady, false, false, false⟩

/-- `Health::new`, with its root endpoint. -/
def State.init : State := ⟨1, Watch.channel false, [.new true], []⟩

variable (s : State)

def State.add (blocksReady : Bool) : State :=
  { s with
    readyBlocks := if blocksReady then s.readyBlocks + 1 else s.readyBlocks
    endpoints := s.endpoints ++ [.new blocksReady] }

def State.onEndpoint (i : Nat) (f : HealthEndpoint → HealthEndpoint) : State :=
  { s with endpoints := s.endpoints.modify i f }

def State.beginCall (i : Nat) : State := { s with calls := s.calls ++ [⟨i, .swap⟩] }

def State.endCall (k : Nat) : State := { s with calls := s.calls.eraseIdx k }

def State.nextIs (k : Nat) (next : Operation) : State :=
  { s with calls := s.calls.modify k fun c => { c with next } }

def State.callReady (i : Nat) : State :=
  match s.endpoints[i]? with
  | none => s
  | some e =>
    if e.dropped then s
    else (s.onEndpoint i fun e => { e with indicated := true }).beginCall i

/-- The last owner drops the endpoint, when no call borrows it. -/
def State.drop (i : Nat) : State :=
  match s.endpoints[i]? with
  | none => s
  | some e =>
    if e.dropped ∨ ∃ c ∈ s.calls, c.endpoint = i then s
    else (s.onEndpoint i fun e => { e with dropped := true }).beginCall i

def setReady (v : Bool) : Bool × Bool :=
  let ready := v
  (true, !ready)

def State.proceed (k : Nat) : State :=
  match s.calls[k]? with
  | none => s
  | some c =>
    match c.next with
    | .swap =>
      match s.endpoints[c.endpoint]? with
      | none => s
      | some e =>
        let s := s.onEndpoint c.endpoint fun e => { e with canIndicateReady := false }
        if e.canIndicateReady then s.nextIs k .fetchSub else s.endCall k
    | .fetchSub =>
      let beforeCount := s.readyBlocks
      let s := State.onEndpoint { s with readyBlocks := s.readyBlocks - 1 } c.endpoint
        fun e => { e with subtracted := true }
      if beforeCount = 1 then s.nextIs k .sendIfModified else s.endCall k
    | .sendIfModified =>
      State.endCall { s with ready := s.ready.sendIfModified setReady } k

inductive Action
  | add (blocksReady : Bool)
  | callReady (i : Nat)
  | drop (i : Nat)
  | proceed (k : Nat)
  deriving DecidableEq, Repr

def State.step : Action → State
  | .add blocksReady => s.add blocksReady
  | .callReady i => s.callReady i
  | .drop i => s.drop i
  | .proceed k => s.proceed k

-- ---------------------------------------------------------------------------
-- Steps
-- ---------------------------------------------------------------------------

variable {s s' : State}

/-- `ready` has been called on the endpoint, by its users or by its drop. -/
def HealthEndpoint.Called (e : HealthEndpoint) : Prop := e.indicated = true ∨ e.dropped = true

structure Marks (f : HealthEndpoint → HealthEndpoint) : Prop where
  called : ∀ e, (f e).Called
  canIndicateReady : ∀ e, (f e).canIndicateReady = e.canIndicateReady
  blocksReady : ∀ e, (f e).blocksReady = e.blocksReady
  subtracted : ∀ e, (f e).subtracted = e.subtracted

inductive Turn (s : State) : State → Prop
  | idle : Turn s s
  | add (blocksReady : Bool) : Turn s (s.add blocksReady)
  | begin (he : s.endpoints[i]? = some e) (hf : Marks f) : Turn s ((s.onEndpoint i f).beginCall i)
  | take (hk : s.calls[k]? = some ⟨i, .swap⟩) (he : s.endpoints[i]? = some e)
      (hcan : e.canIndicateReady = true) :
      Turn s ((s.onEndpoint i fun e => { e with canIndicateReady := false }).nextIs k .fetchSub)
  | skip (hk : s.calls[k]? = some ⟨i, .swap⟩) (he : s.endpoints[i]? = some e)
      (hcan : e.canIndicateReady = false) :
      Turn s ((s.onEndpoint i fun e => { e with canIndicateReady := false }).endCall k)
  | last (hk : s.calls[k]? = some ⟨i, .fetchSub⟩) (hone : s.readyBlocks = 1) :
      Turn s ((State.onEndpoint { s with readyBlocks := s.readyBlocks - 1 } i
        fun e => { e with subtracted := true }).nextIs k .sendIfModified)
  | leave (hk : s.calls[k]? = some ⟨i, .fetchSub⟩) (hmore : s.readyBlocks ≠ 1) :
      Turn s ((State.onEndpoint { s with readyBlocks := s.readyBlocks - 1 } i
        fun e => { e with subtracted := true }).endCall k)
  | send (hk : s.calls[k]? = some ⟨i, .sendIfModified⟩) :
      Turn s (State.endCall { s with ready := s.ready.sendIfModified setReady } k)

theorem proceed_turn (s : State) (k : Nat) : Turn s (s.proceed k) := by
  unfold State.proceed
  cases hk : s.calls[k]? with
  | none => exact .idle
  | some c =>
    obtain ⟨i, next⟩ := c
    cases next with
    | swap =>
      simp only
      cases he : s.endpoints[i]? with
      | none => exact .idle
      | some e =>
        cases hcan : e.canIndicateReady with
        | false => simpa [hcan] using Turn.skip hk he hcan
        | true => simpa [hcan] using Turn.take hk he hcan
    | fetchSub =>
      simp only
      split
      next hone => exact .last hk hone
      next hmore => exact .leave hk hmore
    | sendIfModified => exact .send hk

theorem step_turn (s : State) (a : Action) : Turn s (s.step a) := by
  cases a with
  | add blocksReady => exact .add blocksReady
  | callReady i =>
    simp only [State.step, State.callReady]
    split
    · exact .idle
    next e he =>
      split
      · exact .idle
      · exact .begin he ⟨fun _ => .inl rfl, fun _ => rfl, fun _ => rfl, fun _ => rfl⟩
  | drop i =>
    simp only [State.step, State.drop]
    split
    · exact .idle
    next e he =>
      split
      · exact .idle
      · exact .begin he ⟨fun _ => .inr rfl, fun _ => rfl, fun _ => rfl, fun _ => rfl⟩
  | proceed k => exact proceed_turn s k

-- ---------------------------------------------------------------------------
-- The invariant
-- ---------------------------------------------------------------------------

variable {i k : Nat}

def HealthEndpoint.outstanding (e : HealthEndpoint) : Bool := e.blocksReady && !e.subtracted

/-- The blocking endpoints that have not performed their `fetch_sub`. -/
def State.outstanding (s : State) : Nat := s.endpoints.countP HealthEndpoint.outstanding

/-- Every blocking endpoint has one token: its flag, a call that is about to
subtract, or the subtraction made. -/
structure Counted (s : State) : Prop where
  token : ∀ (i : Nat) e, s.endpoints[i]? = some e →
    e.canIndicateReady.toNat + s.calls.count ⟨i, .fetchSub⟩ + e.subtracted.toNat =
      e.blocksReady.toNat
  called : ∀ c ∈ s.calls, ∃ e, s.endpoints[c.endpoint]? = some e ∧ e.Called
  started : ∀ (i : Nat) e, s.endpoints[i]? = some e → e.Called → e.canIndicateReady = true →
    ⟨i, .swap⟩ ∈ s.calls
  spent : ∀ e ∈ s.endpoints, e.subtracted = true → e.Called
  counted : s.readyBlocks.toNat = s.outstanding
  last : s.readyBlocks = 0 → s.ready.value = true ∨ ∃ i, ⟨i, .sendIfModified⟩ ∈ s.calls

theorem Counted.init : Counted .init where
  token i e he := by
    cases i with
    | zero =>
      cases he
      rfl
    | succ i => simp [State.init] at he
  called c hc := nomatch hc
  started i e he hc := by
    cases i with
    | zero =>
      cases he
      rcases hc with hc | hc <;> cases hc
    | succ i => simp [State.init] at he
  spent e he hs := by
    rw [List.mem_singleton.mp he] at hs
    cases hs
  counted := rfl
  last h := by cases h

theorem Counted.add_blocks (h : Counted s) (hfew : (s.add b).endpoints.length < 2 ^ 64) :
    (s.add b).readyBlocks.toNat = s.outstanding + b.toNat := by
  cases b with
  | false => exact h.counted
  | true =>
    have hle : s.outstanding ≤ s.endpoints.length := List.countP_le_length
    simp only [State.add, List.length_append, List.length_singleton] at hfew
    simp only [State.add, ↓reduceIte, UInt64.toNat_add, h.counted, Bool.toNat_true,
      UInt64.toNat_one]
    exact Nat.mod_eq_of_lt (by omega)

theorem Counted.add (h : Counted s) (hfew : (s.add b).endpoints.length < 2 ^ 64) :
    Counted (s.add b) where
  token i e he := by
    rcases Base.getElem?_snoc_cases he with he | ⟨rfl, rfl⟩
    · exact h.token i e he
    · -- no call is on an endpoint that is yet to be
      have hnone : (⟨s.endpoints.length, .fetchSub⟩ : Call) ∉ s.calls := by
        intro hmem
        obtain ⟨e, he, -⟩ := h.called _ hmem
        simp at he
      simp [HealthEndpoint.new, State.add, List.count_eq_zero.mpr hnone]
  called c hc := by
    obtain ⟨e, he, hcalled⟩ := h.called c hc
    refine ⟨e, ?_, hcalled⟩
    simp only [State.add]
    rw [List.getElem?_append_left (List.getElem?_eq_some_iff.mp he).1]
    exact he
  started i e he hcalled hcan := by
    rcases Base.getElem?_snoc_cases he with he | ⟨-, rfl⟩
    · exact h.started i e he hcalled hcan
    · rcases hcalled with hc | hc <;> cases hc
  spent e he hs := by
    rcases List.mem_append.mp he with he | he
    · exact h.spent e he hs
    · rw [List.mem_singleton.mp he] at hs
      cases hs
  counted := by
    rw [h.add_blocks hfew]
    cases b <;> simp [State.outstanding, State.add, HealthEndpoint.new, HealthEndpoint.outstanding]
  last hzero := by
    cases b with
    | false => exact h.last hzero
    | true =>
      have hblocks := h.add_blocks hfew
      rw [hzero] at hblocks
      cases hblocks

structure Local (s : State) (i : Nat) (e : HealthEndpoint) (f : HealthEndpoint → HealthEndpoint)
    (s' : State) : Prop where
  endpoint : s.endpoints[i]? = some e
  endpoints : s'.endpoints = s.endpoints.modify i f
  called : (f e).Called
  token : (f e).canIndicateReady.toNat + s'.calls.count ⟨i, .fetchSub⟩ + (f e).subtracted.toNat =
    (f e).blocksReady.toNat
  started : (f e).canIndicateReady = true → ⟨i, .swap⟩ ∈ s'.calls
  calls : ∀ c ∈ s'.calls, c ∈ s.calls ∨ c.endpoint = i
  others : ∀ j ≠ i, ∀ next, s'.calls.count ⟨j, next⟩ = s.calls.count ⟨j, next⟩
  counted : s'.readyBlocks.toNat + e.outstanding.toNat =
    s.readyBlocks.toNat + (f e).outstanding.toNat
  last : s'.readyBlocks = 0 → s'.ready.value = true ∨ ∃ j, ⟨j, .sendIfModified⟩ ∈ s'.calls

theorem Counted.move (h : Counted s) (hm : Local s i e f s') : Counted s' := by
  have hget : ∀ (j : Nat) e', s'.endpoints[j]? = some e' →
      j = i ∧ e' = f e ∨ j ≠ i ∧ s.endpoints[j]? = some e' := by
    intro j e' hj
    rw [hm.endpoints] at hj
    rcases getElem?_modify_cases hj with ⟨e₀, he₀, rfl, rfl⟩ | ⟨hj, hij⟩
    · rw [hm.endpoint] at he₀
      cases he₀
      exact .inl ⟨rfl, rfl⟩
    · exact .inr ⟨Ne.symm hij, hj⟩
  refine ⟨?_, ?_, ?_, ?_, ?_, hm.last⟩
  · intro j e' hj
    rcases hget j e' hj with ⟨rfl, rfl⟩ | ⟨hij, hj⟩
    · exact hm.token
    · rw [hm.others j hij]
      exact h.token j e' hj
  · intro c hc
    by_cases hci : c.endpoint = i
    · exact ⟨f e, by simp [hm.endpoints, hci, hm.endpoint], hm.called⟩
    · obtain ⟨e', he', hcalled⟩ := h.called c ((hm.calls c hc).resolve_right hci)
      exact ⟨e', by simp [hm.endpoints, he', Ne.symm hci], hcalled⟩
  · intro j e' hj hcalled hcan
    rcases hget j e' hj with ⟨rfl, rfl⟩ | ⟨hij, hj⟩
    · exact hm.started hcan
    · rw [← List.count_pos_iff, hm.others j hij, List.count_pos_iff]
      exact h.started j e' hj hcalled hcan
  · intro e' he' hs
    obtain ⟨j, hj⟩ := List.mem_iff_getElem?.mp he'
    rcases hget j e' hj with ⟨-, rfl⟩ | ⟨-, hj⟩
    · exact hm.called
    · exact h.spent e' (List.mem_of_getElem? hj) hs
  · have hcount := countP_modify hm.endpoint f HealthEndpoint.outstanding
    have hcounted := hm.counted
    rw [h.counted] at hcounted
    simp only [State.outstanding, hm.endpoints] at hcounted ⊢
    omega

theorem Counted.begin (h : Counted s) (he : s.endpoints[i]? = some e) (hf : Marks f) :
    Counted ((s.onEndpoint i f).beginCall i) := by
  refine h.move ⟨he, rfl, hf.called e, ?_, ?_, ?_, ?_, ?_, ?_⟩
  · rw [hf.canIndicateReady, hf.subtracted, hf.blocksReady, ← h.token i e he]
    simp [State.beginCall, State.onEndpoint]
  · intro _
    simp [State.beginCall]
  · intro c hc
    rcases List.mem_append.mp hc with hc | hc
    · exact .inl hc
    · exact .inr (by rw [List.mem_singleton.mp hc])
  · intro j hj next
    simp [State.beginCall, State.onEndpoint, Ne.symm hj]
  · simp [HealthEndpoint.outstanding, hf.blocksReady, hf.subtracted, State.beginCall,
      State.onEndpoint]
  · intro hzero
    rcases h.last hzero with hr | ⟨j, hj⟩
    · exact .inl hr
    · exact .inr ⟨j, List.mem_append_left _ hj⟩

theorem Counted.proceed (h : Counted s) (he : s.endpoints[i]? = some e)
    (hcalls : s.calls = l₁ ++ ⟨i, next⟩ :: l₂) (hcalls' : s'.calls = l₁ ++ mid ++ l₂)
    (hmid : ∀ c ∈ mid, c.endpoint = i) (hends : s'.endpoints = s.endpoints.modify i f)
    (hf : e.Called → (f e).Called) (hcan : (f e).canIndicateReady = false)
    (htoken : s'.calls.count ⟨i, .fetchSub⟩ + (f e).subtracted.toNat = (f e).blocksReady.toNat)
    (hcounted : s'.readyBlocks.toNat + e.outstanding.toNat =
      s.readyBlocks.toNat + (f e).outstanding.toNat)
    (hlast : s'.readyBlocks = 0 → s'.ready.value = true ∨ ∃ j, ⟨j, .sendIfModified⟩ ∈ s'.calls) :
    Counted s' := by
  refine h.move ⟨he, hends, ?_, ?_, ?_, ?_, ?_, hcounted, hlast⟩
  · obtain ⟨e', he', hcalled⟩ := h.called ⟨i, next⟩ (by simp [hcalls])
    rw [he] at he'
    cases he'
    exact hf hcalled
  · rw [hcan, Bool.toNat_false, Nat.zero_add]
    exact htoken
  · simp [hcan]
  · intro c hc
    rw [hcalls', List.mem_append, List.mem_append] at hc
    rcases hc with (hc | hc) | hc
    · exact .inl (by simp [hcalls, hc])
    · exact .inr (hmid c hc)
    · exact .inl (by simp [hcalls, hc])
  · intro j hj next'
    have hnone : (⟨j, next'⟩ : Call) ∉ mid := fun hmem => hj (hmid _ hmem)
    simp [hcalls, hcalls', List.count_eq_zero.mpr hnone, Ne.symm hj]

theorem Counted.last_of_swap (h : Counted s) (hcalls : s.calls = l₁ ++ ⟨i, .swap⟩ :: l₂)
    (hzero : s.readyBlocks = 0) :
    s.ready.value = true ∨ ∃ j, ⟨j, .sendIfModified⟩ ∈ l₁ ++ mid ++ l₂ := by
  rcases h.last hzero with hr | ⟨j, hj⟩
  · exact .inl hr
  · rw [hcalls] at hj
    refine .inr ⟨j, ?_⟩
    simp only [List.mem_append, List.mem_cons, Call.mk.injEq, reduceCtorEq, and_false,
      false_or] at hj ⊢
    tauto

theorem Counted.take (h : Counted s) (hk : s.calls[k]? = some ⟨i, .swap⟩)
    (he : s.endpoints[i]? = some e) (hcan : e.canIndicateReady = true) :
    Counted ((s.onEndpoint i fun e => { e with canIndicateReady := false }).nextIs k
      .fetchSub) := by
  obtain ⟨l₁, l₂, hcalls, hmodify, -⟩ := exists_split hk
  have hcalls' : ((s.onEndpoint i fun e => { e with canIndicateReady := false }).nextIs k
      .fetchSub).calls = l₁ ++ [⟨i, .fetchSub⟩] ++ l₂ := by
    simp [State.nextIs, State.onEndpoint, hmodify]
  have htoken := h.token i e he
  refine h.proceed he hcalls hcalls' (by simp) rfl id rfl ?_ rfl ?_
  · -- the token goes from the flag to the call
    rw [hcalls'] 
    simp only [hcalls, hcan, List.count_append, List.count_cons, List.count_nil] at htoken ⊢
    simp at htoken ⊢
    omega
  · rw [hcalls']
    exact h.last_of_swap hcalls

theorem Counted.skip (h : Counted s) (hk : s.calls[k]? = some ⟨i, .swap⟩)
    (he : s.endpoints[i]? = some e) (hcan : e.canIndicateReady = false) :
    Counted ((s.onEndpoint i fun e => { e with canIndicateReady := false }).endCall k) := by
  obtain ⟨l₁, l₂, hcalls, -, herase⟩ := exists_split hk
  have hcalls' : ((s.onEndpoint i fun e => { e with canIndicateReady := false }).endCall k).calls =
      l₁ ++ [] ++ l₂ := by
    simp [State.endCall, State.onEndpoint, herase]
  have htoken := h.token i e he
  refine h.proceed he hcalls hcalls' (by simp) rfl id rfl ?_ rfl ?_
  · rw [hcalls']
    simpa [hcalls, hcan] using htoken
  · rw [hcalls']
    exact h.last_of_swap hcalls

theorem Counted.holds_token (h : Counted s) (hk : s.calls[k]? = some ⟨i, .fetchSub⟩) :
    ∃ e, s.endpoints[i]? = some e ∧ e.canIndicateReady = false ∧ e.subtracted = false ∧
      e.blocksReady = true ∧ s.calls.count ⟨i, .fetchSub⟩ = 1 ∧ 0 < s.readyBlocks.toNat := by
  have hmem := List.mem_of_getElem? hk
  obtain ⟨e, he, -⟩ := h.called _ hmem
  have htoken := h.token i e he
  have hpos := List.count_pos_iff.mpr hmem
  have houtstanding : e.outstanding = true → 0 < s.readyBlocks.toNat := by
    intro ho
    rw [h.counted]
    exact List.countP_pos_iff.mpr ⟨e, List.mem_of_getElem? he, ho⟩
  have hle := e.blocksReady.toNat_le
  have hcan : e.canIndicateReady = false := Bool.toNat_eq_zero.mp (by omega)
  have hsub : e.subtracted = false := Bool.toNat_eq_zero.mp (by omega)
  have hblock : e.blocksReady = true := Bool.toNat_eq_one.mp (by omega)
  refine ⟨e, he, hcan, hsub, hblock, by omega, houtstanding ?_⟩
  simp [HealthEndpoint.outstanding, hsub, hblock]

theorem Counted.subtract (h : Counted s) (hk : s.calls[k]? = some ⟨i, .fetchSub⟩)
    (hcalls : s.calls = l₁ ++ ⟨i, .fetchSub⟩ :: l₂) (mid : List Call)
    (hcalls' : s'.calls = l₁ ++ mid ++ l₂)
    (hmid : ∀ c ∈ mid, c = ⟨i, .sendIfModified⟩)
    (hends : s'.endpoints = s.endpoints.modify i fun e => { e with subtracted := true })
    (hblocks : s'.readyBlocks = s.readyBlocks - 1)
    (hlast : s'.readyBlocks = 0 → mid ≠ []) : Counted s' := by
  obtain ⟨e, he, hcan, hsub, hblock, hcount, hpos⟩ := h.holds_token hk
  have hnone : (⟨i, .fetchSub⟩ : Call) ∉ mid := fun hmem => by cases hmid _ hmem
  refine h.proceed he hcalls hcalls' (fun c hc => by rw [hmid c hc]) hends id hcan ?_ ?_ ?_
  · rw [hcalls] at hcount
    rw [hcalls']
    simp only [List.count_append, List.count_cons_self, List.count_eq_zero.mpr hnone] at hcount ⊢
    simp only [hblock, Bool.toNat_true]
    omega
  · have hle : (1 : UInt64) ≤ s.readyBlocks := UInt64.le_iff_toNat_le.mpr hpos
    rw [hblocks, UInt64.toNat_sub_of_le _ _ hle]
    simp [HealthEndpoint.outstanding, hsub, hblock]
    omega
  · intro hzero
    obtain ⟨c, hc⟩ := List.exists_mem_of_ne_nil mid (hlast hzero)
    exact .inr ⟨i, by rw [hcalls', ← hmid c hc]; simp [hc]⟩

theorem Counted.send (h : Counted s) (hk : s.calls[k]? = some ⟨i, .sendIfModified⟩) :
    Counted (State.endCall { s with ready := s.ready.sendIfModified setReady } k) := by
  obtain ⟨l₁, l₂, hcalls, -, herase⟩ := exists_split hk
  refine ⟨?_, ?_, ?_, h.spent, h.counted, fun _ => .inl rfl⟩
  · intro j e he
    have htoken := h.token j e he
    rw [hcalls] at htoken
    rw [State.endCall, herase]
    simpa using htoken
  · intro c hc
    exact h.called c (List.mem_of_mem_eraseIdx hc)
  · intro j e he hcalled hcan
    have hmem := h.started j e he hcalled hcan
    rw [hcalls] at hmem
    rw [State.endCall, herase]
    simpa using hmem

theorem Counted.turn (h : Counted s) (ht : Turn s s') (hfew : s'.endpoints.length < 2 ^ 64) :
    Counted s' := by
  cases ht with
  | idle => exact h
  | add b => exact h.add hfew
  | begin he hf => exact h.begin he hf
  | take hk he hcan => exact h.take hk he hcan
  | skip hk he hcan => exact h.skip hk he hcan
  | @last k i hk hone =>
    obtain ⟨l₁, l₂, hcalls, hmodify, -⟩ := exists_split hk
    refine h.subtract hk hcalls [⟨i, .sendIfModified⟩] ?_ (by simp) rfl rfl (by simp)
    simp [State.nextIs, State.onEndpoint, hmodify]
  | leave hk hmore =>
    obtain ⟨l₁, l₂, hcalls, -, herase⟩ := exists_split hk
    refine h.subtract hk hcalls [] ?_ (by simp) rfl rfl fun hzero => ?_
    · simp [State.endCall, State.onEndpoint, herase]
    · exact absurd (sub_eq_zero.mp hzero) hmore
  | send hk => exact h.send hk

-- ---------------------------------------------------------------------------
-- Runs
-- ---------------------------------------------------------------------------

def after (as : List Action) : State := Base.run State.step .init as

theorem after_snoc : after (as ++ [a]) = (after as).step a := Base.run_snoc

/-- The ready flag is set, or about to be. -/
def State.Flagged (s : State) : Prop :=
  s.ready.value = true ∨ ∃ i, ⟨i, .sendIfModified⟩ ∈ s.calls

def State.AllCalled (s : State) : Prop := ∀ e ∈ s.endpoints, e.blocksReady = true → e.Called

theorem Turn.endpoints_length (ht : Turn s s') : s.endpoints.length ≤ s'.endpoints.length := by
  cases ht <;> simp [State.add, State.onEndpoint, State.beginCall, State.nextIs, State.endCall]

theorem Turn.ready (ht : Turn s s') (hr : s.ready.value = true) : s'.ready.value = true := by
  cases ht with
  | send hk => rfl
  | _ => exact hr

-- Only the subtraction that finds itself last raises the flag.
theorem Turn.flagged (ht : Turn s s') (hflag : s'.Flagged) : s.Flagged ∨ s'.readyBlocks = 0 := by
  rcases hflag with hr | ⟨j, hj⟩
  · cases ht with
    | @send k i hk => exact .inl (.inr ⟨i, List.mem_of_getElem? hk⟩)
    | _ => exact .inl (.inl hr)
  · cases ht with
    | idle => exact .inl (.inr ⟨j, hj⟩)
    | add b => exact .inl (.inr ⟨j, hj⟩)
    | begin he hf =>
      rcases List.mem_append.mp hj with hj | hj
      · exact .inl (.inr ⟨j, hj⟩)
      · cases List.mem_singleton.mp hj
    | take hk he hcan =>
      rcases mem_modify_cases hj with hj | ⟨c, -, heq⟩
      · exact .inl (.inr ⟨j, hj⟩)
      · cases heq
    | skip hk he hcan => exact .inl (.inr ⟨j, List.mem_of_mem_eraseIdx hj⟩)
    | last hk hone => exact .inr (by simp [State.nextIs, State.onEndpoint, hone])
    | leave hk hmore => exact .inl (.inr ⟨j, List.mem_of_mem_eraseIdx hj⟩)
    | send hk => exact .inl (.inr ⟨j, List.mem_of_mem_eraseIdx hj⟩)

theorem after_endpoints_length (as bs : List Action) :
    (after as).endpoints.length ≤ (after (as ++ bs)).endpoints.length := by
  induction bs using List.reverseRecOn with
  | nil => simp
  | append_singleton bs b ih =>
    rw [← List.append_assoc, after_snoc]
    exact ih.trans (step_turn _ _).endpoints_length

theorem after_counted (as : List Action) (hfew : (after as).endpoints.length < 2 ^ 64) :
    Counted (after as) := by
  induction as using List.reverseRecOn with
  | nil => exact .init
  | append_singleton as a ih =>
    have hpre := lt_of_le_of_lt (after_endpoints_length as [a]) hfew
    rw [after_snoc] at hfew ⊢
    exact (ih hpre).turn (step_turn _ _) hfew

theorem Counted.allCalled (h : Counted s) (hnone : s.outstanding = 0) : s.AllCalled := by
  intro e he hblock
  have hout : ¬ e.outstanding = true := List.countP_eq_zero.mp hnone e he
  simp only [HealthEndpoint.outstanding, hblock, Bool.true_and, Bool.not_eq_true',
    Bool.not_eq_false] at hout
  exact h.spent e he hout

theorem Counted.done (h : Counted s) (hidle : s.calls = []) (hall : s.AllCalled) :
    s.ready.value = true := by
  have hcount : s.outstanding = 0 := by
    refine List.countP_eq_zero.mpr fun e he => ?_
    obtain ⟨i, hi⟩ := List.mem_iff_getElem?.mp he
    have htoken := h.token i e hi
    cases hblock : e.blocksReady with
    | false => simp [HealthEndpoint.outstanding, hblock]
    | true =>
      -- its flag is cleared and nobody is about to subtract for it
      have hcan : e.canIndicateReady = false := by
        by_contra hcan
        have hmem := h.started i e hi (hall e he hblock) (by simpa using hcan)
        simp [hidle] at hmem
      have hsub : e.subtracted = true := by simpa [hidle, hcan, hblock] using htoken
      simp [HealthEndpoint.outstanding, hsub]
  have hzero : s.readyBlocks = 0 := UInt64.toNat_inj.mp (h.counted.trans hcount)
  rcases h.last hzero with hr | ⟨j, hj⟩
  · exact hr
  · simp [hidle] at hj

theorem after_flagged (as : List Action) (hfew : (after as).endpoints.length < 2 ^ 64)
    (hflag : (after as).Flagged) : ∃ pre, pre <+: as ∧ (after pre).AllCalled := by
  induction as using List.reverseRecOn with
  | nil => rcases hflag with hr | ⟨j, hj⟩ <;> contradiction
  | append_singleton as a ih =>
    have hpre := lt_of_le_of_lt (after_endpoints_length as [a]) hfew
    have ht := step_turn (after as) a
    rw [← after_snoc] at ht
    rcases ht.flagged hflag with hold | hzero
    · obtain ⟨pre, hp, hall⟩ := ih hpre hold
      exact ⟨pre, hp.trans (List.prefix_append _ _), hall⟩
    · have hcounted := after_counted _ hfew
      refine ⟨_, List.prefix_rfl, hcounted.allCalled ?_⟩
      rw [← hcounted.counted, hzero]
      rfl

theorem after_ready (as bs : List Action) (hr : (after as).ready.value = true) :
    (after (as ++ bs)).ready.value = true := by
  induction bs using List.reverseRecOn with
  | nil => simpa using hr
  | append_singleton bs b ih =>
    rw [← List.append_assoc, after_snoc]
    exact (step_turn _ _).ready ih

/-- In every state of every run the counter is the number of blocking endpoints
that have not subtracted, and none subtracts from zero. The ready flag is raised
only after a moment at which all of them had been called, stays raised, and is
raised when nobody is left. -/
theorem ready_blocks_counted (as : List Action) (hfew : (after as).endpoints.length < 2 ^ 64) :
    ((after as).readyBlocks.toNat = (after as).outstanding ∧
      ∀ c ∈ (after as).calls, c.next = .fetchSub → (after as).readyBlocks ≠ 0) ∧
    ((after as).ready.value = true → ∃ pre, pre <+: as ∧ (after pre).AllCalled) ∧
    (∀ pre, pre <+: as → (after pre).ready.value = true → (after as).ready.value = true) ∧
    ((after as).calls = [] → (after as).outstanding = 0 ∨ (after as).AllCalled →
      (after as).ready.value = true) := by
  have h := after_counted as hfew
  refine ⟨⟨h.counted, ?_⟩, fun hr => after_flagged as hfew (.inl hr), ?_, ?_⟩
  · rintro ⟨i, next⟩ hc rfl hzero
    obtain ⟨k, hk⟩ := List.mem_iff_getElem?.mp hc
    obtain ⟨_, _, _, _, _, _, hpos⟩ := h.holds_token hk
    rw [hzero] at hpos
    cases hpos
  · rintro pre ⟨bs, rfl⟩ hr
    exact after_ready pre bs hr
  · rintro hidle (hnone | hall)
    · exact h.done hidle (h.allCalled hnone)
    · exact h.done hidle hall

-- The root endpoint is indicated while another one is being dropped.
def startup : List Action :=
  [.add true, .callReady 0, .drop 1, .proceed 0, .proceed 1, .proceed 0, .proceed 0, .proceed 0]

theorem startup_ready :
    (after startup).endpoints.length < 2 ^ 64 ∧ (after startup).ready.value = true := by
  have hfew : (after startup).endpoints.length < 2 ^ 64 := by decide
  refine ⟨hfew, (ready_blocks_counted startup hfew).2.2.2 (by decide) (.inr ?_)⟩
  unfold State.AllCalled HealthEndpoint.Called
  decide

end Grcache.Health
