import Grcache.Server.Refines

/-!
# What a change costs

A call asks discovery for the selected object's upstream before the entry it
replaces lets go, so a service that keeps its host and port keeps its handle as
long as somebody holds a reference to it. When nobody does, as after a load that
failed, the call starts a new discovery loop.
-/

namespace Grcache.Server

open Discovery (HostPort)
open Store (Upstream GrcacheService Change)

variable {s s' : State} {d d' : Discovery.State}

-- ---------------------------------------------------------------------------
-- Reference counts
-- ---------------------------------------------------------------------------

/-- Two discovery states that differ in reference counts only. -/
structure Recounted (d d' : Discovery.State) : Prop where
  same : d' = { d with heap := d'.heap }
  heap : d'.heap.map (fun a => (a.hostPort, a.handle)) = d.heap.map fun a => (a.hostPort, a.handle)

theorem Recounted.refl : Recounted d d := ⟨rfl, rfl⟩

theorem Recounted.trans (h : Recounted d d') (h' : Recounted d' d'') : Recounted d d'' := by
  refine ⟨?_, h'.heap.trans h.heap⟩
  rw [h'.same, h.same]

theorem Recounted.onHeap (hf : ∀ a, (f a).hostPort = a.hostPort ∧ (f a).handle = a.handle) :
    Recounted d (d.onHeap w f) := by
  refine ⟨rfl, Base.map_modify (fun a => ?_) _ _⟩
  rw [(hf a).1, (hf a).2]

theorem Recounted.drop : Recounted d (d.drop w) := .onHeap fun _ => ⟨rfl, rfl⟩

theorem Recounted.clone : Recounted d (d.clone w) := by
  refine .onHeap fun a => ?_
  split <;> exact ⟨rfl, rfl⟩

/-- At most one more reference, and to `w`. -/
structure Shares (w : Nat) (d d' : Discovery.State) : Prop where
  recounted : Recounted d d'
  held : ∀ k, held d' k = held d k ∨ k = w ∧ held d' k = held d k + 1

theorem Shares.refl : Shares w d d := ⟨.refl, fun _ => .inl rfl⟩

-- ---------------------------------------------------------------------------
-- What a call asks for
-- ---------------------------------------------------------------------------

/-- Somebody holds a reference to the handle `w` of the host and port. -/
def State.Holds (s : State) (w : Nat) (hostPort : HostPort) : Prop :=
  w ∈ s.references ∧ ∃ a, s.discovery.heap[w]? = some a ∧ a.hostPort = hostPort

/-- The upstream of the object that answers for the service of a change, once
the change is handled. -/
def Asks (s : State) (c : Change) (s' : State) (hostPort : HostPort) : Prop :=
  ∃ n o, serviceOf s.rawServices c = some n ∧ Store.Selected s'.rawServices n o ∧
    o.spec.upstream = .dns hostPort.1 hostPort.2

inductive Asked (d : Discovery.State) (hostPort : HostPort) : Discovery.State → Prop
  | kept : Asked d hostPort (d.backendsForHostname hostPort.1 hostPort.2)
  | dropped : Asked d hostPort
      ((d.backendsForHostname hostPort.1 hostPort.2).drop (handleFor d hostPort))

theorem Updated.asked (hu : Updated s n s') :
    (s.refByGrpcService n = some [] ∧ s'.discovery = s.discovery) ∨
    ∃ o hostPort, s.Selects n o ∧ o.spec.upstream = .dns hostPort.1 hostPort.2 ∧
      Asked s.discovery hostPort s'.discovery := by
  have hacquire : ∀ o : GrcacheService, ∃ hostPort : HostPort,
      o.spec.upstream = .dns hostPort.1 hostPort.2 ∧
      (s.acquire o).1 = handleFor s.discovery hostPort ∧
      (s.acquire o).2.discovery = s.discovery.backendsForHostname hostPort.1 hostPort.2 := by
    intro o
    unfold State.acquire
    cases o.spec.upstream with
    | dns url port => exact ⟨(url, port), rfl, rfl, rfl⟩
  cases hu with
  | unload hl => exact .inl ⟨hl, rfl⟩
  | @spawn o service source ho =>
    obtain ⟨hostPort, hup, -, hd⟩ := hacquire o
    exact .inr ⟨o, hostPort, ho, hup, hd ▸ .kept⟩
  | @publish o spec ho =>
    obtain ⟨hostPort, hup, -, hd⟩ := hacquire o
    exact .inr ⟨o, hostPort, ho, hup, hd ▸ .kept⟩
  | @abort o ho =>
    obtain ⟨hostPort, hup, hw, hd⟩ := hacquire o
    refine .inr ⟨o, hostPort, ho, hup, ?_⟩
    show Asked s.discovery hostPort ((s.acquire o).2.discovery.drop (s.acquire o).1)
    rw [hw, hd]
    exact .dropped

theorem Asked.recounted (h : Asked d hostPort d') :
    Recounted (d.backendsForHostname hostPort.1 hostPort.2) d' := by
  cases h with
  | kept => exact .refl
  | dropped => exact .drop

-- A handle that is held is live, so the call finds it and nothing else changes.
theorem Owned.shares (h : Owned [] s) (hw : s.Holds w hostPort)
    (hd : Asked s.discovery hostPort d') : Shares w s.discovery d' := by
  obtain ⟨hmem, a, ha, rfl⟩ := hw
  have hlive := Server.held_pos (h.held_pos hmem)
  have hfor : handleFor s.discovery a.hostPort = w := by
    rw [handleFor, h.attended.found ha hlive, Option.getD_some]
  have hret := (h.attended.handleOk ha hlive).returned
  have hrec : Recounted s.discovery d' := by
    refine .trans ?_ hd.recounted
    rw [hret]
    exact .onHeap fun _ => ⟨rfl, rfl⟩
  have hheld : ∀ k, held (s.discovery.backendsForHostname a.hostPort.1 a.hostPort.2) k =
      held s.discovery k + [handleFor s.discovery a.hostPort].count k :=
    held_backendsForHostname h.attended.wired a.hostPort.1 a.hostPort.2
  refine ⟨hrec, fun k => ?_⟩
  cases hd with
  | kept =>
    rw [hheld, hfor]
    by_cases hk : k = w
    · simp [hk]
    · simp [Ne.symm hk]
  | dropped =>
    rw [held_drop, hheld]
    omega

-- ---------------------------------------------------------------------------
-- Runs
-- ---------------------------------------------------------------------------

variable {st : Store.ServiceConfigState}

theorem Refines.selected (h : Refines s st) (hi : Store.Indexed st) (ho : s.Selects n o) :
    Store.Selected s.rawServices n o := by
  obtain ⟨l, r, hl, hmin, hraw⟩ := ho
  have hne : l ≠ [] := by
    rintro rfl
    cases hmin
  rw [← h.refByGrpcService] at hl
  rw [← h.rawServices] at hraw ⊢
  obtain ⟨o', hmin', hraw', hsel⟩ := hi.argmin_selected hl hne
  obtain rfl : r = o'.objectRef := Option.some.inj (hmin.symm.trans hmin')
  obtain rfl : o = o' := Option.some.inj (hraw.symm.trans hraw')
  exact hsel

def Action.ofDiscovery : Action → Bool
  | .recv | .start _ | .iterate _ _ => true
  | _ => false

-- A change that is handled asks for one upstream, or for none.
theorem Stepped.change_cases (hs : Stepped s (.change c) s') (h : Refines s' st)
    (hi : Store.Indexed st) :
    s'.discovery = s.discovery ∧ (s'.crashed = true ∨ ∀ hostPort, ¬ Asks s c s' hostPort) ∨
      ∃ hostPort, (∀ hostPort', Asks s c s' hostPort' ↔ hostPort' = hostPort) ∧
        Asked s.discovery hostPort s'.discovery := by
  cases hs with
  | idle ha => exact absurd rfl (ha c)
  | dead hc => exact .inl ⟨rfl, .inl hc⟩
  | crash => exact .inl ⟨rfl, .inl rfl⟩
  | record hn hrec =>
    refine .inl ⟨hrec.discovery, .inr fun hostPort hasks => ?_⟩
    obtain ⟨n, o, hn', -, -⟩ := hasks
    rw [hn] at hn'
    cases hn'
  | @change _ n s₁ _ hn hrec hu =>
    have hkept := hu.kept
    rcases hu.asked with ⟨hl, hsame⟩ | ⟨o, hostPort, ho, hup, hasked⟩
    · refine .inl ⟨hsame.trans hrec.discovery, .inr fun hostPort hasks => ?_⟩
      obtain ⟨n', o, hn', hsel, -⟩ := hasks
      obtain rfl : n = n' := Option.some.inj (hn.symm.trans hn')
      rw [← hkept.refByGrpcService, ← h.refByGrpcService] at hl
      rw [← h.rawServices] at hsel
      simpa using (hi.live_iff hl).mp ⟨o, rfl, hsel.1⟩
    · have hsel : Store.Selected s'.rawServices n o := by
        refine h.selected hi ?_
        unfold State.Selects at *
        rwa [hkept.rawServices, hkept.refByGrpcService]
      refine .inr ⟨hostPort, fun hostPort' => ⟨?_, ?_⟩, hrec.discovery ▸ hasked⟩
      · rintro ⟨n', o', hn', hsel', hup'⟩
        obtain rfl : n = n' := Option.some.inj (hn.symm.trans hn')
        obtain rfl := hsel.unique hsel'
        simp only [hup, Upstream.dns.injEq] at hup'
        exact Prod.ext hup'.1.symm hup'.2.symm
      · rintro rfl
        exact ⟨n, o, hn, hsel, hup⟩

/-- What handling a change costs: one call for the upstream it asks for. It
starts something new only if nobody holds a reference for that upstream, and else
it is one more reference at most. -/
structure Costs (s : State) (c : Change) (s' : State) : Prop where
  quiet : (∀ hostPort, ¬ Asks s c s' hostPort) → s'.discovery = s.discovery
  starts : Recounted s.discovery s'.discovery ∨
    ∃ hostPort, Asks s c s' hostPort ∧ (∀ w, ¬ s.Holds w hostPort) ∧
      Recounted (s.discovery.backendsForHostname hostPort.1 hostPort.2) s'.discovery
  calls : s'.crashed = false → ∀ hostPort, Asks s c s' hostPort →
    Recounted (s.discovery.backendsForHostname hostPort.1 hostPort.2) s'.discovery
  shares : ∀ hostPort w, Asks s c s' hostPort → s.Holds w hostPort →
    Shares w s.discovery s'.discovery

theorem Stepped.costs (hs : Stepped s (.change c) s') (h : Owned [] s) (hr : Refines s' st)
    (hi : Store.Indexed st) : Costs s c s' := by
  rcases hs.change_cases hr hi with ⟨hsame, hnone⟩ | ⟨hostPort, hasks, hasked⟩
  · have hshares : ∀ w, Shares w s.discovery s'.discovery := fun w => hsame ▸ .refl
    refine ⟨fun _ => hsame, .inl (hshares 0).recounted, fun hc hostPort ha => ?_,
      fun _ w _ _ => hshares w⟩
    rcases hnone with hcrashed | hnone
    · simp [hcrashed] at hc
    · exact absurd ha (hnone hostPort)
  · have hrec := hasked.recounted
    have hask := (hasks hostPort).mpr rfl
    refine ⟨fun hnone => absurd hask (hnone hostPort), ?_, fun _ hostPort' ha => ?_,
      fun hostPort' w ha hw => ?_⟩
    · by_cases hheld : ∃ w, s.Holds w hostPort
      · obtain ⟨w, hw⟩ := hheld
        exact .inl (h.shares hw hasked).recounted
      · exact .inr ⟨hostPort, hask, not_exists.mp hheld, hrec⟩
    · obtain rfl := (hasks hostPort').mp ha
      exact hrec
    · obtain rfl := (hasks hostPort').mp ha
      exact h.shares hw hasked

theorem Stepped.recounted (hs : Stepped s a s') (ha : ∀ c, a ≠ .change c)
    (hd : a.ofDiscovery = false) : Recounted s.discovery s'.discovery := by
  cases hs with
  | dead | crash | record | change => exact absurd rfl (ha _)
  | idle | loaded => exact .refl
  | dropped | finish | reclaim => exact .drop
  | request | keep => exact .clone
  | recv | start | iterate => cases hd

/-- In every run, a change calls for one upstream at most: that of the object
that answers for its service once it is handled. The call starts something new in
discovery only if nobody holds a reference for that host and port, and is one
more reference to the handle that is held otherwise. Every other step but those
of discovery itself changes reference counts and nothing else. -/
theorem changes_share_handles (hostname : String) (port : UInt16) (actions : List Action) :
    Base.Always State.step (fun s a =>
      (∀ c, a = .change c → Costs s c (s.step a)) ∧
      ((∀ c, a ≠ .change c) → a.ofDiscovery = false →
        Recounted s.discovery (s.step a).discovery)) (.main hostname port) actions := by
  intro pre a hp
  have hsim := run_simulated hostname port (pre ++ [a])
  have hidx := Store.run_indexed ((pre ++ [a]).filterMap Action.store)
  rw [Base.run_snoc] at hsim
  have hs := step_spec (Base.run State.step (.main hostname port) pre) a
  refine ⟨?_, hs.recounted⟩
  rintro c rfl
  exact hs.costs (run_owned hostname port pre) hsim.refines hidx

end Grcache.Server
