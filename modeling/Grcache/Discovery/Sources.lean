import Grcache.Discovery.Balancers

/-!
# Where the addresses come from

A backend is made from one address of one answer, for the host and port of the
loop that asked. It is then in the hands of the loop, in the channel of the
loop's senders, and in the balancers that were updated from the channel. If
every answer is vouched for, then so is every backend in all of these places,
for the host and port that the handle was allocated for.
-/

namespace Grcache.Discovery

variable {s : State} {l : Loop} {i : Nat} {P : HostPort → Backend → Prop}

structure Sourced (P : HostPort → Backend → Prop) (s : State) : Prop where
  inHand : ∀ l ∈ s.loops, ∀ w backends, l.phase = .resolved w backends →
    ∀ b ∈ backends, P l.args.hostPort b
  channels : ∀ (w : Nat) c backends, s.wiring[w]? = some c →
    s.backendsChannels[w]? = some backends → ∀ b ∈ backends, P c.hostPort b
  balancers : ∀ a ∈ s.heap, ∀ balancer, ∀ b ∈ a.handle.shown balancer, P a.hostPort b

def Vouched (P : HostPort → Backend → Prop) (s : State) (a : Action) : Prop :=
  ∀ i response l w, a = .iterate i (some response) → s.loops[i]? = some l →
    l.phase = .resolving w → ∀ b ∈ backendsOf l.args.hostPort response, P l.args.hostPort b

theorem Sourced.init : Sourced P .init where
  inHand l h := nomatch h
  channels w c backends h := by simp [State.wiring, State.init] at h
  balancers a h := nomatch h

theorem Sourced.onHeap (h : Sourced P s)
    (hf : ∀ a, (f a).hostPort = a.hostPort ∧ (f a).handle = a.handle) :
    Sourced P (s.onHeap w f) := by
  have hwire : ∀ a, (f a).wiring = a.wiring := by
    intro a
    rw [Allocation.wiring, (hf a).1, (hf a).2]
    rfl
  refine ⟨h.inHand, fun k c backends hc => ?_, fun a ha balancer b hb => ?_⟩
  · rw [(onHeap_same hwire).wiring] at hc
    exact h.channels k c backends hc
  · rcases Base.mem_modify_cases ha with ha | ⟨a₀, ha₀, rfl⟩
    · exact h.balancers a ha balancer b hb
    · rw [(hf a₀).1]
      rw [(hf a₀).2] at hb
      exact h.balancers a₀ (List.mem_of_getElem? ha₀) balancer b hb

theorem Sourced.setPhase (h : Sourced P s) (hl : s.loops[i]? = some l)
    (hp : ∀ w backends, phase = .resolved w backends → ∀ b ∈ backends, P l.args.hostPort b) :
    Sourced P (s.setPhase i phase) := by
  refine ⟨fun l' hl' w backends hphase => ?_, h.channels, h.balancers⟩
  rcases mem_setPhase hl' with hl' | ⟨l₀, hl₀, rfl⟩
  · exact h.inHand l' hl' w backends hphase
  · rw [hl] at hl₀
    cases hl₀
    exact hp w backends hphase

theorem Sourced.backendsForHostname (h : Sourced P s) (hd : Wired s) (hostname : String)
    (port : UInt16) : Sourced P (s.backendsForHostname hostname port) := by
  cases hf : (s.serviceBackends (hostname, port)).filter (0 < s.strongCount ·) with
  | some w =>
    simp only [State.backendsForHostname, hf]
    exact h.onHeap fun _ => ⟨rfl, rfl⟩
  | none =>
    have hwiring := (hd.allocates hf).wiring
    rw [allocate_eq hf] at hwiring ⊢
    refine ⟨h.inHand, fun k c backends hc hk => ?_, fun a ha balancer b hb => ?_⟩
    · -- the channel of a new handle is empty
      rw [hwiring] at hc
      rcases Base.getElem?_snoc_cases hk with hk | ⟨-, rfl⟩
      · have hlt := (List.getElem?_eq_some_iff.mp hk).1
        rw [hd.backendsChannels] at hlt
        rw [List.getElem?_append_left hlt] at hc
        exact h.channels k c backends hc hk
      · simp
    · rcases List.mem_append.mp ha with ha | ha
      · exact h.balancers a ha balancer b hb
      · rw [List.mem_singleton.mp ha] at hb
        cases balancer <;> simp [ServiceBackendsHandle.shown] at hb

theorem Sourced.recv (h : Sourced P s) : Sourced P s.recv := by
  refine ⟨fun l hl w backends hphase => ?_, fun w c backends hc hk => ?_, ?_⟩
  · unfold State.recv at hl
    split at hl
    · exact h.inHand l hl w backends hphase
    · rcases List.mem_append.mp hl with hl | hl
      · exact h.inHand l hl w backends hphase
      · rw [List.mem_singleton.mp hl] at hphase
        cases hphase
  · rw [recv_wiring] at hc
    unfold State.recv at hk
    split at hk <;> exact h.channels w c backends hc hk
  · unfold State.recv
    split <;> exact h.balancers

theorem Sourced.start (h : Sourced P s) (i : Nat) : Sourced P (s.start i) := by
  unfold State.start
  split
  · exact h
  next l hl =>
    split
    · split
      · refine h.setPhase hl fun w backends hphase => ?_
        cases hphase
      · refine h.setPhase hl fun w backends hphase => ?_
        cases hphase
    · exact h

theorem Sourced.publish (h : Sourced P s) (hd : Wired s) (hl : l ∈ s.loops)
    (hp : l.phase = .resolved w backends) :
    Sourced P (s.publish l.args.backendsSender backends) := by
  refine ⟨h.inHand, fun k c shown hc hk => ?_, h.balancers⟩
  by_cases heq : l.args.backendsSender = k
  · -- the loop publishes for the handle it was started for
    have howner := hd.owners _ (List.mem_append_right _ (List.mem_map_of_mem hl))
    obtain ⟨j, hj⟩ := List.mem_iff_getElem?.mp howner
    obtain rfl : j = k := (hd.numbered j _ hj).2.symm.trans heq
    obtain rfl : c = l.args := Option.some.inj (hc.symm.trans hj)
    obtain ⟨-, rfl⟩ : _ ∧ backends = shown := by
      simpa [State.publish, heq, List.getElem?_set] using hk
    exact h.inHand l hl w backends hp
  · simp only [State.publish] at hk
    rw [List.getElem?_set_ne heq] at hk
    exact h.channels k c shown hc hk

theorem Sourced.update (h : Sourced P s) (hd : Wired s) : Sourced P (s.update w balancer) := by
  refine ⟨h.inHand, fun k c backends hc => ?_, fun a' ha' other b hb => ?_⟩
  · rw [update_same.wiring] at hc
    exact h.channels k c backends hc
  · obtain ⟨k, hk⟩ := List.mem_iff_getElem?.mp ha'
    have hupdate : SameWiring s (s.update w balancer) := update_same
    have hwiring : s.wiring[k]? = some a'.wiring := by
      rw [← hupdate.wiring]
      simp [State.wiring, hk]
    rcases update_heap hk with ⟨hold, -⟩ | ⟨a, hold, rfl, hself, hothers⟩
    · exact h.balancers a' (List.mem_of_getElem? hold) other b hb
    · have hwire : s.wiring[w]? = some a.wiring := by simp [State.wiring, hold]
      have hsame : a'.wiring = a.wiring := Option.some.inj (hwiring.symm.trans hwire)
      have hhp : a'.hostPort = a.hostPort := congrArg Command.hostPort hsame
      rw [hhp]
      by_cases hother : other = balancer
      · subst hother
        rw [hself] at hb
        rw [show a.handle.backends = w from (hd.numbered w _ hwire).2] at hb
        cases hch : s.backendsChannels[w]? with
        | none => simp [hch] at hb
        | some shown =>
          rw [hch] at hb
          exact h.channels w _ shown hwire hch b hb
      · rw [hothers other hother] at hb
        exact h.balancers a (List.mem_of_getElem? hold) other b hb

theorem Sourced.iterate (h : Sourced P s) (hd : Wired s)
    (hv : Vouched P s (.iterate i response)) : Sourced P (s.iterate i response) := by
  cases hl : s.loops[i]? with
  | none =>
    unfold State.iterate
    simp only [hl]
    exact h
  | some l =>
    have hadv := iterate_advance hl response
    generalize s.iterate i response = s' at hadv
    cases hadv with
    | idle => exact h
    | @quiet phase hq =>
      refine h.setPhase hl fun w backends hphase => ?_
      generalize hold : l.phase = old at hq
      cases hq with
      | answered =>
        cases hphase
        exact hv i _ l _ rfl hl hold
      | _ => cases hphase
    | publish hp =>
      refine (h.publish hd (List.mem_of_getElem? hl) hp).setPhase hl fun w backends hphase => ?_
      cases hphase
    | @update w balancer hp =>
      refine (h.update hd).setPhase hl fun k backends hphase => ?_
      cases balancer <;> cases hphase
    | ready hp =>
      have hready : Sourced P (s.sendReady l.args.readySend) := ⟨h.inHand, h.channels, h.balancers⟩
      refine hready.setPhase hl fun w backends hphase => ?_
      cases hphase

theorem Sourced.step (h : Sourced P s) (hd : Wired s) (hv : Vouched P s a) :
    Sourced P (s.step a) := by
  cases a with
  | backendsForHostname hostname port => exact h.backendsForHostname hd hostname port
  | clone w =>
    refine h.onHeap fun a => ?_
    split <;> exact ⟨rfl, rfl⟩
  | drop w => exact h.onHeap fun _ => ⟨rfl, rfl⟩
  | recv => exact h.recv
  | start i => exact h.start i
  | iterate i response => exact h.iterate hd hv

end Grcache.Discovery
