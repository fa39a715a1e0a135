import Grcache.Base.Slots
import Grcache.Discovery.Dns

/-!
# What a discovery loop watches

A loop owns the senders of one handle and stops when the handle it watches is
gone, so the two have to be the same. The registry always shows the newest
handle of a host and port; a loop reads it when its task starts. Between the
command and that start the handle may have been dropped and another one
registered for the same host and port, and then the loop watches the other one.
-/

namespace Grcache.Discovery

variable {s s' : State}

-- ---------------------------------------------------------------------------
-- What should hold
-- ---------------------------------------------------------------------------

/-- The loop's senders feed the receivers of this handle. -/
def Owns (s : State) (c : Command) (w : Nat) : Prop :=
  ∃ a, s.heap[w]? = some a ∧ a.handle.ready = c.readySend ∧ a.handle.backends = c.backendsSender

def WatchesOwn (s : State) : Prop :=
  ∀ l ∈ s.loops, ∀ w, l.phase.weak = some w → ∀ k, Owns s l.args k ↔ k = w

def WatchedOnce (s : State) : Prop :=
  ∀ (i j : Nat) (l l' : Loop) (w : Nat), s.loops[i]? = some l → s.loops[j]? = some l' →
    l.phase.weak = some w → l'.phase.weak = some w → i = j

def ExitsWhenDropped (s : State) : Prop :=
  ∀ (i : Nat) (l : Loop) w resolved k, s.loops[i]? = some l → l.phase = .checking w resolved →
    Owns s l.args k → s.strongCount k = 0 →
    ∀ response, (s.iterate i response).loops[i]? = some ⟨l.args, .exited⟩

structure DiscoveryOk (s : State) : Prop where
  watchesOwn : WatchesOwn s
  watchedOnce : WatchedOnce s
  exitsWhenDropped : ExitsWhenDropped s

/-- When a loop starts, no handle for its host and port is newer than its own. -/
def NotOvertaken (s : State) : Action → Prop
  | .start i => ∀ l, s.loops[i]? = some l → l.phase = .spawned →
      ∀ a ∈ s.heap, a.hostPort = l.args.hostPort → a.handle.ready ≤ l.args.readySend
  | _ => True

-- ---------------------------------------------------------------------------
-- Wiring
-- ---------------------------------------------------------------------------

-- The part of the state that says which senders belong to which handle.
def Allocation.wiring (a : Allocation) : Command := ⟨a.hostPort, a.handle.ready, a.handle.backends⟩

def State.wiring (s : State) : List Command := s.heap.map Allocation.wiring

def State.owners (s : State) : List Command := s.commands ++ s.loops.map Loop.args

structure Wired (s : State) : Prop where
  readyChannels : s.readyChannels.length = s.wiring.length
  backendsChannels : s.backendsChannels.length = s.wiring.length
  numbered : ∀ (w : Nat) (c : Command),
    s.wiring[w]? = some c → c.readySend = w ∧ c.backendsSender = w
  registered : ∀ hp w, s.serviceBackends hp = some w → ∃ c, s.wiring[w]? = some c ∧ c.hostPort = hp
  newest : ∀ c ∈ s.wiring, ∃ w, s.serviceBackends c.hostPort = some w ∧ c.readySend ≤ w
  owners : ∀ c ∈ s.owners, c ∈ s.wiring
  owned : (s.owners.map Command.readySend).Nodup

structure SameWiring (s s' : State) : Prop where
  readyChannels : s'.readyChannels.length = s.readyChannels.length
  backendsChannels : s'.backendsChannels.length = s.backendsChannels.length
  wiring : s'.wiring = s.wiring
  registry : s'.serviceBackends = s.serviceBackends
  owners : s'.owners = s.owners

theorem SameWiring.refl : SameWiring s s := ⟨rfl, rfl, rfl, rfl, rfl⟩

theorem SameWiring.trans (h : SameWiring s s') (h' : SameWiring s' t) : SameWiring s t where
  readyChannels := h'.readyChannels.trans h.readyChannels
  backendsChannels := h'.backendsChannels.trans h.backendsChannels
  wiring := h'.wiring.trans h.wiring
  registry := h'.registry.trans h.registry
  owners := h'.owners.trans h.owners

theorem Wired.same (h : Wired s) (hs : SameWiring s s') : Wired s' where
  readyChannels := by rw [hs.readyChannels, hs.wiring, h.readyChannels]
  backendsChannels := by rw [hs.backendsChannels, hs.wiring, h.backendsChannels]
  numbered := by rw [hs.wiring]; exact h.numbered
  registered := by rw [hs.wiring, hs.registry]; exact h.registered
  newest := by rw [hs.wiring, hs.registry]; exact h.newest
  owners := by rw [hs.wiring, hs.owners]; exact h.owners
  owned := by rw [hs.owners]; exact h.owned

theorem onHeap_same (hf : ∀ a, (f a).wiring = a.wiring) : SameWiring s (s.onHeap w f) :=
  ⟨rfl, rfl, Base.map_modify hf _ _, rfl, rfl⟩

theorem setPhase_same : SameWiring s (s.setPhase i phase) := by
  refine ⟨rfl, rfl, rfl, rfl, ?_⟩
  simp only [State.owners, State.setPhase]
  rw [Base.map_modify (g := fun l : Loop => { l with phase := phase }) fun _ => rfl]

theorem update_same : SameWiring s (s.update w balancer) := by
  refine onHeap_same fun a => ?_
  cases balancer <;> rfl

-- ---------------------------------------------------------------------------
-- What a loop does
-- ---------------------------------------------------------------------------

def State.Live (s : State) (w : Nat) : Prop := 0 < s.strongCount w

theorem live_iff : s.Live w ↔ (∃ a, s.heap[w]? = some a ∧ 0 < a.held) ∨
    ∃ l ∈ s.loops, l.phase.upgraded = some w := by
  unfold State.Live State.strongCount
  rw [Nat.add_pos_iff_pos_or_pos, List.countP_pos_iff]
  cases s.heap[w]? <;> simp

/-- The moves of a started loop, as far as references go. -/
inductive Move (s : State) : Phase → Phase → Prop
  | watch (hw : p.weak = some w) (hw' : p'.weak = some w)
      (hup : p'.upgraded = none ∨ p'.upgraded = some w ∧ s.Live w) : Move s p p'
  | exit (hdead : ¬ s.Live w) : Move s (.checking w resolved) .exited

/-- A state that differs from another one in channels and balancers only. -/
structure SameRefs (s t : State) : Prop where
  wiring : SameWiring s t
  loops : t.loops = s.loops
  held : ∀ w : Nat, t.heap[w]?.map Allocation.held = s.heap[w]?.map Allocation.held

theorem SameRefs.refl : SameRefs s s := ⟨.refl, rfl, fun _ => rfl⟩

theorem SameRefs.live_iff (h : SameRefs s t) : t.Live w ↔ s.Live w := by
  simp only [State.Live, State.strongCount, h.loops, h.held w]

theorem SameRefs.update : SameRefs s (s.update w balancer) := by
  refine ⟨update_same, rfl, fun k => ?_⟩
  simp only [State.update, State.onHeap, List.getElem?_modify, Option.map_eq_map]
  split
  · cases s.heap[k]? with
    | none => rfl
    | some a => cases balancer <;> rfl
  · simp

theorem loop_move (hl : s.loops[i]? = some l) (response : Option (List UInt32)) :
    s.iterate i response = s ∨ ∃ t phase, s.iterate i response = t.setPhase i phase ∧
      SameRefs s t ∧ Move s l.phase phase := by
  have hmem := List.mem_of_getElem? hl
  unfold State.iterate
  simp only [hl]
  cases hphase : l.phase with
  | spawned => exact .inl rfl
  | exited => exact .inl rfl
  | panicked => exact .inl rfl
  | resolving w =>
    right
    simp only
    split
    · exact ⟨s, _, rfl, .refl, .watch rfl rfl (.inl rfl)⟩
    · exact ⟨s, _, rfl, .refl, .watch rfl rfl (.inl rfl)⟩
  | resolved w backends =>
    right
    simp only
    split
    · refine ⟨_, _, rfl, ⟨?_, rfl, fun _ => rfl⟩, .watch rfl rfl (.inl rfl)⟩
      exact ⟨rfl, List.length_set, rfl, rfl, rfl⟩
    · exact ⟨s, _, rfl, .refl, .watch rfl rfl (.inl rfl)⟩
  | upgrading w =>
    right
    simp only
    split
    next hlive => exact ⟨s, _, rfl, .refl, .watch rfl rfl (.inr ⟨rfl, hlive⟩)⟩
    · exact ⟨s, _, rfl, .refl, .watch rfl rfl (.inl rfl)⟩
  | updating w next =>
    right
    -- the loop itself keeps the handle alive between the two updates
    have hlive : s.Live w := live_iff.mpr (.inr ⟨l, hmem, by rw [hphase]; rfl⟩)
    cases next with
    | roundRobin => exact ⟨_, _, rfl, .update, .watch rfl rfl (.inr ⟨rfl, hlive⟩)⟩
    | consistent => exact ⟨_, _, rfl, .update, .watch rfl rfl (.inl rfl)⟩
  | checking w resolved =>
    right
    simp only
    split
    next hzero => exact ⟨s, _, rfl, .refl, .exit (by simp [State.Live, hzero])⟩
    · split
      · exact ⟨s, _, rfl, .refl, .watch rfl rfl (.inl rfl)⟩
      · exact ⟨s, _, rfl, .refl, .watch rfl rfl (.inl rfl)⟩
  | announcing w =>
    refine .inr ⟨_, _, rfl, ⟨?_, rfl, fun _ => rfl⟩, .watch rfl rfl (.inl rfl)⟩
    exact ⟨List.length_set, rfl, rfl, rfl, rfl⟩
  | sleeping w => exact .inr ⟨s, _, rfl, .refl, .watch rfl rfl (.inl rfl)⟩

theorem iterate_move (s : State) (i : Nat) (response : Option (List UInt32)) :
    s.iterate i response = s ∨ ∃ l t phase, s.loops[i]? = some l ∧
      s.iterate i response = t.setPhase i phase ∧ SameRefs s t ∧ Move s l.phase phase := by
  cases hl : s.loops[i]? with
  | none => exact .inl (by simp [State.iterate, hl])
  | some l =>
    rcases loop_move hl response with heq | ⟨t, phase, hmove⟩
    · exact .inl heq
    · exact .inr ⟨l, t, phase, rfl, hmove⟩

theorem Move.weak (h : Move s p p') (hw : p'.weak = some w) : p.weak = some w := by
  cases h with
  | watch hp hp' => exact hp.trans (hp'.symm.trans hw)
  | exit => cases hw

-- ---------------------------------------------------------------------------
-- Weak references
-- ---------------------------------------------------------------------------

def KeepsWatch (s s' : State) : Prop :=
  ∀ l' ∈ s'.loops, ∀ w, l'.phase.weak = some w →
    ∃ l ∈ s.loops, l.args = l'.args ∧ l.phase.weak = some w

theorem KeepsWatch.refl (h : s'.loops = s.loops) : KeepsWatch s s' := by
  intro l hl w hw
  rw [h] at hl
  exact ⟨l, hl, rfl, hw⟩

theorem mem_setPhase (hl : l' ∈ (s.setPhase i phase).loops) :
    l' ∈ s.loops ∨ ∃ l, s.loops[i]? = some l ∧ l' = { l with phase := phase } :=
  Base.mem_modify_cases hl

theorem KeepsWatch.setPhase {t : State} (ht : t.loops = s.loops) (hl : s.loops[i]? = some l)
    (hp : ∀ w, phase.weak = some w → l.phase.weak = some w) :
    KeepsWatch s (t.setPhase i phase) := by
  intro l' hl' w hw
  rcases mem_setPhase hl' with hl' | ⟨l₀, hl₀, rfl⟩
  · exact ⟨l', ht ▸ hl', rfl, hw⟩
  · rw [ht, hl] at hl₀
    cases hl₀
    exact ⟨l, List.mem_of_getElem? hl, rfl, hp w hw⟩

theorem iterate_spec (s : State) (i : Nat) (response : Option (List UInt32)) :
    SameWiring s (s.iterate i response) ∧ KeepsWatch s (s.iterate i response) := by
  rcases iterate_move s i response with heq | ⟨l, t, phase, hl, heq, hs, hmove⟩
  · rw [heq]
    exact ⟨.refl, .refl rfl⟩
  · rw [heq]
    exact ⟨hs.wiring.trans setPhase_same, .setPhase hs.loops hl fun _ hw => hmove.weak hw⟩

-- ---------------------------------------------------------------------------
-- The invariant
-- ---------------------------------------------------------------------------

def Watches (s : State) : Prop :=
  ∀ l ∈ s.loops, ∀ w, l.phase.weak = some w → w = l.args.readySend

theorem Watches.keeps (h : Watches s) (hk : KeepsWatch s s') : Watches s' := by
  intro l' hl' w hw
  obtain ⟨l, hl, hargs, hw⟩ := hk l' hl' w hw
  rw [← hargs]
  exact h l hl w hw

theorem Wired.init : Wired .init where
  readyChannels := rfl
  backendsChannels := rfl
  numbered w c h := by simp [State.wiring, State.init] at h
  registered hp w h := nomatch h
  newest c h := nomatch h
  owners c h := nomatch h
  owned := List.nodup_nil

theorem Wired.fresh (h : Wired s) (hc : c ∈ s.wiring) : c.readySend < s.wiring.length := by
  obtain ⟨w, hw⟩ := List.mem_iff_getElem?.mp hc
  rw [(h.numbered w c hw).1]
  exact (List.getElem?_eq_some_iff.mp hw).1

structure Allocated (s : State) (c : Command) (s' : State) : Prop where
  readyChannels : s'.readyChannels.length = s.readyChannels.length + 1
  backendsChannels : s'.backendsChannels.length = s.backendsChannels.length + 1
  wiring : s'.wiring = s.wiring ++ [c]
  readySend : c.readySend = s.wiring.length
  backendsSender : c.backendsSender = s.wiring.length
  registry : s'.serviceBackends =
    Function.update s.serviceBackends c.hostPort (some s.wiring.length)
  owners : s'.owners.Perm (c :: s.owners)

theorem Wired.allocated (h : Wired s) (ha : Allocated s c s') : Wired s' where
  readyChannels := by rw [ha.readyChannels, ha.wiring, h.readyChannels]; simp
  backendsChannels := by rw [ha.backendsChannels, ha.wiring, h.backendsChannels]; simp
  numbered w c' hw := by
    rw [ha.wiring] at hw
    rcases Base.getElem?_snoc_cases hw with hw | ⟨rfl, rfl⟩
    · exact h.numbered w c' hw
    · exact ⟨ha.readySend, ha.backendsSender⟩
  registered hp w hw := by
    rw [ha.wiring]
    rw [ha.registry] at hw
    by_cases heq : hp = c.hostPort
    · subst heq
      rw [Function.update_self, Option.some.injEq] at hw
      exact ⟨c, by simp [← hw], rfl⟩
    · rw [Function.update_of_ne heq] at hw
      obtain ⟨c', hc', hhp⟩ := h.registered hp w hw
      refine ⟨c', ?_, hhp⟩
      rw [List.getElem?_append_left (List.getElem?_eq_some_iff.mp hc').1]
      exact hc'
  newest c' hc' := by
    rw [ha.wiring] at hc'
    rw [ha.registry]
    by_cases heq : c'.hostPort = c.hostPort
    · rw [heq, Function.update_self]
      refine ⟨_, rfl, ?_⟩
      rcases List.mem_append.mp hc' with hc' | hc'
      · exact (h.fresh hc').le
      · rw [List.mem_singleton.mp hc', ha.readySend]
    · rw [Function.update_of_ne heq]
      rcases List.mem_append.mp hc' with hc' | hc'
      · exact h.newest c' hc'
      · exact absurd (congrArg Command.hostPort (List.mem_singleton.mp hc')) heq
  owners c' hc' := by
    rw [ha.wiring]
    rcases List.mem_cons.mp (ha.owners.mem_iff.mp hc') with rfl | hc'
    · simp
    · exact List.mem_append_left _ (h.owners c' hc')
  owned := by
    rw [(ha.owners.map Command.readySend).nodup_iff, List.map_cons, List.nodup_cons]
    refine ⟨fun hmem => ?_, h.owned⟩
    obtain ⟨c', hc', heq⟩ := List.mem_map.mp hmem
    have hlt := h.fresh (h.owners c' hc')
    rw [heq, ha.readySend] at hlt
    exact lt_irrefl _ hlt

theorem Wired.allocates (h : Wired s)
    (hf : (s.serviceBackends (hostname, port)).filter (0 < s.strongCount ·) = none) :
    Allocated s ⟨(hostname, port), s.readyChannels.length, s.backendsChannels.length⟩
      (s.backendsForHostname hostname port) := by
  have hlen : s.heap.length = s.wiring.length := by simp [State.wiring]
  simp only [State.backendsForHostname, hf]
  refine ⟨?_, ?_, ?_, h.readyChannels, h.backendsChannels, ?_, ?_⟩
  · simp
  · simp
  · simp [State.wiring, Allocation.wiring]
  · rw [hlen]
  · simp [State.owners]

theorem Wired.backendsForHostname (h : Wired s) (hostname : String) (port : UInt16) :
    Wired (s.backendsForHostname hostname port) := by
  cases hf : (s.serviceBackends (hostname, port)).filter (0 < s.strongCount ·) with
  | none => exact h.allocated (h.allocates hf)
  | some w =>
    simp only [State.backendsForHostname, hf]
    exact h.same (onHeap_same fun _ => rfl)

-- The command moves from the channel to the loops.
theorem recv_owners (s : State) : s.recv.owners.Perm s.owners := by
  unfold State.recv
  split
  · exact .refl _
  next command commands hcommands =>
    simp only [State.owners, hcommands, List.map_append, List.map_cons, List.map_nil,
      List.cons_append, ← List.append_assoc]
    exact List.perm_append_singleton _ _

theorem recv_wiring (s : State) : s.recv.wiring = s.wiring := by
  unfold State.recv
  split <;> rfl

theorem Wired.recv (h : Wired s) : Wired s.recv := by
  have hperm := recv_owners s
  unfold State.recv at *
  split
  · exact h
  next command commands hcommands =>
    simp only [hcommands] at hperm
    exact {
      readyChannels := h.readyChannels
      backendsChannels := h.backendsChannels
      numbered := h.numbered
      registered := h.registered
      newest := h.newest
      owners := fun c hc => h.owners c (hperm.mem_iff.mp hc)
      owned := (hperm.map Command.readySend).nodup_iff.mpr h.owned }

theorem start_same : SameWiring s (s.start i) := by
  unfold State.start
  split
  · exact .refl
  · split
    · split
      · exact setPhase_same
      · exact setPhase_same
    · exact .refl

theorem Wired.step (h : Wired s) (a : Action) : Wired (s.step a) := by
  cases a with
  | backendsForHostname hostname port => exact h.backendsForHostname hostname port
  | clone w =>
    refine h.same (onHeap_same fun a => ?_)
    split <;> rfl
  | drop w => exact h.same (onHeap_same fun _ => rfl)
  | recv => exact h.recv
  | start i => exact h.same start_same
  | iterate i response => exact h.same (iterate_spec s i response).1

-- ---------------------------------------------------------------------------
-- Starting loops
-- ---------------------------------------------------------------------------

-- What a starting loop finds is the newest handle of its host and port.
theorem Wired.finds (h : Wired s) (hl : l ∈ s.loops) :
    ∃ w, s.serviceBackends l.args.hostPort = some w ∧ l.args.readySend ≤ w ∧
      ∃ a ∈ s.heap, a.hostPort = l.args.hostPort ∧ a.handle.ready = w := by
  have howner : l.args ∈ s.wiring :=
    h.owners _ (List.mem_append_right _ (List.mem_map_of_mem hl))
  obtain ⟨w, hw, hle⟩ := h.newest _ howner
  obtain ⟨c, hc, hhp⟩ := h.registered _ _ hw
  obtain ⟨a, ha, rfl⟩ := List.mem_map.mp (List.mem_of_getElem? hc)
  exact ⟨w, hw, hle, a, ha, hhp, (h.numbered w _ hc).1⟩

theorem start_eq (hl : s.loops[i]? = some l) (hp : l.phase = .spawned)
    (hw : s.serviceBackends l.args.hostPort = some w) :
    s.start i = s.setPhase i (.resolving w) := by
  simp [State.start, hl, hp, hw]

theorem start_idle (h : ∀ l, s.loops[i]? = some l → l.phase ≠ .spawned) : s.start i = s := by
  unfold State.start
  split
  · rfl
  next l hl =>
    split
    · exact absurd ‹_› (h l hl)
    · rfl

theorem Watches.start (h : Watches s) (hwired : Wired s) (hn : NotOvertaken s (.start i)) :
    Watches (s.start i) := by
  by_cases hidle : ∀ l, s.loops[i]? = some l → l.phase ≠ .spawned
  · rw [start_idle hidle]
    exact h
  · simp only [not_forall, not_not] at hidle
    obtain ⟨l, hl, hp⟩ := hidle
    obtain ⟨w, hw, hle, a, ha, hhp, hready⟩ := hwired.finds (List.mem_of_getElem? hl)
    have hown : w = l.args.readySend := le_antisymm (hready ▸ hn l hl hp a ha hhp) hle
    rw [start_eq hl hp hw]
    intro l' hl' w' hw'
    rcases mem_setPhase hl' with hl' | ⟨l₀, hl₀, rfl⟩
    · exact h l' hl' w' hw'
    · rw [hl] at hl₀
      cases hl₀
      cases hw'
      exact hown

theorem Watches.step (h : Watches s) (hwired : Wired s) (hn : NotOvertaken s a) :
    Watches (s.step a) := by
  cases a with
  | backendsForHostname hostname port =>
    refine h.keeps (.refl ?_)
    simp only [State.step, State.backendsForHostname]
    split <;> rfl
  | clone w => exact h.keeps (.refl rfl)
  | drop w => exact h.keeps (.refl rfl)
  | recv =>
    refine h.keeps fun l' hl' w hw => ?_
    simp only [State.step, State.recv] at hl'
    split at hl'
    · exact ⟨l', hl', rfl, hw⟩
    · rcases List.mem_append.mp hl' with hl' | hl'
      · exact ⟨l', hl', rfl, hw⟩
      · rw [List.mem_singleton.mp hl'] at hw
        cases hw
  | start i => exact h.start hwired hn
  | iterate i response => exact h.keeps (iterate_spec s i response).2

-- ---------------------------------------------------------------------------
-- Runs
-- ---------------------------------------------------------------------------

theorem Wired.owns_iff (h : Wired s) (hc : c ∈ s.owners) : Owns s c w ↔ w = c.readySend := by
  obtain ⟨k, hk⟩ := List.mem_iff_getElem?.mp (h.owners c hc)
  obtain ⟨hready, hbackends⟩ := h.numbered k c hk
  constructor
  · rintro ⟨a, ha, har, -⟩
    have hw : s.wiring[w]? = some a.wiring := by simp [State.wiring, ha]
    exact (h.numbered w _ hw).1.symm.trans har
  · rintro rfl
    rw [← hready, State.wiring, List.getElem?_map] at hk
    obtain ⟨a, ha, rfl⟩ := Option.map_eq_some_iff.mp hk
    exact ⟨a, ha, rfl, rfl⟩

theorem Wired.loops_nodup (h : Wired s) : (s.loops.map (·.args.readySend)).Nodup := by
  have hnodup := h.owned
  simp only [State.owners, List.map_append, List.map_map] at hnodup
  exact (List.nodup_append.mp hnodup).2.1

theorem Wired.discoveryOk (h : Wired s) (hw : Watches s) : DiscoveryOk s where
  watchesOwn l hl w hweak k := by
    rw [h.owns_iff (List.mem_append_right _ (List.mem_map_of_mem hl)), hw l hl w hweak]
  watchedOnce i j l l' w hi hj hweak hweak' := by
    have heq : l.args.readySend = l'.args.readySend :=
      (hw l (List.mem_of_getElem? hi) w hweak).symm.trans (hw l' (List.mem_of_getElem? hj) w hweak')
    refine (List.getElem?_inj ?_ h.loops_nodup).mp ?_
    · rw [List.length_map]
      exact (List.getElem?_eq_some_iff.mp hi).1
    · simp [hi, hj, heq]
  exitsWhenDropped i l w resolved k hi hp hk hzero response := by
    have hl := List.mem_of_getElem? hi
    -- the dropped handle is the one it watches
    rw [h.owns_iff (List.mem_append_right _ (List.mem_map_of_mem hl)),
      ← hw l hl w (by rw [hp]; rfl)] at hk
    subst hk
    simp [State.iterate, hi, hp, hzero, State.setPhase]

-- A loop that starts after a newer handle was registered watches that one.
theorem Wired.overtaken (h : Wired s) (hn : ¬ NotOvertaken s a) : ¬ WatchesOwn (s.step a) := by
  cases a with
  | start i =>
    simp only [NotOvertaken, not_forall, not_le] at hn
    obtain ⟨l, hl, hp, a, ha, hhp, hlt⟩ := hn
    obtain ⟨w, hw, -⟩ := h.finds (List.mem_of_getElem? hl)
    obtain ⟨w', hw', hle⟩ := h.newest _ (List.mem_map_of_mem (f := Allocation.wiring) ha)
    simp only [Allocation.wiring, hhp] at hw' hle
    obtain rfl : w = w' := Option.some.inj (hw.symm.trans hw')
    intro hown
    have hl' : (⟨l.args, .resolving w⟩ : Loop) ∈ (s.step (.start i)).loops := by
      refine List.mem_of_getElem? (i := i) ?_
      simp [State.step, start_eq hl hp hw, State.setPhase, hl]
    have hwired := h.step (.start i)
    have howns := (hown _ hl' w rfl w).mpr rfl
    rw [hwired.owns_iff (List.mem_append_right _ (List.mem_map_of_mem hl'))] at howns
    simp only at howns
    omega
  | _ => exact absurd trivial hn

/-- In every run, every loop watches its own handle throughout exactly when no
loop is overtaken before it starts. -/
theorem discovery_ok_iff (actions : List Action) :
    Base.Throughout State.step DiscoveryOk .init actions ↔
      Base.Always State.step NotOvertaken .init actions :=
  Base.throughout_iff_always (I := fun s => Wired s ∧ Watches s)
    ⟨.init, fun _ h => nomatch h⟩
    (fun _ a h hn => ⟨h.1.step a, h.2.step h.1 hn⟩)
    (fun _ h => h.1.discoveryOk h.2)
    (fun _ _ h hn hok => h.1.overtaken hn hok.watchesOwn)

-- A handle is dropped and created again before the first loop gets to run.
def recreated : List Action :=
  [.backendsForHostname "users-rpc" 50051, .drop 0, .backendsForHostname "users-rpc" 50051, .recv,
    .recv, .start 0, .start 1]

/-- Both loops watch the second handle. -/
theorem recreated_watched_twice : ¬ Base.Throughout State.step DiscoveryOk .init recreated := by
  intro h
  have hok := h recreated List.prefix_rfl
  have hsame := hok.watchedOnce 0 1 ⟨⟨("users-rpc", 50051), 0, 0⟩, .resolving 1⟩
    ⟨⟨("users-rpc", 50051), 1, 1⟩, .resolving 1⟩ 1 (by decide) (by decide) rfl rfl
  cases hsame

end Grcache.Discovery
