import Grcache.Discovery.Live

/-!
# What a handle shows

A discovery loop publishes the backends it resolved, and then has the two
balancers of its handle take them over, one after the other. Requests select
from the balancers, so what matters to them is how far these lag behind. Only
the loop that owns a handle publishes for it, but a loop that was overtaken may
update its balancers too; that does no harm, since a balancer reads the channel
of its own handle.
-/

namespace Grcache.Discovery

variable {s s' : State} {l : Loop} {i : Nat}

def ServiceBackendsHandle.shown (handle : ServiceBackendsHandle) : Balancer → Finset Backend
  | .roundRobin => handle.loadBalancerRoundRobin
  | .consistent => handle.loadBalancerConsistent

def Phase.pending : Phase → List Balancer
  | .upgrading _ | .updating _ .roundRobin => [.roundRobin, .consistent]
  | .updating _ .consistent => [.consistent]
  | _ => []

/-- The balancer selects from the backends that were published last. -/
def Shows (s : State) (a : Allocation) (balancer : Balancer) : Prop :=
  s.backendsChannels[a.handle.backends]? = some (a.handle.shown balancer)

-- ---------------------------------------------------------------------------
-- The steps of a loop
-- ---------------------------------------------------------------------------

inductive Quiet (s : State) (args : Command) : Option (List UInt32) → Phase → Phase → Prop
  | answered : Quiet s args (some response) (.resolving w)
      (.resolved w (backendsOf args.hostPort response))
  | unanswered : Quiet s args none (.resolving w) (.checking w false)
  | unchanged (h : s.backendsChannels[args.backendsSender]? = some backends) :
      Quiet s args response (.resolved w backends) (.checking w true)
  | upgrade (h : s.Live w) : Quiet s args response (.upgrading w) (.updating w .roundRobin)
  | lost (h : ¬ s.Live w) : Quiet s args response (.upgrading w) (.checking w true)
  | stop (h : ¬ s.Live w) : Quiet s args response (.checking w resolved) .exited
  | announce (h : s.Live w) : Quiet s args response (.checking w true) (.announcing w)
  | retry (h : s.Live w) : Quiet s args response (.checking w false) (.sleeping w)
  | wake : Quiet s args response (.sleeping w) (.resolving w)

def State.publish (s : State) (sender : Nat) (backends : Finset Backend) : State :=
  { s with backendsChannels := s.backendsChannels.set sender backends }

def State.sendReady (s : State) (sender : Nat) : State :=
  { s with readyChannels := s.readyChannels.set sender true }

def Phase.afterUpdate (w : Nat) : Balancer → Phase
  | .roundRobin => .updating w .consistent
  | .consistent => .checking w true

inductive Advance (s : State) (i : Nat) (l : Loop) (response : Option (List UInt32)) :
    State → Prop
  | idle (hw : l.phase.weak = none) : Advance s i l response s
  | quiet (hq : Quiet s l.args response l.phase phase) :
      Advance s i l response (s.setPhase i phase)
  | publish (hp : l.phase = .resolved w backends) :
      Advance s i l response
        ((s.publish l.args.backendsSender backends).setPhase i (.upgrading w))
  | update (hp : l.phase = .updating w balancer) :
      Advance s i l response ((s.update w balancer).setPhase i (.afterUpdate w balancer))
  | ready (hp : l.phase = .announcing w) :
      Advance s i l response ((s.sendReady l.args.readySend).setPhase i (.sleeping w))

theorem iterate_advance (hl : s.loops[i]? = some l) (response : Option (List UInt32)) :
    Advance s i l response (s.iterate i response) := by
  unfold State.iterate
  simp only [hl]
  cases hphase : l.phase with
  | spawned => exact .idle (by rw [hphase]; rfl)
  | exited => exact .idle (by rw [hphase]; rfl)
  | panicked => exact .idle (by rw [hphase]; rfl)
  | resolving w =>
    cases response with
    | some response => exact .quiet (by rw [hphase]; exact .answered)
    | none => exact .quiet (by rw [hphase]; exact .unanswered)
  | resolved w backends =>
    simp only
    split
    next => exact .publish hphase
    next hsame => exact .quiet (by rw [hphase]; exact .unchanged (not_not.mp hsame))
  | upgrading w =>
    simp only
    split
    next hlive => exact .quiet (by rw [hphase]; exact .upgrade hlive)
    next hdead => exact .quiet (by rw [hphase]; exact .lost hdead)
  | updating w balancer =>
    cases balancer with
    | roundRobin => exact .update hphase
    | consistent => exact .update hphase
  | checking w resolved =>
    simp only
    split
    next hzero =>
      have hdead : ¬ s.Live w := by simp [State.Live, hzero]
      exact .quiet (by rw [hphase]; exact .stop hdead)
    next hpos =>
      have hlive : s.Live w := Nat.pos_of_ne_zero hpos
      cases resolved with
      | true => exact .quiet (by rw [hphase]; exact .announce hlive)
      | false => exact .quiet (by rw [hphase]; exact .retry hlive)
  | announcing w => exact .ready hphase
  | sleeping w => exact .quiet (by rw [hphase]; exact .wake)

-- ---------------------------------------------------------------------------
-- Handles that are gone
-- ---------------------------------------------------------------------------

theorem iterate_fades (s : State) (i : Nat) (response : Option (List UInt32)) :
    Fades s (s.iterate i response) := by
  rcases iterate_move s i response with heq | ⟨l, t, phase, hl, heq, hs, hmove⟩
  · rw [heq]
    exact .refl
  · rw [heq]
    refine .setPhase hs fun w hw => ?_
    generalize l.phase = p at hmove
    cases hmove with
    | watch hp hp' hup =>
      rcases hup with hnone | ⟨hsome, hlive⟩
      · simp [hnone] at hw
      · rw [hsome] at hw
        cases hw
        exact hlive
    | exit hdead => cases hw

theorem start_fades (s : State) (i : Nat) : Fades s (s.start i) := by
  unfold State.start
  split
  · exact .refl
  · split
    · split
      · exact .setPhase .refl nofun
      · exact .setPhase .refl nofun
    · exact .refl

theorem recv_fades (s : State) : Fades s s.recv := by
  intro w hw
  unfold State.recv at hw
  split at hw
  · exact hw
  · simpa [State.Live, State.strongCount, Phase.upgraded] using hw

theorem clone_fades (s : State) (w : Nat) : Fades s (s.clone w) := by
  refine .onHeap fun a ha => .inl ?_
  split at ha
  next hpos => exact hpos
  next => exact ha

theorem drop_fades (s : State) (w : Nat) : Fades s (s.drop w) :=
  .onHeap fun _ ha => .inl (lt_of_lt_of_le ha (Nat.sub_le _ _))

def State.Unserved (s : State) (hostPort : HostPort) : Prop :=
  (s.serviceBackends hostPort).filter (0 < s.strongCount ·) = none

theorem allocate_eq (hf : s.Unserved (hostname, port)) :
    s.backendsForHostname hostname port = { s with
      heap := s.heap ++ [⟨(hostname, port), 1,
        ⟨s.backendsChannels.length, ∅, ∅, s.readyChannels.length⟩⟩]
      serviceBackends :=
        Function.update s.serviceBackends (hostname, port) (some s.heap.length)
      readyChannels := s.readyChannels ++ [false]
      backendsChannels := s.backendsChannels ++ [∅]
      commands := s.commands ++
        [⟨(hostname, port), s.readyChannels.length, s.backendsChannels.length⟩] } := by
  unfold State.Unserved at hf
  simp only [State.backendsForHostname, hf]

theorem allocate_live (hf : s.Unserved (hostname, port)) (hw : w < s.heap.length) :
    (s.backendsForHostname hostname port).Live w ↔ s.Live w := by
  rw [allocate_eq hf]
  unfold State.Live State.strongCount
  rw [List.getElem?_append_left hw]

theorem step_fades (s : State) (a : Action) (hw : w < s.heap.length) (h : (s.step a).Live w) :
    s.Live w := by
  cases a with
  | backendsForHostname hostname port =>
    cases hf : (s.serviceBackends (hostname, port)).filter (0 < s.strongCount ·) with
    | none => exact (allocate_live hf hw).mp h
    | some w' =>
      have hlive : s.Live w' := by simpa [State.Live] using (Option.filter_eq_some_iff.mp hf).2
      simp only [State.step, State.backendsForHostname, hf] at h
      have hfades : Fades s (s.onHeap w' fun a => { a with held := a.held + 1 }) :=
        .onHeap fun _ _ => .inr hlive
      exact hfades w h
  | clone w' => exact clone_fades s w' w h
  | drop w' => exact drop_fades s w' w h
  | recv => exact recv_fades s w h
  | start i => exact start_fades s i w h
  | iterate i response => exact iterate_fades s i response w h

-- ---------------------------------------------------------------------------
-- The invariant
-- ---------------------------------------------------------------------------

/-- The loop that owns the handle is on its way to update the balancer. -/
def Lags (s : State) (w : Nat) (balancer : Balancer) : Prop :=
  ∃ l ∈ s.loops, l.args.readySend = w ∧ balancer ∈ l.phase.pending

def Current (s : State) : Prop :=
  ∀ (w : Nat) a, s.heap[w]? = some a → s.Live w →
    ∀ balancer, s.backendsChannels[w]? = some (a.handle.shown balancer) ∨ Lags s w balancer

theorem Lags.setPhase {t : State} (h : Lags s w balancer) (ht : t.loops = s.loops)
    (hl : s.loops[i]? = some l)
    (hp : l.args.readySend = w → balancer ∈ l.phase.pending → balancer ∈ phase.pending) :
    Lags (t.setPhase i phase) w balancer := by
  obtain ⟨l', hl', hown, hpending⟩ := h
  obtain ⟨j, hj⟩ := List.mem_iff_getElem?.mp hl'
  have hset : (t.setPhase i phase).loops[j]? =
      some (if i = j then { l' with phase := phase } else l') := by
    simp only [State.setPhase, ht, List.getElem?_modify, hj, Option.map_eq_map, Option.map_some]
  refine ⟨_, List.mem_of_getElem? hset, ?_⟩
  split
  next hij =>
    subst hij
    rw [hl] at hj
    cases hj
    exact ⟨hown, hp hown hpending⟩
  next => exact ⟨hown, hpending⟩

theorem Current.keep (h : Current s) (hf : Fades s s')
    (hheap : ∀ (w : Nat) a', s'.heap[w]? = some a' →
      ∃ a, s.heap[w]? = some a ∧ a'.handle = a.handle)
    (hchannels : s'.backendsChannels = s.backendsChannels)
    (hlags : ∀ w balancer, s.Live w → Lags s w balancer → Lags s' w balancer) : Current s' := by
  intro w a' ha' hlive' balancer
  obtain ⟨a, ha, hhandle⟩ := hheap w a' ha'
  have hlive := hf w hlive'
  rw [hchannels, hhandle]
  rcases h w a ha hlive balancer with hshown | hlag
  · exact .inl hshown
  · exact .inr (hlags w balancer hlive hlag)

theorem Current.onHeap (h : Current s) (hf : Fades s (s.onHeap w f))
    (hhandle : ∀ a, (f a).handle = a.handle) : Current (s.onHeap w f) := by
  refine h.keep hf (fun k a' ha' => ?_) rfl fun _ _ _ hlag => hlag
  rcases Base.getElem?_modify_cases ha' with ⟨a, ha, -, rfl⟩ | ⟨ha, -⟩
  · exact ⟨a, ha, hhandle a⟩
  · exact ⟨a', ha, rfl⟩

-- A loop that forgets about a balancer has lost its handle.
theorem Current.setPhase (h : Current s) (hl : s.loops[i]? = some l)
    (hf : Fades s (s.setPhase i phase))
    (hp : s.Live l.args.readySend → ∀ balancer ∈ l.phase.pending, balancer ∈ phase.pending) :
    Current (s.setPhase i phase) := by
  refine h.keep hf (fun _ a ha => ⟨a, ha, rfl⟩) rfl fun w balancer hlive hlag => ?_
  refine hlag.setPhase rfl hl fun hown => ?_
  exact hp (hown ▸ hlive) balancer

theorem Current.allocated (h : Current s) (hwired : Wired s) (hf : s.Unserved (hostname, port)) :
    Current (s.backendsForHostname hostname port) := by
  have hlen : s.backendsChannels.length = s.heap.length := by
    rw [hwired.backendsChannels, State.wiring, List.length_map]
  intro w a ha hlive balancer
  have hold : w < s.heap.length → s.Live w := fun hw => (allocate_live hf hw).mp hlive
  rw [allocate_eq hf] at ha ⊢
  rcases Base.getElem?_snoc_cases ha with ha | ⟨rfl, rfl⟩
  · have hw := (List.getElem?_eq_some_iff.mp ha).1
    rw [List.getElem?_append_left (hlen ▸ hw)]
    exact h w a ha (hold hw) balancer
  · -- the balancers of a new handle are empty, and so is its channel
    left
    rw [← hlen, List.getElem?_concat_length]
    cases balancer <;> rfl

-- A loop whose own handle is live watches that one.
theorem Attended.watched (h : Attended s) (hl : s.loops[i]? = some l)
    (hlive : s.Live l.args.readySend) (hw : l.phase.weak = some w) : w = l.args.readySend :=
  (h.attends l (List.mem_of_getElem? hl) hlive).2.2 w hw

theorem Attended.sender (h : Attended s) (hl : s.loops[i]? = some l) :
    l.args.backendsSender = l.args.readySend :=
  (h.wired.numbered _ _ (h.own (List.mem_of_getElem? hl))).2

theorem Current.publish (h : Current s) (ha : Attended s) (hl : s.loops[i]? = some l)
    (hf : Fades s ((s.publish l.args.backendsSender backends).setPhase i (.upgrading w))) :
    Current ((s.publish l.args.backendsSender backends).setPhase i (.upgrading w)) := by
  intro k a hk hlive balancer
  have hall : ∀ balancer : Balancer, balancer ∈ (Phase.upgrading w).pending := by
    intro balancer
    cases balancer <;> simp [Phase.pending]
  by_cases hown : l.args.readySend = k
  · -- both balancers of the loop's own handle are behind now
    right
    refine ⟨{ l with phase := .upgrading w }, ?_, hown, hall balancer⟩
    refine List.mem_of_getElem? (i := i) ?_
    simp [State.setPhase, State.publish, hl]
  · rcases h k a hk (hf k hlive) balancer with hshown | hlag
    · left
      simp only [State.setPhase, State.publish]
      rw [List.getElem?_set_ne (by rw [ha.sender hl]; exact hown)]
      exact hshown
    · exact .inr (hlag.setPhase rfl hl fun _ _ => hall balancer)

theorem update_heap (h : (s.update w balancer).heap[k]? = some a') :
    (s.heap[k]? = some a' ∧ w ≠ k) ∨ ∃ a, s.heap[k]? = some a ∧ w = k ∧
      a'.handle.shown balancer = (s.backendsChannels[a.handle.backends]?).getD ∅ ∧
      ∀ other, other ≠ balancer → a'.handle.shown other = a.handle.shown other := by
  rcases Base.getElem?_modify_cases h with ⟨a, ha, rfl, rfl⟩ | ⟨ha, hne⟩
  · refine .inr ⟨a, ha, rfl, ?_, ?_⟩
    · cases balancer <;> rfl
    · intro other hother
      cases balancer <;> cases other <;> first | rfl | contradiction
  · exact .inl ⟨ha, hne⟩

-- One balancer fewer is pending.
theorem pending_afterUpdate (hne : other ≠ balancer)
    (h : other ∈ (Phase.updating w balancer).pending) :
    other ∈ (Phase.afterUpdate w balancer).pending := by
  cases balancer <;> cases other <;> simp_all [Phase.pending, Phase.afterUpdate]

theorem Current.update (h : Current s) (ha : Attended s) (hl : s.loops[i]? = some l)
    (hp : l.phase = .updating w balancer)
    (hf : Fades s ((s.update w balancer).setPhase i (.afterUpdate w balancer))) :
    Current ((s.update w balancer).setPhase i (.afterUpdate w balancer)) := by
  intro k a' hk' hlive' other
  have hlive := hf k hlive'
  rcases update_heap hk' with ⟨hk, hne⟩ | ⟨a, hk, rfl, hself, hothers⟩
  · -- not the handle that is updated, so not the loop's own either
    rcases h k a' hk hlive other with hshown | hlag
    · exact .inl hshown
    · refine .inr (hlag.setPhase rfl hl fun hown _ => absurd ?_ hne)
      rw [← hown]
      exact ha.watched hl (hown ▸ hlive) (by rw [hp]; rfl)
  · by_cases hother : other = balancer
    · left
      subst hother
      have hwiring : s.wiring[w]? = some a.wiring := by simp [State.wiring, hk]
      have hbackends : a.handle.backends = w := (ha.wired.numbered w _ hwiring).2
      have hlt : w < s.backendsChannels.length := by
        rw [ha.wired.backendsChannels]
        exact (List.getElem?_eq_some_iff.mp hwiring).1
      rw [hself, hbackends]
      simp [State.setPhase, State.update, State.onHeap, hlt]
    · rw [hothers other hother]
      rcases h w a hk hlive other with hshown | hlag
      · exact .inl hshown
      · refine .inr (hlag.setPhase rfl hl fun _ hpending => ?_)
        rw [hp] at hpending
        exact pending_afterUpdate hother hpending

-- Only the loop whose handle is gone gives up on its balancers.
theorem Quiet.pending (hq : Quiet s args response phase phase') :
    (∀ balancer ∈ phase.pending, balancer ∈ phase'.pending) ∨
      ∃ w, phase.weak = some w ∧ ¬ s.Live w := by
  cases hq with
  | lost hdead => exact .inr ⟨_, rfl, hdead⟩
  | upgrade => exact .inl fun _ h => h
  | _ => exact .inl nofun

theorem Current.advance (h : Current s) (ha : Attended s) (hl : s.loops[i]? = some l)
    (hf : Fades s s') (hadv : Advance s i l response s') : Current s' := by
  cases hadv with
  | idle => exact h
  | quiet hq =>
    refine h.setPhase hl hf fun hlive => ?_
    rcases hq.pending with hkeep | ⟨w, hw, hdead⟩
    · exact hkeep
    · rw [ha.watched hl hlive hw] at hdead
      exact absurd hlive hdead
  | publish hp => exact h.publish ha hl hf
  | update hp => exact h.update ha hl hp hf
  | ready hp =>
    refine h.keep hf (fun _ a ha => ⟨a, ha, rfl⟩) rfl fun w balancer _ hlag => ?_
    refine hlag.setPhase rfl hl fun _ hpending => ?_
    rw [hp] at hpending
    cases hpending

theorem Current.start (h : Current s) (i : Nat) : Current (s.start i) := by
  have hf := start_fades s i
  by_cases hidle : ∀ l, s.loops[i]? = some l → l.phase ≠ .spawned
  · rw [start_idle hidle]
    exact h
  · simp only [not_forall, not_not] at hidle
    obtain ⟨l, hl, hp⟩ := hidle
    have hpending : l.phase.pending = [] := by rw [hp]; rfl
    have hset : ∃ phase, s.start i = s.setPhase i phase := by
      simp only [State.start, hl, hp]
      split
      · exact ⟨_, rfl⟩
      · exact ⟨_, rfl⟩
    obtain ⟨phase, hset⟩ := hset
    rw [hset] at hf ⊢
    exact h.setPhase hl hf fun _ => by simp [hpending]

theorem Current.step (h : Current s) (ha : Attended s) (a : Action) : Current (s.step a) := by
  cases a with
  | backendsForHostname hostname port =>
    cases hf : (s.serviceBackends (hostname, port)).filter (0 < s.strongCount ·) with
    | none => exact h.allocated ha.wired hf
    | some w =>
      have hlive : s.Live w := by simpa [State.Live] using (Option.filter_eq_some_iff.mp hf).2
      simp only [State.step, State.backendsForHostname, hf]
      exact h.onHeap (.onHeap fun _ _ => .inr hlive) fun _ => rfl
  | clone w => exact h.onHeap (clone_fades s w) fun a => by split <;> rfl
  | drop w => exact h.onHeap (drop_fades s w) fun _ => rfl
  | recv =>
    have hf := recv_fades s
    cases hc : s.commands with
    | nil => simpa only [State.step, State.recv, hc] using h
    | cons command commands =>
      simp only [State.step, State.recv, hc] at hf ⊢
      refine h.keep hf (fun _ a ha => ⟨a, ha, rfl⟩) rfl ?_
      rintro w balancer - ⟨l, hl, hlag⟩
      exact ⟨l, List.mem_append_left _ hl, hlag⟩
  | start i => exact h.start i
  | iterate i response =>
    cases hl : s.loops[i]? with
    | none =>
      have hsame : s.iterate i response = s := by simp [State.iterate, hl]
      simp only [State.step, hsame]
      exact h
    | some l => exact h.advance ha hl (iterate_fades s i response) (iterate_advance hl response)

theorem Current.init : Current .init := fun w a h => by simp [State.init] at h

/-- In every state of every run, a balancer of a live handle selects from the
backends published last, unless the loop that owns the handle is between
publishing them and updating that balancer. -/
theorem balancers_follow_backends (actions : List Action) :
    Base.Throughout State.step
      (fun s => ∀ (w : Nat) a, s.heap[w]? = some a → s.Live w → ∀ balancer,
        Shows s a balancer ∨ ∃ l ∈ s.loops, Owns s l.args w ∧ balancer ∈ l.phase.pending)
      .init actions := by
  refine Base.throughout_of_invariant (I := fun s => Attended s ∧ Current s)
    (C := fun _ _ => True) ⟨.init, .init⟩ (fun s a h _ => ⟨h.1.step a, h.2.step h.1 a⟩) ?_
    Base.always_true
  rintro s ⟨hattended, hcurrent⟩ w a ha hlive balancer
  have hwiring : s.wiring[w]? = some a.wiring := by simp [State.wiring, ha]
  have hbackends : a.handle.backends = w := (hattended.wired.numbered w _ hwiring).2
  rcases hcurrent w a ha hlive balancer with hshown | ⟨l, hl, hown, hpending⟩
  · exact .inl (by rw [Shows, hbackends, hshown])
  · refine .inr ⟨l, hl, ?_, hpending⟩
    exact (hattended.wired.owns_iff (List.mem_append_right _ (List.mem_map_of_mem hl))).mpr
      hown.symm

end Grcache.Discovery
