import Grcache.Discovery.Balancers
import Grcache.Server.Steps

/-!
# Who holds a handle

A handle lives as long as somebody holds a reference to it, and its discovery
loop runs as long as the handle lives. Neither the map of the loader nor a
request looks whether the handle it holds is still maintained, so both rely on
the count: the number of references discovery sees is the number that the map,
the pending loads, the requests, the cache backend and the entries still to be
reclaimed hold together.
-/

namespace Grcache.Server

open Discovery (Attended HandleOk)
open Store (GrcacheService)

variable {s s' : State} {d : Discovery.State} {extra : List Nat}

-- ---------------------------------------------------------------------------
-- What discovery counts
-- ---------------------------------------------------------------------------

def held (d : Discovery.State) (w : Nat) : Nat := (d.heap[w]?.map (·.held)).getD 0

theorem held_pos (h : 0 < held d w) : d.Live w := by
  unfold held at h
  unfold Discovery.State.Live Discovery.State.strongCount
  omega

theorem held_lt (h : 0 < held d w) : ∃ a, d.heap[w]? = some a := by
  unfold held at h
  cases hw : d.heap[w]? with
  | none => simp [hw] at h
  | some a => exact ⟨a, rfl⟩

theorem held_onHeap (d : Discovery.State) (w k : Nat) (f : Discovery.Allocation → _) :
    held (d.onHeap w f) k = if w = k then (d.heap[k]?.map fun a => (f a).held).getD 0
      else held d k := by
  unfold held Discovery.State.onHeap
  simp only [List.getElem?_modify]
  split <;> simp [Function.comp_def]

theorem held_drop (d : Discovery.State) (w k : Nat) :
    held (d.drop w) k = held d k - [w].count k := by
  rw [Discovery.State.drop, held_onHeap]
  simp only [List.count_singleton, beq_iff_eq]
  split
  · cases hk : d.heap[k]? <;> simp [held, hk]
  · rfl

theorem held_clone (h : 0 < held d w) (k : Nat) :
    held (d.clone w) k = held d k + [w].count k := by
  obtain ⟨a, ha⟩ := held_lt h
  have hpos : 0 < a.held := by simpa [held, ha] using h
  rw [Discovery.State.clone, held_onHeap]
  simp only [List.count_singleton, beq_iff_eq]
  split
  next heq =>
    subst heq
    simp [held, ha, hpos]
  next => rfl

theorem served_of_filter (h : (d.serviceBackends hp).filter (0 < d.strongCount ·) = some w) :
    d.serviceBackends hp = some w ∧ d.Live w := by
  obtain ⟨hreg, hlive⟩ := Option.filter_eq_some_iff.mp h
  exact ⟨hreg, by simpa [Discovery.State.Live] using hlive⟩

theorem held_backendsForHostname (hd : Discovery.Wired d) (hostname : String) (port : UInt16)
    (k : Nat) : held (d.backendsForHostname hostname port) k =
      held d k + [handleFor d (hostname, port)].count k := by
  unfold handleFor
  cases hf : (d.serviceBackends (hostname, port)).filter (0 < d.strongCount ·) with
  | some w =>
    obtain ⟨c, hc, -⟩ := hd.registered _ _ (served_of_filter hf).1
    obtain ⟨a, ha, -⟩ := Option.map_eq_some_iff.mp (List.getElem?_map ▸ hc)
    simp only [Discovery.State.backendsForHostname, hf, held_onHeap, Option.getD_some,
      List.count_singleton, beq_iff_eq]
    split
    next heq =>
      subst heq
      simp [held, ha]
    next => rfl
  | none =>
    rw [Discovery.allocate_eq hf]
    simp only [held, Option.getD_none, List.count_singleton, beq_iff_eq]
    rcases Nat.lt_trichotomy k d.heap.length with hlt | rfl | hgt
    · rw [List.getElem?_append_left hlt, if_neg hlt.ne', Nat.add_zero]
    · simp
    · rw [if_neg hgt.ne, List.getElem?_eq_none (by simp; omega),
        List.getElem?_eq_none (by omega), Nat.add_zero]

theorem held_recv (d : Discovery.State) (k : Nat) : held d.recv k = held d k := by
  unfold Discovery.State.recv
  split <;> rfl

theorem held_start (d : Discovery.State) (i k : Nat) : held (d.start i) k = held d k := by
  unfold Discovery.State.start
  split
  · rfl
  · split
    · split <;> rfl
    · rfl

theorem held_iterate (d : Discovery.State) (i : Nat) (response : Option (List UInt32)) (k : Nat) :
    held (d.iterate i response) k = held d k := by
  rcases Discovery.iterate_move d i response with heq | ⟨l, t, phase, -, heq, hs, -⟩
  · rw [heq]
  · rw [heq, held, held, ← hs.held k]
    rfl

-- ---------------------------------------------------------------------------
-- The invariant
-- ---------------------------------------------------------------------------

def State.published (s : State) : List Nat :=
  Base.heldBy (fun _ data => data.loadBalancer) s.services

/-- Every reference of the server. -/
def State.references (s : State) : List Nat :=
  s.cache :: (s.published ++ s.spawned.map (·.loadBalancer) ++ s.retired ++
    s.requests.map (·.loadBalancer))

/-- The function that runs holds the references `extra` itself. -/
structure Owned (extra : List Nat) (s : State) : Prop where
  attended : Attended s.discovery
  counted : ∀ w, held s.discovery w = s.references.count w + extra.count w

theorem Owned.main (hostname : String) (port : UInt16) : Owned [] (.main hostname port) where
  attended := Discovery.Attended.init.backendsForHostname hostname port
  counted w := by
    have hheld := held_backendsForHostname Discovery.Wired.init hostname port w
    rw [show held .init w = 0 from rfl, Nat.zero_add] at hheld
    exact hheld

theorem Owned.frame (h : Owned extra s) (hd : s'.discovery = s.discovery)
    (hr : s'.references = s.references) : Owned extra s' := by
  refine ⟨hd ▸ h.attended, fun w => ?_⟩
  rw [hd, hr]
  exact h.counted w

theorem Owned.held_pos (h : Owned extra s) (hw : w ∈ s.references) : 0 < held s.discovery w := by
  rw [h.counted]
  exact Nat.add_pos_left (List.count_pos_iff.mpr hw) _

-- The map holds what it is given, and what it held before is retired.
theorem count_publish (s : State) (n : String) (data : ServiceData) (w : Nat) :
    (s.publish n data).references.count w =
      s.references.count w + data.loadBalancer.toList.count w := by
  have hinsert := Base.count_heldBy_insert (m := s.services)
    (f := fun _ data => data.loadBalancer) n data w
  simp only [State.references, State.published, State.publish, List.count_cons, List.count_append]
  omega

theorem Owned.publish (h : Owned extra s) (hd : data.loadBalancer.toList = extra) :
    Owned [] (s.publish n data) := by
  refine ⟨h.attended, fun w => ?_⟩
  rw [count_publish, List.count_nil, Nat.add_zero, hd]
  exact h.counted w

theorem Owned.release (h : Owned [w] s) : Owned [] (s.release w) := by
  refine ⟨h.attended.step (.drop w), fun k => ?_⟩
  have hk := h.counted k
  show held (s.discovery.drop w) k = s.references.count k + 0
  rw [held_drop]
  omega

theorem Owned.acquire (h : Owned [] s) (o : GrcacheService) :
    Owned [(s.acquire o).1] (s.acquire o).2 := by
  unfold State.acquire
  cases o.spec.upstream with
  | dns url port =>
    refine ⟨h.attended.backendsForHostname url port, fun w => ?_⟩
    have hw := h.counted w
    rw [List.count_nil, Nat.add_zero] at hw
    exact (held_backendsForHostname h.attended.wired url port w).trans (congrArg (· + _) hw)

-- ---------------------------------------------------------------------------
-- The steps
-- ---------------------------------------------------------------------------

theorem Owned.recorded (h : Owned [] s) (hrec : Recorded s s₁) : Owned [] s₁ := by
  rw [hrec.same]
  exact h.frame rfl rfl

theorem Owned.updated (h : Owned [] s) (hu : Updated s n s') : Owned [] s' := by
  cases hu with
  | unload => exact Owned.publish (h.frame rfl rfl) rfl
  | @spawn o service source ho =>
    have ha := h.acquire o
    refine ⟨ha.attended, fun w => (ha.counted w).trans ?_⟩
    simp only [State.spawn, State.references, State.published, List.map_append, List.map_cons,
      List.map_nil, List.count_cons, List.count_append, List.count_nil]
    omega
  | publish => exact (h.acquire _).publish rfl
  | abort => exact (h.acquire _).release

theorem Owned.take (h : Owned [] s) (hd : s'.discovery = s.discovery)
    (hr : ∀ k, s'.references.count k + [w].count k = s.references.count k) : Owned [w] s' := by
  refine ⟨hd ▸ h.attended, fun k => ?_⟩
  rw [hd, hr]
  exact h.counted k

theorem Owned.clone (h : Owned [] s) (hw : w ∈ s.references)
    (hd : s'.discovery = s.discovery.clone w)
    (hr : ∀ k, s'.references.count k = s.references.count k + [w].count k) : Owned [] s' := by
  refine ⟨hd ▸ h.attended.step (.clone w), fun k => ?_⟩
  rw [hd, held_clone (h.held_pos hw), hr, h.counted k]
  rfl

theorem Owned.takeTask (h : Owned [] s) (ht : s.spawned[i]? = some task) :
    Owned [task.loadBalancer] (s.takeTask i) := by
  refine h.take rfl fun k => ?_
  have herase := Base.count_map_eraseIdx (f := fun t : LoadTask => t.loadBalancer) ht k
  simp only [State.takeTask, State.references, State.published, List.count_cons,
    List.count_append, List.count_nil] at *
  omega

theorem Owned.takeRequest (h : Owned [] s) (hr : s.requests[i]? = some r) :
    Owned [r.loadBalancer] { s with requests := s.requests.eraseIdx i } := by
  refine h.take rfl fun k => ?_
  have herase := Base.count_map_eraseIdx (f := fun r : Request => r.loadBalancer) hr k
  simp only [State.references, State.published, List.count_cons, List.count_append,
    List.count_nil] at *
  omega

theorem Owned.takeRetired (h : Owned [] s) (hw : s.retired[i]? = some w) :
    Owned [w] { s with retired := s.retired.eraseIdx i } := by
  refine h.take rfl fun k => ?_
  have herase := Base.count_eraseIdx hw k
  simp only [State.references, State.published, List.count_cons, List.count_append,
    List.count_nil] at *
  omega

theorem Owned.request (h : Owned [] s) (hw : r.loadBalancer ∈ s.references) :
    Owned [] { s with
      requests := s.requests ++ [r]
      discovery := s.discovery.clone r.loadBalancer } := by
  refine h.clone hw rfl fun k => ?_
  simp only [State.references, State.published, List.map_append, List.map_cons, List.map_nil,
    List.count_cons, List.count_append, List.count_nil]
  omega

theorem mem_references_of_lookup
    (hw : (s.services.lookup n).bind (·.loadBalancer) = some w) : w ∈ s.references := by
  obtain ⟨data, hdata, hlb⟩ := Option.bind_eq_some_iff.mp hw
  have hmem : w ∈ s.published := Base.mem_heldBy.mpr ⟨n, data, hdata, hlb⟩
  simp [State.references, hmem]

theorem mem_references_of_request {i : Nat} {r : Request} (hr : s.requests[i]? = some r) :
    r.loadBalancer ∈ s.references := by
  have hmem := List.mem_map_of_mem (f := Request.loadBalancer) (List.mem_of_getElem? hr)
  exact List.mem_cons_of_mem _ (List.mem_append_right _ hmem)

theorem Owned.step (h : Owned [] s) (a : Action) : Owned [] (s.step a) := by
  have hs := step_spec s a
  generalize s.step a = s' at hs
  cases hs with
  | idle | dead => exact h
  | crash => exact h.frame rfl rfl
  | record _ hrec => exact h.recorded hrec
  | change _ hrec hu => exact (h.recorded hrec).updated hu
  | loaded ht => exact (h.takeTask ht).publish rfl
  | dropped ht => exact (h.takeTask ht).release
  | request hw => exact h.request (mem_references_of_lookup hw)
  | keep hr => exact h.request (mem_references_of_request hr)
  | finish hr => exact (h.takeRequest hr).release
  | reclaim hw => exact (h.takeRetired hw).release
  | recv =>
    refine ⟨h.attended.step .recv, fun w => ?_⟩
    exact (held_recv _ w).trans (h.counted w)
  | @start i =>
    refine ⟨h.attended.step (.start i), fun w => ?_⟩
    exact (held_start _ i w).trans (h.counted w)
  | @iterate i response =>
    refine ⟨h.attended.step (.iterate i response), fun w => ?_⟩
    exact (held_iterate _ i response w).trans (h.counted w)

theorem run_owned (hostname : String) (port : UInt16) (actions : List Action) :
    Owned [] (Base.run State.step (.main hostname port) actions) :=
  Base.run_invariant (C := fun _ _ => True) (Owned.main hostname port) (fun _ a h _ => h.step a)
    Base.always_true

theorem Owned.references_ok (h : Owned [] s) (hw : w ∈ s.references) :
    ∃ a, s.discovery.heap[w]? = some a ∧ s.discovery.Live w ∧ HandleOk s.discovery w a := by
  have hpos := h.held_pos hw
  obtain ⟨a, ha⟩ := held_lt hpos
  have hlive := Server.held_pos hpos
  exact ⟨a, ha, hlive, h.attended.handleOk ha hlive⟩

/-- In every state of every run, discovery counts for every handle the
references that the map, the loads, the requests, the cache backend and the
entries still to be reclaimed hold. So whatever one of them refers to is live,
is the only live handle of its host and port, and has a loop that has not
stopped. -/
theorem references_counted (hostname : String) (port : UInt16) (actions : List Action) :
    Base.Throughout State.step (fun s =>
      (∀ w, held s.discovery w = s.references.count w) ∧
      ∀ w ∈ s.references, ∃ a, s.discovery.heap[w]? = some a ∧ s.discovery.Live w ∧
        HandleOk s.discovery w a) (.main hostname port) actions := by
  refine Base.throughout_of_invariant (C := fun _ _ => True) (Owned.main hostname port)
    (fun _ a h _ => h.step a) (fun s h => ⟨fun w => ?_, fun w => h.references_ok⟩) Base.always_true
  simpa using h.counted w

end Grcache.Server
