import Grcache.Discovery.Watching

/-!
# Live handles

A handle is live while somebody holds a strong reference to it: a caller, or a
discovery loop that is updating its balancers. A handle that is gone never comes
back, since every new reference is made from one that is held. So the registry
shows a live handle until it is gone, and the loop that owns its senders, once
it runs, watches no other.
-/

namespace Grcache.Discovery

variable {s s' : State}

/-- What a live handle can rely on. -/
structure HandleOk (s : State) (w : Nat) (a : Allocation) : Prop where
  unique : ∀ w' a', s.heap[w']? = some a' → a'.hostPort = a.hostPort → s.Live w' → w' = w
  /-- A call hands out one more reference to it. -/
  returned : s.backendsForHostname a.hostPort.1 a.hostPort.2 =
    s.onHeap w fun a => { a with held := a.held + 1 }
  /-- One command in the channel or one loop. -/
  owned : ∃! i : Nat, ∃ c, s.owners[i]? = some c ∧ Owns s c w
  running : ∀ l ∈ s.loops, Owns s l.args w → l.phase ≠ .exited ∧ l.phase ≠ .panicked

-- ---------------------------------------------------------------------------
-- Strong references
-- ---------------------------------------------------------------------------

/-- A handle that is live after a step was live before. -/
def Fades (s s' : State) : Prop := ∀ w, s'.Live w → s.Live w

theorem Fades.refl : Fades s s := fun _ h => h

theorem Fades.onHeap (hf : ∀ a, 0 < (f a).held → 0 < a.held ∨ s.Live w) :
    Fades s (s.onHeap w f) := by
  intro k hk
  rw [live_iff] at hk
  rcases hk with ⟨a, ha, hpos⟩ | hup
  · rcases Base.getElem?_modify_cases ha with ⟨a', ha', rfl, rfl⟩ | ⟨ha, -⟩
    · rcases hf a' hpos with h | h
      · exact live_iff.mpr (.inl ⟨a', ha', h⟩)
      · exact h
    · exact live_iff.mpr (.inl ⟨a, ha, hpos⟩)
  · exact live_iff.mpr (.inr hup)

theorem Fades.setPhase (hs : SameRefs s t)
    (hp : ∀ w, phase.upgraded = some w → s.Live w) : Fades s (t.setPhase i phase) := by
  intro w hw
  rcases Discovery.live_iff.mp hw with hheld | ⟨l', hl', hup⟩
  · exact hs.live_iff.mp (Discovery.live_iff.mpr (.inl hheld))
  · rcases mem_setPhase hl' with hl' | ⟨l₀, hl₀, rfl⟩
    · exact hs.live_iff.mp (Discovery.live_iff.mpr (.inr ⟨l', hl', hup⟩))
    · exact hp w hup

-- ---------------------------------------------------------------------------
-- The invariant
-- ---------------------------------------------------------------------------

/-- A loop whose own handle is live has not stopped, and watches that handle. -/
def Attends (s : State) (l : Loop) : Prop :=
  s.Live l.args.readySend →
    l.phase ≠ .exited ∧ l.phase ≠ .panicked ∧ ∀ w, l.phase.weak = some w → w = l.args.readySend

structure Attended (s : State) : Prop where
  wired : Wired s
  registry : ∀ (w : Nat) c, s.wiring[w]? = some c → s.Live w → s.serviceBackends c.hostPort = some w
  attends : ∀ l ∈ s.loops, Attends s l
  kept : ∀ c ∈ s.wiring, c ∈ s.owners

theorem Attended.init : Attended .init where
  wired := .init
  registry w c h := by simp [State.wiring, State.init] at h
  attends l h := nomatch h
  kept c h := nomatch h

theorem Attended.same (h : Attended s) (hw : SameWiring s s') (hf : Fades s s')
    (ha : ∀ l ∈ s'.loops, Attends s' l) : Attended s' where
  wired := h.wired.same hw
  registry w c hc hlive := by
    rw [hw.registry]
    exact h.registry w c (hw.wiring ▸ hc) (hf w hlive)
  attends := ha
  kept c hc := by
    rw [hw.owners]
    exact h.kept c (hw.wiring ▸ hc)

theorem Attended.onHeap (h : Attended s) (hwire : ∀ a, (f a).wiring = a.wiring)
    (hf : ∀ a, 0 < (f a).held → 0 < a.held ∨ s.Live w) : Attended (s.onHeap w f) := by
  have hfades : Fades s (s.onHeap w f) := .onHeap hf
  refine h.same (onHeap_same hwire) hfades fun l hl hlive => ?_
  exact h.attends l hl (hfades _ hlive)

theorem Attended.setPhase (h : Attended s) (hs : SameRefs s t) (hl : s.loops[i]? = some l)
    (hp : ∀ w, phase.upgraded = some w → s.Live w) (ha : Attends s { l with phase := phase }) :
    Attended (t.setPhase i phase) := by
  have hfades : Fades s (t.setPhase i phase) := .setPhase hs hp
  refine h.same (hs.wiring.trans setPhase_same) hfades fun l' hl' hlive => ?_
  rcases mem_setPhase hl' with hl' | ⟨l₀, hl₀, rfl⟩
  · exact h.attends l' (hs.loops ▸ hl') (hfades _ hlive)
  · rw [hs.loops, hl] at hl₀
    cases hl₀
    exact ha (hfades _ hlive)

-- The last handle of the host and port was gone, or it would have been returned.
theorem Attended.backendsForHostname (h : Attended s) (hostname : String) (port : UInt16) :
    Attended (s.backendsForHostname hostname port) := by
  cases hf : (s.serviceBackends (hostname, port)).filter (0 < s.strongCount ·) with
  | some w =>
    have hlive : 0 < s.strongCount w := by simpa using (Option.filter_eq_some_iff.mp hf).2
    simp only [State.backendsForHostname, hf]
    exact h.onHeap (fun _ => rfl) fun _ _ => .inr hlive
  | none =>
    have ha := h.wired.allocates hf
    have hloops : (s.backendsForHostname hostname port).loops = s.loops := by
      simp only [State.backendsForHostname, hf]
    have hheap : ∃ a, (s.backendsForHostname hostname port).heap = s.heap ++ [a] := by
      simp only [State.backendsForHostname, hf]
      exact ⟨_, rfl⟩
    obtain ⟨a, hheap⟩ := hheap
    have hlive : ∀ w, w < s.wiring.length →
        ((s.backendsForHostname hostname port).Live w ↔ s.Live w) := by
      intro w hw
      rw [State.wiring, List.length_map] at hw
      unfold State.Live State.strongCount
      rw [hloops, hheap, List.getElem?_append_left hw]
    refine ⟨h.wired.allocated ha, ?_, ?_, ?_⟩
    · intro w c hc hw
      rw [ha.registry]
      rw [ha.wiring] at hc
      rcases Base.getElem?_snoc_cases hc with hc | ⟨rfl, rfl⟩
      · have hold' := (hlive w (List.getElem?_eq_some_iff.mp hc).1).mp hw
        have hold := h.registry w c hc hold'
        have hne : c.hostPort ≠ (hostname, port) := by
          intro heq
          rw [heq] at hold
          have hzero : s.strongCount w = 0 := by simpa [hold] using hf
          exact absurd hold' (by simp [State.Live, hzero])
        rw [Function.update_of_ne hne]
        exact hold
      · rw [Function.update_self]
    · intro l hl hw
      rw [hloops] at hl
      have hfresh := h.wired.fresh (h.wired.owners _
        (List.mem_append_right _ (List.mem_map_of_mem hl)))
      exact h.attends l hl ((hlive _ hfresh).mp hw)
    · intro c hc
      rw [ha.wiring] at hc
      rw [ha.owners.mem_iff]
      rcases List.mem_append.mp hc with hc | hc
      · exact List.mem_cons_of_mem _ (h.kept c hc)
      · rw [List.mem_singleton.mp hc]
        exact List.mem_cons_self

theorem Attended.recv (h : Attended s) : Attended s.recv := by
  have hlive : ∀ w, s.recv.Live w ↔ s.Live w := by
    intro w
    unfold State.recv
    split
    · rfl
    · simp [State.Live, State.strongCount, Phase.upgraded]
  refine ⟨h.wired.recv, ?_, ?_, ?_⟩
  · intro w c hc hw
    rw [recv_wiring] at hc
    have hreg := h.registry w c hc ((hlive w).mp hw)
    unfold State.recv
    split <;> exact hreg
  · intro l hl hw
    have hw := (hlive _).mp hw
    unfold State.recv at hl
    split at hl
    · exact h.attends l hl hw
    · rcases List.mem_append.mp hl with hl | hl
      · exact h.attends l hl hw
      · rw [List.mem_singleton.mp hl]
        refine ⟨by simp, by simp, ?_⟩
        intro w hw
        cases hw
  · intro c hc
    rw [recv_wiring] at hc
    exact (recv_owners s).mem_iff.mpr (h.kept c hc)

theorem Attended.own (h : Attended s) (hl : l ∈ s.loops) :
    s.wiring[l.args.readySend]? = some l.args := by
  have howner := h.wired.owners _ (List.mem_append_right _ (List.mem_map_of_mem hl))
  obtain ⟨w, hw⟩ := List.mem_iff_getElem?.mp howner
  rw [(h.wired.numbered w _ hw).1]
  exact hw

-- A loop that starts while its own handle is live finds that handle.
theorem Attended.start (h : Attended s) : Attended (s.start i) := by
  by_cases hidle : ∀ l, s.loops[i]? = some l → l.phase ≠ .spawned
  · rw [start_idle hidle]
    exact h
  · simp only [not_forall, not_not] at hidle
    obtain ⟨l, hl, hp⟩ := hidle
    have hmem := List.mem_of_getElem? hl
    obtain ⟨w, hw, -⟩ := h.wired.finds hmem
    rw [start_eq hl hp hw]
    refine h.setPhase .refl hl ?_ fun hlive => ⟨by simp, by simp, ?_⟩
    · intro k hk
      cases hk
    · rintro _ ⟨rfl⟩
      have hown := h.registry _ _ (h.own hmem) hlive
      exact Option.some.inj (hw.symm.trans hown)

theorem Attended.iterate (h : Attended s) (response : Option (List UInt32)) :
    Attended (s.iterate i response) := by
  rcases iterate_move s i response with heq | ⟨l, t, phase, hl, heq, hs, hmove⟩
  · rw [heq]
    exact h
  · rw [heq]
    have hattends := h.attends l (List.mem_of_getElem? hl)
    generalize hq : l.phase = q at hmove hattends
    cases hmove with
    | watch hw hw' hup =>
      refine h.setPhase hs hl ?_ ?_
      · intro k hk
        rcases hup with hnone | ⟨hsome, hlive⟩
        · simp [hnone] at hk
        · rw [hsome] at hk
          cases hk
          exact hlive
      · intro hlive
        obtain ⟨-, -, hown⟩ := hattends hlive
        refine ⟨?_, ?_, ?_⟩
        · rintro rfl
          cases hw'
        · rintro rfl
          cases hw'
        · intro k hk
          rw [hw'] at hk
          cases hk
          exact hown _ (hq ▸ hw)
    | @exit w resolved hdead =>
      -- it watched its own handle, so that one is gone
      refine h.setPhase hs hl ?_ ?_
      · intro k hk
        cases hk
      · intro hlive
        obtain ⟨-, -, hown⟩ := hattends hlive
        rw [hown w (by rw [hq]; rfl)] at hdead
        exact absurd hlive hdead

theorem Attended.step (h : Attended s) (a : Action) : Attended (s.step a) := by
  cases a with
  | backendsForHostname hostname port => exact h.backendsForHostname hostname port
  | clone w =>
    refine h.onHeap (fun a => ?_) (fun a ha => ?_)
    · split <;> rfl
    · split at ha
      next hpos => exact .inl hpos
      next => exact .inl ha
  | drop w => exact h.onHeap (fun _ => rfl) fun a ha => .inl (lt_of_lt_of_le ha (Nat.sub_le _ _))
  | recv => exact h.recv
  | start i => exact h.start
  | iterate i response => exact h.iterate response

-- ---------------------------------------------------------------------------
-- Runs
-- ---------------------------------------------------------------------------

theorem Attended.mem_owners {w : Nat} {a : Allocation} (h : Attended s)
    (ha : s.heap[w]? = some a) : a.wiring ∈ s.owners :=
  h.kept _ (List.mem_map_of_mem (List.mem_of_getElem? ha))

theorem Attended.found (h : Attended s) (ha : s.heap[w]? = some a) (hlive : s.Live w) :
    (s.serviceBackends a.hostPort).filter (0 < s.strongCount ·) = some w := by
  have hwiring : s.wiring[w]? = some a.wiring := by simp [State.wiring, ha]
  have hreg := h.registry w _ hwiring hlive
  rw [show s.serviceBackends a.hostPort = some w from hreg]
  simpa [State.Live] using hlive

theorem Attended.handleOk (h : Attended s) (ha : s.heap[w]? = some a) (hlive : s.Live w) :
    HandleOk s w a := by
  have hwiring : s.wiring[w]? = some a.wiring := by simp [State.wiring, ha]
  have hreg := h.registry w _ hwiring hlive
  refine ⟨?_, ?_, ?_, ?_⟩
  · intro w' a' ha' heq hlive'
    have hwiring' : s.wiring[w']? = some a'.wiring := by simp [State.wiring, ha']
    have hreg' := h.registry w' _ hwiring' hlive'
    simp only [Allocation.wiring, heq] at hreg hreg'
    exact Option.some.inj (hreg'.symm.trans hreg)
  · simp only [State.backendsForHostname, h.found ha hlive]
  · -- the senders are numbered like the handle, and owned once
    obtain ⟨i, hi⟩ := List.mem_iff_getElem?.mp (h.mem_owners ha)
    have howns : ∀ {c : Command}, c ∈ s.owners → (Owns s c w ↔ w = c.readySend) :=
      fun hc => h.wired.owns_iff hc
    have hnum := (h.wired.numbered w _ hwiring).1
    refine ⟨i, ⟨_, hi, (howns (h.mem_owners ha)).mpr hnum.symm⟩, ?_⟩
    rintro j ⟨c, hj, hc⟩
    rw [howns (List.mem_of_getElem? hj)] at hc
    refine (List.getElem?_inj ?_ h.wired.owned).mp ?_
    · rw [List.length_map]
      exact (List.getElem?_eq_some_iff.mp hj).1
    · simp [hi, hj, hnum, ← hc]
  · intro l hl hc
    rw [h.wired.owns_iff (List.mem_append_right _ (List.mem_map_of_mem hl))] at hc
    obtain ⟨hexit, hpanic, -⟩ := h.attends l hl (hc ▸ hlive)
    exact ⟨hexit, hpanic⟩

/-- In every state of every run, a live handle is the only one for its host and
port, every call for them returns it, and one command or loop that has not
stopped owns its senders. -/
theorem live_handles_attended (actions : List Action) :
    Base.Throughout State.step
      (fun s => ∀ (w : Nat) a, s.heap[w]? = some a → s.Live w → HandleOk s w a) .init actions :=
  Base.throughout_of_invariant (C := fun _ _ => True) Attended.init (fun _ a h _ => h.step a)
    (fun _ h _ _ ha hlive => h.handleOk ha hlive) Base.always_true

end Grcache.Discovery
