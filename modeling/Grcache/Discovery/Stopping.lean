import Grcache.Discovery.Answers

/-!
# Loops of dropped handles

The last caller drops a handle at any moment, and the loop that watches it finds
out at its next check. Until then it may have a lookup to finish, backends to
publish and a sleep to end. Nobody can bring the handle back meanwhile, so the
loop is at most six of its own steps away from its end.
-/

namespace Grcache.Discovery

variable {s s' : State} {l : Loop} {i : Nat}

def Action.iterates (i : Nat) : Action → Bool
  | .iterate j _ => i = j
  | _ => false

def Phase.left : Phase → Nat
  | .announcing _ => 6
  | .sleeping _ => 5
  | .resolving _ => 4
  | .resolved _ _ => 3
  | .upgrading _ | .updating _ _ => 2
  | .checking _ _ => 1
  | .spawned | .exited | .panicked => 0

theorem Phase.left_pos {p : Phase} (h : p.weak = some w) : 0 < p.left := by
  cases p <;> first | exact Nat.succ_pos _ | cases h

theorem Phase.left_le (p : Phase) : p.left ≤ 6 := by
  cases p <;> simp [Phase.left]

-- ---------------------------------------------------------------------------
-- Frames
-- ---------------------------------------------------------------------------

theorem step_heap_length (s : State) (a : Action) : s.heap.length ≤ (s.step a).heap.length := by
  cases a with
  | backendsForHostname hostname port =>
    simp only [State.step, State.backendsForHostname]
    split <;> simp [State.onHeap]
  | clone w => simp [State.step, State.clone, State.onHeap]
  | drop w => simp [State.step, State.drop, State.onHeap]
  | recv =>
    simp only [State.step, State.recv]
    split <;> exact le_rfl
  | start i =>
    have hlen := congrArg List.length (start_same (s := s) (i := i)).wiring
    simp only [State.wiring, List.length_map] at hlen
    exact hlen.ge
  | iterate i response =>
    have hlen := congrArg List.length (iterate_spec s i response).1.wiring
    simp only [State.wiring, List.length_map] at hlen
    exact hlen.ge

theorem step_other (hl : s.loops[i]? = some l) (hp : l.phase ≠ .spawned)
    (ha : a.iterates i = false) : (s.step a).loops[i]? = some l := by
  cases a with
  | backendsForHostname hostname port =>
    simp only [State.step, State.backendsForHostname]
    split <;> exact hl
  | clone w => exact hl
  | drop w => exact hl
  | recv =>
    simp only [State.step, State.recv]
    split
    · exact hl
    · rw [List.getElem?_append_left (List.getElem?_eq_some_iff.mp hl).1]
      exact hl
  | start j =>
    simp only [State.step, State.start]
    split
    · exact hl
    next l' hl' =>
      split
      next hp' =>
        have hne : j ≠ i := by
          rintro rfl
          rw [hl] at hl'
          cases hl'
          exact hp hp'
        split <;> simp [State.setPhase, hne, hl]
      next => exact hl
  | iterate j response =>
    have hne : j ≠ i := by
      rintro rfl
      simp [Action.iterates] at ha
    rcases iterate_move s j response with heq | ⟨l', t, phase, -, heq, hs, -⟩
    · simp only [State.step, heq]
      exact hl
    · simp only [State.step, heq, State.setPhase, hs.loops]
      simp [hne, hl]

-- ---------------------------------------------------------------------------
-- The countdown
-- ---------------------------------------------------------------------------

structure Stopping (i w n : Nat) (s : State) : Prop where
  known : w < s.heap.length
  dead : ¬ s.Live w
  loop : ∃ l, s.loops[i]? = some l ∧ (l.phase = .exited ∨ l.phase.weak = some w ∧ l.phase.left ≤ n)

theorem setPhase_at {t : State} (ht : t.loops = s.loops) (hl : s.loops[i]? = some l) :
    (t.setPhase i phase).loops[i]? = some { l with phase := phase } := by
  simp [State.setPhase, ht, hl]

/-- Once the handle is gone, every step of the loop brings it closer to its end. -/
theorem Advance.closer (hadv : Advance s i l response s') (hl : s.loops[i]? = some l)
    (hw : l.phase.weak = some w) (hdead : ¬ s.Live w) :
    ∃ l', s'.loops[i]? = some l' ∧
      (l'.phase = .exited ∨ l'.phase.weak = some w ∧ l'.phase.left < l.phase.left) := by
  cases hadv with
  | idle hnone =>
    rw [hnone] at hw
    cases hw
  | quiet hq =>
    refine ⟨_, setPhase_at rfl hl, ?_⟩
    obtain ⟨args, phase⟩ := l
    cases hq with
    | stop => exact .inl rfl
    | upgrade hlive | announce hlive | retry hlive =>
      cases hw
      exact absurd hlive hdead
    | _ => exact .inr ⟨hw, by simp [Phase.left]⟩
  | publish hp =>
    refine ⟨_, setPhase_at (s := s) rfl hl, .inr ?_⟩
    rw [hp] at hw ⊢
    exact ⟨hw, by simp [Phase.left]⟩
  | @update w' balancer hp =>
    -- a loop that updates keeps the handle alive itself
    rw [hp] at hw
    cases hw
    exact absurd (live_iff.mpr (.inr ⟨l, List.mem_of_getElem? hl, by rw [hp]; rfl⟩)) hdead
  | ready hp =>
    refine ⟨_, setPhase_at (s := s) rfl hl, .inr ?_⟩
    rw [hp] at hw ⊢
    exact ⟨hw, by simp [Phase.left]⟩

theorem exited_stays (hl : s.loops[i]? = some l) (hp : l.phase = .exited) (a : Action) :
    (s.step a).loops[i]? = some l := by
  cases ha : a.iterates i with
  | false => exact step_other hl (by rw [hp]; nofun) ha
  | true =>
    cases a with
    | iterate j response =>
      obtain rfl : i = j := by simpa [Action.iterates] using ha
      simp [State.step, State.iterate, hl, hp]
    | _ => cases ha

theorem Stopping.count (h : Stopping i w (n + 1) s) (ha : a.iterates i = true) :
    Stopping i w n (s.step a) := by
  obtain ⟨l, hl, hp⟩ := h.loop
  refine ⟨h.known.trans_le (step_heap_length s a),
    fun hlive => h.dead (step_fades s a h.known hlive), ?_⟩
  rcases hp with hexit | ⟨hw, hleft⟩
  · exact ⟨l, exited_stays hl hexit a, .inl hexit⟩
  · cases a with
    | iterate j response =>
      obtain rfl : i = j := by simpa [Action.iterates] using ha
      obtain ⟨l', hl', hp'⟩ := (iterate_advance hl response).closer hl hw h.dead
      refine ⟨l', hl', hp'.imp_right fun hp' => ⟨hp'.1, ?_⟩⟩
      exact Nat.le_of_lt_succ (hp'.2.trans_le hleft)
    | _ => cases ha

theorem Stopping.mono (h : Stopping i w n s) (hle : n ≤ m) : Stopping i w m s := by
  obtain ⟨l, hl, hp⟩ := h.loop
  exact ⟨h.known, h.dead, l, hl, hp.imp_right fun hp => ⟨hp.1, hp.2.trans hle⟩⟩

theorem Stopping.step (h : Stopping i w n s) (a : Action) : Stopping i w n (s.step a) := by
  cases ha : a.iterates i with
  | true => exact (h.mono (Nat.le_succ n)).count ha
  | false =>
    obtain ⟨l, hl, hp⟩ := h.loop
    refine ⟨h.known.trans_le (step_heap_length s a),
      fun hlive => h.dead (step_fades s a h.known hlive), l, ?_, hp⟩
    refine step_other hl ?_ ha
    rintro hspawned
    rw [hspawned] at hp
    rcases hp with hp | ⟨hp, -⟩ <;> cases hp

-- ---------------------------------------------------------------------------
-- Runs
-- ---------------------------------------------------------------------------

def Watched (s : State) : Prop := ∀ l ∈ s.loops, ∀ w, l.phase.weak = some w → w < s.heap.length

theorem Watched.keeps (h : Watched s) (hk : KeepsWatch s s')
    (hlen : s.heap.length ≤ s'.heap.length) : Watched s' := by
  intro l' hl' w hw
  obtain ⟨l, hl, -, hw⟩ := hk l' hl' w hw
  exact (h l hl w hw).trans_le hlen

theorem recv_keepsWatch (s : State) : KeepsWatch s s.recv := by
  intro l hl w hw
  unfold State.recv at hl
  split at hl
  · exact ⟨l, hl, rfl, hw⟩
  · rcases List.mem_append.mp hl with hl | hl
    · exact ⟨l, hl, rfl, hw⟩
    · rw [List.mem_singleton.mp hl] at hw
      cases hw

theorem Watched.start (h : Watched s) (hwired : Wired s) (i : Nat) : Watched (s.start i) := by
  by_cases hidle : ∀ l, s.loops[i]? = some l → l.phase ≠ .spawned
  · rw [start_idle hidle]
    exact h
  · simp only [not_forall, not_not] at hidle
    obtain ⟨l, hl, hp⟩ := hidle
    obtain ⟨w, hw, -⟩ := hwired.finds (List.mem_of_getElem? hl)
    rw [start_eq hl hp hw]
    intro l' hl' w' hw'
    rcases mem_setPhase hl' with hl' | ⟨l₀, -, rfl⟩
    · exact h l' hl' w' hw'
    · cases hw'
      obtain ⟨c, hc, -⟩ := hwired.registered _ _ hw
      simpa [State.setPhase, State.wiring] using (List.getElem?_eq_some_iff.mp hc).1

theorem Watched.step (h : Watched s) (hwired : Wired s) (a : Action) : Watched (s.step a) := by
  have hlen := step_heap_length s a
  cases a with
  | backendsForHostname hostname port =>
    refine h.keeps (.refl ?_) hlen
    simp only [State.step, State.backendsForHostname]
    split <;> rfl
  | clone w => exact h.keeps (.refl rfl) hlen
  | drop w => exact h.keeps (.refl rfl) hlen
  | recv => exact h.keeps (recv_keepsWatch s) hlen
  | start i => exact h.start hwired i
  | iterate i response => exact h.keeps (iterate_spec s i response).2 hlen

theorem run_watched (actions : List Action) : Watched (Base.run State.step .init actions) := by
  have h : Wired (Base.run State.step .init actions) ∧
      Watched (Base.run State.step .init actions) :=
    Base.run_invariant (I := fun s => Wired s ∧ Watched s) (C := fun _ _ => True)
      ⟨.init, fun _ h => nomatch h⟩ (fun _ a h _ => ⟨h.1.step a, h.2.step h.1 a⟩) Base.always_true
  exact h.2

/-- Whenever a loop watches a handle that nobody holds any more, it has stopped
for good after six more steps of its own, whatever the callers, the service and
the other loops do in between. -/
theorem dropped_handle_stops (before next : List Action)
    (hl : (Base.run State.step .init before).loops[i]? = some l) (hw : l.phase.weak = some w)
    (hdead : ¬ (Base.run State.step .init before).Live w)
    (hsteps : 6 ≤ next.countP (Action.iterates i)) :
    (Base.run State.step .init (before ++ next)).loops[i]?.map Loop.phase = some .exited := by
  have hknown := run_watched before l (List.mem_of_getElem? hl) w hw
  have hstopping : Stopping i w 6 (Base.run State.step .init before) :=
    ⟨hknown, hdead, l, hl, .inr ⟨hw, l.phase.left_le⟩⟩
  have hstopped := Base.run_countdown (P := Stopping i w) (fun _ _ a h => h.step a)
    (fun _ _ _ ha h => h.count ha) hstopping hsteps
  rw [Base.run_append]
  obtain ⟨l', hl', hexit | ⟨hw', hleft⟩⟩ := hstopped.loop
  · rw [hl', Option.map_some, hexit]
  · exact absurd (Phase.left_pos hw') (Nat.not_lt.mpr hleft)

/-- The handle is dropped while its loop waits for the first answer. -/
theorem dropped_while_resolving : (Base.run State.step .init
    ([.backendsForHostname "users-rpc" 50051, .recv, .start 0, .drop 0] ++
      List.replicate 6 (.iterate 0 (some [0x0a000001])))).loops[0]?.map Loop.phase =
        some .exited :=
  dropped_handle_stops (l := ⟨⟨("users-rpc", 50051), 0, 0⟩, .resolving 0⟩) (w := 0) _ _
    (by decide) rfl (by unfold State.Live; decide) (by decide)

end Grcache.Discovery
