import Grcache.Discovery.Balancers

/-!
# What the resolver answered

A run of the discovery is observed: for every sender, the last answer that a
lookup of its loop got is written down. The channel of a handle shows the
backends of that answer, a failed lookup takes nothing away, and readiness is
announced only once there is an answer.
-/

namespace Grcache.Discovery

variable {s s' : State} {l : Loop} {i : Nat}

/-- The answer an action brings, with the sender of the loop that waits for it. -/
def State.hears (s : State) : Action → Option (Nat × List UInt32)
  | .iterate i (some response) =>
    match s.loops[i]? with
    | some ⟨args, .resolving _⟩ => some (args.backendsSender, response)
    | _ => none
  | _ => none

structure Observed where
  state : State
  answers : Nat → Option (List UInt32)

def Observed.init : Observed := ⟨.init, fun _ => none⟩

def Observed.learn (o : Observed) (a : Action) : Nat → Option (List UInt32) :=
  match o.state.hears a with
  | some (sender, response) => Function.update o.answers sender (some response)
  | none => o.answers

def Observed.step (o : Observed) (a : Action) : Observed := ⟨o.state.step a, o.learn a⟩

def told (answers : Nat → Option (List UInt32)) (c : Command) : Finset Backend :=
  (answers c.backendsSender).elim ∅ (backendsOf c.hostPort)

def Phase.answered : Phase → Bool
  | .resolved _ _ | .upgrading _ | .updating _ _ | .checking _ true | .announcing _ => true
  | _ => false

-- ---------------------------------------------------------------------------
-- The invariant
-- ---------------------------------------------------------------------------

/-- What the channel of these senders shows: the last answer, unless the loop
still has that in hand. -/
def Observed.Reports (o : Observed) (c : Command) : Prop :=
  o.state.backendsChannels[c.backendsSender]? = some (told o.answers c) ∨
    ∃ l ∈ o.state.loops, l.args = c ∧ ∃ w, l.phase = .resolved w (told o.answers c)

structure Informed (o : Observed) : Prop where
  reports : ∀ c ∈ o.state.wiring, o.Reports c
  inHand : ∀ l ∈ o.state.loops, ∀ w backends, l.phase = .resolved w backends →
    backends = told o.answers l.args
  heard : ∀ l ∈ o.state.loops, l.phase.answered → o.answers l.args.backendsSender ≠ none
  ready : ∀ c ∈ o.state.wiring, o.state.readyChannels[c.readySend]? = some true →
    o.answers c.backendsSender ≠ none
  unheard : ∀ w, o.state.wiring.length ≤ w → o.answers w = none

variable {o : Observed}

theorem Informed.init : Informed .init where
  reports _ h := nomatch h
  inHand _ h := nomatch h
  heard _ h := nomatch h
  ready _ h := nomatch h
  unheard _ _ := rfl

theorem Wired.sender_inj (h : Wired s) (hc : c ∈ s.wiring) (hc' : c' ∈ s.wiring)
    (heq : c.backendsSender = c'.backendsSender) : c = c' := by
  obtain ⟨w, hw⟩ := List.mem_iff_getElem?.mp hc
  obtain ⟨w', hw'⟩ := List.mem_iff_getElem?.mp hc'
  obtain rfl : w = w' := by
    rw [← (h.numbered w c hw).2, ← (h.numbered w' c' hw').2, heq]
  exact Option.some.inj (hw.symm.trans hw')

theorem Attended.args_mem (h : Attended s) (hl : l ∈ s.loops) : l.args ∈ s.wiring :=
  List.mem_of_getElem? (h.own hl)

theorem setPhase_self (hl : s.loops[i]? = some l) :
    { l with phase := phase } ∈ (s.setPhase i phase).loops := by
  refine List.mem_of_getElem? (i := i) ?_
  simp [State.setPhase, hl]

theorem setPhase_other (hl : s.loops[i]? = some l) (hl' : l' ∈ s.loops) (hne : l' ≠ l) :
    l' ∈ (s.setPhase i phase).loops := by
  obtain ⟨j, hj⟩ := List.mem_iff_getElem?.mp hl'
  have hij : i ≠ j := by
    rintro rfl
    exact hne (Option.some.inj (hj.symm.trans hl))
  refine List.mem_of_getElem? (i := j) ?_
  simp [State.setPhase, hij, hj]

theorem Informed.setPhase (h : Informed o) (hl : o.state.loops[i]? = some l)
    (hr : ∀ w backends, l.phase = .resolved w backends →
      o.state.backendsChannels[l.args.backendsSender]? = some backends)
    (hresolved : ∀ w backends, phase ≠ .resolved w backends)
    (hanswered : phase.answered → l.phase.answered) :
    Informed ⟨o.state.setPhase i phase, o.answers⟩ where
  reports c hc := by
    rcases h.reports c hc with hshown | ⟨l', hl', rfl, w, hw⟩
    · exact .inl hshown
    · by_cases heq : l' = l
      · subst heq
        exact .inl (hr w _ hw)
      · exact .inr ⟨l', setPhase_other hl hl' heq, rfl, w, hw⟩
  inHand l' hl' w backends hw := by
    rcases mem_setPhase hl' with hl' | ⟨l₀, hl₀, rfl⟩
    · exact h.inHand l' hl' w backends hw
    · exact absurd hw (hresolved w backends)
  heard l' hl' hw := by
    rcases mem_setPhase hl' with hl' | ⟨l₀, hl₀, rfl⟩
    · exact h.heard l' hl' hw
    · rw [hl] at hl₀
      cases hl₀
      exact h.heard l (List.mem_of_getElem? hl) (hanswered hw)
  ready := h.ready
  unheard := h.unheard

theorem Informed.keep (h : Informed o) (hwiring : s'.wiring = o.state.wiring)
    (hbackends : s'.backendsChannels = o.state.backendsChannels)
    (hready : s'.readyChannels = o.state.readyChannels)
    (hloops : ∀ l ∈ o.state.loops, l ∈ s'.loops)
    (hnew : ∀ l ∈ s'.loops, l ∈ o.state.loops ∨ l.phase = .spawned) :
    Informed ⟨s', o.answers⟩ where
  reports c hc := by
    rcases h.reports c (hwiring ▸ hc) with hshown | ⟨l, hl, hargs, hw⟩
    · exact .inl (by rw [hbackends]; exact hshown)
    · exact .inr ⟨l, hloops l hl, hargs, hw⟩
  inHand l hl w backends hw := by
    rcases hnew l hl with hl | hp
    · exact h.inHand l hl w backends hw
    · rw [hp] at hw
      cases hw
  heard l hl hw := by
    rcases hnew l hl with hl | hp
    · exact h.heard l hl hw
    · rw [hp] at hw
      cases hw
  ready c hc hr := h.ready c (hwiring ▸ hc) (hready ▸ hr)
  unheard w hw := h.unheard w (hwiring ▸ hw)

theorem Informed.onHeap (h : Informed o) (hwire : ∀ a, (f a).wiring = a.wiring) :
    Informed ⟨o.state.onHeap w f, o.answers⟩ :=
  h.keep (onHeap_same hwire).wiring rfl rfl (fun _ hl => hl) fun _ hl => .inl hl

-- Nothing was heard for a handle that is only being made.
theorem Informed.allocated (h : Informed o) (hw : Wired o.state)
    (hf : o.state.Unserved (hostname, port)) :
    Informed ⟨o.state.backendsForHostname hostname port, o.answers⟩ := by
  have ha := hw.allocates hf
  have hloops : (o.state.backendsForHostname hostname port).loops = o.state.loops := by
    rw [allocate_eq hf]
  refine ⟨fun c hc => ?_, ?_, ?_, fun c hc hr => ?_, fun w hlen => ?_⟩
  · simp only [ha.wiring, List.mem_append, List.mem_singleton] at hc
    simp only [Observed.Reports, hloops]
    rcases hc with hc | rfl
    · rcases h.reports c hc with hshown | hhand
      · left
        rw [allocate_eq hf]
        rw [List.getElem?_append_left (List.getElem?_eq_some_iff.mp hshown).1]
        exact hshown
      · exact .inr hhand
    · left
      have hnone := h.unheard _ ha.backendsSender.ge
      rw [allocate_eq hf]
      simp only at hnone
      simp [told, hnone]
  · simp only [hloops]
    exact h.inHand
  · simp only [hloops]
    exact h.heard
  · simp only [ha.wiring, List.mem_append, List.mem_singleton] at hc
    rcases hc with hc | rfl
    · refine h.ready c hc ?_
      rw [allocate_eq hf] at hr
      rwa [List.getElem?_append_left] at hr
      rw [hw.readyChannels]
      exact hw.fresh hc
    · rw [allocate_eq hf] at hr
      simp at hr
  · rw [ha.wiring] at hlen
    exact h.unheard w (Nat.le_trans (by simp) hlen)

-- ---------------------------------------------------------------------------
-- The steps of a loop
-- ---------------------------------------------------------------------------

-- Every loop has senders of its own.
theorem Attended.sender_ne (h : Attended s) (hl : s.loops[i]? = some l)
    (hl' : s.loops[j]? = some l') (hne : i ≠ j) :
    l'.args.backendsSender ≠ l.args.backendsSender := by
  rw [h.sender hl, h.sender hl']
  intro heq
  refine hne ((List.getElem?_inj ?_ h.wired.loops_nodup).mp ?_)
  · rw [List.length_map]
    exact (List.getElem?_eq_some_iff.mp hl).1
  · simp [hl, hl', heq]

theorem told_update (hne : c.backendsSender ≠ sender) :
    told (Function.update answers sender response) c = told answers c := by
  simp only [told, Function.update_of_ne hne]

theorem Informed.answered (h : Informed o) (ha : Attended o.state)
    (hl : o.state.loops[i]? = some l) :
    Informed ⟨o.state.setPhase i (.resolved w (backendsOf l.args.hostPort response)),
      Function.update o.answers l.args.backendsSender (some response)⟩ := by
  have hmem := List.mem_of_getElem? hl
  have htold : told (Function.update o.answers l.args.backendsSender (some response)) l.args =
      backendsOf l.args.hostPort response := by
    simp [told]
  have hnew : ∀ sender, o.answers sender ≠ none →
      Function.update o.answers l.args.backendsSender (some response) sender ≠ none := by
    intro sender hsender
    by_cases heq : sender = l.args.backendsSender
    · simp [heq]
    · rw [Function.update_of_ne heq]
      exact hsender
  refine ⟨fun c hc => ?_, fun l' hl' k backends hk => ?_, fun l' hl' hk => ?_,
    fun c hc hr => hnew _ (h.ready c hc hr), fun k hk => ?_⟩
  · by_cases heq : c = l.args
    · subst heq
      exact .inr ⟨_, setPhase_self hl, rfl, w, by rw [htold]⟩
    · have hne : c.backendsSender ≠ l.args.backendsSender :=
        fun hs => heq (ha.wired.sender_inj hc (ha.args_mem hmem) hs)
      simp only [Observed.Reports, told_update hne]
      rcases h.reports c hc with hshown | ⟨l', hl', rfl, k, hk⟩
      · exact .inl hshown
      · exact .inr ⟨l', setPhase_other hl hl' fun h => heq (h ▸ rfl), rfl, k, hk⟩
  · obtain ⟨j, hj⟩ := List.mem_iff_getElem?.mp hl'
    rcases Base.getElem?_modify_cases hj with ⟨l₀, hl₀, rfl, rfl⟩ | ⟨hj, hij⟩
    · rw [hl] at hl₀
      cases hl₀
      cases hk
      exact htold.symm
    · rw [told_update (ha.sender_ne hl hj hij)]
      exact h.inHand l' (List.mem_of_getElem? hj) k backends hk
  · rcases mem_setPhase hl' with hl' | ⟨l₀, hl₀, rfl⟩
    · exact hnew _ (h.heard l' hl' hk)
    · rw [hl] at hl₀
      cases hl₀
      simp
  · have hne : k ≠ l.args.backendsSender := by
      have hfresh := ha.wired.fresh (ha.args_mem hmem)
      rw [← ha.sender hl] at hfresh
      exact (Nat.lt_of_lt_of_le hfresh hk).ne'
    exact (Function.update_of_ne hne _ _).trans (h.unheard k hk)

theorem Informed.published (h : Informed o) (ha : Attended o.state)
    (hl : o.state.loops[i]? = some l) (hp : l.phase = .resolved w backends) :
    Informed ⟨(o.state.publish l.args.backendsSender backends).setPhase i (.upgrading w),
      o.answers⟩ := by
  have hmem := List.mem_of_getElem? hl
  have hin := h.inHand l hmem w backends hp
  have hlt : l.args.backendsSender < o.state.backendsChannels.length := by
    rw [ha.wired.backendsChannels, ha.sender hl]
    exact ha.wired.fresh (ha.args_mem hmem)
  refine ⟨fun c hc => ?_, fun l' hl' k backends' hk => ?_, fun l' hl' hk => ?_, h.ready, h.unheard⟩
  · by_cases heq : c = l.args
    · subst heq
      left
      simp [State.setPhase, State.publish, hlt, hin]
    · have hne : l.args.backendsSender ≠ c.backendsSender :=
        fun hs => heq (ha.wired.sender_inj hc (ha.args_mem hmem) hs.symm)
      rcases h.reports c hc with hshown | ⟨l', hl', rfl, k, hk⟩
      · left
        simp only [State.setPhase, State.publish]
        rw [List.getElem?_set_ne hne]
        exact hshown
      · refine .inr ⟨l', ?_, rfl, k, hk⟩
        exact setPhase_other (s := o.state.publish _ _) hl hl' fun h => heq (h ▸ rfl)
  · rcases mem_setPhase hl' with hl' | ⟨l₀, hl₀, rfl⟩
    · exact h.inHand l' hl' k backends' hk
    · cases hk
  · rcases mem_setPhase hl' with hl' | ⟨l₀, hl₀, rfl⟩
    · exact h.heard l' hl' hk
    · have hl₀' : l₀ ∈ o.state.loops := List.mem_of_getElem? hl₀
      rw [show l₀ = l from Option.some.inj (hl₀.symm.trans hl)]
      exact h.heard l hmem (by rw [hp]; rfl)

theorem Informed.sendReady (h : Informed o) (ha : Attended o.state) (hl : l ∈ o.state.loops)
    (hp : l.phase = .announcing w) :
    Informed ⟨o.state.sendReady l.args.readySend, o.answers⟩ := by
  refine ⟨h.reports, h.inHand, h.heard, fun c (hc : c ∈ o.state.wiring) hr => ?_, h.unheard⟩
  simp only [State.sendReady] at hr
  by_cases heq : l.args.readySend = c.readySend
  · obtain ⟨k, hk⟩ := List.mem_iff_getElem?.mp hc
    have hown := ha.own hl
    rw [heq, (ha.wired.numbered k c hk).1, hk] at hown
    cases hown
    exact h.heard l hl (by rw [hp]; rfl)
  · rw [List.getElem?_set_ne heq] at hr
    exact h.ready c hc hr

theorem learn_answer (hl : o.state.loops[i]? = some l) (hp : l.phase = .resolving w) :
    o.learn (.iterate i (some response)) =
      Function.update o.answers l.args.backendsSender (some response) := by
  obtain ⟨args, phase⟩ := l
  cases hp
  simp only [Observed.learn, State.hears, hl]

theorem learn_same (hl : o.state.loops[i]? = some l) (hp : ∀ w, l.phase ≠ .resolving w) :
    o.learn (.iterate i response) = o.answers := by
  obtain ⟨args, phase⟩ := l
  cases response with
  | none => rfl
  | some response =>
    simp only [Observed.learn, State.hears, hl]
    cases phase <;> first | rfl | exact absurd rfl (hp _)

theorem Informed.advance (h : Informed o) (ha : Attended o.state)
    (hl : o.state.loops[i]? = some l) (hadv : Advance o.state i l response s') :
    Informed ⟨s', o.learn (.iterate i response)⟩ := by
  cases hadv with
  | idle hw =>
    rw [learn_same hl fun w hp => by rw [hp] at hw; cases hw]
    exact h
  | quiet hq =>
    obtain ⟨args, phase⟩ := l
    cases hq with
    | answered =>
      rw [learn_answer hl rfl]
      exact h.answered ha hl
    | unanswered => exact h.setPhase hl nofun nofun nofun
    | unchanged hsame =>
      rw [learn_same hl nofun]
      refine h.setPhase hl ?_ nofun fun _ => rfl
      rintro w backends ⟨⟩
      exact hsame
    | upgrade | lost | announce =>
      rw [learn_same hl nofun]
      exact h.setPhase hl nofun nofun fun _ => rfl
    | stop | retry | wake =>
      rw [learn_same hl nofun]
      exact h.setPhase hl nofun nofun nofun
  | publish hp =>
    rw [learn_same hl (by rw [hp]; nofun)]
    exact h.published ha hl hp
  | @update w balancer hp =>
    rw [learn_same hl (by rw [hp]; nofun)]
    have hupdate : Informed ⟨o.state.update w balancer, o.answers⟩ :=
      h.keep update_same.wiring rfl rfl (fun _ hl => hl) fun _ hl => .inl hl
    refine hupdate.setPhase hl ?_ ?_ ?_
    · rw [hp]
      nofun
    · cases balancer <;> nofun
    · rw [hp]
      exact fun _ => rfl
  | @ready w hp =>
    rw [learn_same hl (by rw [hp]; nofun)]
    refine (h.sendReady ha (List.mem_of_getElem? hl) hp).setPhase hl ?_ nofun nofun
    rw [hp]
    nofun

theorem Informed.start (h : Informed o) (i : Nat) : Informed ⟨o.state.start i, o.answers⟩ := by
  by_cases hidle : ∀ l, o.state.loops[i]? = some l → l.phase ≠ .spawned
  · rw [start_idle hidle]
    exact h
  · simp only [not_forall, not_not] at hidle
    obtain ⟨l, hl, hp⟩ := hidle
    have hr : ∀ w backends, l.phase ≠ .resolved w backends := by simp [hp]
    simp only [State.start, hl, hp]
    split
    all_goals
      refine h.setPhase hl (fun _ _ hw => absurd hw (hr _ _)) ?_ ?_
      · simp
      · simp [Phase.answered]

theorem Informed.recv (h : Informed o) : Informed ⟨o.state.recv, o.answers⟩ := by
  cases hc : o.state.commands with
  | nil => simpa only [State.recv, hc] using h
  | cons command commands =>
    simp only [State.recv, hc]
    refine h.keep rfl rfl rfl (fun l hl => List.mem_append_left _ hl) fun l hl => ?_
    rcases List.mem_append.mp hl with hl | hl
    · exact .inl hl
    · rw [List.mem_singleton.mp hl]
      exact .inr rfl

theorem Informed.step (h : Informed o) (ha : Attended o.state) (a : Action) :
    Informed (o.step a) := by
  cases a with
  | backendsForHostname hostname port =>
    cases hf : (o.state.serviceBackends (hostname, port)).filter (0 < o.state.strongCount ·) with
    | none => exact h.allocated ha.wired hf
    | some w =>
      simp only [Observed.step, State.step, State.backendsForHostname, hf]
      exact h.onHeap fun _ => rfl
  | clone w => exact h.onHeap fun a => by split <;> rfl
  | drop w => exact h.onHeap fun _ => rfl
  | recv => exact h.recv
  | start i => exact h.start i
  | iterate i response =>
    cases hl : o.state.loops[i]? with
    | none =>
      have hsame : o.state.iterate i response = o.state := by simp [State.iterate, hl]
      have hlearn : o.learn (.iterate i response) = o.answers := by
        cases response <;> simp [Observed.learn, State.hears, hl]
      simp only [Observed.step, State.step, hsame, hlearn]
      exact h
    | some l => exact h.advance ha hl (iterate_advance hl response)

-- ---------------------------------------------------------------------------
-- Runs
-- ---------------------------------------------------------------------------

theorem iterate_ready {w : Nat} (s : State) (i : Nat) (response : Option (List UInt32))
    (h : s.readyChannels[w]? = some true) :
    (s.iterate i response).readyChannels[w]? = some true := by
  cases hl : s.loops[i]? with
  | none =>
    have hsame : s.iterate i response = s := by simp [State.iterate, hl]
    rw [hsame]
    exact h
  | some l =>
    have hadv := iterate_advance hl response
    generalize s.iterate i response = s' at hadv
    cases hadv with
    | ready hp =>
      simp only [State.setPhase, State.sendReady, List.getElem?_set]
      split
      next heq => simpa [heq] using (List.getElem?_eq_some_iff.mp h).1
      next => exact h
    | _ => exact h

theorem step_ready {w : Nat} (a : Action) (h : s.readyChannels[w]? = some true) :
    (s.step a).readyChannels[w]? = some true := by
  cases a with
  | backendsForHostname hostname port =>
    simp only [State.step, State.backendsForHostname]
    split
    · exact h
    · rw [List.getElem?_append_left (List.getElem?_eq_some_iff.mp h).1]
      exact h
  | clone w' => exact h
  | drop w' => exact h
  | recv =>
    simp only [State.step, State.recv]
    split <;> exact h
  | start i =>
    simp only [State.step, State.start]
    repeat' split
    all_goals exact h
  | iterate i response => exact iterate_ready s i response h

/-- In every state of every run, the channel of a handle shows the backends of
the last answer its loop got, none as long as there was no answer, unless the
loop has that answer in hand and is about to publish it. A handle that is ready
has been answered, and stays ready. -/
theorem channels_report_answers (actions : List Action) :
    Base.Throughout Observed.step
      (fun o => ∀ (w : Nat) a, o.state.heap[w]? = some a →
        (o.state.backendsChannels[a.handle.backends]? = some (told o.answers a.wiring) ∨
          ∃ l ∈ o.state.loops, Owns o.state l.args w ∧
            ∃ k, l.phase = .resolved k (told o.answers a.wiring)) ∧
        (o.state.readyChannels[a.handle.ready]? = some true →
          (∃ response, o.answers a.handle.backends = some response) ∧
          ∀ action, (o.state.step action).readyChannels[a.handle.ready]? = some true))
      .init actions := by
  refine Base.throughout_of_invariant (I := fun o => Attended o.state ∧ Informed o)
    (C := fun _ _ => True) ⟨.init, .init⟩ (fun o a h _ => ⟨h.1.step a, h.2.step h.1 a⟩) ?_
    Base.always_true
  rintro o ⟨hattended, hinformed⟩ w a ha
  have hmem : a.wiring ∈ o.state.wiring := List.mem_map_of_mem (List.mem_of_getElem? ha)
  refine ⟨?_, fun hready => ⟨?_, fun action => step_ready action hready⟩⟩
  · rcases hinformed.reports _ hmem with hshown | ⟨l, hl, hargs, hhand⟩
    · exact .inl hshown
    · refine .inr ⟨l, hl, ⟨a, ha, ?_⟩, hhand⟩
      rw [hargs]
      exact ⟨rfl, rfl⟩
  · exact Option.ne_none_iff_exists'.mp (hinformed.ready _ hmem hready)

end Grcache.Discovery
