import Grcache.Store.Index

/-!
# Generations

Writes to one name race: a tombstone is inserted without a check, a passthrough
write and a finished load go through `update_service_if_newer`. Each call of
`update_service` draws a fresh generation for the one write it leads to, so a
later call holds a greater generation than everything before it. The invariant
`Generations` relates the counter, the generations still held by spawned loads
and the published ones; from it, the map always shows the newest write
attempted.
-/

namespace Grcache.Store

open Service

-- ---------------------------------------------------------------------------
-- The newest write
-- ---------------------------------------------------------------------------

/-- What the map may show for `n` after these writes: nothing if there was none,
else the one of greatest generation. -/
def Published (writes : List (String × ServiceData)) (n : String) : Option ServiceData → Prop
  | none => ∀ d, (n, d) ∉ writes
  | some d => (n, d) ∈ writes ∧ ∀ d', (n, d') ∈ writes → d' ≠ d → d'.generation < d.generation

theorem Published.other (h : Published writes m o) (hm : m ≠ n) :
    Published ((n, d) :: writes) m o := by
  cases o with
  | none => simpa [Published, hm] using h
  | some v => simpa [Published, hm] using h

theorem Published.write (h : Published writes n o)
    (hfresh : ∀ d', (n, d') ∈ writes → d'.generation ≠ d.generation) :
    Published ((n, d) :: writes) n (some (newest o d)) := by
  cases o with
  | none =>
    refine ⟨by simp [newest], fun d' hd' hne => ?_⟩
    rcases List.mem_cons.mp hd' with heq | hmem
    · cases heq
      exact absurd rfl hne
    · exact absurd hmem (h d')
  | some v =>
    obtain ⟨hv, hmax⟩ := h
    by_cases hg : v.generation < d.generation
    · -- the write wins: everything before it is at most `v`
      simp only [newest, hg, ↓reduceIte]
      refine ⟨by simp, fun d' hd' hne => ?_⟩
      rcases List.mem_cons.mp hd' with heq | hmem
      · cases heq
        exact absurd rfl hne
      · by_cases hdv : d' = v
        · exact hdv ▸ hg
        · exact lt_trans (hmax d' hmem hdv) hg
    · simp only [newest, hg, ↓reduceIte]
      refine ⟨by simp [hv], fun d' hd' hne => ?_⟩
      rcases List.mem_cons.mp hd' with heq | hmem
      · cases heq
        have := hfresh v hv
        omega
      · exact hmax d' hmem hne

-- ---------------------------------------------------------------------------
-- The invariant
-- ---------------------------------------------------------------------------

def attemptedGenerations (st : ServiceConfigState) : List Nat :=
  st.attempted.map fun w => w.2.generation

def pendingGenerations (st : ServiceConfigState) : List Nat :=
  st.spawned.map fun t => t.generation

structure Generations (st : ServiceConfigState) : Prop where
  counter : ∀ n g, st.lastCall n = some g → g < st.specGeneration
  attempted : ∀ n d, (n, d) ∈ st.attempted → ∃ g, st.lastCall n = some g ∧ d.generation ≤ g
  pending : ∀ t ∈ st.spawned, ∃ g, st.lastCall t.serviceName = some g ∧ t.generation ≤ g
  distinct : (attemptedGenerations st ++ pendingGenerations st).Nodup
  published : ∀ n, Published st.attempted n (st.services n)

theorem Generations.init : Generations .init := by
  constructor <;>
    simp [ServiceConfigState.init, attemptedGenerations, pendingGenerations, Published]

theorem Generations.sameMap (h : Generations st) (hm : SameMap st st') : Generations st' := by
  rw [hm]
  exact ⟨h.counter, h.attempted, h.pending, h.distinct, h.published⟩

section
variable (h : Generations st)
include h

theorem Generations.attempted_lt (hd : (n, d) ∈ st.attempted) :
    d.generation < st.specGeneration := by
  obtain ⟨g, hg, hle⟩ := h.attempted n d hd
  have := h.counter n g hg
  omega

theorem Generations.pending_lt (ht : t ∈ st.spawned) : t.generation < st.specGeneration := by
  obtain ⟨g, hg, hle⟩ := h.pending t ht
  have := h.counter _ g hg
  omega

theorem Generations.fresh :
    st.specGeneration ∉ attemptedGenerations st ++ pendingGenerations st := by
  intro hm
  rcases List.mem_append.mp hm with hm | hm
  · obtain ⟨⟨n, d⟩, hd, heq⟩ := List.mem_map.mp hm
    exact absurd heq (h.attempted_lt hd).ne
  · obtain ⟨t, ht, heq⟩ := List.mem_map.mp hm
    exact absurd heq (h.pending_lt ht).ne

/-- A call raises the last generation of its own name and of no other. -/
theorem Generations.called_le (hg : ∃ g, st.lastCall m = some g ∧ x ≤ g) :
    ∃ g, (st.called n).lastCall m = some g ∧ x ≤ g := by
  obtain ⟨g, hg, hle⟩ := hg
  by_cases hm : m = n
  · subst hm
    have := h.counter m g hg
    exact ⟨st.specGeneration, by simp [ServiceConfigState.called], by omega⟩
  · exact ⟨g, by simpa [ServiceConfigState.called, hm] using hg, hle⟩

theorem Generations.called_counter (m : String) (g : Nat)
    (hg : (st.called n).lastCall m = some g) : g < (st.called n).specGeneration := by
  by_cases hm : m = n
  · subst hm
    simp only [ServiceConfigState.called, Function.update_self, Option.some.injEq] at hg ⊢
    omega
  · have := h.counter m g (by simpa [ServiceConfigState.called, hm] using hg)
    simp only [ServiceConfigState.called]
    omega

theorem Generations.write (hd : d.generation = st.specGeneration) :
    Generations { st.called n with
      services := publish st.services n d
      attempted := (n, d) :: st.attempted } := by
  refine ⟨h.called_counter, ?_, fun t ht => h.called_le (h.pending t ht), ?_, ?_⟩
  · intro m d' hm
    rcases List.mem_cons.mp hm with heq | hm
    · cases heq
      exact ⟨st.specGeneration, by simp [ServiceConfigState.called], hd.le⟩
    · exact h.called_le (h.attempted m d' hm)
  · have hnd := List.nodup_cons.mpr ⟨h.fresh, h.distinct⟩
    rw [← hd] at hnd
    exact hnd
  · intro m
    by_cases hm : m = n
    · subst hm
      simp only [publish, Function.update_self]
      exact (h.published m).write fun d' hd' => by rw [hd]; exact (h.attempted_lt hd').ne
    · simpa [publish, hm] using (h.published m).other hm

/-- The unconditional insert of a tombstone is a compare-and-insert that always
succeeds. -/
theorem Generations.tombstone_publish :
    Function.update st.services n (some (tombstone st.specGeneration)) =
      publish st.services n (tombstone st.specGeneration) := by
  have hp := h.published n
  unfold publish newest
  cases hv : st.services n with
  | none => rfl
  | some v =>
    rw [hv] at hp
    have := h.attempted_lt hp.1
    simp [tombstone, this]

theorem Generations.updated (hu : Updated st n st') : Generations st' := by
  cases hu with
  | unload hnone =>
    rw [h.tombstone_publish]
    exact h.write rfl
  | passthrough hsel hparse hsrc => exact h.write rfl
  | spawn hsel hparse hsrc =>
    refine ⟨h.called_counter, fun m d hd => h.called_le (h.attempted m d hd), ?_, ?_, h.published⟩
    · intro t ht
      rcases List.mem_append.mp ht with ht | ht
      · exact h.called_le (h.pending t ht)
      · rw [List.mem_singleton.mp ht]
        exact ⟨st.specGeneration, by simp [ServiceConfigState.called], le_rfl⟩
    · have hnd : ((attemptedGenerations st ++ pendingGenerations st) ++
          [st.specGeneration]).Nodup := by
        rw [List.nodup_append_comm]
        exact List.nodup_cons.mpr ⟨h.fresh, h.distinct⟩
      simpa [attemptedGenerations, pendingGenerations, ServiceConfigState.called] using hnd

/-- Running a load moves its generation from the pending to the attempted
ones, whether or not the map takes the write. -/
theorem Generations.load (ht : st.spawned[i]? = some task) (spec : ServiceSpec) :
    Generations { st with
      spawned := st.spawned.eraseIdx i
      services := publish st.services task.serviceName (taskData task spec)
      attempted := (task.serviceName, taskData task spec) :: st.attempted } := by
  obtain ⟨hi, rfl⟩ := List.getElem?_eq_some_iff.mp ht
  have hmem : st.spawned[i] ∈ st.spawned := List.getElem_mem hi
  have hperm : (attemptedGenerations st ++ pendingGenerations st).Perm
      (st.spawned[i].generation :: attemptedGenerations st ++
        (st.spawned.eraseIdx i).map fun t => t.generation) := by
    have := ((List.getElem_cons_eraseIdx_perm hi).map fun t : LoadTask => t.generation).symm
    exact (this.append_left _).trans List.perm_middle
  have hnd := hperm.nodup_iff.mp h.distinct
  refine ⟨h.counter, ?_, fun t ht' => h.pending t (List.mem_of_mem_eraseIdx ht'), hnd, ?_⟩
  · intro m d hm
    rcases List.mem_cons.mp hm with heq | hm
    · cases heq
      exact h.pending _ hmem
    · exact h.attempted m d hm
  · intro m
    by_cases hm : m = st.spawned[i].serviceName
    · subst hm
      simp only [publish, Function.update_self]
      refine (h.published _).write fun d' hd' heq => ?_
      rw [List.cons_append, List.nodup_cons] at hnd
      refine hnd.1 (List.mem_append_left _ (List.mem_map.mpr ⟨_, hd', ?_⟩))
      exact heq
    · simpa [publish, hm] using (h.published m).other hm

theorem Generations.drop : Generations { st with spawned := st.spawned.eraseIdx i } := by
  refine ⟨h.counter, h.attempted, fun t ht => h.pending t (List.mem_of_mem_eraseIdx ht), ?_,
    h.published⟩
  exact h.distinct.sublist
    ((List.Sublist.refl _).append ((List.eraseIdx_sublist st.spawned i).map _))

end

theorem Stepped.generations (hs : Stepped l a l') (hidx : Indexed l.state)
    (h : Generations l.state) : Generations l'.state := by
  cases hs with
  | dead | quiet | crash | noTask => exact h
  | change _ hrec hu => exact (h.sameMap (record_spec hidx hrec).sameMap).updated hu
  | loaded ht hspec => exact h.load ht _
  | failed ht hspec => exact h.drop

-- ---------------------------------------------------------------------------
-- Attempts
-- ---------------------------------------------------------------------------

inductive Writes (st : ServiceConfigState) (n : String) : ServiceData → Prop
  | tombstone (hnone : ∀ o, ¬ Live st.rawServices n o) :
      Writes st n (tombstone st.specGeneration)
  | passthrough (hsel : Selected st.rawServices n o)
      (hparse : QualifiedService.parse n = .ok service)
      (hsrc : o.spec.descriptorSetSource = none) :
      Writes st n (dataFor st.specGeneration (.buildPassthrough service) o)

/-- The write that an action attempts: that of its call, or of a load that succeeds. -/
inductive Attempts (l : Loader) : Action → String → ServiceData → Prop
  | call (hc : l.crashed = false) (hrec : l.state.record c = some (n, st₁))
      (hw : Writes st₁ n d) : Attempts l (.change c) n d
  | load (ht : l.state.spawned[i]? = some task)
      (hspec : loadSpec env task.source task.service = .ok spec) :
      Attempts l (.load i env) task.serviceName (taskData task spec)

theorem Updated.attempted_iff (hu : Updated st n st') :
    (m, d) ∈ st'.attempted ↔ (m, d) ∈ st.attempted ∨ m = n ∧ Writes st n d := by
  cases hu with
  | unload hnone =>
    rw [List.mem_cons, or_comm, Prod.mk.injEq]
    refine or_congr_right (and_congr_right fun _ => ⟨?_, fun hw => ?_⟩)
    · rintro rfl
      exact .tombstone hnone
    · cases hw with
      | tombstone => rfl
      | passthrough hsel => exact absurd hsel.1 (hnone _)
  | spawn hsel _ hsrc =>
    refine (or_iff_left ?_).symm
    rintro ⟨-, hw⟩
    cases hw with
    | tombstone hnone => exact hnone _ hsel.1
    | passthrough hsel' _ hsrc' =>
      rw [hsel.unique hsel', hsrc'] at hsrc
      cases hsrc
  | passthrough hsel hparse hsrc =>
    rw [List.mem_cons, or_comm, Prod.mk.injEq]
    refine or_congr_right (and_congr_right fun _ => ⟨?_, fun hw => ?_⟩)
    · rintro rfl
      exact .passthrough hsel hparse hsrc
    · cases hw with
      | tombstone hnone => exact absurd hsel.1 (hnone _)
      | passthrough hsel' hparse' =>
        rw [hparse] at hparse'
        cases hparse'
        rw [hsel.unique hsel']

theorem Attempts.writes (ha : Attempts l (.change c) n d)
    (hrec : l.state.record c = some (m, st₁)) : n = m ∧ Writes st₁ m d := by
  cases ha with
  | call _ hrec' hw =>
    rw [hrec] at hrec'
    cases hrec'
    exact ⟨rfl, hw⟩

theorem Attempts.loads (ha : Attempts l (.load i env) n d)
    (ht : l.state.spawned[i]? = some task) :
    ∃ spec, loadSpec env task.source task.service = .ok spec ∧ n = task.serviceName ∧
      d = taskData task spec := by
  cases ha with
  | load ht' hspec =>
    rw [ht] at ht'
    cases ht'
    exact ⟨_, hspec, rfl, rfl⟩

theorem Stepped.attempted_iff (hs : Stepped l a l') (hidx : Indexed l.state) :
    (n, d) ∈ l'.state.attempted ↔ (n, d) ∈ l.state.attempted ∨ Attempts l a n d := by
  cases hs with
  | dead hd =>
    refine (or_iff_left fun ha => ?_).symm
    cases ha with
    | call hc => simp [hd] at hc
  | quiet _ hnone =>
    refine (or_iff_left fun ha => ?_).symm
    cases ha with
    | call _ hrec => simp [hnone] at hrec
  | crash hc hrec hsel hn =>
    -- a name that does not parse is never written
    refine (or_iff_left fun ha => ?_).symm
    obtain ⟨-, hw⟩ := ha.writes hrec
    cases hw with
    | tombstone hnone => exact hnone _ hsel.1
    | passthrough _ hparse => exact hn (parse_ok_iff.mp ⟨_, hparse⟩)
  | @change c m st₁ st' hc hrec hu =>
    have hsame : st₁.attempted = l.state.attempted := by
      rw [(record_spec hidx hrec).sameMap]
    rw [hu.attempted_iff, hsame]
    refine or_congr_right ⟨?_, fun ha => ha.writes hrec⟩
    rintro ⟨rfl, hw⟩
    exact .call hc hrec hw
  | noTask ht =>
    refine (or_iff_left fun ha => ?_).symm
    cases ha with
    | load ht' => simp [ht] at ht'
  | loaded ht hspec =>
    rw [List.mem_cons, or_comm, Prod.mk.injEq]
    refine or_congr_right ⟨?_, fun ha => ?_⟩
    · rintro ⟨rfl, rfl⟩
      exact .load ht hspec
    · obtain ⟨spec, hspec', rfl, rfl⟩ := ha.loads ht
      rw [hspec] at hspec'
      cases hspec'
      exact ⟨rfl, rfl⟩
  | failed ht hspec =>
    refine (or_iff_left fun ha => ?_).symm
    obtain ⟨spec, hspec', -, -⟩ := ha.loads ht
    exact hspec spec hspec'

/-- The last call of a name has this generation, and it went into a write or
into a spawned load. -/
structure Drawn (st : ServiceConfigState) (n : String) (generation : Nat) : Prop where
  last : st.lastCall n = some generation
  used : (∃ d, (n, d) ∈ st.attempted ∧ d.generation = generation) ∨
    ∃ t ∈ st.spawned, t.serviceName = n ∧ t.generation = generation

theorem Updated.drawn (hu : Updated st n st') : Drawn st' n st.specGeneration := by
  have hlast : (st.called n).lastCall n = some st.specGeneration := by
    simp [ServiceConfigState.called]
  cases hu with
  | unload | passthrough => exact ⟨hlast, .inl ⟨_, List.mem_cons_self, rfl⟩⟩
  | spawn => exact ⟨hlast, .inr ⟨_, List.mem_concat_self, rfl, rfl⟩⟩

theorem Stepped.drawn (hs : Stepped l (.change c) l') (hidx : Indexed l.state)
    (hrec : l.state.record c = some (n, st₁)) (hc : l'.crashed = false) :
    Drawn l'.state n l.state.specGeneration := by
  cases hs with
  | dead hd => simp [hd] at hc
  | quiet _ hnone => simp [hnone] at hrec
  | crash => cases hc
  | change _ hrec' hu =>
    rw [hrec] at hrec'
    cases hrec'
    have hsame : st₁.specGeneration = l.state.specGeneration := by
      rw [(record_spec hidx hrec).sameMap]
    exact hsame ▸ hu.drawn

-- ---------------------------------------------------------------------------
-- Runs
-- ---------------------------------------------------------------------------

abbrev after (as : List Action) : ServiceConfigState := (Base.run Loader.step .init as).state

theorem run_generations (as : List Action) : Generations (after as) := by
  have hinv : Indexed (after as) ∧ Generations (after as) :=
    Base.run_invariant (I := fun l : Loader => Indexed l.state ∧ Generations l.state)
      ⟨Indexed.init, Generations.init⟩
      (fun l a h _ => ⟨(step_spec h.1 a).indexed h.1, (step_spec h.1 a).generations h.1 h.2⟩)
      Base.always_true
  exact hinv.2

theorem run_attempted_iff (as : List Action) : (n, d) ∈ (after as).attempted ↔
    Base.Sometime Loader.step (fun l a => Attempts l a n d) .init as :=
  Base.run_records (I := fun l : Loader => Indexed l.state)
    (H := fun l => (n, d) ∈ l.state.attempted) Indexed.init
    (fun _ a h => (step_spec h a).indexed h) (by simp [Loader.init, ServiceConfigState.init])
    fun _ a h => (step_spec h a).attempted_iff h

theorem run_attempted (as bs : List Action) :
    (after as).attempted ⊆ (after (as ++ bs)).attempted := by
  rintro ⟨n, d⟩ hd
  rw [run_attempted_iff] at hd ⊢
  exact hd.mono (List.prefix_append as bs)

/-- A write that was attempted is shown or was overtaken by a newer one. -/
theorem Published.of_mem (h : Published writes n o) (hd : (n, d) ∈ writes) :
    ∃ d', o = some d' ∧ (d' = d ∨ d.generation < d'.generation) := by
  cases o with
  | none => exact absurd hd (h d)
  | some d' =>
    refine ⟨d', rfl, ?_⟩
    by_cases heq : d = d'
    · exact .inl heq.symm
    · exact .inr (h.2 d hd heq)

/-- Nothing of a name holds a generation beyond its last call, so once the write
of that call has been attempted, it is shown. -/
theorem Generations.shows_last (h : Generations st) (hlast : st.lastCall n = some d.generation)
    (hd : (n, d) ∈ st.attempted) : st.services n = some d := by
  obtain ⟨d', hd', hle⟩ := (h.published n).of_mem hd
  have hp := h.published n
  rw [hd'] at hp
  obtain ⟨g, hlast', hle'⟩ := h.attempted n d' hp.1
  rw [hlast] at hlast'
  cases hlast'
  rcases hle with rfl | hlt
  · exact hd'
  · omega

/-- Every state of every run shows, for every name, the attempted write of the
greatest generation; generations only grow; and once the write of the last call
of a name has been attempted, it is shown until the next call of that name. The
attempted writes are those of the calls and loads of the run, and every call
draws its generation for one of them or for a load. -/
theorem services_show_newest_write (as : List Action) :
    (∀ n, Published (after as).attempted n ((after as).services n)) ∧
    (∀ bs n d, (after as).services n = some d →
      ∃ d', (after (as ++ bs)).services n = some d' ∧ d.generation ≤ d'.generation) ∧
    (∀ bs n d, (n, d) ∈ (after as).attempted →
      (after (as ++ bs)).lastCall n = some d.generation →
      (after (as ++ bs)).services n = some d) ∧
    (∀ n d, (n, d) ∈ (after as).attempted ↔
      Base.Sometime Loader.step (fun l a => Attempts l a n d) .init as) ∧
    ∀ c n st₁, (after as).record c = some (n, st₁) →
      (Base.run Loader.step .init (as ++ [.change c])).crashed = false →
      Drawn (after (as ++ [.change c])) n (after as).specGeneration := by
  refine ⟨(run_generations as).published, ?_, ?_, fun n d => run_attempted_iff as, ?_⟩
  · intro bs n d hd
    have hp := (run_generations as).published n
    rw [hd] at hp
    have hmem := run_attempted as bs hp.1
    obtain ⟨d', hd', hle⟩ := ((run_generations (as ++ bs)).published n).of_mem hmem
    refine ⟨d', hd', ?_⟩
    rcases hle with rfl | hlt
    · exact le_rfl
    · exact hlt.le
  · intro bs n d hd hlast
    exact (run_generations (as ++ bs)).shows_last hlast (run_attempted as bs hd)
  · intro c n st₁ hrec hc
    have hs : Stepped (Base.run Loader.step .init as) (.change c)
        (Base.run Loader.step .init (as ++ [.change c])) := by
      rw [Base.run_snoc]
      exact step_spec (run_indexed as) (.change c)
    exact hs.drawn (run_indexed as) hrec hc

end Grcache.Store
