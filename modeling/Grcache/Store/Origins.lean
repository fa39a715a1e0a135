import Grcache.Store.Routing

/-!
# Where entries come from

An entry of the published map pairs a spec with a load balancer. The two are
made at different times, the spec perhaps by a load that ran long after the
change, and other changes of the same service may come in between. Still an
entry is never put together from two objects, and never from an object that was
not applied.
-/

namespace Grcache.Store

open Service

variable {st : ServiceConfigState} {l : Loader} {applied : GrcacheService → Prop}
  {envs : Env → Prop}

/-- An unloaded service, or the spec and the upstream of one applied object. -/
def OfOneObject (applied : GrcacheService → Prop) (envs : Env → Prop) (n : String)
    (data : ServiceData) : Prop :=
  data = tombstone data.generation ∨ ∃ o spec, applied o ∧ o.spec.serviceName = n ∧
    BuiltFrom envs o spec ∧ data = dataFor data.generation spec o

def LoadsFor (applied : GrcacheService → Prop) (task : LoadTask) : Prop :=
  ∃ o, applied o ∧ o.spec.serviceName = task.serviceName ∧
    QualifiedService.parse o.spec.serviceName = .ok task.service ∧
    o.spec.descriptorSetSource = some task.source ∧
    task.loadBalancer = backendsForUpstream o.spec.upstream

structure Origins (applied : GrcacheService → Prop) (envs : Env → Prop)
    (st : ServiceConfigState) : Prop where
  raw : ∀ r o, st.rawServices r = some o → applied o
  services : ∀ n data, st.services n = some data → OfOneObject applied envs n data
  spawned : ∀ task ∈ st.spawned, LoadsFor applied task

theorem Origins.init : Origins applied envs .init where
  raw _ _ h := nomatch h
  services _ _ h := nomatch h
  spawned _ h := nomatch h

-- Whichever of the two is newer, it is of one object.
theorem Origins.publish (h : Origins applied envs st) (hd : OfOneObject applied envs n data) :
    ∀ m data', publish st.services n data m = some data' → OfOneObject applied envs m data' := by
  intro m data' hdata'
  unfold Store.publish at hdata'
  by_cases hm : m = n
  · subst hm
    rw [Function.update_self, Option.some.injEq] at hdata'
    subst hdata'
    unfold newest
    split
    next value hvalue =>
      split
      · exact hd
      · exact h.services m value hvalue
    next => exact hd
  · rw [Function.update_of_ne hm] at hdata'
    exact h.services m data' hdata'

theorem Origins.updated (h : Origins applied envs st) (hu : Updated st n st') :
    Origins applied envs st' := by
  cases hu with
  | unload =>
    refine ⟨h.raw, fun m data hdata => ?_, h.spawned⟩
    simp only at hdata
    by_cases hm : m = n
    · subst hm
      rw [Function.update_self, Option.some.injEq] at hdata
      exact .inl (by rw [← hdata]; rfl)
    · rw [Function.update_of_ne hm] at hdata
      exact h.services m data hdata
  | @spawn o service source hsel hparse hsrc =>
    refine ⟨h.raw, h.services, fun task ht => ?_⟩
    rcases List.mem_append.mp ht with ht | ht
    · exact h.spawned task ht
    · rw [List.mem_singleton.mp ht]
      have hname : o.spec.serviceName = n := hsel.1.2
      exact ⟨o, h.raw _ o hsel.1.1, hname, hname ▸ hparse, hsrc, rfl⟩
  | @passthrough o service hsel hparse hsrc =>
    refine ⟨h.raw, h.publish (.inr ⟨o, _, h.raw _ o hsel.1.1, hsel.1.2, ?_, rfl⟩), h.spawned⟩
    refine ⟨service, hsel.1.2 ▸ hparse, ?_⟩
    rw [hsrc]

theorem Origins.recorded (h : Origins applied envs st) (hc : ∀ o, c = .apply o → applied o)
    (hrec : Recorded st c n st₁) : Origins applied envs st₁ := by
  rw [hrec.sameMap]
  refine ⟨fun r o ho => ?_, h.services, h.spawned⟩
  change st₁.rawServices r = some o at ho
  rw [hrec.raw] at ho
  cases c with
  | ready => exact h.raw r o ho
  | apply object =>
    rw [objectsAfter_apply] at ho
    by_cases hr : r = object.objectRef
    · rw [hr, Function.update_self, Option.some.injEq] at ho
      exact ho ▸ hc object rfl
    · rw [Function.update_of_ne hr] at ho
      exact h.raw r o ho
  | delete r' =>
    rw [objectsAfter_delete] at ho
    by_cases hr : r = r'
    · rw [hr, Function.update_self] at ho
      cases ho
    · rw [Function.update_of_ne hr] at ho
      exact h.raw r o ho

theorem Origins.loaded {i : Nat} (h : Origins applied envs st) (ht : st.spawned[i]? = some task)
    (henv : envs env) (hspec : loadSpec env task.source task.service = .ok spec) :
    OfOneObject applied envs task.serviceName (taskData task spec) := by
  obtain ⟨o, ho, hname, hparse, hsrc, hlb⟩ := h.spawned task (List.mem_of_getElem? ht)
  refine .inr ⟨o, spec, ho, hname, ⟨task.service, hparse, ?_⟩, ?_⟩
  · rw [hsrc]
    exact ⟨env, henv, hspec⟩
  · rw [taskData, dataFor, hlb]

theorem Origins.stepped (h : Origins applied envs l.state) (hi : Indexed l.state)
    (hobject : ∀ o, a = .change (.apply o) → applied o) (henv : ∀ i env, a = .load i env → envs env)
    (hs : Stepped l a l') : Origins applied envs l'.state := by
  cases hs with
  | dead | quiet | crash | noTask => exact h
  | change _ hrec hu =>
    have hc := h.recorded (fun o ho => hobject o (by rw [ho])) (record_spec hi hrec)
    exact hc.updated hu
  | @loaded i task env spec ht hspec =>
    refine ⟨h.raw, h.publish (h.loaded ht (henv i env rfl) hspec), fun t ht => ?_⟩
    exact h.spawned t ((l.state.spawned.eraseIdx_sublist i).subset ht)
  | @failed i task env ht hspec =>
    refine ⟨h.raw, h.services, fun t ht => ?_⟩
    exact h.spawned t ((l.state.spawned.eraseIdx_sublist i).subset ht)

theorem run_origins (as : List Action) :
    Origins (fun o => .change (.apply o) ∈ as) (loadEnvs as)
      (Base.run Loader.step .init as).state := by
  have hinv : Indexed (Base.run Loader.step .init as).state ∧
      Origins (fun o => .change (.apply o) ∈ as) (loadEnvs as)
        (Base.run Loader.step .init as).state := by
    refine Base.run_invariant (C := fun _ a => a ∈ as)
      (I := fun l : Loader => Indexed l.state ∧
        Origins (fun o => .change (.apply o) ∈ as) (loadEnvs as) l.state)
      ⟨.init, .init⟩ (fun l a ⟨hi, ho⟩ ha => ?_) (Base.always_iff_mem.mpr fun _ ha => ha)
    have hs := step_spec hi a
    refine ⟨hs.indexed hi, ho.stepped hi ?_ ?_ hs⟩
    · rintro o rfl
      exact ha
    · rintro i env rfl
      exact ⟨i, ha⟩
  exact hinv.2

theorem BuiltFrom.no_bucket (h : BuiltFrom envs o spec) (name hash : String) :
    o.spec.descriptorSetSource ≠ some (.bucket name hash) := by
  obtain ⟨service, -, h⟩ := h
  intro hsrc
  rw [hsrc] at h
  obtain ⟨env, -, hspec⟩ := h
  obtain ⟨descriptorSet, hsource, -⟩ := Base.bind_eq_ok_iff.mp hspec
  cases hsource

end Grcache.Store
