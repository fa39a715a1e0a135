import Grcache.Store.Index

/-!
# The lookups of the store

`remove_noupdate` and `update_service` unwrap what they find in one object map
for a key of the other. The operations write the maps one after the other, and
`update_service` runs when both are written. A call finds its list, and what it
publishes or spawns is built from the least object of the service, in whatever
order the list comes.
-/

namespace Grcache.Store

open Service

variable {st : ServiceConfigState}

/-- An object is listed under its service name, and under no other. -/
def IndexExact (st : ServiceConfigState) : Prop :=
  ∀ n r, (∃ l, st.refByGrpcService n = some l ∧ r ∈ l) ↔
    ∃ o, st.rawServices r = some o ∧ o.spec.serviceName = n

/-- The `update_service` calls of `apply` and `remove`, with the state they are
made in. -/
inductive Calls (st : ServiceConfigState) : Change → String → ServiceConfigState → Prop
  | apply (object : GrcacheService)
      (hr : st.removeNoupdate object.objectRef = .ok (previous, st₁)) :
      Calls st (.apply object) object.spec.serviceName (st₁.insertObject object)
  | remove (objectRef : ObjectRef)
      (hr : st.removeNoupdate objectRef = .ok (some previous, st₁)) :
      Calls st (.delete objectRef) previous.spec.serviceName st₁

/-- The state with a service's hash set iterated as `l`. -/
def ServiceConfigState.listed (st : ServiceConfigState) (n : String) (l : List ObjectRef) :
    ServiceConfigState :=
  { st with refByGrpcService := Function.update st.refByGrpcService n (some l) }

/-- What an `update_service` call looks up, and what it does: it tombstones a
service without objects, and it publishes or spawns the selected object of any
other, unless the name does not parse. -/
structure CallOk (st : ServiceConfigState) (n : String) : Prop where
  index : IndexExact st
  objects : ∃ l, st.refByGrpcService n = some l ∧
    (l ≠ [] → ∃ o, (∀ l' : List ObjectRef, l'.Perm l → l'.argmin ObjectRef.key = some o.objectRef) ∧
      st.rawServices o.objectRef = some o ∧ Selected st.rawServices n o ∧
      ∀ o', Selected st.rawServices n o' → o' = o) ∧
    ∀ l' : List ObjectRef, l'.Perm l →
      (st.listed n l').updateService n = (st.updateService n).map (·.listed n l')
  outcome : (∃ st', st.updateService n = .ok st' ∧ Updated st n st') ∨
    ∃ o, Selected st.rawServices n o ∧ ¬ Dotted n ∧ st.updateService n = .error .panic

-- ---------------------------------------------------------------------------
-- Iteration order
-- ---------------------------------------------------------------------------

theorem argmin_perm {l l' : List ObjectRef} (hp : l'.Perm l)
    (hr : l.argmin ObjectRef.key = some r) : l'.argmin ObjectRef.key = some r := by
  have hmem := List.argmin_mem hr
  have hne : l'.argmin ObjectRef.key ≠ none := by
    intro hnone
    rw [List.argmin_eq_none.mp hnone] at hp
    rw [hp.symm.eq_nil] at hmem
    cases hmem
  obtain ⟨r', hr'⟩ := Option.ne_none_iff_exists'.mp hne
  have hle := List.le_of_mem_argmin (hp.mem_iff.mpr hmem) hr'
  have hge := List.le_of_mem_argmin (hp.mem_iff.mp (List.argmin_mem hr')) hr
  rw [hr', ObjectRef.key_injective (le_antisymm hle hge)]

theorem argmin_eq_of_perm {l l' : List ObjectRef} (hp : l'.Perm l) :
    l'.argmin ObjectRef.key = l.argmin ObjectRef.key := by
  cases hr : l.argmin ObjectRef.key with
  | none =>
    rw [List.argmin_eq_none.mp hr] at hp
    rw [hp.eq_nil]
    rfl
  | some r => exact argmin_perm hp hr

theorem updateService_listed (hl : st.refByGrpcService n = some l) (hp : l'.Perm l) :
    (st.listed n l').updateService n = (st.updateService n).map (·.listed n l') := by
  have hl' : (st.listed n l').refByGrpcService n = some l' := Function.update_self ..
  unfold ServiceConfigState.updateService
  simp only [hl, hl', Base.unwrap_some, Base.ok_bind, hp.isEmpty_eq, argmin_eq_of_perm hp]
  cases l.isEmpty with
  | true => rfl
  | false =>
    -- nothing after the selection reads the list
    simp only [Bool.false_eq_true, ↓reduceIte, Base.map_bind]
    refine bind_congr fun r => bind_congr fun o => bind_congr fun service => ?_
    cases o.spec.descriptorSetSource with
    | some source => rfl
    | none =>
      simp only [Base.map_bind]
      rfl

-- ---------------------------------------------------------------------------
-- Calls
-- ---------------------------------------------------------------------------

theorem Indexed.callOk (h : Indexed st) (hl : st.refByGrpcService n = some l) : CallOk st n where
  index := h.mem
  objects := by
    refine ⟨l, hl, fun hne => ?_, fun l' hp => updateService_listed hl hp⟩
    obtain ⟨o, hmin, hraw, hsel⟩ := h.argmin_selected hl hne
    exact ⟨o, fun l' hp => argmin_perm hp hmin, hraw, hsel, fun o' ho' => ho'.unique hsel⟩
  outcome := updateService_spec h hl

theorem Indexed.calls_iff (h : Indexed st) : Calls st c n st₁ ↔ st.record c = some (n, st₁) := by
  constructor
  · rintro (⟨object, hr⟩ | ⟨objectRef, hr⟩)
    · rw [removeNoupdate_eq h] at hr
      cases hr
      rfl
    · rw [removeNoupdate_eq h] at hr
      simp only [Except.ok.injEq, Prod.mk.injEq] at hr
      simp [ServiceConfigState.record, hr]
  · intro hrec
    cases c with
    | ready => cases hrec
    | apply object =>
      cases hrec
      exact .apply object (removeNoupdate_eq h _)
    | delete objectRef =>
      simp only [ServiceConfigState.record, Option.map_eq_some_iff, Prod.mk.injEq] at hrec
      obtain ⟨previous, hraw, rfl, rfl⟩ := hrec
      exact .remove objectRef (hraw ▸ removeNoupdate_eq h objectRef)

/-- In every reachable state the index is exact and removals never fail. A
change makes at most one `update_service` call, which finds its objects and acts
for the least of them. -/
theorem index_lookups_succeed (as : List Action) :
    IndexExact (Base.run Loader.step .init as).state ∧
    (∀ r, ∃ st₁,
      (Base.run Loader.step .init as).state.removeNoupdate r =
        .ok ((Base.run Loader.step .init as).state.rawServices r, st₁) ∧ IndexExact st₁) ∧
    ∀ c, (∀ n st₁, Calls (Base.run Loader.step .init as).state c n st₁ →
        (Base.run Loader.step .init as).state.handle c = st₁.updateService n ∧
        st₁.rawServices = objectsAfter (Base.run Loader.step .init as).state.rawServices c ∧
        CallOk st₁ n) ∧
      ((∀ n st₁, ¬ Calls (Base.run Loader.step .init as).state c n st₁) →
        (Base.run Loader.step .init as).state.handle c =
          .ok (Base.run Loader.step .init as).state) := by
  have h := run_indexed as
  refine ⟨h.mem, fun r => ?_, fun c => ⟨fun n st₁ hc => ?_, fun hnone => ?_⟩⟩
  · exact ⟨_, removeNoupdate_eq h r, (h.withoutObject r).mem⟩
  · have hrec := h.calls_iff.mp hc
    have hr := record_spec h hrec
    obtain ⟨l, hl⟩ := hr.entry
    exact ⟨by rw [handle_eq h, hrec], hr.raw, hr.indexed.callOk hl⟩
  · cases hrec : (Base.run Loader.step .init as).state.record c with
    | none => rw [handle_eq h, hrec]
    | some call => exact absurd (h.calls_iff.mpr hrec) (hnone call.1 call.2)

end Grcache.Store
