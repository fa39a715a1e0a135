import Grcache.Base.Runs
import Grcache.Store.Model

/-!
# The object index and the steps of the store

`raw_services` holds the live objects and `ref_by_grpc_service` indexes them by
service name. The two are updated one after the other, so the index invariant
`Indexed` holds between the operations only. It is what every lookup that is
unwrapped rests on: with it, handling a change can fail in one place only, the
parse of the service name.

`updateService_spec` and `step_spec` say once what a call and a step can do.
Every later argument about the store goes through them.
-/

namespace Grcache.Store

open Base (unwrapOk raise)
open Service

variable {st : ServiceConfigState}

abbrev Objects := ObjectRef → Option GrcacheService

-- ---------------------------------------------------------------------------
-- Selection
-- ---------------------------------------------------------------------------

/-- `o` is a live object of service `n`. -/
def Live (raw : Objects) (n : String) (o : GrcacheService) : Prop :=
  raw o.objectRef = some o ∧ o.spec.serviceName = n

/-- `o` is the object that answers for service `n`: the live one with the least
namespace and name. -/
def Selected (raw : Objects) (n : String) (o : GrcacheService) : Prop :=
  Live raw n o ∧ ∀ o', Live raw n o' → o.objectRef.key ≤ o'.objectRef.key

theorem ObjectRef.key_injective : Function.Injective ObjectRef.key := by
  rintro ⟨ns, name⟩ ⟨ns', name'⟩ h
  have h := congrArg ofLex h
  simp only [ObjectRef.key, ofLex_toLex, Prod.mk.injEq] at h
  obtain ⟨hns, rfl⟩ := h
  cases ns <;> cases ns' <;> simp_all

theorem Selected.unique (h : Selected raw n o) (h' : Selected raw n o') : o = o' := by
  have hkey := ObjectRef.key_injective (le_antisymm (h.2 o' h'.1) (h'.2 o h.1))
  have := h.1.1
  rw [hkey, h'.1.1] at this
  exact (Option.some.inj this).symm

-- ---------------------------------------------------------------------------
-- The invariant
-- ---------------------------------------------------------------------------

structure Indexed (st : ServiceConfigState) : Prop where
  ref : ∀ r o, st.rawServices r = some o → o.objectRef = r
  mem : ∀ n r, (∃ l, st.refByGrpcService n = some l ∧ r ∈ l) ↔
    ∃ o, st.rawServices r = some o ∧ o.spec.serviceName = n
  nodup : ∀ n l, st.refByGrpcService n = some l → l.Nodup

theorem Indexed.init : Indexed .init :=
  ⟨by simp [ServiceConfigState.init], by simp [ServiceConfigState.init],
    by simp [ServiceConfigState.init]⟩

theorem Indexed.live_iff (h : Indexed st) (hl : st.refByGrpcService n = some l) :
    (∃ o, o.objectRef = r ∧ Live st.rawServices n o) ↔ r ∈ l := by
  have hm := h.mem n r
  simp only [hl, Option.some.injEq, exists_eq_left'] at hm
  rw [hm]
  constructor
  · rintro ⟨o, rfl, ho, hn⟩
    exact ⟨o, ho, hn⟩
  · rintro ⟨o, ho, hn⟩
    have hr := h.ref r o ho
    exact ⟨o, hr, hr ▸ ho, hn⟩

theorem Indexed.entry (h : Indexed st) (hr : st.rawServices r = some o) :
    ∃ l, st.refByGrpcService o.spec.serviceName = some l ∧ r ∈ l :=
  (h.mem _ r).mpr ⟨o, hr, rfl⟩

-- ---------------------------------------------------------------------------
-- Bookkeeping
-- ---------------------------------------------------------------------------

def ServiceConfigState.withoutObject (st : ServiceConfigState) (r : ObjectRef) :
    ServiceConfigState :=
  match st.rawServices r with
  | none => st
  | some previous =>
    { st with
      rawServices := Function.update st.rawServices r none
      refByGrpcService := Function.update st.refByGrpcService previous.spec.serviceName
        (some (((st.refByGrpcService previous.spec.serviceName).getD []).erase r)) }

theorem removeNoupdate_eq (h : Indexed st) (r : ObjectRef) :
    st.removeNoupdate r = .ok (st.rawServices r, st.withoutObject r) := by
  unfold ServiceConfigState.removeNoupdate ServiceConfigState.withoutObject
  cases hr : st.rawServices r with
  | none => rfl
  | some previous =>
    obtain ⟨l, hl, -⟩ := h.entry hr
    simp [hl]

theorem withoutObject_raw (st : ServiceConfigState) (r : ObjectRef) :
    (st.withoutObject r).rawServices = Function.update st.rawServices r none := by
  unfold ServiceConfigState.withoutObject
  cases hr : st.rawServices r with
  | none => exact (Function.update_eq_self_iff.mpr hr.symm).symm
  | some previous => rfl

theorem Indexed.withoutObject (h : Indexed st) (r : ObjectRef) : Indexed (st.withoutObject r) := by
  unfold ServiceConfigState.withoutObject
  cases hr : st.rawServices r with
  | none => exact h
  | some previous =>
    obtain ⟨l, hl, hrl⟩ := h.entry hr
    refine ⟨?_, ?_, ?_⟩
    · intro r' o ho
      by_cases hrr : r' = r
      · simp [hrr] at ho
      · exact h.ref r' o (by simpa [hrr] using ho)
    · intro n r'
      have hm := h.mem n r'
      by_cases hn : n = previous.spec.serviceName
      · subst hn
        -- the one list that changes loses `r`, and only `r`
        simp only [hl, Option.some.injEq, exists_eq_left', Function.update_self, Option.getD_some,
          (h.nodup _ l hl).mem_erase_iff] at hm ⊢
        by_cases hrr : r' = r <;> simp [hrr, hm]
      · simp only [Function.update_of_ne hn, hm]
        by_cases hrr : r' = r
        · subst hrr
          simp [hr, Ne.symm hn]
        · simp [hrr]
    · intro n l' hl'
      by_cases hn : n = previous.spec.serviceName
      · subst hn
        simp only [Function.update_self, hl, Option.getD_some, Option.some.injEq] at hl'
        subst hl'
        exact (h.nodup _ l hl).erase r
      · exact h.nodup n l' (by simpa [hn] using hl')

theorem Indexed.insertObject (h : Indexed st) (hfree : st.rawServices o.objectRef = none) :
    Indexed (st.insertObject o) := by
  unfold ServiceConfigState.insertObject
  refine ⟨?_, ?_, ?_⟩
  · intro r o' ho
    by_cases hr : r = o.objectRef
    · subst hr
      simp only [Function.update_self, Option.some.injEq] at ho
      subst ho
      rfl
    · exact h.ref r o' (by simpa [hr] using ho)
  · intro n r
    have hm := h.mem n r
    by_cases hr : r = o.objectRef
    · subst hr
      -- the object was in no list before
      have hnone : ∀ l, st.refByGrpcService n = some l → o.objectRef ∉ l := by
        intro l hl hmem
        simpa [hfree] using hm.mp ⟨l, hl, hmem⟩
      by_cases hn : n = o.spec.serviceName
      · subst hn
        simp
      · simpa [hn, Ne.symm hn] using hnone
    · by_cases hn : n = o.spec.serviceName
      · subst hn
        simp only [Function.update_self, Option.some.injEq, exists_eq_left', List.mem_insert_iff,
          hr, false_or, ne_eq, not_false_eq_true, Function.update_of_ne, ← hm]
        cases st.refByGrpcService o.spec.serviceName <;> simp
      · simp only [Function.update_of_ne hn, Function.update_of_ne hr, hm]
  · intro n l hl
    by_cases hn : n = o.spec.serviceName
    · subst hn
      simp only [Function.update_self, Option.some.injEq] at hl
      subst hl
      apply List.Nodup.insert
      cases hr : st.refByGrpcService o.spec.serviceName with
      | none => simp
      | some l => simpa using h.nodup _ l hr
    · exact h.nodup n l (by simpa [hn] using hl)

theorem insertObject_entry :
    ∃ l, (st.insertObject o).refByGrpcService o.spec.serviceName = some l := by
  simp [ServiceConfigState.insertObject]

-- ---------------------------------------------------------------------------
-- The call
-- ---------------------------------------------------------------------------

/-- The newer of a published value and a write; the published one wins a tie. -/
def newest : Option ServiceData → ServiceData → ServiceData
  | some value, data => if value.generation < data.generation then data else value
  | none, data => data

def publish (services : Services) (n : String) (data : ServiceData) : Services :=
  Function.update services n (some (newest (services n) data))

theorem updateServiceIfNewer_eq (services : Services) (n : String) (data : ServiceData)
    (hs : data.serviceSpec = some spec) :
    updateServiceIfNewer services n data = .ok (publish services n data) := by
  unfold updateServiceIfNewer publish
  cases hv : services n with
  | none => simp [hs, newest]
  | some value =>
    by_cases hg : value.generation < data.generation
    · simp [hs, newest, hg]
    · simp [newest, hg, ← hv]

def ServiceConfigState.called (st : ServiceConfigState) (n : String) : ServiceConfigState :=
  { st with
    specGeneration := st.specGeneration + 1
    lastCall := Function.update st.lastCall n (some st.specGeneration) }

def tombstone (generation : Nat) : ServiceData := ⟨generation, none, none⟩

def dataFor (generation : Nat) (spec : ServiceSpec) (o : GrcacheService) : ServiceData :=
  ⟨generation, some spec, some (backendsForUpstream o.spec.upstream)⟩

/-- The three outcomes of a call that returns. -/
inductive Updated (st : ServiceConfigState) (n : String) : ServiceConfigState → Prop
  | unload (hnone : ∀ o, ¬ Live st.rawServices n o) :
      Updated st n { st.called n with
        services := Function.update st.services n (some (tombstone st.specGeneration))
        attempted := (n, tombstone st.specGeneration) :: st.attempted }
  | spawn (hsel : Selected st.rawServices n o) (hparse : QualifiedService.parse n = .ok service)
      (hsrc : o.spec.descriptorSetSource = some source) :
      Updated st n { st.called n with
        spawned := st.spawned ++ [⟨st.specGeneration, n, service, source,
          backendsForUpstream o.spec.upstream⟩] }
  | passthrough (hsel : Selected st.rawServices n o)
      (hparse : QualifiedService.parse n = .ok service)
      (hsrc : o.spec.descriptorSetSource = none) :
      Updated st n { st.called n with
        services := publish st.services n
          (dataFor st.specGeneration (.buildPassthrough service) o)
        attempted := (n, dataFor st.specGeneration (.buildPassthrough service) o) :: st.attempted }

theorem Indexed.argmin_selected (h : Indexed st) (hl : st.refByGrpcService n = some l)
    (hne : l ≠ []) : ∃ o, l.argmin ObjectRef.key = some o.objectRef ∧
      st.rawServices o.objectRef = some o ∧ Selected st.rawServices n o := by
  have hsome : l.argmin ObjectRef.key ≠ none := fun hn => hne (List.argmin_eq_none.mp hn)
  obtain ⟨r, hr⟩ := Option.ne_none_iff_exists'.mp hsome
  obtain ⟨o, rfl, ho⟩ := (h.live_iff hl).mpr (List.argmin_mem hr)
  refine ⟨o, hr, ho.1, ho, ?_⟩
  intro o' ho'
  exact List.le_of_mem_argmin ((h.live_iff hl).mp ⟨o', rfl, ho'⟩) hr

theorem updateService_spec (h : Indexed st) (hl : st.refByGrpcService n = some l) :
    (∃ st', st.updateService n = .ok st' ∧ Updated st n st') ∨
      ∃ o, Selected st.rawServices n o ∧ ¬ Dotted n ∧ st.updateService n = .error .panic := by
  unfold ServiceConfigState.updateService
  by_cases hne : l = []
  · subst hne
    left
    refine ⟨_, by simp only [hl, Base.unwrap_some, Base.ok_bind]; rfl, .unload fun o ho => ?_⟩
    simpa using (h.live_iff hl).mp ⟨o, rfl, ho⟩
  · obtain ⟨o, hmin, hraw, hsel⟩ := h.argmin_selected hl hne
    have hname : o.spec.serviceName = n := hsel.1.2
    have hempty : l.isEmpty = false := by simpa using hne
    simp only [hl, Base.unwrap_some, Base.ok_bind, hempty, hmin, hraw, hname, Bool.false_eq_true,
      ↓reduceIte]
    cases hparse : QualifiedService.parse n with
    | error e =>
      refine .inr ⟨o, hsel, fun hd => ?_, rfl⟩
      obtain ⟨service, hs⟩ := parse_ok_iff.mpr hd
      simp [hparse] at hs
    | ok service =>
      left
      cases hsrc : o.spec.descriptorSetSource with
      | some source => exact ⟨_, rfl, .spawn hsel hparse hsrc⟩
      | none =>
        refine ⟨_, ?_, .passthrough hsel hparse hsrc⟩
        have hpub := updateServiceIfNewer_eq st.services n
          (dataFor st.specGeneration (.buildPassthrough service) o) rfl
        unfold dataFor at hpub
        simp only [raise, unwrapOk, Base.ok_bind, hpub]
        rfl

-- ---------------------------------------------------------------------------
-- Changes
-- ---------------------------------------------------------------------------

def objectsAfter (raw : Objects) (c : Change) : Objects :=
  Resource.replayChange GrcacheService.lookup raw c

@[simp] theorem objectsAfter_apply (raw : Objects) (o : GrcacheService) :
    objectsAfter raw (.apply o) = Function.update raw o.objectRef (some o) := rfl

@[simp] theorem objectsAfter_delete (raw : Objects) (r : ObjectRef) :
    objectsAfter raw (.delete r) = Function.update raw r none := rfl

/-- What a change does before its `update_service` call, and the name it calls
it for. `none` when it makes no call. -/
def ServiceConfigState.record (st : ServiceConfigState) :
    Change → Option (String × ServiceConfigState)
  | .ready => none
  | .apply o => some (o.spec.serviceName, (st.withoutObject o.objectRef).insertObject o)
  | .delete r => (st.rawServices r).map fun o => (o.spec.serviceName, st.withoutObject r)

/-- Only the object maps may differ. -/
def SameMap (st st' : ServiceConfigState) : Prop :=
  st' = { st with rawServices := st'.rawServices, refByGrpcService := st'.refByGrpcService }

theorem SameMap.withoutObject : SameMap st (st.withoutObject r) := by
  unfold ServiceConfigState.withoutObject
  cases st.rawServices r <;> rfl

theorem SameMap.insertObject (h : SameMap st st') : SameMap st (st'.insertObject o) := by
  unfold SameMap at *
  rw [h]
  rfl

theorem handle_eq (h : Indexed st) (c : Change) :
    st.handle c = match st.record c with
      | none => .ok st
      | some (n, st₁) => st₁.updateService n := by
  cases c with
  | ready => rfl
  | apply o =>
    simp [ServiceConfigState.handle, ServiceConfigState.apply, ServiceConfigState.record,
      removeNoupdate_eq h]
  | delete r =>
    simp only [ServiceConfigState.handle, ServiceConfigState.remove, ServiceConfigState.record,
      removeNoupdate_eq h, Base.ok_bind]
    cases hr : st.rawServices r with
    | some o => rfl
    | none => simp [ServiceConfigState.withoutObject, hr]

structure Recorded (st : ServiceConfigState) (c : Change) (n : String)
    (st₁ : ServiceConfigState) : Prop where
  indexed : Indexed st₁
  sameMap : SameMap st st₁
  raw : st₁.rawServices = objectsAfter st.rawServices c
  entry : ∃ l, st₁.refByGrpcService n = some l

theorem record_spec (h : Indexed st) (hrec : st.record c = some (n, st₁)) :
    Recorded st c n st₁ := by
  cases c with
  | ready => cases hrec
  | apply o =>
    cases hrec
    have hw := h.withoutObject o.objectRef
    refine ⟨hw.insertObject (by simp [withoutObject_raw]), SameMap.withoutObject.insertObject, ?_,
      insertObject_entry⟩
    simp [ServiceConfigState.insertObject, withoutObject_raw]
  | delete r =>
    simp only [ServiceConfigState.record, Option.map_eq_some_iff, Prod.mk.injEq] at hrec
    obtain ⟨o, hr, rfl, rfl⟩ := hrec
    refine ⟨h.withoutObject r, .withoutObject, withoutObject_raw st r, ?_⟩
    obtain ⟨l, hl, -⟩ := h.entry hr
    exact ⟨l.erase r, by simp [ServiceConfigState.withoutObject, hr, hl]⟩

theorem record_none (hrec : st.record c = none) :
    objectsAfter st.rawServices c = st.rawServices := by
  cases c with
  | ready => rfl
  | apply o => cases hrec
  | delete r =>
    simp only [ServiceConfigState.record, Option.map_eq_none_iff] at hrec
    exact Function.update_eq_self_iff.mpr hrec.symm

theorem Updated.indexed (h : Indexed st) (hu : Updated st n st') : Indexed st' := by
  cases hu <;> exact ⟨h.ref, h.mem, h.nodup⟩

theorem Updated.raw (hu : Updated st n st') : st'.rawServices = st.rawServices := by
  cases hu <;> rfl

-- ---------------------------------------------------------------------------
-- Steps
-- ---------------------------------------------------------------------------

variable {l : Loader}

def taskData (task : LoadTask) (spec : ServiceSpec) : ServiceData :=
  ⟨task.generation, some spec, some task.loadBalancer⟩

/-- Everything a step of the system can do. -/
inductive Stepped (l : Loader) : Action → Loader → Prop
  | dead (hc : l.crashed = true) : Stepped l (.change c) l
  | quiet (hc : l.crashed = false) (hrec : l.state.record c = none) : Stepped l (.change c) l
  | crash (hc : l.crashed = false) (hrec : l.state.record c = some (n, st₁))
      (hsel : Selected st₁.rawServices n o) (hn : ¬ Dotted n) :
      Stepped l (.change c) { l with crashed := true }
  | change (hc : l.crashed = false) (hrec : l.state.record c = some (n, st₁))
      (hu : Updated st₁ n st') : Stepped l (.change c) { l with state := st' }
  | noTask (ht : l.state.spawned[i]? = none) : Stepped l (.load i env) l
  | loaded (ht : l.state.spawned[i]? = some task)
      (hspec : loadSpec env task.source task.service = .ok spec) :
      Stepped l (.load i env) { l with state := { l.state with
        spawned := l.state.spawned.eraseIdx i
        services := publish l.state.services task.serviceName (taskData task spec)
        attempted := (task.serviceName, taskData task spec) :: l.state.attempted } }
  | failed (ht : l.state.spawned[i]? = some task)
      (hspec : ∀ spec, loadSpec env task.source task.service ≠ .ok spec) :
      Stepped l (.load i env) { l with state := { l.state with
        spawned := l.state.spawned.eraseIdx i } }

theorem step_spec (h : Indexed l.state) (a : Action) : Stepped l a (l.step a) := by
  obtain ⟨st, crashed⟩ := l
  cases a with
  | change c =>
    cases crashed with
    | true => exact .dead rfl
    | false =>
      simp only [Loader.step, Bool.false_eq_true, ↓reduceIte, handle_eq h]
      cases hrec : st.record c with
      | none => exact .quiet rfl hrec
      | some p =>
        obtain ⟨n, st₁⟩ := p
        have hr := record_spec h hrec
        obtain ⟨objects, hobjects⟩ := hr.entry
        rcases updateService_spec hr.indexed hobjects with ⟨st', hst', hu⟩ | ⟨o, hsel, hn, hp⟩
        · simp only [hst']
          exact .change rfl hrec hu
        · simp only [hp]
          exact .crash rfl hrec hsel hn
  | load i env =>
    simp only [Loader.step]
    cases ht : st.spawned[i]? with
    | none => exact .noTask ht
    | some task =>
      cases hspec : loadSpec env task.source task.service with
      | ok spec =>
        have hpub := updateServiceIfNewer_eq st.services task.serviceName
          (taskData task spec) rfl
        unfold taskData at hpub
        simp only [ServiceConfigState.load, hspec, Base.ok_bind, hpub]
        exact .loaded ht hspec
      | error e =>
        simp only [ServiceConfigState.load, hspec, Base.error_bind]
        exact .failed ht (by simp [hspec])

theorem Stepped.indexed (hs : Stepped l a l') (h : Indexed l.state) : Indexed l'.state := by
  cases hs with
  | dead | quiet | crash | noTask => exact h
  | change _ hrec hu => exact hu.indexed (record_spec h hrec).indexed
  | loaded | failed => exact ⟨h.ref, h.mem, h.nodup⟩

theorem Stepped.objects (hs : Stepped l (.change c) l') (h : Indexed l.state)
    (hc : l'.crashed = false) : l'.state.rawServices = objectsAfter l.state.rawServices c := by
  cases hs with
  | dead hd => simp [hd] at hc
  | quiet _ hrec => exact (record_none hrec).symm
  | crash => cases hc
  | change _ hrec hu => exact hu.raw.trans (record_spec h hrec).raw

def changesOf (as : List Action) : List Change :=
  as.filterMap fun a =>
    match a with
    | .change c => some c
    | .load _ _ => none

theorem run_indexed (as : List Action) : Indexed (Base.run Loader.step .init as).state :=
  Base.run_invariant (I := fun l : Loader => Indexed l.state) Indexed.init
    (fun _ a h _ => (step_spec h a).indexed h) Base.always_true

theorem Stepped.crashed (hs : Stepped l a l') (hc : l'.crashed = false) : l.crashed = false := by
  cases hs with
  | crash => cases hc
  | _ => exact hc

/-- As long as the loop is alive, the store holds what a replay of the changes
gives. -/
theorem run_objects (as : List Action) (hc : (Base.run Loader.step .init as).crashed = false) :
    (Base.run Loader.step .init as).state.rawServices =
      (changesOf as).foldl objectsAfter fun _ => none := by
  induction as using List.reverseRecOn with
  | nil => rfl
  | append_singleton as a ih =>
    have hs := step_spec (run_indexed as) a
    rw [Base.run_snoc] at hc ⊢
    have ih := ih (hs.crashed hc)
    cases a with
    | change c =>
      rw [hs.objects (run_indexed as) hc, ih]
      simp [changesOf]
    | load i env =>
      have hraw : ((Base.run Loader.step .init as).step (.load i env)).state.rawServices =
          (Base.run Loader.step .init as).state.rawServices := by
        generalize (Base.run Loader.step .init as).step (.load i env) = l' at hs
        cases hs <;> rfl
      rw [hraw, ih]
      simp [changesOf]

end Grcache.Store
