import Grcache.Store.Index

/-!
# Failure isolation

Handling a change touches the entries of two names at most: the service name
the changed object had, and the one it has now. A load it spawns writes to one
of them. The loop itself survives a change unless the change applies an object
whose service name has no dot: `QualifiedService::parse` is unwrapped on the
synchronous path, and the panic ends the loop for every service.
-/

namespace Grcache.Store

open Service
open Base (Throughout Always)

variable {st : ServiceConfigState} {l : Loader}

/-- The service names of the old and the new version of the changed object. -/
def touched (raw : Objects) : Change → List String
  | .ready => []
  | .apply o =>
    o.spec.serviceName :: ((raw o.objectRef).map fun old => old.spec.serviceName).toList
  | .delete r => ((raw r).map fun old => old.spec.serviceName).toList

/-- What a step may leave changed: a change writes to the names it touches and
spawns loads for those only; a load writes to its own name. -/
def Isolated (l : Loader) (a : Action) : Prop :=
  match a with
  | .change c =>
    (∀ m, m ∉ touched l.state.rawServices c → (l.step a).state.services m = l.state.services m) ∧
    ∀ t ∈ (l.step a).state.spawned,
      t ∈ l.state.spawned ∨ t.serviceName ∈ touched l.state.rawServices c
  | .load i _ =>
    ∀ m, (∀ t, l.state.spawned[i]? = some t → t.serviceName ≠ m) →
      (l.step a).state.services m = l.state.services m

theorem publish_of_ne (h : m ≠ n) : publish services n d m = services m := by
  simp [publish, h]

theorem Updated.frame (hu : Updated st n st') :
    (∀ m, m ≠ n → st'.services m = st.services m) ∧
      ∀ t ∈ st'.spawned, t ∈ st.spawned ∨ t.serviceName = n := by
  cases hu with
  | unload => exact ⟨fun m hm => by simp [hm], fun t ht => .inl ht⟩
  | passthrough => exact ⟨fun m hm => publish_of_ne hm, fun t ht => .inl ht⟩
  | spawn =>
    refine ⟨fun m _ => rfl, fun t ht => ?_⟩
    rcases List.mem_append.mp ht with ht | ht
    · exact .inl ht
    · exact .inr (by rw [List.mem_singleton.mp ht])

theorem record_touched (hrec : st.record c = some (n, st₁)) : n ∈ touched st.rawServices c := by
  cases c with
  | ready => cases hrec
  | apply o =>
    cases hrec
    simp [touched]
  | delete r =>
    simp only [ServiceConfigState.record, Option.map_eq_some_iff, Prod.mk.injEq] at hrec
    obtain ⟨o, hr, rfl, -⟩ := hrec
    simp [touched, hr]

theorem isolated (h : Indexed l.state) (a : Action) : Isolated l a := by
  have hs := step_spec h a
  unfold Isolated
  cases a with
  | change c =>
    generalize l.step (.change c) = l' at hs ⊢
    cases hs with
    | dead | quiet | crash => exact ⟨fun _ _ => rfl, fun t ht => .inl ht⟩
    | change _ hrec hu =>
      have hm := (record_spec h hrec).sameMap
      have hn := record_touched hrec
      rw [hm] at hu
      obtain ⟨hframe, hspawned⟩ := hu.frame
      refine ⟨fun m hmn => hframe m fun heq => hmn (heq ▸ hn), fun t ht => ?_⟩
      rcases hspawned t ht with ht | ht
      · exact .inl ht
      · exact .inr (ht ▸ hn)
  | load i env =>
    intro m hm
    generalize l.step (.load i env) = l' at hs ⊢
    cases hs with
    | noTask | failed => rfl
    | loaded ht hspec => exact publish_of_ne (Ne.symm (hm _ ht))

structure Healthy (l : Loader) : Prop where
  indexed : Indexed l.state
  alive : l.crashed = false
  dotted : ∀ r o, l.state.rawServices r = some o → Dotted o.spec.serviceName

def AppliesDotted : Action → Prop
  | .change (.apply o) => Dotted o.spec.serviceName
  | _ => True

theorem Healthy.init : Healthy .init :=
  ⟨Indexed.init, rfl, by simp [Loader.init, ServiceConfigState.init]⟩

theorem objectsAfter_dotted (h : ∀ r o, raw r = some o → Dotted o.spec.serviceName)
    (ha : AppliesDotted (.change c)) (hr : objectsAfter raw c r = some o) :
    Dotted o.spec.serviceName := by
  cases c with
  | ready => exact h r o hr
  | apply o' =>
    by_cases hro : r = o'.objectRef
    · subst hro
      simp only [objectsAfter_apply, Function.update_self, Option.some.injEq] at hr
      exact hr ▸ ha
    · exact h r o (by simpa [hro] using hr)
  | delete r' =>
    by_cases hrr : r = r'
    · simp [hrr] at hr
    · exact h r o (by simpa [hrr] using hr)

theorem Healthy.step (h : Healthy l) (ha : AppliesDotted a) : Healthy (l.step a) := by
  have hs := step_spec h.indexed a
  have hidx := hs.indexed h.indexed
  cases a with
  | change c =>
    generalize l.step (.change c) = l' at hs hidx ⊢
    cases hs with
    | dead => exact h
    | quiet => exact h
    | crash _ hrec hsel hn =>
      -- the name that failed to parse is the name of a live object
      have hraw := hsel.1.1
      rw [(record_spec h.indexed hrec).raw] at hraw
      have hd := objectsAfter_dotted h.dotted ha hraw
      rw [hsel.1.2] at hd
      exact absurd hd hn
    | change hc hrec hu =>
      refine ⟨hidx, h.alive, fun r o hr => ?_⟩
      rw [hu.raw, (record_spec h.indexed hrec).raw] at hr
      exact objectsAfter_dotted h.dotted ha hr
  | load i env =>
    generalize l.step (.load i env) = l' at hs hidx ⊢
    cases hs with
    | noTask => exact h
    | loaded | failed => exact ⟨hidx, h.alive, h.dotted⟩

theorem Healthy.crash (h : Healthy l) (ha : ¬ AppliesDotted a) : (l.step a).crashed = true := by
  cases a with
  | load i env => exact absurd trivial ha
  | change c =>
    cases c with
    | ready => exact absurd trivial ha
    | delete r => exact absurd trivial ha
    | apply o =>
      have hs := step_spec h.indexed (.change (.apply o))
      generalize l.step (.change (.apply o)) = l' at hs ⊢
      cases hs with
      | dead hc => exact hc
      | quiet _ hrec => cases hrec
      | crash => rfl
      | change _ hrec hu =>
        cases hrec
        cases hu with
        | unload hnone =>
          refine absurd ⟨?_, rfl⟩ (hnone o)
          simp [ServiceConfigState.insertObject]
        | spawn _ hparse | passthrough _ hparse => exact absurd (parse_ok_iff.mp ⟨_, hparse⟩) ha

/-- The loop processes every change of a sequence, and every step keeps to the
names it concerns, exactly when every applied service name has a dot. -/
theorem loader_isolates_failures_iff (as : List Action) :
    (Throughout Loader.step (fun l => l.crashed = false) .init as ∧
      Always Loader.step Isolated .init as) ↔
    ∀ a ∈ as, AppliesDotted a := by
  have halive : Throughout Loader.step (fun l => l.crashed = false) .init as ↔
      Always Loader.step (fun _ a => AppliesDotted a) .init as :=
    Base.throughout_iff_always Healthy.init (fun _ _ h ha => h.step ha) (fun _ h => h.alive)
      (fun _ _ h ha hc => by simp [h.crash ha] at hc)
  have hiso : Always Loader.step Isolated .init as :=
    fun pre a _ => isolated (run_indexed pre) a
  rw [and_iff_left hiso, halive, Base.always_iff_mem]

def rootGreeter : GrcacheService :=
  ⟨some "default", "greeter", some "1", ⟨.dns "greeter-rpc" 50051, "Greeter", none⟩⟩

theorem undotted_name_stops_loader :
    ¬ (Throughout Loader.step (fun l => l.crashed = false) .init [.change (.apply rootGreeter)] ∧
      Always Loader.step Isolated .init [.change (.apply rootGreeter)]) := by
  intro h
  have halive := h.1 [.change (.apply rootGreeter)] List.prefix_rfl
  revert halive
  decide

end Grcache.Store
