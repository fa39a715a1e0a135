import Grcache.Store.ConfigService

/-!
# Routes of a cluster

What the config service comes to, seen from the cluster it watches. A replica
that has read and taken everything, and whose loads are done, routes by the
objects of the cluster and by nothing else. At the moment readiness is announced
the loads may still be running, but every service that needs none is routed.
-/

namespace Grcache.Store

open Service
open Base (Throughout Always)
open Resource (Protocol Delivered)

variable {ε : Type} {m : Objects} {st : ServiceConfigState} {l l' : Loader}

-- ---------------------------------------------------------------------------
-- Replicas
-- ---------------------------------------------------------------------------

theorem serviceAfter_loader (as : List (ServiceAction ε)) :
    (serviceAfter as).loader = Base.run Loader.step .init (storeActions as) :=
  Base.run_trace loader_projects .init as

/-- A replica that has caught up with a cluster that holds the objects `m`. -/
structure Settled (as : List (ServiceAction ε)) (m : Objects) : Prop where
  protocol : Protocol GrcacheService.lookup (eventsRead as)
  dotted : ∀ o, Delivered (eventsRead as) o → Dotted o.spec.serviceName
  moves : Always Loader.step TakesNothingAway .init (storeActions as)
  loads : Always Loader.step LoadSucceeds .init (storeActions as)
  taken : (serviceAfter as).pending = []
  window : (serviceAfter as).listed.window = none
  listed : (serviceAfter as).listed.current = some m
  loaded : (serviceAfter as).loader.state.spawned = []

def publishedBy (as : List (ServiceAction ε)) : Services := (serviceAfter as).loader.state.services

theorem Settled.objects {as : List (ServiceAction ε)} (h : Settled as m) :
    (serviceAfter as).loader.state.rawServices = m :=
  (run_following h.protocol h.dotted List.prefix_rfl).inStep.objects h.taken h.window m h.listed

theorem Settled.routes {as : List (ServiceAction ε)} (h : Settled as m) (n : String) :
    Routes (loadEnvs (storeActions as)) (serviceAfter as).loader.state n := by
  have hloaded := h.loaded
  rw [serviceAfter_loader] at hloaded ⊢
  exact settled_routes (storeActions as) h.moves h.loads hloaded n

/-- Replicas that have caught up with the same cluster send every service to the
same upstream, the one of the object that answers for it, and by the same spec
if their loads saw the same files. What events they read, and in which order
their loads ran, makes no difference. -/
theorem settled_replicas_agree {as as' : List (ServiceAction ε)} (h : Settled as m)
    (h' : Settled as' m) (n : String) :
    SameRoute (loadEnvs (storeActions as)) (loadEnvs (storeActions as')) (publishedBy as)
      (publishedBy as') n ∧
    (∀ o, Selected m n o → ∃ spec, BuiltFrom (loadEnvs (storeActions as)) o spec ∧
      routeOf (publishedBy as) n = some (backendsForUpstream o.spec.upstream, some spec)) ∧
    ((∀ o, ¬ Live m n o) → routeOf (publishedBy as) n = none) := by
  have hroutes := h.routes n
  have hobjects := h.objects
  refine ⟨hroutes.agree (h'.routes n) (hobjects.trans h'.objects.symm), fun o ho => ?_, ?_⟩
  · rw [← hobjects] at ho
    obtain ⟨o', g, spec, hsel, hdata, hbuilt⟩ := hroutes.live ⟨o, ho.1⟩
    obtain rfl := hsel.unique ho
    exact ⟨spec, hbuilt, by simp [publishedBy, routeOf, hdata, dataFor]⟩
  · intro hgone
    rw [← hobjects] at hgone
    exact routeOf_eq_none (hroutes.gone hgone).1

-- A replica that starts when the first object is gone.
def late : List (ServiceAction String) :=
  [.read (.ok .init) inOrder, .read (.ok (.initApply (usersObject "b" "example.Users"))) inOrder,
    .take, .read (.ok .initDone) inOrder, .take]

def onlySecond : Objects :=
  Function.update (fun _ => none) (usersObject "b" "example.Users").objectRef
    (some (usersObject "b" "example.Users"))

theorem relisted_actions : storeActions relisted =
    [.change (.apply (usersObject "a" "example.Users")), .change .ready,
      .change (.apply (usersObject "b" "example.Users")),
      .change (.delete (usersObject "a" "example.Users").objectRef), .change .ready] := rfl

theorem relisted_moves : Always Loader.step TakesNothingAway .init (storeActions relisted) := by
  rw [relisted_actions]
  simp only [Base.always_cons, TakesNothingAway, true_and]
  exact ⟨⟨by decide, nofun⟩, ⟨by decide, nofun⟩, Base.always_nil⟩

theorem relisted_settled : Settled relisted onlySecond where
  protocol := relisted_protocol
  dotted _ := relisted_dotted
  moves := relisted_moves
  loads := by
    rw [relisted_actions]
    simp only [Base.always_cons, LoadSucceeds, true_and]
    exact Base.always_nil
  taken := rfl
  window := rfl
  listed := rfl
  loaded := rfl

theorem late_events : eventsRead late =
    [.ok .init, .ok (.initApply (usersObject "b" "example.Users")), .ok .initDone] := rfl

theorem late_actions : storeActions late =
    [.change (.apply (usersObject "b" "example.Users")), .change .ready] := rfl

theorem late_delivered (h : Delivered (eventsRead late) o) :
    o = usersObject "b" "example.Users" := by
  rw [Delivered, late_events] at h
  simpa using h

theorem late_settled : Settled late onlySecond where
  protocol := by
    refine ⟨?_, fun o ho => ⟨"1", ?_⟩, fun o o' ho ho' _ _ => ?_⟩
    · rw [late_events]
      simp [Base.always_cons, Base.always_nil, Resource.Allowed, Resource.Listing.onEvent,
        Resource.Listing.init]
    · rw [late_delivered ho]
      rfl
    · rw [late_delivered ho, late_delivered ho']
  dotted o ho := by
    rw [late_delivered ho]
    exact (by decide : Dotted "example.Users")
  moves := by
    rw [late_actions]
    simp only [Base.always_cons, TakesNothingAway, true_and]
    refine ⟨⟨by decide, ?_⟩, Base.always_nil⟩
    intro old hold
    cases hold
  loads := by
    rw [late_actions]
    simp only [Base.always_cons, LoadSucceeds, true_and]
    exact Base.always_nil
  taken := rfl
  window := rfl
  listed := rfl
  loaded := rfl

theorem late_agrees : SameRoute (loadEnvs (storeActions relisted)) (loadEnvs (storeActions late))
    (publishedBy relisted) (publishedBy late) "example.Users" :=
  (settled_replicas_agree relisted_settled late_settled "example.Users").1

-- ---------------------------------------------------------------------------
-- Readiness
-- ---------------------------------------------------------------------------

/-- Every name is answered for by a write or by a load that was spawned; the
loads that have failed since count too. -/
def Remembered (st : ServiceConfigState) : Prop :=
  ∃ tasks, ∀ n, Answered (fun _ => True) { st with spawned := tasks } n

theorem Answered.mono (h : Answered envs st n) (hs : st.spawned ⊆ tasks) :
    Answered envs { st with spawned := tasks } n := by
  refine ⟨fun o ho => ?_, h.gone⟩
  obtain ⟨g, hg, hans⟩ := h.selected o ho
  exact ⟨g, hg, hans.mono (List.Subset.refl _) hs⟩

theorem withoutObject_spawned (st : ServiceConfigState) (r : ObjectRef) (tasks : List LoadTask) :
    ({ st with spawned := tasks } : ServiceConfigState).withoutObject r =
      { st.withoutObject r with spawned := tasks } := by
  unfold ServiceConfigState.withoutObject
  cases st.rawServices r <;> rfl

theorem record_spawned (hrec : st.record c = some (n, st₁)) (tasks : List LoadTask) :
    ({ st with spawned := tasks } : ServiceConfigState).record c =
      some (n, { st₁ with spawned := tasks }) := by
  cases c with
  | ready => cases hrec
  | apply o =>
    cases hrec
    simp only [ServiceConfigState.record, withoutObject_spawned]
    rfl
  | delete r =>
    simp only [ServiceConfigState.record, Option.map_eq_some_iff, Prod.mk.injEq] at hrec
    obtain ⟨o, hr, rfl, rfl⟩ := hrec
    simp only [ServiceConfigState.record, withoutObject_spawned, hr, Option.map_some]

theorem Stepped.remembered (hs : Stepped l a l') (hidx : Indexed l.state)
    (h : Remembered l.state) (ht : TakesNothingAway l a) : Remembered l'.state := by
  obtain ⟨tasks, h⟩ := h
  cases hs with
  | dead | quiet | crash | noTask | failed => exact ⟨tasks, h⟩
  | @change c n st₁ st' hc hrec hu =>
    have hsame := (record_spec hidx hrec).sameMap
    refine ⟨tasks ++ st'.spawned, fun m => ?_⟩
    by_cases hm : m = n
    · subst hm
      exact hu.answered.mono (List.subset_append_right _ _)
    · have hraw : st'.rawServices = objectsAfter l.state.rawServices c :=
        hu.raw.trans (record_spec hidx hrec).raw
      obtain ⟨hlast, hattempted, -⟩ := hu.other hm
      rw [hsame] at hlast hattempted
      have htakes : TakesNothingAway ⟨{ l.state with spawned := tasks }, false⟩ (.change c) := by
        cases c <;> exact ht
      exact (h m).other (record_spawned hrec tasks) hm htakes hraw hlast hattempted
        (List.subset_append_left _ _)
  | loaded htask hspec =>
    refine ⟨tasks, fun m => ⟨fun o ho => ?_, fun hgone g hg => ?_⟩⟩
    · obtain ⟨g, hg, hans⟩ := (h m).selected o ho
      exact ⟨g, hg, hans.mono (List.subset_cons_self _ _) (List.Subset.refl _)⟩
    · exact List.mem_cons_of_mem _ ((h m).gone hgone g hg)

theorem run_remembered {as : List Action} (ht : Always Loader.step TakesNothingAway .init as) :
    Remembered (Base.run Loader.step .init as).state := by
  have hinv : Indexed (Base.run Loader.step .init as).state ∧
      Remembered (Base.run Loader.step .init as).state := by
    refine Base.run_invariant (I := fun l : Loader => Indexed l.state ∧ Remembered l.state)
      ⟨Indexed.init, [], Answered.init⟩ ?_ ht
    rintro l a ⟨hidx, h⟩ ht
    exact ⟨(step_spec hidx a).indexed hidx, (step_spec hidx a).remembered hidx h ht⟩
  exact hinv.2

-- The service of an object without a descriptor source waits for no load.
theorem Remembered.routed (h : Remembered st) (hg : Generations st)
    (hsel : Selected st.rawServices n o) (hsrc : o.spec.descriptorSetSource = none) :
    ∃ service, QualifiedService.parse n = .ok service ∧ routeOf st.services n =
      some (backendsForUpstream o.spec.upstream, some (.buildPassthrough service)) := by
  obtain ⟨tasks, h⟩ := h
  obtain ⟨g, hlast, ⟨spec, hmem, service, hparse, hspec⟩ | ⟨task, -, -, -, -, hsome, -⟩⟩ :=
    (h n).selected o hsel
  · rw [hsrc] at hspec
    rw [hsel.1.2] at hparse
    refine ⟨service, hparse, ?_⟩
    rw [routeOf, hg.shows_last hlast hmem, hspec]
    rfl
  · rw [hsrc] at hsome
    cases hsome

/-- Whenever readiness is about to be announced, the watcher has listed the
objects of the cluster completely, and every service whose object needs no
descriptor set is routed by that object, whatever became of the loads. -/
theorem ready_routes_listed (as : List (ServiceAction ε))
    (hp : Protocol GrcacheService.lookup (eventsRead as))
    (hd : ∀ o, Delivered (eventsRead as) o → Dotted o.spec.serviceName)
    (ht : Always Loader.step TakesNothingAway .init (storeActions as)) :
    Throughout ConfigService.step
      (fun s => ∀ pending, s.pending = .ok .ready :: pending →
        ∃ m, s.listed.window = none ∧ s.listed.current = some m ∧
          ∀ n o, Selected m n o → o.spec.descriptorSetSource = none →
            ∃ service, QualifiedService.parse n = .ok service ∧
              routeOf s.loader.state.services n =
                some (backendsForUpstream o.spec.upstream, some (.buildPassthrough service)))
      .init as := by
  intro pre hpre pending hpending
  obtain ⟨hwindow, hcurrent⟩ := (run_following hp hd hpre).inStep.ready pending hpending
  refine ⟨_, hwindow, hcurrent, fun n o hsel hsrc => ?_⟩
  have ht' : Always Loader.step TakesNothingAway .init (storeActions pre) := by
    have hsteps := (Base.always_trace loader_projects).mp ht
    exact (Base.always_trace loader_projects).mpr (hsteps.initial hpre)
  have hremembered := run_remembered ht'
  have hgenerations : Generations (Base.run Loader.step .init (storeActions pre)).state :=
    run_generations (storeActions pre)
  rw [← serviceAfter_loader] at hremembered hgenerations
  exact hremembered.routed hgenerations hsel hsrc

theorem onlySecond_selected :
    Selected onlySecond "example.Users" (usersObject "b" "example.Users") := by
  refine ⟨⟨Function.update_self .., rfl⟩, ?_⟩
  rintro o ⟨ho, -⟩
  by_cases href : o.objectRef = (usersObject "b" "example.Users").objectRef
  · rw [href]
  · rw [onlySecond, Function.update_of_ne href] at ho
    cases ho

/-- The late replica routes the service before it is ready. -/
theorem late_routes_before_ready : (serviceAfter late.dropLast).ready = false ∧
    ∃ service, QualifiedService.parse "example.Users" = .ok service ∧
      routeOf (serviceAfter late.dropLast).loader.state.services "example.Users" =
        some (⟨"users-rpc", 50051⟩, some (.buildPassthrough service)) := by
  obtain ⟨m, -, hm, hroutes⟩ := ready_routes_listed late late_settled.protocol late_settled.dotted
    late_settled.moves late.dropLast (List.dropLast_prefix late) [] rfl
  obtain rfl : onlySecond = m := Option.some.inj hm
  exact ⟨rfl, hroutes "example.Users" _ onlySecond_selected rfl⟩

end Grcache.Store
