import Grcache.Proxy.Request
import Grcache.Store.Generation
import Grcache.Store.Isolation

/-!
# Routing follows the objects

The published map is kept up to date one name at a time: a change calls
`update_service` for one service name and leaves the others as they are. For the
map to agree with the live objects, the other names must not have lost the
object that answers for them. They can: an `Apply` that gives an object another
service name calls `update_service` for the new name only.

Without such a move every name is answered for: the last call of a name was made
for the object selected now, and its write has been attempted or is still held
by a spawned load.
-/

namespace Grcache.Store

open Service
open Base (Always)
open Proxy (GrpcProxy Session parseGrpcPath)

variable {st : ServiceConfigState} {l : Loader} {raw : Objects}

-- ---------------------------------------------------------------------------
-- What should hold
-- ---------------------------------------------------------------------------

/-- The spec is one that a load in these environments builds from the object. -/
def BuiltFrom (envs : Env → Prop) (o : GrcacheService) (spec : ServiceSpec) : Prop :=
  ∃ service, QualifiedService.parse o.spec.serviceName = .ok service ∧
    match o.spec.descriptorSetSource with
    | none => spec = .buildPassthrough service
    | some source => ∃ env, envs env ∧ loadSpec env source service = .ok spec

/-- Requests for the service are answered with 404. -/
def Unknown (services : Services) (n : String) : Prop :=
  ∀ (proxy : GrpcProxy) (request : Session) method, proxy.services = services →
    parseGrpcPath request.reqHeader.rawPath = .ok (n, method) →
    proxy.requestFilter request = .error (.error ⟨.httpStatus 404, "unknown service"⟩)

structure Routes (envs : Env → Prop) (st : ServiceConfigState) (n : String) : Prop where
  live : (∃ o, Live st.rawServices n o) → ∃ o generation spec, Selected st.rawServices n o ∧
    st.services n = some (dataFor generation spec o) ∧ BuiltFrom envs o spec
  gone : (∀ o, ¬ Live st.rawServices n o) →
    (∀ data, st.services n = some data → data.loadBalancer = none) ∧ Unknown st.services n

/-- Where a service is sent, and by which spec. -/
def routeOf (services : Services) (n : String) : Option (BackendsHandle × Option ServiceSpec) :=
  (services n).bind fun data => data.loadBalancer.map fun lb => (lb, data.serviceSpec)

theorem routeOf_eq_none {services : Services}
    (h : ∀ data, services n = some data → data.loadBalancer = none) :
    routeOf services n = none := by
  unfold routeOf
  cases hs : services n with
  | none => rfl
  | some data => simp [h data hs]

/-- An `Apply` with a service name that parses, and that takes no object away
from a service it answers for. -/
def TakesNothingAway (l : Loader) : Action → Prop
  | .change (.apply o) => Dotted o.spec.serviceName ∧
      ∀ old, l.state.rawServices o.objectRef = some old →
        old.spec.serviceName ≠ o.spec.serviceName →
        ¬ Selected l.state.rawServices old.spec.serviceName old
  | _ => True

def LoadSucceeds (l : Loader) : Action → Prop
  | .load i env => ∀ task, l.state.spawned[i]? = some task →
      ∃ spec, loadSpec env task.source task.service = .ok spec
  | .change _ => True

def loadEnvs (as : List Action) (env : Env) : Prop := ∃ i, Action.load i env ∈ as

-- ---------------------------------------------------------------------------
-- Selection under a change
-- ---------------------------------------------------------------------------

-- A change of one object that has nothing to say about `m` can only take from it.
theorem live_update {x : Option GrcacheService} (hnew : ∀ o, x = some o → o.spec.serviceName ≠ m) :
    Live (Function.update raw r x) m o ↔ Live raw m o ∧ o.objectRef ≠ r := by
  unfold Live
  by_cases hr : o.objectRef = r
  · subst hr
    simp only [Function.update_self, ne_eq, not_true_eq_false, and_false, iff_false, not_and]
    exact fun hx => hnew o hx
  · simp [hr]

theorem exists_live_of_not_selected (hlive : Live raw m old) (hold : ¬ Selected raw m old) :
    ∃ o, Live raw m o ∧ o.objectRef.key < old.objectRef.key := by
  simp only [Selected, hlive, true_and, not_forall, not_le] at hold
  obtain ⟨o, ho, hlt⟩ := hold
  exact ⟨o, ho, hlt⟩

section
variable {x : Option GrcacheService} (hnew : ∀ o, x = some o → o.spec.serviceName ≠ m)
  (hold : ∀ old, Live raw m old → old.objectRef = r → ¬ Selected raw m old)
include hnew hold

theorem Selected.of_update (h : Selected (Function.update raw r x) m o) : Selected raw m o := by
  obtain ⟨hlive, hleast⟩ := h
  refine ⟨((live_update hnew).mp hlive).1, fun o' ho' => ?_⟩
  by_cases hr : o'.objectRef = r
  · -- the one that is gone was not the least either
    obtain ⟨o'', ho'', hlt⟩ := exists_live_of_not_selected ho' (hold o' ho' hr)
    have hne : o''.objectRef ≠ r := fun heq => by rw [heq, hr] at hlt; exact lt_irrefl _ hlt
    exact (hleast o'' ((live_update hnew).mpr ⟨ho'', hne⟩)).trans hlt.le
  · exact hleast o' ((live_update hnew).mpr ⟨ho', hr⟩)

theorem not_live_of_update (h : ∀ o, ¬ Live (Function.update raw r x) m o) (o : GrcacheService) :
    ¬ Live raw m o := by
  intro ho
  by_cases hr : o.objectRef = r
  · obtain ⟨o', ho', hlt⟩ := exists_live_of_not_selected ho (hold o ho hr)
    have hne : o'.objectRef ≠ r := fun heq => by rw [heq, hr] at hlt; exact lt_irrefl _ hlt
    exact h o' ((live_update hnew).mpr ⟨ho', hne⟩)
  · exact h o ((live_update hnew).mpr ⟨ho, hr⟩)

end

-- ---------------------------------------------------------------------------
-- The invariant
-- ---------------------------------------------------------------------------

/-- The call that drew generation `g` for `n` was made for `o`: its write has
been attempted, or a spawned load still holds it. -/
def AnswersFor (envs : Env → Prop) (st : ServiceConfigState) (n : String) (g : Nat)
    (o : GrcacheService) : Prop :=
  (∃ spec, (n, dataFor g spec o) ∈ st.attempted ∧ BuiltFrom envs o spec) ∨
    ∃ task ∈ st.spawned, task.generation = g ∧ task.serviceName = n ∧
      QualifiedService.parse o.spec.serviceName = .ok task.service ∧
      o.spec.descriptorSetSource = some task.source ∧
      task.loadBalancer = backendsForUpstream o.spec.upstream

structure Answered (envs : Env → Prop) (st : ServiceConfigState) (n : String) : Prop where
  selected : ∀ o, Selected st.rawServices n o →
    ∃ g, st.lastCall n = some g ∧ AnswersFor envs st n g o
  gone : (∀ o, ¬ Live st.rawServices n o) → ∀ g, st.lastCall n = some g →
    (n, tombstone g) ∈ st.attempted

-- A call answers for its own name, whatever was there before.
theorem Updated.answered (hu : Updated st n st') : Answered envs st' n := by
  cases hu with
  | unload hnone =>
    refine ⟨fun o ho => absurd ho.1 (hnone o), fun _ g hg => ?_⟩
    simp only [ServiceConfigState.called, Function.update_self, Option.some.injEq] at hg
    subst hg
    exact List.mem_cons_self
  | @spawn o service source hsel hparse hsrc =>
    refine ⟨fun o' ho' => ?_, fun hnone => absurd hsel.1 (hnone o)⟩
    obtain rfl := hsel.unique ho'
    refine ⟨st.specGeneration, by simp [ServiceConfigState.called], .inr ⟨_,
      List.mem_append_right _ List.mem_cons_self, rfl, rfl, ?_, hsrc, rfl⟩⟩
    rw [hsel.1.2]
    exact hparse
  | @passthrough o service hsel hparse hsrc =>
    refine ⟨fun o' ho' => ?_, fun hnone => absurd hsel.1 (hnone o)⟩
    obtain rfl := hsel.unique ho'
    refine ⟨st.specGeneration, by simp [ServiceConfigState.called], .inl ⟨_, List.mem_cons_self,
      service, ?_, ?_⟩⟩
    · rw [hsel.1.2]
      exact hparse
    · rw [hsrc]

-- It leaves the calls and writes of the other names alone.
theorem Updated.other (hu : Updated st n st') (hm : m ≠ n) :
    st'.lastCall m = st.lastCall m ∧ st.attempted ⊆ st'.attempted ∧ st.spawned ⊆ st'.spawned := by
  have hlast : (st.called n).lastCall m = st.lastCall m := by
    simp [ServiceConfigState.called, hm]
  cases hu with
  | unload | passthrough => exact ⟨hlast, List.subset_cons_self _ _, List.Subset.refl _⟩
  | spawn => exact ⟨hlast, List.Subset.refl _, List.subset_append_left _ _⟩

theorem AnswersFor.mono (h : AnswersFor envs st n g o) (ha : st.attempted ⊆ st'.attempted)
    (hs : st.spawned ⊆ st'.spawned) : AnswersFor envs st' n g o := by
  rcases h with ⟨spec, hmem, hbuilt⟩ | ⟨task, hmem, htask⟩
  · exact .inl ⟨spec, ha hmem, hbuilt⟩
  · exact .inr ⟨task, hs hmem, htask⟩

theorem objectsAfter_update (hrec : st.record c = some (n, st₁)) :
    ∃ (r : ObjectRef) (x : Option GrcacheService),
      objectsAfter st.rawServices c = Function.update st.rawServices r x ∧
      (∀ o, x = some o → o.spec.serviceName = n ∧ c = .apply o ∧ o.objectRef = r) ∧
      (x = none → ∀ o, st.rawServices r = some o → o.spec.serviceName = n) := by
  cases c with
  | ready => cases hrec
  | apply o =>
    cases hrec
    refine ⟨o.objectRef, some o, rfl, ?_, ?_⟩
    · rintro o' ⟨rfl⟩
      exact ⟨rfl, rfl, rfl⟩
    · rintro ⟨⟩
  | delete r =>
    simp only [ServiceConfigState.record, Option.map_eq_some_iff, Prod.mk.injEq] at hrec
    obtain ⟨o, hr, rfl, -⟩ := hrec
    refine ⟨r, none, rfl, ?_, ?_⟩
    · rintro o' ⟨⟩
    · rintro - o' ho'
      rw [hr] at ho'
      cases ho'
      rfl

-- The other names keep the object that answers for them.
theorem Answered.other (h : Answered envs st m) (hrec : st.record c = some (n, st₁)) (hm : m ≠ n)
    (ha : TakesNothingAway ⟨st, crashed⟩ (.change c))
    (hraw : st'.rawServices = objectsAfter st.rawServices c)
    (hlast : st'.lastCall m = st.lastCall m) (hattempted : st.attempted ⊆ st'.attempted)
    (hspawned : st.spawned ⊆ st'.spawned) : Answered envs st' m := by
  obtain ⟨r, x, hupd, hsome, hnone⟩ := objectsAfter_update hrec
  have hnew : ∀ o, x = some o → o.spec.serviceName ≠ m := by
    intro o hx heq
    exact hm (heq.symm.trans (hsome o hx).1)
  have hold : ∀ old, Live st.rawServices m old → old.objectRef = r →
      ¬ Selected st.rawServices m old := by
    rintro old ⟨hlive, hname⟩ hr
    rw [hr] at hlive
    cases x with
    | none => exact absurd (hname.symm.trans (hnone rfl old hlive)) hm
    | some o =>
      obtain ⟨hn, rfl, hor⟩ := hsome o rfl
      subst hname
      refine ha.2 old (by rw [hor]; exact hlive) ?_
      rw [hn]
      exact hm
  rw [hupd] at hraw
  constructor
  · intro o ho
    rw [hraw] at ho
    obtain ⟨g, hg, hans⟩ := h.selected o (ho.of_update hnew hold)
    exact ⟨g, hlast.trans hg, hans.mono hattempted hspawned⟩
  · intro hgone g hg
    rw [hraw] at hgone
    exact hattempted (h.gone (not_live_of_update hnew hold hgone) g (hlast.symm.trans hg))

-- A load that succeeds turns the task that holds an answer into its write.
theorem AnswersFor.loaded (h : AnswersFor envs st n g o) (ht : st.spawned[i]? = some task)
    (hspec : loadSpec env task.source task.service = .ok spec) (he : envs env)
    (hattempted : st'.attempted = (task.serviceName, taskData task spec) :: st.attempted)
    (hspawned : st'.spawned = st.spawned.eraseIdx i) : AnswersFor envs st' n g o := by
  rcases h with ⟨spec', hmem, hbuilt⟩ | ⟨t, hmem, hg, hn, hparse, hsrc, hlb⟩
  · refine .inl ⟨spec', ?_, hbuilt⟩
    rw [hattempted]
    exact List.mem_cons_of_mem _ hmem
  · obtain ⟨hi, hti⟩ := List.getElem?_eq_some_iff.mp ht
    have hperm := (List.getElem_cons_eraseIdx_perm hi).mem_iff.mpr hmem
    rw [hti] at hperm
    rcases List.mem_cons.mp hperm with rfl | hmem
    · refine .inl ⟨spec, ?_, t.service, hparse, ?_⟩
      · rw [hattempted, ← hn, ← hg, dataFor, ← hlb]
        exact List.mem_cons_self
      · rw [hsrc]
        exact ⟨env, he, hspec⟩
    · exact .inr ⟨t, by rw [hspawned]; exact hmem, hg, hn, hparse, hsrc, hlb⟩

theorem Stepped.answered (hs : Stepped l a l') (hidx : Indexed l.state)
    (h : ∀ n, Answered envs l.state n) (ht : TakesNothingAway l a) (hl : LoadSucceeds l a)
    (he : ∀ i env, a = .load i env → envs env) (m : String) : Answered envs l'.state m := by
  cases hs with
  | dead | quiet | crash | noTask => exact h m
  | @change c n st₁ st' hc hrec hu =>
    by_cases hm : m = n
    · exact hm ▸ hu.answered
    · have hsame := (record_spec hidx hrec).sameMap
      have hraw : st'.rawServices = objectsAfter l.state.rawServices c :=
        hu.raw.trans (record_spec hidx hrec).raw
      obtain ⟨hlast, hattempted, hspawned⟩ := hu.other hm
      rw [hsame] at hlast hattempted hspawned
      exact (h m).other hrec hm ht hraw hlast hattempted hspawned
  | loaded htask hspec =>
    refine ⟨fun o ho => ?_, fun hgone g hg => List.mem_cons_of_mem _ ((h m).gone hgone g hg)⟩
    obtain ⟨g, hg, hans⟩ := (h m).selected o ho
    exact ⟨g, hg, hans.loaded htask hspec (he _ _ rfl) rfl rfl⟩
  | failed htask hspec =>
    obtain ⟨spec, hok⟩ := hl _ htask
    exact absurd hok (hspec spec)

theorem Answered.init (n : String) : Answered envs .init n :=
  ⟨fun _ h => (nomatch h.1.1), nofun⟩

theorem run_answered (as : List Action) (ht : Always Loader.step TakesNothingAway .init as)
    (hl : Always Loader.step LoadSucceeds .init as) (n : String) :
    Answered (loadEnvs as) (after as) n := by
  have hc : Always Loader.step (fun l a => (TakesNothingAway l a ∧ LoadSucceeds l a) ∧ a ∈ as)
      .init as := fun pre a hp =>
    ⟨⟨ht pre a hp, hl pre a hp⟩, hp.subset (List.mem_append_right _ List.mem_cons_self)⟩
  have hinv : Indexed (after as) ∧ ∀ n, Answered (loadEnvs as) (after as) n := by
    refine Base.run_invariant
      (I := fun l : Loader => Indexed l.state ∧ ∀ n, Answered (loadEnvs as) l.state n)
      ⟨Indexed.init, Answered.init⟩ ?_ hc
    rintro l a ⟨hidx, h⟩ ⟨⟨ht, hl⟩, hmem⟩
    have hs := step_spec hidx a
    exact ⟨hs.indexed hidx, hs.answered hidx h ht hl fun i env heq => ⟨i, heq ▸ hmem⟩⟩
  exact hinv.2 n

-- ---------------------------------------------------------------------------
-- Settled states
-- ---------------------------------------------------------------------------

theorem exists_selected (h : Indexed st) (hlive : Live st.rawServices n o) :
    ∃ o, Selected st.rawServices n o := by
  obtain ⟨objects, hobjects, hmem⟩ := h.entry hlive.1
  rw [hlive.2] at hobjects
  obtain ⟨o', -, -, hsel⟩ := h.argmin_selected hobjects (List.ne_nil_of_mem hmem)
  exact ⟨o', hsel⟩

theorem unknown_of_no_balancer {services : Services}
    (h : ∀ data, services n = some data → data.loadBalancer = none) : Unknown services n := by
  rintro proxy request method rfl hpath
  refine Proxy.requestFilter_unknown hpath ?_
  unfold GrpcProxy.lookupService
  cases hs : proxy.services n with
  | none => rfl
  | some data =>
    simp [Option.filter, h data hs]

theorem Answered.routes (h : Answered envs st n) (hg : Generations st) (hidx : Indexed st)
    (hdone : st.spawned = []) : Routes envs st n := by
  constructor
  · rintro ⟨o, ho⟩
    obtain ⟨o, hsel⟩ := exists_selected hidx ho
    obtain ⟨g, hlast, hans⟩ := h.selected o hsel
    rcases hans with ⟨spec, hmem, hbuilt⟩ | ⟨task, hmem, -⟩
    · exact ⟨o, g, spec, hsel, hg.shows_last hlast hmem, hbuilt⟩
    · simp [hdone] at hmem
  · intro hgone
    have hnone : ∀ data, st.services n = some data → data.loadBalancer = none := by
      intro data hdata
      have hp := hg.published n
      rw [hdata] at hp
      obtain ⟨g, hlast, -⟩ := hg.attempted n data hp.1
      have hshown := hg.shows_last hlast (h.gone hgone g hlast)
      rw [hdata] at hshown
      cases hshown
      rfl
    exact ⟨hnone, unknown_of_no_balancer hnone⟩

theorem BuiltFrom.unique (h : BuiltFrom envs o spec) (h' : BuiltFrom envs' o spec')
    (hsame : ∀ env env', envs env → envs' env' → env = env') : spec = spec' := by
  obtain ⟨service, hparse, hspec⟩ := h
  obtain ⟨service', hparse', hspec'⟩ := h'
  obtain rfl : service = service' := Except.ok.inj (hparse.symm.trans hparse')
  cases hsrc : o.spec.descriptorSetSource with
  | none =>
    simp only [hsrc] at hspec hspec'
    rw [hspec, hspec']
  | some source =>
    simp only [hsrc] at hspec hspec'
    obtain ⟨env, he, hspec⟩ := hspec
    obtain ⟨env', he', hspec'⟩ := hspec'
    rw [hsame env env' he he', hspec'] at hspec
    exact (Except.ok.inj hspec).symm

/-- Two replicas send the service to the same upstream, and by the same spec if
their loads saw the same files. -/
def SameRoute (envs envs' : Env → Prop) (services services' : Services) (n : String) : Prop :=
  (routeOf services n).map Prod.fst = (routeOf services' n).map Prod.fst ∧
    ((∀ env env', envs env → envs' env' → env = env') → routeOf services n = routeOf services' n)

theorem Routes.agree (h : Routes envs st n) (h' : Routes envs' st' n)
    (hraw : st.rawServices = st'.rawServices) :
    SameRoute envs envs' st.services st'.services n := by
  by_cases hlive : ∃ o, Live st.rawServices n o
  · obtain ⟨o, g, spec, hsel, hdata, hbuilt⟩ := h.live hlive
    obtain ⟨o', g', spec', hsel', hdata', hbuilt'⟩ := h'.live (hraw ▸ hlive)
    obtain rfl : o = o' := hsel.unique (hraw ▸ hsel')
    simp only [SameRoute, routeOf, hdata, hdata', dataFor, Option.bind_some, Option.map_some,
      true_and]
    intro hsame
    rw [hbuilt.unique hbuilt' hsame]
  · have hgone : ∀ o, ¬ Live st.rawServices n o := fun o ho => hlive ⟨o, ho⟩
    have hnone : routeOf st.services n = none := routeOf_eq_none (h.gone hgone).1
    have hnone' : routeOf st'.services n = none := routeOf_eq_none (h'.gone (hraw ▸ hgone)).1
    simp [SameRoute, hnone, hnone']

theorem settled_routes (as : List Action) (ht : Always Loader.step TakesNothingAway .init as)
    (hl : Always Loader.step LoadSucceeds .init as) (hdone : (after as).spawned = []) (n : String) :
    Routes (loadEnvs as) (after as) n :=
  (run_answered as ht hl n).routes (run_generations as) (run_indexed as) hdone

/-- Once every load has succeeded, every service is routed by the live objects,
and replicas with the same objects agree. -/
theorem routing_follows_objects (as : List Action)
    (ht : Always Loader.step TakesNothingAway .init as)
    (hl : Always Loader.step LoadSucceeds .init as) (hdone : (after as).spawned = []) :
    (∀ n, Routes (loadEnvs as) (after as) n) ∧
    ∀ as', Always Loader.step TakesNothingAway .init as' →
      Always Loader.step LoadSucceeds .init as' → (after as').spawned = [] →
      (after as).rawServices = (after as').rawServices →
      ∀ n, SameRoute (loadEnvs as) (loadEnvs as') (after as).services (after as').services n := by
  refine ⟨settled_routes as ht hl hdone, fun as' ht' hl' hdone' hraw n => ?_⟩
  exact (settled_routes as ht hl hdone n).agree (settled_routes as' ht' hl' hdone' n) hraw

-- ---------------------------------------------------------------------------
-- A service that moves
-- ---------------------------------------------------------------------------

def usersObject (name serviceName : String) : GrcacheService :=
  ⟨some "default", name, some "1", ⟨.dns "users-rpc" 50051, serviceName, none⟩⟩

-- The second of two objects for one service is left when the first is deleted.
def takeover : List Action :=
  [.change (.apply (usersObject "a" "example.Users")),
    .change (.apply (usersObject "b" "example.Users")),
    .change (.delete (usersObject "a" "example.Users").objectRef)]

theorem takeover_routes :
    Always Loader.step TakesNothingAway .init takeover ∧
      Always Loader.step LoadSucceeds .init takeover ∧ (after takeover).spawned = [] ∧
      ∀ n, Routes (loadEnvs takeover) (after takeover) n := by
  have ht : Always Loader.step TakesNothingAway .init takeover := by
    refine Base.always_cons.mpr ⟨⟨by decide, nofun⟩, Base.always_cons.mpr ⟨⟨by decide, ?_⟩,
      Base.always_cons.mpr ⟨trivial, Base.always_nil⟩⟩⟩
    -- nothing stood under the second object's reference
    intro old hold
    rw [show (Loader.init.step
        (.change (.apply (usersObject "a" "example.Users")))).state.rawServices
      (usersObject "b" "example.Users").objectRef = none by decide] at hold
    cases hold
  have hl : Always Loader.step LoadSucceeds .init takeover :=
    Base.always_cons.mpr ⟨trivial, Base.always_cons.mpr ⟨trivial,
      Base.always_cons.mpr ⟨trivial, Base.always_nil⟩⟩⟩
  exact ⟨ht, hl, rfl, (routing_follows_objects takeover ht hl rfl).1⟩

-- An object is renamed from one service to another.
def moved : List Action :=
  [.change (.apply (usersObject "a" "example.Users")),
    .change (.apply (usersObject "a" "example.People"))]

/-- The service it had keeps its route. -/
theorem moved_still_routed :
    Always Loader.step LoadSucceeds .init moved ∧ (after moved).spawned = [] ∧
      (∀ o, ¬ Live (after moved).rawServices "example.Users" o) ∧
      ¬ Routes (loadEnvs moved) (after moved) "example.Users" := by
  have hgone : ∀ o, ¬ Live (after moved).rawServices "example.Users" o := by
    rintro o ⟨hraw, hname⟩
    rw [run_objects moved (by decide)] at hraw
    have hobjects : (changesOf moved).foldl objectsAfter (fun _ => none) =
        Function.update (fun _ => none) ⟨some "default", "a"⟩
          (some (usersObject "a" "example.People")) := Function.update_idem _ _ _
    rw [hobjects] at hraw
    by_cases hr : o.objectRef = ⟨some "default", "a"⟩
    · rw [hr, Function.update_self] at hraw
      cases hraw
      revert hname
      decide
    · rw [Function.update_of_ne hr] at hraw
      cases hraw
  refine ⟨Base.always_cons.mpr ⟨trivial, Base.always_cons.mpr ⟨trivial, Base.always_nil⟩⟩, rfl,
    hgone, fun hroutes => ?_⟩
  have hnone := (hroutes.gone hgone).1 _ rfl
  cases hnone

end Grcache.Store
