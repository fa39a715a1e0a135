import Grcache.Server.Ownership
import Grcache.Store.Routing

/-!
# The store behind its references

`Store.Model` shows the published map with a host and port in the place of every
handle. That is what a handle is to the loader, but the map holds references,
and a reference is worth something only while discovery knows what it stands
for. Followed through the heap of discovery, the map and the pending loads of
the server are those of the store: an allocation keeps its host and port, and a
call returns one that was made for what it asked for.
-/

namespace Grcache.Server

open Base (Agree)
open Store (GrcacheService BackendsHandle ServiceConfigState Loader)

variable {s s' : State} {d d' : Discovery.State} {st : ServiceConfigState}

-- ---------------------------------------------------------------------------
-- What a reference stands for
-- ---------------------------------------------------------------------------

def Stands (d : Discovery.State) (w : Nat) (h : BackendsHandle) : Prop :=
  ∃ c, d.wiring[w]? = some c ∧ c.hostPort = (h.hostname, h.port)

structure DataStands (d : Discovery.State) (data : ServiceData) (data' : Store.ServiceData) :
    Prop where
  generation : data'.generation = data.generation
  serviceSpec : data'.serviceSpec = data.serviceSpec
  loadBalancer : Option.Rel (Stands d) data.loadBalancer data'.loadBalancer

structure TaskStands (d : Discovery.State) (task : LoadTask) (task' : Store.LoadTask) : Prop where
  generation : task'.generation = task.generation
  serviceName : task'.serviceName = task.serviceName
  service : task'.service = task.service
  source : task'.source = task.source
  loadBalancer : Stands d task.loadBalancer task'.loadBalancer

/-- The server, seen through the heap of discovery. -/
structure Refines (s : State) (st : ServiceConfigState) : Prop where
  specGeneration : st.specGeneration = s.specGeneration
  services : ∀ n, Option.Rel (DataStands s.discovery) (s.services.lookup n) (st.services n)
  rawServices : st.rawServices = s.rawServices
  refByGrpcService : st.refByGrpcService = s.refByGrpcService
  spawned : List.Forall₂ (TaskStands s.discovery) s.spawned st.spawned

-- ---------------------------------------------------------------------------
-- Discovery only adds
-- ---------------------------------------------------------------------------

theorem step_extends (hd : Discovery.Wired d) (a : Discovery.Action) :
    d.wiring <+: (d.step a).wiring := by
  have hsame : ∀ {t}, Discovery.SameWiring d t → d.wiring <+: t.wiring :=
    fun h => by rw [h.wiring]
  cases a with
  | backendsForHostname hostname port =>
    simp only [Discovery.State.step]
    cases hf : (d.serviceBackends (hostname, port)).filter (0 < d.strongCount ·) with
    | none =>
      rw [(hd.allocates hf).wiring]
      exact List.prefix_append _ _
    | some w =>
      simp only [Discovery.State.backendsForHostname, hf]
      exact hsame (Discovery.onHeap_same fun _ => rfl)
  | clone w =>
    refine hsame (Discovery.onHeap_same fun a => ?_)
    split <;> rfl
  | drop w => exact hsame (Discovery.onHeap_same fun _ => rfl)
  | recv =>
    simp only [Discovery.State.step, Discovery.recv_wiring]
    exact List.prefix_rfl
  | start i => exact hsame Discovery.start_same
  | iterate i response => exact hsame (Discovery.iterate_spec d i response).1

theorem acquire_extends (hd : Discovery.Wired s.discovery) (o : GrcacheService) :
    s.discovery.wiring <+: (s.acquire o).2.discovery.wiring := by
  unfold State.acquire
  cases o.spec.upstream with
  | dns url port => exact step_extends hd (.backendsForHostname url port)

theorem acquire_wired (hd : Discovery.Wired s.discovery) (o : GrcacheService) :
    Discovery.Wired (s.acquire o).2.discovery := by
  unfold State.acquire
  cases o.spec.upstream with
  | dns url port => exact hd.backendsForHostname url port

theorem Updated.extends (hu : Updated s n s') (hd : Discovery.Wired s.discovery) :
    s.discovery.wiring <+: s'.discovery.wiring := by
  cases hu with
  | unload => exact List.prefix_rfl
  | @spawn o service source ho => exact acquire_extends hd o
  | @publish o spec ho => exact acquire_extends hd o
  | @abort o ho =>
    exact (acquire_extends hd o).trans (step_extends (acquire_wired hd o) (.drop _))

theorem Stepped.extends (hs : Stepped s a s') (hd : Discovery.Wired s.discovery) :
    s.discovery.wiring <+: s'.discovery.wiring := by
  cases hs with
  | idle | dead | crash | loaded => exact List.prefix_rfl
  | record _ hrec => rw [hrec.same]
  | change hn hrec hu =>
    have hd₁ := hrec.discovery
    exact hd₁ ▸ hu.extends (hd₁ ▸ hd)
  | dropped => exact step_extends hd (.drop _)
  | request => exact step_extends hd (.clone _)
  | keep => exact step_extends hd (.clone _)
  | finish => exact step_extends hd (.drop _)
  | reclaim => exact step_extends hd (.drop _)
  | recv => exact step_extends hd .recv
  | start => exact step_extends hd (.start _)
  | iterate => exact step_extends hd (.iterate _ _)

theorem Stands.mono (hd : d.wiring <+: d'.wiring) (h : Stands d w b) : Stands d' w b := by
  obtain ⟨c, hc, hhp⟩ := h
  refine ⟨c, ?_, hhp⟩
  obtain ⟨cs, hcs⟩ := hd
  rw [← hcs, List.getElem?_append_left (List.getElem?_eq_some_iff.mp hc).1]
  exact hc

theorem DataStands.mono (hd : d.wiring <+: d'.wiring) (h : DataStands d data data') :
    DataStands d' data data' :=
  { h with loadBalancer := Base.rel_imp h.loadBalancer fun _ _ hlb => hlb.mono hd }

theorem TaskStands.mono (hd : d.wiring <+: d'.wiring) (h : TaskStands d task task') :
    TaskStands d' task task' :=
  { h with loadBalancer := h.loadBalancer.mono hd }

theorem Refines.frame (h : Refines s st) (hd : s.discovery.wiring <+: s'.discovery.wiring)
    (hs : s' = { s with
      retired := s'.retired
      requests := s'.requests
      discovery := s'.discovery
      crashed := s'.crashed }) : Refines s' st := by
  have hservices : s'.services = s.services := by rw [hs]
  have hspawned : s'.spawned = s.spawned := by rw [hs]
  refine ⟨?_, fun n => ?_, ?_, ?_, ?_⟩
  · rw [hs]
    exact h.specGeneration
  · rw [hservices]
    exact Base.rel_imp (h.services n) fun _ _ hdata => hdata.mono hd
  · rw [hs]
    exact h.rawServices
  · rw [hs]
    exact h.refByGrpcService
  · rw [hspawned]
    exact h.spawned.imp fun _ _ ht => ht.mono hd

-- ---------------------------------------------------------------------------
-- The map
-- ---------------------------------------------------------------------------

theorem Refines.publish (h : Refines s st) (hdata : DataStands s.discovery data data') :
    Refines (s.publish n data)
      { st with services := Function.update st.services n (some data') } := by
  refine { h with services := fun m => ?_ }
  simp only [State.publish]
  by_cases hm : m = n
  · subst hm
    rw [Function.update_self, AList.lookup_insert]
    exact .some hdata
  · rw [Function.update_of_ne hm, AList.lookup_insert_ne hm]
    exact h.services m

theorem Refines.release (h : Refines s st) (hd : Discovery.Wired s.discovery) (w : Nat) :
    Refines (s.release w) st :=
  h.frame (step_extends hd (.drop w)) rfl

theorem Refines.updateServiceIfNewer (h : Refines s st) (hd : Discovery.Wired s.discovery)
    (hdata : DataStands s.discovery data data') (n : String) :
    Agree (fun s' services => Refines s' { st with services := services })
      (s.updateServiceIfNewer n data) (Store.updateServiceIfNewer st.services n data') := by
  have hwrite : Agree (fun s' services => Refines s' { st with services := services })
      (do let _spec ← Base.unwrap data.serviceSpec; pure (s.publish n data) : Base.Exec Empty State)
      (do let _spec ← Base.unwrap data'.serviceSpec
          pure (Function.update st.services n (some data')) : Base.Exec Empty _) := by
    rw [hdata.serviceSpec]
    exact (Agree.refl _).bind fun _ _ _ => .ok (h.publish hdata)
  unfold State.updateServiceIfNewer Store.updateServiceIfNewer
  have hn := h.services n
  generalize s.services.lookup n = x, st.services n = y at hn
  cases hn with
  | none => exact hwrite
  | @some value value' hvalue =>
    simp only [hvalue.generation, hdata.generation]
    split
    · exact hwrite
    · split
      · exact .ok (h.release hd _)
      · exact .ok h

-- ---------------------------------------------------------------------------
-- The loader
-- ---------------------------------------------------------------------------

-- Found or new, the handle was allocated for the host and port of the call.
theorem handleFor_stands (hd : Discovery.Wired d) (url : String) (port : UInt16) :
    Stands (d.backendsForHostname url port) (handleFor d (url, port)) ⟨url, port⟩ := by
  unfold handleFor
  cases hf : (d.serviceBackends (url, port)).filter (0 < d.strongCount ·) with
  | some w =>
    obtain ⟨c, hc, hhp⟩ := hd.registered _ _ (served_of_filter hf).1
    have hold : Stands d w ⟨url, port⟩ := ⟨c, hc, hhp⟩
    exact hold.mono (step_extends hd (.backendsForHostname url port))
  | none =>
    have hlen : d.heap.length = d.wiring.length := by simp [Discovery.State.wiring]
    have hnew := (hd.allocates hf).wiring
    refine ⟨⟨(url, port), d.readyChannels.length, d.backendsChannels.length⟩, ?_, rfl⟩
    rw [hnew, Option.getD_none, hlen]
    exact List.getElem?_concat_length

theorem Refines.called (h : Refines s st) (n : String) : Refines s.called (st.called n) :=
  { h with specGeneration := congrArg (· + 1) h.specGeneration }

theorem Refines.acquire (h : Refines s st) (hd : Discovery.Wired s.discovery)
    (n : String) (o : GrcacheService) :
    Refines (s.acquire o).2 (st.called n) ∧
      Stands (s.acquire o).2.discovery (s.acquire o).1 (Store.backendsForUpstream o.spec.upstream) ∧
      Discovery.Wired (s.acquire o).2.discovery := by
  refine ⟨(h.called n).frame (acquire_extends hd o) (acquire_same s o), ?_, acquire_wired hd o⟩
  unfold State.acquire
  cases o.spec.upstream with
  | dns url port => exact handleFor_stands hd url port

theorem Refines.spawn (h : Refines s st) (ht : TaskStands s.discovery task task') :
    Refines (s.spawn task) { st with spawned := st.spawned ++ [task'] } := by
  refine { h with spawned := ?_ }
  exact List.rel_append h.spawned (.cons ht .nil)

theorem Refines.updateService (h : Refines s st) (hd : Discovery.Wired s.discovery) (n : String) :
    Agree Refines (s.updateService n) (st.updateService n) := by
  have hacquire := h.acquire hd n
  have hcalled := h.called n
  obtain ⟨generation, services, raw, refs, spawned, attempted, lastCall⟩ := st
  obtain ⟨rfl, hservices, rfl, rfl, hspawned⟩ := h
  unfold State.updateService ServiceConfigState.updateService
  refine (Agree.refl _).bind fun objects _ heq => ?_
  subst heq
  split
  · have hdata : DataStands s.discovery ⟨s.specGeneration, none, none⟩
        ⟨s.specGeneration, none, none⟩ := ⟨rfl, rfl, .none⟩
    exact .ok { hcalled.publish hdata with }
  · refine (Agree.refl _).bind fun r _ heq => ?_
    subst heq
    refine (Agree.refl _).bind fun o _ heq => ?_
    subst heq
    refine (Agree.refl _).bind fun service _ heq => ?_
    subst heq
    obtain ⟨hst, hlb, hwired⟩ := hacquire o
    cases hsrc : o.spec.descriptorSetSource with
    | some source =>
      have htask : TaskStands (s.acquire o).2.discovery
          ⟨s.specGeneration, o.spec.serviceName, service, source, (s.acquire o).1⟩
          ⟨s.specGeneration, o.spec.serviceName, service, source,
            Store.backendsForUpstream o.spec.upstream⟩ := ⟨rfl, rfl, rfl, rfl, hlb⟩
      exact .ok { hst.spawn htask with }
    | none =>
      have hdata : DataStands (s.acquire o).2.discovery
          ⟨s.specGeneration, some (.buildPassthrough service), some (s.acquire o).1⟩
          ⟨s.specGeneration, some (.buildPassthrough service),
            some (Store.backendsForUpstream o.spec.upstream)⟩ := ⟨rfl, rfl, .some hlb⟩
      have hwrite := hst.updateServiceIfNewer hwired hdata o.spec.serviceName
      exact hwrite.bind_ok fun _ _ hr => { hr with }

theorem Refines.removeNoupdate (h : Refines s st) (r : Store.ObjectRef) :
    Agree (fun x y => y.1 = x.1 ∧ Refines x.2 y.2 ∧ x.2.discovery = s.discovery)
      (s.removeNoupdate r) (st.removeNoupdate r) := by
  obtain ⟨generation, services, raw, refs, spawned, attempted, lastCall⟩ := st
  obtain ⟨rfl, hservices, rfl, rfl, hspawned⟩ := h
  unfold State.removeNoupdate ServiceConfigState.removeNoupdate
  cases hr : s.rawServices r with
  | none =>
    simp only [hr]
    exact .ok ⟨rfl, ⟨rfl, hservices, rfl, rfl, hspawned⟩, rfl⟩
  | some previous =>
    simp only [hr]
    refine (Agree.refl _).bind fun objects _ heq => ?_
    subst heq
    exact .ok ⟨rfl, ⟨rfl, hservices, rfl, rfl, hspawned⟩, rfl⟩

theorem Refines.insertObject (h : Refines s st) (o : GrcacheService) :
    Refines (s.insertObject o) (st.insertObject o) := by
  refine { h with rawServices := ?_, refByGrpcService := ?_ }
  · simp only [State.insertObject, ServiceConfigState.insertObject, h.rawServices]
  · simp only [State.insertObject, ServiceConfigState.insertObject, h.refByGrpcService]

theorem Refines.handle (h : Refines s st) (hd : Discovery.Wired s.discovery) (c : Store.Change) :
    Agree Refines (s.handle c) (st.handle c) := by
  cases c with
  | ready => exact .ok h
  | apply o =>
    refine (h.removeNoupdate o.objectRef).bind ?_
    rintro ⟨previous, s₁⟩ ⟨_, st₁⟩ ⟨-, hrem, hd₁⟩
    exact (hrem.insertObject o).updateService (hd₁ ▸ hd) _
  | delete r =>
    refine (h.removeNoupdate r).bind ?_
    rintro ⟨previous, s₁⟩ ⟨previous', st₁⟩ ⟨heq, hrem, hd₁⟩
    obtain rfl : previous' = previous := heq
    cases previous' with
    | none => exact .ok hrem
    | some previous => exact hrem.updateService (hd₁ ▸ hd) _

theorem Refines.load (h : Refines s st) (hd : Discovery.Wired s.discovery)
    (ht : TaskStands s.discovery task task') (env : Service.Env) :
    Agree Refines (s.load env task) (st.load env task') := by
  unfold State.load ServiceConfigState.load
  rw [ht.source, ht.service, ht.generation, ht.serviceName]
  refine (Agree.refl _).bind fun spec _ heq => ?_
  subst heq
  have hdata : DataStands s.discovery ⟨task.generation, some spec, some task.loadBalancer⟩
      ⟨task.generation, some spec, some task'.loadBalancer⟩ := ⟨rfl, rfl, .some ht.loadBalancer⟩
  exact (h.updateServiceIfNewer hd hdata _).bind_ok fun _ _ hr => { hr with }

-- ---------------------------------------------------------------------------
-- Runs
-- ---------------------------------------------------------------------------

def Action.store : Action → Option Store.Action
  | .change c => some (.change c)
  | .load i env => some (.load i env)
  | _ => none

structure Simulated (s : State) (l : Loader) : Prop where
  owned : Owned [] s
  refines : Refines s l.state
  crashed : l.crashed = s.crashed

theorem handle_crashed (hok : s.handle c = .ok s') : s'.crashed = s.crashed := by
  obtain ⟨s₁, hrec, ⟨-, rfl⟩ | ⟨n, -, hu⟩⟩ := handle_spec hok
  · rw [hrec.same]
  · rw [hu.kept.crashed, hrec.same]

variable {l : Loader}

theorem Simulated.change (h : Simulated s l) (c : Store.Change) :
    Refines (s.step (.change c)) (l.step (.change c)).state ∧
      (l.step (.change c)).crashed = (s.step (.change c)).crashed := by
  have hagree := h.refines.handle h.owned.attended.wired c
  have hcrashed : ∀ {s'}, s.handle c = .ok s' → s'.crashed = s.crashed := handle_crashed
  simp only [State.step, Loader.step, h.crashed]
  generalize s.handle c = x, l.state.handle c = y at hagree hcrashed
  split
  · exact ⟨h.refines, h.crashed⟩
  · cases hagree with
    | ok hr => exact ⟨hr, (hcrashed rfl).symm⟩
    | error => exact ⟨h.refines.frame List.prefix_rfl rfl, rfl⟩

theorem load_crashed (hok : s.load env task = .ok s') : s'.crashed = s.crashed := by
  obtain ⟨spec, -, hok⟩ := Base.bind_eq_ok_iff.mp hok
  rcases updateServiceIfNewer_cases rfl hok with rfl | rfl
  · rfl
  · rfl

theorem Simulated.load (h : Simulated s l) (i : Nat) (env : Service.Env) :
    Refines (s.step (.load i env)) (l.step (.load i env)).state ∧
      (l.step (.load i env)).crashed = (s.step (.load i env)).crashed := by
  have hd := h.owned.attended.wired
  have htask := Base.forall₂_getElem? h.refines.spawned i
  simp only [State.step, Loader.step]
  generalize s.spawned[i]? = x, l.state.spawned[i]? = y at htask
  cases htask with
  | none => exact ⟨h.refines, h.crashed⟩
  | @some task task' ht =>
    have hrest : Refines (s.takeTask i)
        { l.state with spawned := l.state.spawned.eraseIdx i } :=
      { h.refines with spawned := Base.forall₂_eraseIdx h.refines.spawned i }
    have hagree := hrest.load hd ht env
    have hcrashed : ∀ {s'}, (s.takeTask i).load env task = .ok s' → s'.crashed = s.crashed :=
      load_crashed
    simp only [State.takeTask] at hagree hcrashed hrest ⊢
    generalize State.load _ env task = x, ServiceConfigState.load _ env task' = y
      at hagree hcrashed
    cases hagree with
    | ok hr => exact ⟨hr, h.crashed.trans (hcrashed rfl).symm⟩
    | error => exact ⟨hrest.release hd _, h.crashed⟩

theorem step_unseen (ha : a.store = none) : s.step a = { s with
    retired := (s.step a).retired
    requests := (s.step a).requests
    discovery := (s.step a).discovery } := by
  have hs := step_spec s a
  generalize s.step a = s' at hs
  cases hs with
  | dead | crash | record | change | loaded | dropped => cases ha
  | idle | request | keep | finish | reclaim | recv | start | iterate => rfl

theorem Simulated.step (h : Simulated s l) (a : Action) :
    Simulated (s.step a) (Base.run Loader.step l a.store.toList) := by
  have ho := h.owned.step a
  cases ha : a.store with
  | some b =>
    cases a with
    | change c =>
      cases ha
      obtain ⟨hr, hc⟩ := h.change c
      exact ⟨ho, hr, hc⟩
    | load i env =>
      cases ha
      obtain ⟨hr, hc⟩ := h.load i env
      exact ⟨ho, hr, hc⟩
    | _ => cases ha
  | none =>
    have hext := (step_spec s a).extends h.owned.attended.wired
    have hsame := step_unseen (s := s) ha
    refine ⟨ho, h.refines.frame hext ?_, h.crashed.trans ?_⟩
    · rw [hsame]
    · rw [hsame]

theorem Simulated.main (hostname : String) (port : UInt16) :
    Simulated (.main hostname port) .init where
  owned := .main hostname port
  refines := ⟨rfl, fun _ => .none, rfl, rfl, .nil⟩
  crashed := rfl

theorem run_simulated (hostname : String) (port : UInt16) (actions : List Action) :
    Simulated (Base.run State.step (.main hostname port) actions)
      (Base.run Loader.step .init (actions.filterMap Action.store)) :=
  Base.run_simulates (fun _ _ a h => Simulated.step h a) (.main hostname port)

/-- Whatever requests and discovery do in between, the server's map and loads
are those of the store after the changes and loads of the run, with every
reference standing for a handle that was allocated for its host and port. -/
theorem server_refines_store (hostname : String) (port : UInt16) (actions : List Action) :
    Refines (Base.run State.step (.main hostname port) actions)
        (Base.run Loader.step .init (actions.filterMap Action.store)).state ∧
      (Base.run Loader.step .init (actions.filterMap Action.store)).crashed =
        (Base.run State.step (.main hostname port) actions).crashed := by
  obtain ⟨-, hrefines, hcrashed⟩ := run_simulated hostname port actions
  exact ⟨hrefines, hcrashed⟩

end Grcache.Server
