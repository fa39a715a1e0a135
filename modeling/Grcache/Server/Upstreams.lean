import Grcache.Discovery.Sources
import Grcache.Server.Refines
import Grcache.Store.Origins

/-!
# Where requests go

A request that found its service selects a backend from the balancer of the
handle it holds. Nothing on that way looks at an object or at the resolver, so
whether the address is one of the right service is decided long before: by the
object that was applied, by the handle that was acquired for its upstream, and
by the answers that the loop of this handle got.
-/

namespace Grcache.Server

open Base (Always)
open Discovery (HostPort Backend Sourced HandleOk)
open Store (GrcacheService Loader Live Selected)

variable {s s' : State} {d d' : Discovery.State} {P : HostPort → Backend → Prop}

-- ---------------------------------------------------------------------------
-- Entries
-- ---------------------------------------------------------------------------

/-- The spec and the upstream of an entry are those of one object. -/
def MadeFrom (envs : Service.Env → Prop) (s : State) (data : ServiceData) (o : GrcacheService) :
    Prop :=
  ∃ spec w a, data.serviceSpec = some spec ∧ data.loadBalancer = some w ∧
    Store.BuiltFrom envs o spec ∧ s.discovery.heap[w]? = some a ∧
    o.spec.upstream = .dns a.hostPort.1 a.hostPort.2

theorem DataStands.tombstone (h : DataStands d data data')
    (hdata : data' = Store.tombstone data'.generation) :
    data.serviceSpec = none ∧ data.loadBalancer = none := by
  obtain ⟨-, hspec, hlb⟩ := h
  rw [hdata] at hspec hlb
  refine ⟨hspec.symm, ?_⟩
  generalize data.loadBalancer = x at hlb
  cases hlb
  rfl

theorem DataStands.madeFrom (h : DataStands s.discovery data data')
    (hdata : data' = Store.dataFor data'.generation spec o) (hbuilt : Store.BuiltFrom envs o spec) :
    MadeFrom envs s data o := by
  obtain ⟨-, hspec, hlb⟩ := h
  rw [hdata] at hspec hlb
  simp only [Store.dataFor] at hspec hlb
  generalize hx : data.loadBalancer = x at hlb
  cases hlb with
  | @some w _ hstands =>
    obtain ⟨c, hc, hhp⟩ := hstands
    obtain ⟨a, ha, rfl⟩ := Option.map_eq_some_iff.mp (List.getElem?_map ▸ hc)
    refine ⟨spec, w, a, hspec.symm, hx, hbuilt, ha, ?_⟩
    cases hup : o.spec.upstream with
    | dns url port =>
      rw [hup] at hhp
      rw [show a.hostPort = (url, port) from hhp]

-- ---------------------------------------------------------------------------
-- What a settled server does
-- ---------------------------------------------------------------------------

theorem Stands.allocation {a : Discovery.Allocation} (h : Stands d w b)
    (ha : d.heap[w]? = some a) : a.hostPort = (b.hostname, b.port) := by
  obtain ⟨c, hc, hhp⟩ := h
  obtain rfl : a.wiring = c := by simpa [Discovery.State.wiring, ha] using hc
  exact hhp

def SentTo (envs : Service.Env → Prop) (s : State) (n : String) (o : GrcacheService) : Prop :=
  ∃ generation spec w a, s.services.lookup n = some ⟨generation, some spec, some w⟩ ∧
    Store.BuiltFrom envs o spec ∧ s.discovery.heap[w]? = some a ∧
    o.spec.upstream = .dns a.hostPort.1 a.hostPort.2 ∧ s.discovery.Live w ∧
    HandleOk s.discovery w a

theorem Simulated.sentTo (h : Simulated s l)
    (hdata : l.state.services n = some (Store.dataFor generation spec o))
    (hbuilt : Store.BuiltFrom envs o spec) : SentTo envs s n o := by
  have hn := h.refines.services n
  rw [hdata] at hn
  generalize hlookup : s.services.lookup n = x at hn
  cases hn with
  | @some data _ hstands =>
    obtain ⟨spec', w, a, hspec, hlb, hbuilt', ha, hup⟩ := hstands.madeFrom rfl hbuilt
    obtain ⟨g, _, _⟩ := data
    obtain ⟨rfl, rfl⟩ : _ = some spec' ∧ _ = some w := ⟨hspec, hlb⟩
    have hmem : w ∈ s.references := mem_references_of_lookup (n := n) (by simp [hlookup])
    obtain ⟨a', ha', hlive, hok⟩ := h.owned.references_ok hmem
    obtain rfl : a = a' := Option.some.inj (ha.symm.trans ha')
    exact ⟨g, spec', w, a, hlookup, hbuilt', ha, hup, hlive, hok⟩

theorem Refines.no_balancer (h : Refines s st)
    (hnone : ∀ data, st.services n = some data → data.loadBalancer = none) :
    (s.services.lookup n).bind (·.loadBalancer) = none := by
  have hn := h.services n
  generalize s.services.lookup n = x, st.services n = y at hn hnone
  cases hn with
  | none => rfl
  | @some data data' hstands =>
    have hlb := hstands.loadBalancer
    rw [hnone data' rfl] at hlb
    generalize hx : data.loadBalancer = x at hlb
    cases hlb
    exact hx

/-- Once every load has succeeded, a request for a service with live objects is
given a handle for the upstream of the object that answers for it, and the
handle is live and maintained; a request for any other service is given none. -/
theorem settled_upstreams (hostname : String) (port : UInt16) (actions : List Action)
    (ht : Always Loader.step Store.TakesNothingAway .init (actions.filterMap Action.store))
    (hl : Always Loader.step Store.LoadSucceeds .init (actions.filterMap Action.store))
    (hdone : (Base.run State.step (.main hostname port) actions).spawned = []) :
    let s := Base.run State.step (.main hostname port) actions
    ∀ n, (∀ o, Selected s.rawServices n o →
        SentTo (Store.loadEnvs (actions.filterMap Action.store)) s n o) ∧
      ((∀ o, ¬ Live s.rawServices n o) →
        (s.services.lookup n).bind (·.loadBalancer) = none) := by
  intro s n
  have h := run_simulated hostname port actions
  have hspawned := h.refines.spawned
  rw [hdone] at hspawned
  have hroutes := Store.settled_routes _ ht hl (List.forall₂_nil_left_iff.mp hspawned) n
  have hraw := h.refines.rawServices
  refine ⟨fun o hsel => ?_, fun hnone => ?_⟩
  · rw [← hraw] at hsel
    obtain ⟨o', generation, spec, hsel', hdata, hbuilt⟩ := hroutes.live ⟨o, hsel.1⟩
    obtain rfl := hsel.unique hsel'
    exact h.sentTo hdata hbuilt
  · rw [← hraw] at hnone
    exact h.refines.no_balancer (hroutes.gone hnone).1

-- A service is applied and asked for, while discovery has not started yet.
def asked : List Action :=
  [.change (.apply (Store.usersObject "a" "example.Users")), .request "example.Users", .recv]

theorem asked_sent_upstream :
    (Base.run State.step (.main "redis" 6379) asked).spawned = [] ∧
      SentTo (Store.loadEnvs (asked.filterMap Action.store))
        (Base.run State.step (.main "redis" 6379) asked) "example.Users"
        (Store.usersObject "a" "example.Users") := by
  have ht : Always Loader.step Store.TakesNothingAway .init (asked.filterMap Action.store) := by
    refine Base.always_cons.mpr ⟨⟨by decide, fun old hold => ?_⟩, Base.always_nil⟩
    cases hold
  have hl : Always Loader.step Store.LoadSucceeds .init (asked.filterMap Action.store) :=
    Base.always_cons.mpr ⟨trivial, Base.always_nil⟩
  have hraw : (Base.run State.step (.main "redis" 6379) asked).rawServices =
      Function.update (fun _ => none) ⟨some "default", "a"⟩
        (some (Store.usersObject "a" "example.Users")) := rfl
  refine ⟨rfl, (settled_upstreams "redis" 6379 asked ht hl rfl "example.Users").1 _ ?_⟩
  rw [hraw]
  refine ⟨⟨Function.update_self .., rfl⟩, ?_⟩
  rintro o ⟨ho, -⟩
  by_cases href : o.objectRef = ⟨some "default", "a"⟩
  · rw [href]
    exact le_rfl
  · rw [Function.update_of_ne href] at ho
    cases ho

theorem run_entry (hostname : String) (port : UInt16) (actions : List Action)
    (hdata : (Base.run State.step (.main hostname port) actions).services.lookup n = some data) :
    (data.serviceSpec = none ∧ data.loadBalancer = none) ∨
      ∃ o, .change (.apply o) ∈ actions ∧ o.spec.serviceName = n ∧
        MadeFrom (Store.loadEnvs (actions.filterMap Action.store))
          (Base.run State.step (.main hostname port) actions) data o := by
  have h := run_simulated hostname port actions
  have hn := h.refines.services n
  rw [hdata] at hn
  generalize hy : Store.ServiceConfigState.services _ n = y at hn
  cases hn with
  | @some _ data' hstands =>
    rcases (Store.run_origins _).services n data' hy with hnone | ⟨o, spec, ho, hname, hbuilt, heq⟩
    · exact .inl (hstands.tombstone hnone)
    · obtain ⟨a, ha, hstore⟩ := List.mem_filterMap.mp ho
      refine .inr ⟨o, ?_, hname, hstands.madeFrom heq hbuilt⟩
      cases a with
      | change c =>
        cases hstore
        exact ha
      | _ => cases hstore

/-- In every run, an entry of the map is either unloaded as a whole, or its spec
and its load balancer come from one object, which was applied in the run for
that service and does not keep its descriptors in a bucket. -/
theorem entries_of_one_object (hostname : String) (port : UInt16) (actions : List Action)
    (n : String) (data : ServiceData)
    (hdata : (Base.run State.step (.main hostname port) actions).services.lookup n = some data) :
    (data.serviceSpec = none ∧ data.loadBalancer = none) ∨
      ∃ o, .change (.apply o) ∈ actions ∧ o.spec.serviceName = n ∧
        (∀ bucket hash, o.spec.descriptorSetSource ≠ some (.bucket bucket hash)) ∧
        MadeFrom (Store.loadEnvs (actions.filterMap Action.store))
          (Base.run State.step (.main hostname port) actions) data o := by
  rcases run_entry hostname port actions hdata with hnone | ⟨o, ho, hname, hmade⟩
  · exact .inl hnone
  · obtain ⟨spec, w, a, hspec, hlb, hbuilt, ha⟩ := hmade
    exact .inr ⟨o, ho, hname, hbuilt.no_bucket, spec, w, a, hspec, hlb, hbuilt, ha⟩

theorem asked_entry_of_users :
    ∃ data, (Base.run State.step (.main "redis" 6379) asked).services.lookup "example.Users" =
        some data ∧
      MadeFrom (Store.loadEnvs (asked.filterMap Action.store))
        (Base.run State.step (.main "redis" 6379) asked) data
        (Store.usersObject "a" "example.Users") := by
  obtain ⟨data, hdata, hlb⟩ : ∃ data,
      (Base.run State.step (.main "redis" 6379) asked).services.lookup "example.Users" =
        some data ∧ data.loadBalancer = some 1 := ⟨_, rfl, rfl⟩
  refine ⟨data, hdata, ?_⟩
  rcases entries_of_one_object "redis" 6379 asked "example.Users" data hdata with
    ⟨-, hnone⟩ | ⟨o, ho, -, -, hmade⟩
  · rw [hnone] at hlb
    cases hlb
  · rcases List.mem_cons.mp ho with heq | hrest
    · cases heq
      exact hmade
    · simp at hrest

-- ---------------------------------------------------------------------------
-- Requests
-- ---------------------------------------------------------------------------

/-- The reference stands for the upstream of an object of the service. -/
def For (applied : GrcacheService → Prop) (d : Discovery.State) (n : String) (w : Nat) : Prop :=
  ∃ o url port, applied o ∧ o.spec.serviceName = n ∧ o.spec.upstream = .dns url port ∧
    Stands d w ⟨url, port⟩

theorem For.mono {applied applied' : GrcacheService → Prop} (hd : d.wiring <+: d'.wiring)
    (ha : ∀ o, applied o → applied' o) (h : For applied d n w) : For applied' d' n w := by
  obtain ⟨o, url, port, ho, hn, hup, hw⟩ := h
  exact ⟨o, url, port, ha o ho, hn, hup, hw.mono hd⟩

theorem Stepped.request_cases (hs : Stepped s a s') (hr : r ∈ s'.requests) :
    r ∈ s.requests ∨
      (s.services.lookup r.serviceName).bind (·.loadBalancer) = some r.loadBalancer := by
  cases hs with
  | idle | dead | crash | loaded | dropped | reclaim | recv | start | iterate => exact .inl hr
  | record hn hrec =>
    rw [hrec.same] at hr
    exact .inl hr
  | change hn hrec hu =>
    rw [hu.kept.requests, hrec.same] at hr
    exact .inl hr
  | request hw =>
    rcases List.mem_append.mp hr with hr | hr
    · exact .inl hr
    · rw [List.mem_singleton.mp hr]
      exact .inr hw
  | keep hi =>
    rcases List.mem_append.mp hr with hr | hr
    · exact .inl hr
    · rw [List.mem_singleton.mp hr]
      exact .inl (List.mem_of_getElem? hi)
  | finish => exact .inl ((List.eraseIdx_sublist _ _).subset hr)

theorem run_lookup_for (hostname : String) (port : UInt16) (actions : List Action)
    (hw : ((Base.run State.step (.main hostname port) actions).services.lookup n).bind
      (·.loadBalancer) = some w) :
    For (fun o => .change (.apply o) ∈ actions)
      (Base.run State.step (.main hostname port) actions).discovery n w := by
  obtain ⟨data, hdata, hlb⟩ := Option.bind_eq_some_iff.mp hw
  rcases run_entry hostname port actions hdata with ⟨-, hnone⟩ | ⟨o, ho, hname, hmade⟩
  · rw [hnone] at hlb
    cases hlb
  · obtain ⟨spec, w', a, -, hlb', -, ha, hup⟩ := hmade
    obtain rfl : w' = w := Option.some.inj (hlb'.symm.trans hlb)
    refine ⟨o, a.hostPort.1, a.hostPort.2, ho, hname, hup, a.wiring, ?_, rfl⟩
    simp [Discovery.State.wiring, ha]

-- The object may be gone by now, but it was applied before the request found it.
theorem run_requests_for (hostname : String) (port : UInt16) (actions : List Action) :
    ∀ r ∈ (Base.run State.step (.main hostname port) actions).requests,
      For (fun o => .change (.apply o) ∈ actions)
        (Base.run State.step (.main hostname port) actions).discovery
        r.serviceName r.loadBalancer := by
  induction actions using List.reverseRecOn with
  | nil => exact fun r hr => nomatch hr
  | append_singleton as a ih =>
    intro r hr
    have hs : Stepped (Base.run State.step (.main hostname port) as) a
        (Base.run State.step (.main hostname port) (as ++ [a])) := by
      rw [Base.run_snoc]
      exact step_spec _ a
    have hext := hs.extends (run_owned hostname port as).attended.wired
    have hmem : ∀ o, Action.change (.apply o) ∈ as → Action.change (.apply o) ∈ as ++ [a] :=
      fun o ho => List.mem_append_left _ ho
    rcases hs.request_cases hr with hold | hfound
    · exact (ih r hold).mono hext hmem
    · exact (run_lookup_for hostname port as hfound).mono hext hmem

-- ---------------------------------------------------------------------------
-- Addresses
-- ---------------------------------------------------------------------------

theorem sourced_acquire (h : Sourced P s.discovery) (hd : Discovery.Wired s.discovery)
    (o : GrcacheService) : Sourced P (s.acquire o).2.discovery := by
  unfold State.acquire
  cases o.spec.upstream with
  | dns url port => exact h.backendsForHostname hd url port

theorem sourced_updated (h : Sourced P s.discovery) (hd : Discovery.Wired s.discovery)
    (hu : Updated s n s') : Sourced P s'.discovery := by
  cases hu with
  | unload => exact h
  | @spawn o service source ho => exact sourced_acquire h hd o
  | @publish o spec ho => exact sourced_acquire h hd o
  | @abort o ho => exact (sourced_acquire h hd o).onHeap fun _ => ⟨rfl, rfl⟩

theorem sourced_step (h : Sourced P s.discovery) (hd : Discovery.Wired s.discovery)
    (hv : ∀ i response, a = .iterate i response →
      Discovery.Vouched P s.discovery (.iterate i response)) : Sourced P (s.step a).discovery := by
  have hquiet : ∀ b, (∀ i response, b ≠ Discovery.Action.iterate i response) →
      Sourced P (s.discovery.step b) := by
    intro b hb
    exact h.step hd fun i response _ _ heq => absurd heq (hb i _)
  have hs := step_spec s a
  generalize s.step a = s' at hs
  cases hs with
  | idle | dead | crash | loaded => exact h
  | record hn hrec =>
    rw [hrec.same]
    exact h
  | change hn hrec hu =>
    have hd₁ := hrec.discovery
    exact sourced_updated (hd₁ ▸ h) (hd₁ ▸ hd) hu
  | dropped => exact hquiet (.drop _) (by simp)
  | request => exact hquiet (.clone _) (by simp)
  | keep => exact hquiet (.clone _) (by simp)
  | finish => exact hquiet (.drop _) (by simp)
  | reclaim => exact hquiet (.drop _) (by simp)
  | recv => exact hquiet .recv (by simp)
  | start => exact hquiet (.start _) (by simp)
  | iterate => exact h.step hd (hv _ _ rfl)

/-- A lookup for the host got an answer with this address in the run. -/
def Answered (init : State) (actions : List Action) (hostPort : HostPort) (b : Backend) : Prop :=
  ∃ pre i response l w, pre ++ [.iterate i (some response)] <+: actions ∧
    (Base.run State.step init pre).discovery.loops[i]? = some l ∧ l.phase = .resolving w ∧
    l.args.hostPort = hostPort ∧ b ∈ Discovery.backendsOf hostPort response

-- Every answer a run brings is one of its own.
theorem run_sourced (hostname : String) (port : UInt16) (actions : List Action) :
    Sourced (Answered (.main hostname port) actions)
      (Base.run State.step (.main hostname port) actions).discovery := by
  have hinv : Owned [] (Base.run State.step (.main hostname port) actions) ∧
      Sourced (Answered (.main hostname port) actions)
        (Base.run State.step (.main hostname port) actions).discovery := by
    refine Base.run_invariant
      (I := fun s => Owned [] s ∧ Sourced (Answered (.main hostname port) actions) s.discovery)
      (C := fun s (a : Action) => ∀ i response, a = .iterate i response →
        Discovery.Vouched (Answered (.main hostname port) actions) s.discovery
          (.iterate i response))
      ⟨.main hostname port, ?_⟩ ?_ ?_
    · exact Sourced.init.backendsForHostname Discovery.Wired.init hostname port
    · rintro s a ⟨ho, hs⟩ hanswer
      exact ⟨ho.step a, sourced_step hs ho.attended.wired hanswer⟩
    · intro pre a hp i response ha j answer l w heq hl hphase b hb
      cases heq
      exact ⟨pre, i, answer, l, w, ha ▸ hp, hl, hphase, rfl, hb⟩
  exact hinv.2

/-- In every run, the backends that a request may be sent to are addresses the
resolver answered with in the run, for the upstream of an object that was applied
in the run for the service of the request. -/
theorem requests_reach_answered_addresses (hostname : String) (port : UInt16)
    (actions : List Action) :
    ∀ r ∈ (Base.run State.step (.main hostname port) actions).requests, ∃ o a,
      .change (.apply o) ∈ actions ∧ o.spec.serviceName = r.serviceName ∧
      (Base.run State.step (.main hostname port) actions).discovery.heap[r.loadBalancer]? =
        some a ∧
      o.spec.upstream = .dns a.hostPort.1 a.hostPort.2 ∧
      ∀ b ∈ a.handle.loadBalancerRoundRobin,
        Answered (.main hostname port) actions a.hostPort b := by
  intro r hr
  have hsourced := run_sourced hostname port actions
  obtain ⟨o, url, p, ho, hn, hup, hstands⟩ := run_requests_for hostname port actions r hr
  obtain ⟨i, hi⟩ := List.mem_iff_getElem?.mp hr
  obtain ⟨a, ha, -, -⟩ :=
    (run_owned hostname port actions).references_ok (mem_references_of_request hi)
  have hhp := hstands.allocation ha
  refine ⟨o, a, ho, hn, ha, ?_, fun b hb => ?_⟩
  · rw [hup, hhp]
  · exact hsourced.balancers a (List.mem_of_getElem? ha) .roundRobin b hb

-- The loop of the service's handle gets an answer and updates the balancer.
def answered : List Action :=
  asked ++ [.recv, .start 1, .iterate 1 (some [10]), .iterate 1 none, .iterate 1 none,
    .iterate 1 none]

theorem answered_reaches_address : ∃ a,
    (Base.run State.step (.main "redis" 6379) answered).discovery.heap[1]? = some a ∧
      ⟨10, 50051, 1⟩ ∈ a.handle.loadBalancerRoundRobin ∧
      Answered (.main "redis" 6379) answered a.hostPort ⟨10, 50051, 1⟩ := by
  have hrequests : (Base.run State.step (.main "redis" 6379) answered).requests =
      [⟨"example.Users", 1⟩] := rfl
  obtain ⟨o, a, -, -, ha, -, hb⟩ := requests_reach_answered_addresses "redis" 6379 answered
    ⟨"example.Users", 1⟩ (by rw [hrequests]; exact List.mem_singleton_self _)
  have hmem : ⟨10, 50051, 1⟩ ∈ a.handle.loadBalancerRoundRobin := by
    cases ha
    decide
  exact ⟨a, ha, hmem, hb _ hmem⟩

end Grcache.Server
