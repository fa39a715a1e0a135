import Grcache.Base.Counting
import Grcache.Discovery.Dns
import Grcache.Store.Model

/-!
# The server

`main` puts the parts together: one DNS discovery handle is shared by the
service loader, which asks it for the upstream of every object, and by the cache
backend. From there on strong references to a `ServiceBackendsHandle` move
around. A spawned load carries one, the published map holds one per entry, a
request clones the entry it found, and an entry that was replaced keeps its
reference until the map reclaims it. Discovery only sees how many there are.

The store of `Store.Model` is modelled here once more, with references in the
place of host and port. A reference is the number of the allocation it points
to, and every clone and drop is a step of the discovery state.
-/

namespace Grcache.Server

open Base (Exec unwrap unwrapOk raise)
open Service
open Discovery (HostPort)
open Store (ObjectRef Upstream GrcacheService Change)

-- ---------------------------------------------------------------------------
-- State
-- ---------------------------------------------------------------------------

structure ServiceData where
  generation : Nat
  serviceSpec : Option ServiceSpec
  loadBalancer : Option Nat

abbrev Services := AList fun _ : String => ServiceData

structure LoadTask where
  generation : Nat
  serviceName : String
  service : QualifiedService
  source : DescriptorSetSource
  loadBalancer : Nat

structure Request where
  serviceName : String
  loadBalancer : Nat

structure State where
  specGeneration : Nat
  services : Services
  rawServices : ObjectRef → Option GrcacheService
  refByGrpcService : String → Option (List ObjectRef)
  spawned : List LoadTask
  /-- Entries that were replaced and not yet reclaimed. -/
  retired : List Nat
  requests : List Request
  /-- `RedisPools::backends`; the cache backend is leaked. -/
  cache : Nat
  discovery : Discovery.State
  crashed : Bool

/-- What `backends_for_hostname` returns. -/
def handleFor (discovery : Discovery.State) (hostPort : HostPort) : Nat :=
  ((discovery.serviceBackends hostPort).filter (0 < discovery.strongCount ·)).getD
    discovery.heap.length

/-- What `main` leaves when it runs the server, for the host and port that the
configuration gives for `redis`. -/
def State.main (hostname : String) (port : UInt16) : State where
  specGeneration := 0
  services := ∅
  rawServices := fun _ => none
  refByGrpcService := fun _ => none
  spawned := []
  retired := []
  requests := []
  cache := handleFor .init (hostname, port)
  discovery := Discovery.State.init.backendsForHostname hostname port
  crashed := false

variable (s : State)

-- ---------------------------------------------------------------------------
-- References
-- ---------------------------------------------------------------------------

def State.release (w : Nat) : State := { s with discovery := s.discovery.drop w }

def State.backendsForUpstream : Upstream → Nat × State
  | .dns url port => (handleFor s.discovery (url, port),
      { s with discovery := s.discovery.backendsForHostname url port })

/-- An insert into the map, which takes over the reference of `data`. -/
def State.publish (serviceName : String) (data : ServiceData) : State :=
  let old := (s.services.lookup serviceName).bind (·.loadBalancer)
  { s with
    services := s.services.insert serviceName data
    retired := s.retired ++ old.toList }

-- `data` is dropped on the way out, and the clone that `compute` made stays. The
-- spec is unwrapped in the log line after the insert, and every caller passes one.
def State.updateServiceIfNewer (serviceName : String) (data : ServiceData) :
    Exec Empty State :=
  match s.services.lookup serviceName with
  | some value =>
    if value.generation < data.generation then do
      let _spec ← unwrap data.serviceSpec
      pure (s.publish serviceName data)
    else
      match data.loadBalancer with
      | some w => pure (s.release w)
      | none => pure s
  | none => do
    let _spec ← unwrap data.serviceSpec
    pure (s.publish serviceName data)

-- ---------------------------------------------------------------------------
-- The loader
-- ---------------------------------------------------------------------------

def State.updateService (grpcService : String) : Exec Empty State := do
  let objects ← unwrap (s.refByGrpcService grpcService)
  let generation := s.specGeneration
  let called := { s with specGeneration := s.specGeneration + 1 }
  if objects.isEmpty then
    pure (called.publish grpcService ⟨generation, none, none⟩)
  else
    let objectRef ← unwrap (objects.argmin ObjectRef.key)
    let object ← unwrap (s.rawServices objectRef)
    let serviceName := object.spec.serviceName
    let service ← unwrapOk (raise (QualifiedService.parse serviceName))
    -- before the old entry goes
    let (loadBalancer, called) := called.backendsForUpstream object.spec.upstream
    match object.spec.descriptorSetSource with
    | some source =>
      pure { called with
        spawned := called.spawned ++ [⟨generation, serviceName, service, source, loadBalancer⟩] }
    | none =>
      called.updateServiceIfNewer serviceName
        ⟨generation, some (ServiceSpec.buildPassthrough service), some loadBalancer⟩

def State.removeNoupdate (objectRef : ObjectRef) :
    Exec Empty (Option GrcacheService × State) :=
  match s.rawServices objectRef with
  | none => pure (none, s)
  | some previous => do
    let name := previous.spec.serviceName
    let objects ← unwrap (s.refByGrpcService name)
    pure (some previous, { s with
      rawServices := Function.update s.rawServices objectRef none
      refByGrpcService :=
        Function.update s.refByGrpcService name (some (objects.erase objectRef)) })

def State.remove (objectRef : ObjectRef) : Exec Empty State := do
  let (previous, s) ← s.removeNoupdate objectRef
  match previous with
  | some previous => s.updateService previous.spec.serviceName
  | none => pure s

def State.insertObject (object : GrcacheService) : State :=
  let objects := (s.refByGrpcService object.spec.serviceName).getD []
  { s with
    rawServices := Function.update s.rawServices object.objectRef (some object)
    refByGrpcService := Function.update s.refByGrpcService object.spec.serviceName
      (some (objects.insert object.objectRef)) }

def State.apply (object : GrcacheService) : Exec Empty State := do
  let (_previous, s) ← s.removeNoupdate object.objectRef
  (s.insertObject object).updateService object.spec.serviceName

def State.handle : Change → Exec Empty State
  | .ready => pure s
  | .apply object => s.apply object
  | .delete objectRef => s.remove objectRef

def State.load (env : Env) (task : LoadTask) : Exec Empty State := do
  let spec ← loadSpec env task.source task.service
  s.updateServiceIfNewer task.serviceName ⟨task.generation, some spec, some task.loadBalancer⟩

-- ---------------------------------------------------------------------------
-- The system
-- ---------------------------------------------------------------------------

inductive Action
  | change (c : Change)
  | load (i : Nat) (env : Env)
  /-- A request looks its service up. -/
  | request (serviceName : String)
  /-- A request clones the data it holds. -/
  | keep (i : Nat)
  | finish (i : Nat)
  | reclaim (i : Nat)
  /-- A step of the discovery service. -/
  | recv
  | start (i : Nat)
  | iterate (i : Nat) (response : Option (List UInt32))

def State.step : Action → State
  | .change c =>
    if s.crashed then s else
      match s.handle c with
      | .ok s => s
      | .error _ => { s with crashed := true }
  | .load i env =>
    match s.spawned[i]? with
    | none => s
    | some task =>
      let rest := { s with spawned := s.spawned.eraseIdx i }
      match rest.load env task with
      | .ok s => s
      | .error _ => rest.release task.loadBalancer
  | .request serviceName =>
    match (s.services.lookup serviceName).bind (·.loadBalancer) with
    | none => s
    | some w => { s with
        requests := s.requests ++ [⟨serviceName, w⟩]
        discovery := s.discovery.clone w }
  | .keep i =>
    match s.requests[i]? with
    | none => s
    | some r => { s with
        requests := s.requests ++ [r]
        discovery := s.discovery.clone r.loadBalancer }
  | .finish i =>
    match s.requests[i]? with
    | none => s
    | some r => State.release { s with requests := s.requests.eraseIdx i } r.loadBalancer
  | .reclaim i =>
    match s.retired[i]? with
    | none => s
    | some w => State.release { s with retired := s.retired.eraseIdx i } w
  | .recv => { s with discovery := s.discovery.recv }
  | .start i => { s with discovery := s.discovery.start i }
  | .iterate i response => { s with discovery := s.discovery.iterate i response }

end Grcache.Server
