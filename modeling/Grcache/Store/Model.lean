import Grcache.Resource.Change
import Grcache.Service.DescriptorSet
import Mathlib.Data.List.MinMax
import Mathlib.Data.List.Lex
import Mathlib.Data.Prod.Lex
import Mathlib.Data.String.Basic

/-!
# The service store

`ServiceConfigState` follows the `GrcacheService` objects of a cluster and
publishes one `ServiceData` per gRPC service name in a map the proxy reads. An
object with a descriptor source is published by a spawned load, which runs at
any later time; every other write happens while the change is handled.

Maps are functions to `Option`, a hash set is the list its iterator yields. The
store sees a backends handle as the hostname and port it was asked for.
-/

namespace Grcache.Store

open Base (Exec unwrap unwrapOk raise)
open Service
open Resource (ResourceChange)

-- ---------------------------------------------------------------------------
-- Objects
-- ---------------------------------------------------------------------------

structure ObjectRef where
  ns : Option String
  name : String
  deriving DecidableEq, Repr

/-- The selection key `(&v.namespace, &v.name)`; an absent namespace sorts
first. -/
def ObjectRef.key (r : ObjectRef) : List String ×ₗ String := toLex (r.ns.toList, r.name)

inductive Upstream
  | dns (url : String) (port : UInt16)
  deriving DecidableEq, Repr

structure GrcacheServiceSpec where
  upstream : Upstream
  serviceName : String
  descriptorSetSource : Option DescriptorSetSource
  deriving DecidableEq, Repr

structure GrcacheService where
  ns : Option String
  name : String
  resourceVersion : Option String
  spec : GrcacheServiceSpec
  deriving DecidableEq, Repr

def GrcacheService.objectRef (o : GrcacheService) : ObjectRef := ⟨o.ns, o.name⟩

def GrcacheService.lookup : Resource.Lookup GrcacheService ObjectRef :=
  ⟨GrcacheService.objectRef, GrcacheService.resourceVersion⟩

abbrev Change := ResourceChange GrcacheService ObjectRef

-- ---------------------------------------------------------------------------
-- State
-- ---------------------------------------------------------------------------

structure BackendsHandle where
  hostname : String
  port : UInt16
  deriving DecidableEq, Repr

structure ServiceData where
  generation : Nat
  serviceSpec : Option ServiceSpec
  loadBalancer : Option BackendsHandle

abbrev Services := String → Option ServiceData

structure LoadTask where
  generation : Nat
  serviceName : String
  service : QualifiedService
  source : DescriptorSetSource
  loadBalancer : BackendsHandle
  deriving DecidableEq, Repr

/-- `attempted` and `lastCall` are history: every write attempted so far, and
the generation of the last `update_service` call of each name. No operation
reads them. -/
structure ServiceConfigState where
  specGeneration : Nat
  services : Services
  rawServices : ObjectRef → Option GrcacheService
  refByGrpcService : String → Option (List ObjectRef)
  spawned : List LoadTask
  attempted : List (String × ServiceData)
  lastCall : String → Option Nat

def ServiceConfigState.init : ServiceConfigState :=
  ⟨0, fun _ => none, fun _ => none, fun _ => none, [], [], fun _ => none⟩

-- ---------------------------------------------------------------------------
-- Operations
-- ---------------------------------------------------------------------------

-- `compute` inserts first, and the log line unwraps the spec after it. No caller
-- passes data without one.
def updateServiceIfNewer (services : Services) (serviceName : String) (data : ServiceData) :
    Exec Empty Services :=
  match services serviceName with
  | some value =>
    if value.generation < data.generation then do
      -- `Compute::Updated`
      let _spec ← unwrap data.serviceSpec
      pure (Function.update services serviceName (some data))
    else pure services
  | none => do
    -- `Compute::Inserted`
    let _spec ← unwrap data.serviceSpec
    pure (Function.update services serviceName (some data))

def backendsForUpstream : Upstream → BackendsHandle
  | .dns url port => ⟨url, port⟩

variable (st : ServiceConfigState)

def ServiceConfigState.updateService (grpcService : String) : Exec Empty ServiceConfigState := do
  let objects ← unwrap (st.refByGrpcService grpcService)
  let generation := st.specGeneration
  let called := { st with
    specGeneration := st.specGeneration + 1
    lastCall := Function.update st.lastCall grpcService (some generation) }
  if objects.isEmpty then
    -- the tombstone is inserted without a generation check
    let data : ServiceData := ⟨generation, none, none⟩
    pure { called with
      services := Function.update st.services grpcService (some data)
      attempted := (grpcService, data) :: st.attempted }
  else
    let objectRef ← unwrap (objects.argmin ObjectRef.key)
    let object ← unwrap (st.rawServices objectRef)
    let serviceName := object.spec.serviceName
    let service ← unwrapOk (raise (QualifiedService.parse serviceName))
    let loadBalancer := backendsForUpstream object.spec.upstream
    match object.spec.descriptorSetSource with
    | some source =>
      pure { called with
        spawned := st.spawned ++ [⟨generation, serviceName, service, source, loadBalancer⟩] }
    | none =>
      let data : ServiceData :=
        ⟨generation, some (ServiceSpec.buildPassthrough service), some loadBalancer⟩
      let services ← updateServiceIfNewer st.services serviceName data
      pure { called with services, attempted := (serviceName, data) :: st.attempted }

def ServiceConfigState.removeNoupdate (objectRef : ObjectRef) :
    Exec Empty (Option GrcacheService × ServiceConfigState) :=
  match st.rawServices objectRef with
  | none => pure (none, st)
  | some previous => do
    let name := previous.spec.serviceName
    let objects ← unwrap (st.refByGrpcService name)
    pure (some previous, { st with
      rawServices := Function.update st.rawServices objectRef none
      refByGrpcService :=
        Function.update st.refByGrpcService name (some (objects.erase objectRef)) })

def ServiceConfigState.remove (objectRef : ObjectRef) : Exec Empty ServiceConfigState := do
  let (previous, st) ← st.removeNoupdate objectRef
  match previous with
  | some previous => st.updateService previous.spec.serviceName
  | none => pure st

def ServiceConfigState.insertObject (object : GrcacheService) : ServiceConfigState :=
  let objects := (st.refByGrpcService object.spec.serviceName).getD []
  { st with
    rawServices := Function.update st.rawServices object.objectRef (some object)
    refByGrpcService := Function.update st.refByGrpcService object.spec.serviceName
      (some (objects.insert object.objectRef)) }

def ServiceConfigState.apply (object : GrcacheService) : Exec Empty ServiceConfigState := do
  let (_previous, st) ← st.removeNoupdate object.objectRef
  (st.insertObject object).updateService object.spec.serviceName

/-- One turn of the loop of `K8SConfigService::start`. `Ready` only signals
readiness. -/
def ServiceConfigState.handle : Change → Exec Empty ServiceConfigState
  | .ready => pure st
  | .apply object => st.apply object
  | .delete objectRef => st.remove objectRef

def ServiceConfigState.load (env : Env) (task : LoadTask) : Exec Empty ServiceConfigState := do
  let spec ← loadSpec env task.source task.service
  let data : ServiceData := ⟨task.generation, some spec, some task.loadBalancer⟩
  let services ← updateServiceIfNewer st.services task.serviceName data
  pure { st with services, attempted := (task.serviceName, data) :: st.attempted }

-- ---------------------------------------------------------------------------
-- The system
-- ---------------------------------------------------------------------------

inductive Action
  | change (c : Change)
  | load (i : Nat) (env : Env)

/-- The store, its spawned loads, and whether the loop has panicked. The loads
hold the map themselves, so they outlive the loop. -/
structure Loader where
  state : ServiceConfigState
  crashed : Bool

def Loader.init : Loader := ⟨.init, false⟩

def Loader.step (l : Loader) : Action → Loader
  | .change c =>
    if l.crashed then l else
      match l.state.handle c with
      | .ok state => { l with state }
      | .error _ => { l with crashed := true }
  | .load i env =>
    match l.state.spawned[i]? with
    | none => l
    | some task =>
      let rest := { l.state with spawned := l.state.spawned.eraseIdx i }
      match rest.load env task with
      | .ok state => { l with state }
      | .error _ => { l with state := rest }

end Grcache.Store
