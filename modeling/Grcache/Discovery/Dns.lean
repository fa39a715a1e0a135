import Grcache.Base.Runs
import Mathlib.Data.Finset.Dedup
import Mathlib.Data.Finset.Empty

/-!
# DNS service discovery

`backends_for_hostname` hands out one shared handle for a host and port. It
registers a weak reference to it and sends the handle's senders through a
channel to the service, which spawns a discovery loop for them. The loop looks
the weak reference up again, by host and port, when its task first runs.

Callers, the service and the loops run at the same time. What holds the lock of
the handle state is one step; everything else is cut at its awaits and at its
atomic operations. An allocation is known by its number, and so is a channel.
-/

namespace Grcache.Discovery

structure Backend where
  ip : UInt32
  port : UInt16
  weight : Nat
  deriving DecidableEq, Repr

abbrev HostPort := String × UInt16

structure ServiceBackendsHandle where
  backends : Nat
  loadBalancerRoundRobin : Finset Backend
  loadBalancerConsistent : Finset Backend
  ready : Nat
  deriving DecidableEq

structure Allocation where
  -- what it was allocated for; the handle itself does not know
  hostPort : HostPort
  /-- The strong references held outside the discovery loops. -/
  held : Nat
  handle : ServiceBackendsHandle
  deriving DecidableEq

/-- `StartDiscoveryLoop`, and the arguments of the loop it starts. -/
structure Command where
  hostPort : HostPort
  readySend : Nat
  backendsSender : Nat
  deriving DecidableEq

inductive Balancer
  | roundRobin
  | consistent
  deriving DecidableEq

inductive Phase
  | spawned
  | resolving (weak : Nat)
  | resolved (weak : Nat) (backends : Finset Backend)
  | upgrading (weak : Nat)
  /-- The upgraded reference is held across both updates. -/
  | updating (weak : Nat) (next : Balancer)
  | checking (weak : Nat) (resolved : Bool)
  | announcing (weak : Nat)
  | sleeping (weak : Nat)
  | exited
  | panicked
  deriving DecidableEq

def Phase.weak : Phase → Option Nat
  | .resolving w | .resolved w _ | .upgrading w | .updating w _ | .checking w _ | .announcing w
  | .sleeping w => some w
  | .spawned | .exited | .panicked => none

def Phase.upgraded : Phase → Option Nat
  | .updating w _ => some w
  | _ => none

structure Loop where
  args : Command
  phase : Phase
  deriving DecidableEq

structure State where
  heap : List Allocation
  serviceBackends : HostPort → Option Nat
  readyChannels : List Bool
  backendsChannels : List (Finset Backend)
  commands : List Command
  loops : List Loop

def State.init : State := ⟨[], fun _ => none, [], [], [], []⟩

variable (s : State)

/-- `Weak::strong_count`. -/
def State.strongCount (w : Nat) : Nat :=
  ((s.heap[w]?.map (·.held)).getD 0) + s.loops.countP (·.phase.upgraded = some w)

def State.onHeap (w : Nat) (f : Allocation → Allocation) : State :=
  { s with heap := s.heap.modify w f }

def State.setPhase (i : Nat) (phase : Phase) : State :=
  { s with loops := s.loops.modify i fun l => { l with phase } }

def State.backendsForHostname (hostname : String) (port : UInt16) : State :=
  let hostPort := (hostname, port)
  match (s.serviceBackends hostPort).filter (0 < s.strongCount ·) with
  | some w => s.onHeap w fun a => { a with held := a.held + 1 }
  | none =>
    let ready := s.readyChannels.length
    let backends := s.backendsChannels.length
    { s with
      heap := s.heap ++ [⟨hostPort, 1, ⟨backends, ∅, ∅, ready⟩⟩]
      serviceBackends := Function.update s.serviceBackends hostPort (some s.heap.length)
      readyChannels := s.readyChannels ++ [false]
      backendsChannels := s.backendsChannels ++ [∅]
      commands := s.commands ++ [⟨hostPort, ready, backends⟩] }

-- Only a reference that is held can be cloned or dropped.
def State.clone (w : Nat) : State :=
  s.onHeap w fun a => if 0 < a.held then { a with held := a.held + 1 } else a

def State.drop (w : Nat) : State := s.onHeap w fun a => { a with held := a.held - 1 }

def State.recv : State :=
  match s.commands with
  | [] => s
  | command :: commands => { s with commands, loops := s.loops ++ [⟨command, .spawned⟩] }

def State.start (i : Nat) : State :=
  match s.loops[i]? with
  | none => s
  | some l =>
    match l.phase with
    | .spawned =>
      match s.serviceBackends l.args.hostPort with
      | some w => s.setPhase i (.resolving w)
      | none => s.setPhase i .panicked
    | _ => s

def backendsOf (hostPort : HostPort) (response : List UInt32) : Finset Backend :=
  (response.map fun addr => ⟨addr, hostPort.2, 1⟩).toFinset

/-- `LoadBalancer::update`, on what the handle's own receiver shows. -/
def State.update (w : Nat) (balancer : Balancer) : State :=
  s.onHeap w fun a =>
    let backends := (s.backendsChannels[a.handle.backends]?).getD ∅
    match balancer with
    | .roundRobin => { a with handle := { a.handle with loadBalancerRoundRobin := backends } }
    | .consistent => { a with handle := { a.handle with loadBalancerConsistent := backends } }

/-- The next step of a started loop; the response is for a loop that resolves,
and is `none` when the lookup failed. -/
def State.iterate (i : Nat) (response : Option (List UInt32)) : State :=
  match s.loops[i]? with
  | none => s
  | some l =>
    match l.phase with
    | .spawned | .exited | .panicked => s
    | .resolving w =>
      match response with
      | some response => s.setPhase i (.resolved w (backendsOf l.args.hostPort response))
      | none => s.setPhase i (.checking w false)
    | .resolved w backends =>
      if s.backendsChannels[l.args.backendsSender]? ≠ some backends then
        State.setPhase { s with
          backendsChannels := s.backendsChannels.set l.args.backendsSender backends }
          i (.upgrading w)
      else s.setPhase i (.checking w true)
    | .upgrading w =>
      if 0 < s.strongCount w then s.setPhase i (.updating w .roundRobin)
      else s.setPhase i (.checking w true)
    | .updating w .roundRobin => (s.update w .roundRobin).setPhase i (.updating w .consistent)
    | .updating w .consistent => (s.update w .consistent).setPhase i (.checking w true)
    | .checking w resolved =>
      -- all references to the handle gone: the loop stops
      if s.strongCount w = 0 then s.setPhase i .exited
      else if resolved then s.setPhase i (.announcing w)
      else s.setPhase i (.sleeping w)
    | .announcing w =>
      State.setPhase { s with readyChannels := s.readyChannels.set l.args.readySend true }
        i (.sleeping w)
    | .sleeping w => s.setPhase i (.resolving w)

inductive Action
  | backendsForHostname (hostname : String) (port : UInt16)
  | clone (w : Nat)
  | drop (w : Nat)
  | recv
  | start (i : Nat)
  | iterate (i : Nat) (response : Option (List UInt32))

def State.step : Action → State
  | .backendsForHostname hostname port => s.backendsForHostname hostname port
  | .clone w => s.clone w
  | .drop w => s.drop w
  | .recv => s.recv
  | .start i => s.start i
  | .iterate i response => s.iterate i response

end Grcache.Discovery
