import Grcache.Server.Model
import Grcache.Store.Index

/-!
# The steps of the server

What a call of `update_service` and a step of the server can do, said once. A
call first asks for the handle of the selected object's upstream. After that the
reference it got has three ways to go: into a spawned load, into the map, or, if
the map is ahead, back to where it came from.
-/

namespace Grcache.Server

open Service
open Store (ObjectRef GrcacheService Change)

variable {s s' : State}

theorem updateServiceIfNewer_cases (hlb : data.loadBalancer = some w)
    (hok : s.updateServiceIfNewer n data = .ok s') :
    s' = s.publish n data ∨ s' = s.release w := by
  unfold State.updateServiceIfNewer at hok
  rw [hlb] at hok
  split at hok
  · split at hok
    · obtain ⟨spec, -, hs'⟩ := Base.bind_eq_ok_iff.mp hok
      cases hs'
      exact .inl rfl
    · cases hok
      exact .inr rfl
  · obtain ⟨spec, -, hs'⟩ := Base.bind_eq_ok_iff.mp hok
    cases hs'
    exact .inl rfl

-- ---------------------------------------------------------------------------
-- Calls
-- ---------------------------------------------------------------------------

def State.called (s : State) : State := { s with specGeneration := s.specGeneration + 1 }

def State.acquire (s : State) (o : GrcacheService) : Nat × State :=
  s.called.backendsForUpstream o.spec.upstream

def State.spawn (s : State) (task : LoadTask) : State := { s with spawned := s.spawned ++ [task] }

/-- What `update_service` selects: the object of the least reference listed. -/
def State.Selects (s : State) (n : String) (o : GrcacheService) : Prop :=
  ∃ l r, s.refByGrpcService n = some l ∧ l.argmin ObjectRef.key = some r ∧
    s.rawServices r = some o

inductive Updated (s : State) (n : String) : State → Prop
  | unload (hl : s.refByGrpcService n = some []) :
      Updated s n (s.called.publish n ⟨s.specGeneration, none, none⟩)
  | spawn (ho : s.Selects n o) :
      Updated s n ((s.acquire o).2.spawn
        ⟨s.specGeneration, o.spec.serviceName, service, source, (s.acquire o).1⟩)
  | publish (ho : s.Selects n o) :
      Updated s n ((s.acquire o).2.publish o.spec.serviceName
        ⟨s.specGeneration, some spec, some (s.acquire o).1⟩)
  | abort (ho : s.Selects n o) : Updated s n ((s.acquire o).2.release (s.acquire o).1)

theorem acquire_same (s : State) (o : GrcacheService) :
    (s.acquire o).2 = { s.called with discovery := (s.acquire o).2.discovery } := by
  unfold State.acquire
  cases o.spec.upstream with
  | dns url port => rfl

/-- A call has no part in the objects and the requests, and does not panic. -/
structure Kept (s s' : State) : Prop where
  rawServices : s'.rawServices = s.rawServices
  refByGrpcService : s'.refByGrpcService = s.refByGrpcService
  requests : s'.requests = s.requests
  crashed : s'.crashed = s.crashed

theorem Updated.kept (hu : Updated s n s') : Kept s s' := by
  have hacquire : ∀ o, Kept s (s.acquire o).2 := by
    intro o
    rw [acquire_same]
    exact ⟨rfl, rfl, rfl, rfl⟩
  cases hu with
  | unload => exact ⟨rfl, rfl, rfl, rfl⟩
  | @spawn o => exact { hacquire o with }
  | @publish o => exact { hacquire o with }
  | @abort o => exact { hacquire o with }

theorem updateService_spec (hok : s.updateService n = .ok s') : Updated s n s' := by
  unfold State.updateService at hok
  obtain ⟨objects, hl, hok⟩ := Base.bind_eq_ok_iff.mp hok
  rw [Base.unwrap_ok] at hl
  split at hok
  next hempty =>
    cases hok
    exact .unload (List.isEmpty_iff.mp hempty ▸ hl)
  next =>
    obtain ⟨r, hmin, hok⟩ := Base.bind_eq_ok_iff.mp hok
    obtain ⟨o, ho, hok⟩ := Base.bind_eq_ok_iff.mp hok
    obtain ⟨service, -, hok⟩ := Base.bind_eq_ok_iff.mp hok
    rw [Base.unwrap_ok] at hmin ho
    have hsel : s.Selects n o := ⟨objects, r, hl, hmin, ho⟩
    simp only at hok
    split at hok
    · cases hok
      exact .spawn hsel
    · rcases updateServiceIfNewer_cases rfl hok with rfl | rfl
      · exact .publish hsel
      · exact .abort hsel

/-- What a change does before its call: only the objects may differ. -/
structure Recorded (s s₁ : State) : Prop where
  same : s₁ = { s with rawServices := s₁.rawServices, refByGrpcService := s₁.refByGrpcService }

theorem Recorded.discovery (h : Recorded s s₁) : s₁.discovery = s.discovery := by
  rw [h.same]

theorem removeNoupdate_spec (hok : s.removeNoupdate r = .ok (previous, s₁)) :
    previous = s.rawServices r ∧ Recorded s s₁ := by
  unfold State.removeNoupdate at hok
  split at hok
  next hnone =>
    cases hok
    exact ⟨hnone.symm, ⟨rfl⟩⟩
  next old hold =>
    obtain ⟨objects, -, hok⟩ := Base.bind_eq_ok_iff.mp hok
    cases hok
    exact ⟨hold.symm, ⟨rfl⟩⟩

/-- The service a change calls `update_service` for. -/
def serviceOf (raw : Store.Objects) : Change → Option String
  | .ready => none
  | .apply object => some object.spec.serviceName
  | .delete objectRef => (raw objectRef).map (·.spec.serviceName)

theorem handle_spec (hok : s.handle c = .ok s') :
    ∃ s₁, Recorded s s₁ ∧
      (serviceOf s.rawServices c = none ∧ s' = s₁ ∨
        ∃ n, serviceOf s.rawServices c = some n ∧ Updated s₁ n s') := by
  cases c with
  | ready =>
    cases hok
    exact ⟨s, ⟨rfl⟩, .inl ⟨rfl, rfl⟩⟩
  | apply object =>
    obtain ⟨⟨previous, s₁⟩, hrem, hok⟩ := Base.bind_eq_ok_iff.mp hok
    obtain ⟨-, hrec⟩ := removeNoupdate_spec hrem
    refine ⟨s₁.insertObject object, ⟨?_⟩, .inr ⟨_, rfl, updateService_spec hok⟩⟩
    rw [hrec.same]
    rfl
  | delete objectRef =>
    obtain ⟨⟨previous, s₁⟩, hrem, hok⟩ := Base.bind_eq_ok_iff.mp hok
    obtain ⟨hprevious, hrec⟩ := removeNoupdate_spec hrem
    refine ⟨s₁, hrec, ?_⟩
    cases previous with
    | none =>
      cases hok
      exact .inl ⟨by simp [serviceOf, ← hprevious], rfl⟩
    | some previous =>
      refine .inr ⟨_, ?_, updateService_spec hok⟩
      simp [serviceOf, ← hprevious]

-- ---------------------------------------------------------------------------
-- Steps
-- ---------------------------------------------------------------------------

def State.takeTask (s : State) (i : Nat) : State := { s with spawned := s.spawned.eraseIdx i }

/-- Everything a step of the server can do. -/
inductive Stepped (s : State) : Action → State → Prop
  | idle (ha : ∀ c, a ≠ .change c) : Stepped s a s
  | dead (hc : s.crashed = true) : Stepped s (.change c) s
  | crash : Stepped s (.change c) { s with crashed := true }
  | record (hn : serviceOf s.rawServices c = none) (hrec : Recorded s s₁) :
      Stepped s (.change c) s₁
  | change (hn : serviceOf s.rawServices c = some n) (hrec : Recorded s s₁)
      (hu : Updated s₁ n s₂) : Stepped s (.change c) s₂
  | loaded (ht : s.spawned[i]? = some task) :
      Stepped s (.load i env) ((s.takeTask i).publish task.serviceName
        ⟨task.generation, some spec, some task.loadBalancer⟩)
  | dropped (ht : s.spawned[i]? = some task) :
      Stepped s (.load i env) ((s.takeTask i).release task.loadBalancer)
  | request (hw : (s.services.lookup n).bind (·.loadBalancer) = some w) :
      Stepped s (.request n) { s with
        requests := s.requests ++ [⟨n, w⟩]
        discovery := s.discovery.clone w }
  | keep (hr : s.requests[i]? = some r) :
      Stepped s (.keep i) { s with
        requests := s.requests ++ [r]
        discovery := s.discovery.clone r.loadBalancer }
  | finish (hr : s.requests[i]? = some r) :
      Stepped s (.finish i)
        (State.release { s with requests := s.requests.eraseIdx i } r.loadBalancer)
  | reclaim (hw : s.retired[i]? = some w) :
      Stepped s (.reclaim i) (State.release { s with retired := s.retired.eraseIdx i } w)
  | recv : Stepped s .recv { s with discovery := s.discovery.recv }
  | start : Stepped s (.start i) { s with discovery := s.discovery.start i }
  | iterate : Stepped s (.iterate i response) { s with
      discovery := s.discovery.iterate i response }

theorem step_spec (s : State) (a : Action) : Stepped s a (s.step a) := by
  unfold State.step
  cases a with
  | change c =>
    simp only
    split
    next hc => exact .dead hc
    next =>
      split
      next s' hok =>
        obtain ⟨s₁, hrec, ⟨hn, rfl⟩ | ⟨n, hn, hu⟩⟩ := handle_spec hok
        · exact .record hn hrec
        · exact .change hn hrec hu
      next => exact .crash
  | load i env =>
    simp only
    split
    next => exact .idle (by simp)
    next task ht =>
      split
      next s' hok =>
        obtain ⟨spec, -, hok⟩ := Base.bind_eq_ok_iff.mp hok
        rcases updateServiceIfNewer_cases rfl hok with rfl | rfl
        · exact .loaded ht
        · exact .dropped ht
      next => exact .dropped ht
  | request n =>
    simp only
    split
    next => exact .idle (by simp)
    next w hw => exact .request hw
  | keep i =>
    simp only
    split
    next => exact .idle (by simp)
    next r hr => exact .keep hr
  | finish i =>
    simp only
    split
    next => exact .idle (by simp)
    next r hr => exact .finish hr
  | reclaim i =>
    simp only
    split
    next => exact .idle (by simp)
    next w hw => exact .reclaim hw
  | recv => exact .recv
  | start i => exact .start
  | iterate i response => exact .iterate

end Grcache.Server
