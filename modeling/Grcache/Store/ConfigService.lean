import Grcache.Resource.Redundant
import Grcache.Store.Routing

/-!
# The config service

`K8SConfigService::start` in one piece: the stream of resource changes reads an
event of the watcher and yields what follows from it, one change at a time; the
loop takes the changes one by one and hands them to the store; spawned loads run
at any time. The stream reads the next event only when everything it yielded is
taken, so the store is behind the watcher by what is pending, and by no more.
-/

namespace Grcache.Store

open Service
open Base (Throughout Always Projects)
open Resource (Event Differ Listing HashOrder Protocol Delivered Converged Allowed replay)

variable {ε : Type}

-- ---------------------------------------------------------------------------
-- The service
-- ---------------------------------------------------------------------------

structure ConfigService (ε : Type) where
  differ : Differ ObjectRef
  /-- Yielded by the stream and not taken yet. -/
  pending : List (Except ε Change)
  /-- The stream panicked, and the loop that polled it with it. -/
  panicked : Bool
  loader : Loader
  ready : Bool
  /-- History: what the watcher reported so far. -/
  listed : Listing GrcacheService ObjectRef

def ConfigService.init : ConfigService ε := ⟨.init, [], false, .init, false, .init⟩

inductive ServiceAction (ε : Type)
  /-- The stream takes the next event from the watcher. -/
  | read (event : Except ε (Event GrcacheService)) (hash : HashOrder ObjectRef)
  /-- The loop takes the next change from the stream. -/
  | take
  | load (i : Nat) (env : Env)

def ConfigService.alive (s : ConfigService ε) : Bool := !s.panicked && !s.loader.crashed

def ConfigService.read (s : ConfigService ε) (event : Except ε (Event GrcacheService))
    (hash : HashOrder ObjectRef) : ConfigService ε :=
  let listed := s.listed.onEvent GrcacheService.lookup event
  match s.differ.onEvent GrcacheService.lookup hash event with
  | .ok (differ, changes) => { s with differ, pending := changes, listed }
  | .error _ => { s with panicked := true, listed }

def ConfigService.take (s : ConfigService ε) : ConfigService ε :=
  match s.pending with
  | [] => s
  | .ok .ready :: pending => { s with pending, ready := true }
  | .ok change :: pending => { s with pending, loader := s.loader.step (.change change) }
  -- logged
  | .error _ :: pending => { s with pending }

def ConfigService.step (s : ConfigService ε) : ServiceAction ε → ConfigService ε
  | .read event hash => if s.alive && s.pending.isEmpty then s.read event hash else s
  | .take => if s.alive then s.take else s
  | .load i env => { s with loader := s.loader.step (.load i env) }

def ConfigService.reads (s : ConfigService ε) :
    ServiceAction ε → Option (Except ε (Event GrcacheService))
  | .read event _ => if s.alive && s.pending.isEmpty then some event else none
  | .take | .load _ _ => none

def ConfigService.asks (s : ConfigService ε) : ServiceAction ε → Option Action
  | .read _ _ => none
  | .take =>
    if s.alive then
      match s.pending with
      | .ok change :: _ => some (.change change)
      | _ => none
    else none
  | .load i env => some (.load i env)

def eventsRead (as : List (ServiceAction ε)) : List (Except ε (Event GrcacheService)) :=
  Base.trace ConfigService.step ConfigService.reads .init as

def storeActions (as : List (ServiceAction ε)) : List Action :=
  Base.trace ConfigService.step ConfigService.asks .init as

def serviceAfter (as : List (ServiceAction ε)) : ConfigService ε :=
  Base.run ConfigService.step .init as

-- ---------------------------------------------------------------------------
-- Its parts
-- ---------------------------------------------------------------------------

theorem listed_projects : Projects (ConfigService.step (ε := ε))
    (Listing.onEvent GrcacheService.lookup) ConfigService.listed ConfigService.reads := by
  intro s a
  cases a with
  | read event hash =>
    simp only [ConfigService.step, ConfigService.reads]
    split
    · simp only [ConfigService.read]
      split <;> rfl
    · rfl
  | take =>
    simp only [ConfigService.step, ConfigService.reads]
    split
    · unfold ConfigService.take
      split <;> rfl
    · rfl
  | load i env => rfl

theorem step_change_ready (l : Loader) : l.step (.change .ready) = l := by
  simp only [Loader.step]
  split <;> rfl

theorem loader_projects : Projects (ConfigService.step (ε := ε))
    Loader.step ConfigService.loader ConfigService.asks := by
  intro s a
  cases a with
  | read event hash =>
    simp only [ConfigService.step, ConfigService.asks]
    split
    · simp only [ConfigService.read]
      split <;> rfl
    · rfl
  | take =>
    simp only [ConfigService.step, ConfigService.asks]
    split
    · unfold ConfigService.take
      split
      next hp => simp [hp]
      next hp => simp [hp, step_change_ready]
      next hp => simp [hp]
      next hp => simp [hp]
    · rfl
  | load i env => rfl

-- ---------------------------------------------------------------------------
-- The invariant
-- ---------------------------------------------------------------------------

variable {s : ConfigService ε} {events : List (Except ε (Event GrcacheService))}

/-- What the store holds once it has taken everything that is pending. -/
def ConfigService.upcoming (s : ConfigService ε) : Objects :=
  replay GrcacheService.lookup s.loader.state.rawServices s.pending

structure Following (events : List (Except ε (Event GrcacheService))) (s : ConfigService ε) :
    Prop where
  panicked : s.panicked = false
  healthy : Healthy s.loader
  converged : Converged GrcacheService.lookup events s.listed s.differ s.upcoming
  applies : ∀ o, .ok (.apply o) ∈ s.pending → Dotted o.spec.serviceName
  /-- Readiness is the last that an initialisation yields. -/
  announces : .ok .ready ∈ s.pending → s.listed.window = none ∧ s.listed.current.isSome ∧
    ∀ before pending, s.pending = before ++ .ok .ready :: pending → pending = []
  announced : s.ready = true → s.listed.current.isSome

theorem Following.init : Following events (.init : ConfigService ε) where
  panicked := rfl
  healthy := .init
  converged := .init _
  applies _ h := nomatch h
  announces h := nomatch h
  announced h := nomatch h

theorem Following.alive (h : Following events s) : s.alive = true := by
  simp [ConfigService.alive, h.panicked, h.healthy.alive]

-- An object that is yielded is held next.
theorem turn_applied {objects objects' : AList fun _ : ObjectRef => String}
    {out : List (Except ε Change)}
    (ht : Resource.Turn GrcacheService.lookup objects objects' out) (ho : .ok (.apply o) ∈ out)
    (held : Objects) : replay GrcacheService.lookup held out o.objectRef = some o := by
  cases ht with
  | apply hv hne =>
    simp only [List.mem_singleton, Except.ok.injEq, Resource.ResourceChange.apply.injEq] at ho
    subst ho
    exact Function.update_self ..
  | sweep hash present => simp at ho
  | _ => simp at ho

-- An initialisation that completes leaves a listing, and so do all events after it.
theorem current_isSome {l : Listing GrcacheService ObjectRef} (ha : Allowed l event)
    (h : l.current.isSome ∨ event = (.ok .initDone : Except ε (Event GrcacheService))) :
    (l.onEvent GrcacheService.lookup event).current.isSome := by
  rcases event with err | event
  · simpa [Listing.onEvent] using h
  · cases event with
    | init => simpa [Listing.onEvent] using h
    | initApply r => simpa [Listing.onEvent] using h
    | initDone => exact ha
    | apply r => simpa [Listing.onEvent] using h
    | delete r => simpa [Listing.onEvent] using h

theorem ready_last {removed : List ObjectRef} {before pending : List (Except ε Change)}
    (h : (removed.map fun key => .ok (.delete key)) ++ [.ok .ready] =
      before ++ .ok .ready :: pending) : pending = [] := by
  induction removed generalizing before with
  | nil =>
    cases before with
    | nil => simpa using h.symm
    | cons change before => simp at h
  | cons key removed ih =>
    cases before with
    | nil => simp at h
    | cons change before => exact ih (List.cons.inj h).2

theorem Following.read (hp : Protocol GrcacheService.lookup events)
    (hd : ∀ o, Delivered events o → Dotted o.spec.serviceName) (h : Following events s)
    (hempty : s.pending = []) (he : event ∈ events) (ha : Allowed s.listed event)
    (hash : HashOrder ObjectRef) : Following events (s.read event hash) := by
  have hheld : s.upcoming = s.loader.state.rawServices := by
    rw [ConfigService.upcoming, hempty]
    rfl
  obtain ⟨d', out, hevent, hconv, hemits⟩ := h.converged.onEvent _ hp ha he hash
  have hturn := Resource.onEvent_turn _ hevent
  have hread : s.read event hash = { s with
      differ := d', pending := out, listed := s.listed.onEvent GrcacheService.lookup event } := by
    simp only [ConfigService.read, hevent]
  rw [hheld] at hconv
  rw [hread]
  refine ⟨h.panicked, h.healthy, hconv, fun o ho => hd o ?_, fun hready => ?_, fun hready => ?_⟩
  · exact (hconv.told.delivered _ o (turn_applied hturn ho _)).2
  · have hdone : event = .ok .initDone := by
      by_contra hne
      exact hemits.ready hne hready
    obtain ⟨removed, hout, -⟩ := hemits.done hdone
    refine ⟨by rw [hdone]; rfl, current_isSome ha (.inr hdone), fun before pending hpending => ?_⟩
    exact ready_last (hout.symm.trans hpending)
  · exact current_isSome ha (.inl (h.announced hready))

theorem Following.announces_tail (h : Following events s) (hp : s.pending = change :: pending)
    (hready : .ok .ready ∈ pending) : s.listed.window = none ∧ s.listed.current.isSome ∧
      ∀ before rest, pending = before ++ .ok .ready :: rest → rest = [] := by
  obtain ⟨hwindow, hcurrent, hlast⟩ := h.announces (by rw [hp]; exact List.mem_cons_of_mem _ hready)
  refine ⟨hwindow, hcurrent, fun before rest hrest => hlast (change :: before) rest ?_⟩
  rw [hp, hrest]
  rfl

theorem Following.take (h : Following events s) : Following events s.take := by
  have hupcoming := h.converged
  unfold ConfigService.upcoming at hupcoming
  unfold ConfigService.take
  split
  next => exact h
  next pending hp =>
    rw [hp] at hupcoming
    obtain ⟨-, hcurrent, hlast⟩ := h.announces (by simp [hp])
    obtain rfl := hlast [] _ hp
    exact ⟨h.panicked, h.healthy, hupcoming, nofun, nofun, fun _ => hcurrent⟩
  next change pending hne hp =>
    have ha : AppliesDotted (.change change) := by
      cases change with
      | apply o => exact h.applies o (by simp [hp])
      | _ => trivial
    have hhealthy := h.healthy.step ha
    have hraw := (step_spec h.healthy.indexed (.change change)).objects h.healthy.indexed
      hhealthy.alive
    rw [hp] at hupcoming
    refine ⟨h.panicked, hhealthy, ?_, fun o ho => ?_, fun hready => ?_, h.announced⟩
    · rw [ConfigService.upcoming, hraw]
      exact hupcoming
    · exact h.applies o (by rw [hp]; exact List.mem_cons_of_mem _ ho)
    · exact h.announces_tail hp hready
  next err pending hp =>
    rw [hp] at hupcoming
    refine ⟨h.panicked, h.healthy, hupcoming, fun o ho => ?_, h.announces_tail hp, h.announced⟩
    exact h.applies o (by rw [hp]; exact List.mem_cons_of_mem _ ho)

theorem Following.load (h : Following events s) (i : Nat) (env : Env) :
    Following events { s with loader := s.loader.step (.load i env) } := by
  have hs := step_spec h.healthy.indexed (.load i env)
  have hraw : (s.loader.step (.load i env)).state.rawServices = s.loader.state.rawServices := by
    generalize s.loader.step (.load i env) = l' at hs
    cases hs <;> rfl
  refine ⟨h.panicked, h.healthy.step (a := .load i env) trivial, ?_, h.applies, h.announces,
    h.announced⟩
  rw [ConfigService.upcoming, hraw]
  exact h.converged

def Reads (events : List (Except ε (Event GrcacheService))) (s : ConfigService ε)
    (a : ServiceAction ε) : Prop :=
  ∀ event, s.reads a = some event → event ∈ events ∧ Allowed s.listed event

theorem Following.step (hp : Protocol GrcacheService.lookup events)
    (hd : ∀ o, Delivered events o → Dotted o.spec.serviceName) (h : Following events s)
    (ha : Reads events s a) : Following events (s.step a) := by
  cases a with
  | read event hash =>
    simp only [ConfigService.step]
    split
    next hread =>
      have hempty : s.pending = [] := by
        simp only [Bool.and_eq_true, List.isEmpty_iff] at hread
        exact hread.2
      obtain ⟨he, hallowed⟩ := ha event (by rw [ConfigService.reads, if_pos hread])
      exact h.read hp hd hempty he hallowed hash
    next => exact h
  | take =>
    simp only [ConfigService.step, h.alive, ↓reduceIte]
    exact h.take
  | load i env => exact h.load i env

theorem always_reads {as : List (ServiceAction ε)}
    (hp : Protocol GrcacheService.lookup (eventsRead as)) :
    Always ConfigService.step (Reads (eventsRead as)) .init as := by
  have hallowed := (Base.always_trace listed_projects).mp hp.windows
  intro pre a hpre event hevent
  exact ⟨Base.mem_trace hpre hevent, hallowed pre a hpre event hevent⟩

theorem run_following {as : List (ServiceAction ε)}
    (hp : Protocol GrcacheService.lookup (eventsRead as))
    (hd : ∀ o, Delivered (eventsRead as) o → Dotted o.spec.serviceName) (hpre : pre <+: as) :
    Following (eventsRead as) (serviceAfter pre) :=
  Base.run_invariant .init (fun _ _ h ha => h.step hp hd ha) ((always_reads hp).initial hpre)

-- ---------------------------------------------------------------------------
-- Runs
-- ---------------------------------------------------------------------------

structure InStep (s : ConfigService ε) : Prop where
  alive : s.alive = true
  /-- Nothing is pending: the store holds the objects of the cluster. -/
  objects : s.pending = [] → s.listed.window = none →
    ∀ m, s.listed.current = some m → s.loader.state.rawServices = m
  /-- The next thing to happen is that readiness is announced. -/
  ready : ∀ pending, s.pending = .ok .ready :: pending →
    s.listed.window = none ∧ s.listed.current = some s.loader.state.rawServices
  announced : s.ready = true → s.listed.current.isSome

theorem Following.inStep (h : Following events s) : InStep s where
  alive := h.alive
  objects hempty hwindow m hm := by
    have hcurrent := h.converged.current hwindow m hm
    rwa [ConfigService.upcoming, hempty] at hcurrent
  ready pending hp := by
    obtain ⟨hwindow, hsome, hlast⟩ := h.announces (by simp [hp])
    obtain rfl := hlast [] pending hp
    obtain ⟨m, hm⟩ := Option.isSome_iff_exists.mp hsome
    have hcurrent := h.converged.current hwindow m hm
    rw [ConfigService.upcoming, hp] at hcurrent
    exact ⟨hwindow, by rw [hm, ← hcurrent]; rfl⟩
  announced := h.announced

/-- The service never dies on a watcher that keeps to the protocol and lists
dotted names; it holds the watched objects whenever it has caught up, and it
announces readiness only then. -/
theorem config_service_follows_watcher (as : List (ServiceAction ε))
    (hp : Protocol GrcacheService.lookup (eventsRead as))
    (hd : ∀ o, Delivered (eventsRead as) o → Dotted o.spec.serviceName) :
    Throughout ConfigService.step InStep .init as :=
  fun _ hpre => (run_following hp hd hpre).inStep

def inOrder : HashOrder ObjectRef := ⟨id, fun _ => .refl _⟩

-- Two lists, with a change and an error between them; the second one lacks the first object.
def relisted : List (ServiceAction String) :=
  [.read (.ok .init) inOrder, .read (.ok (.initApply (usersObject "a" "example.Users"))) inOrder,
    .take, .read (.ok .initDone) inOrder, .take, .read (.error "gone") inOrder, .take,
    .read (.ok (.apply (usersObject "b" "example.Users"))) inOrder, .take,
    .read (.ok .init) inOrder, .read (.ok (.initApply (usersObject "b" "example.Users"))) inOrder,
    .read (.ok .initDone) inOrder, .take, .take]

theorem relisted_events : eventsRead relisted =
    [.ok .init, .ok (.initApply (usersObject "a" "example.Users")), .ok .initDone, .error "gone",
      .ok (.apply (usersObject "b" "example.Users")), .ok .init,
      .ok (.initApply (usersObject "b" "example.Users")), .ok .initDone] := rfl

theorem relisted_delivered (h : Delivered (eventsRead relisted) o) :
    o = usersObject "a" "example.Users" ∨ o = usersObject "b" "example.Users" := by
  rw [Delivered, relisted_events] at h
  simp at h
  tauto

theorem relisted_protocol : Protocol GrcacheService.lookup (eventsRead relisted) := by
  refine ⟨?_, fun o ho => ⟨"1", ?_⟩, fun o o' ho ho' href _ => ?_⟩
  · rw [relisted_events]
    simp [Base.always_cons, Base.always_nil, Allowed, Listing.onEvent, Listing.init]
  · rcases relisted_delivered ho with rfl | rfl <;> rfl
  · rcases relisted_delivered ho with rfl | rfl <;> rcases relisted_delivered ho' with rfl | rfl
    all_goals first | rfl | (revert href; decide)

theorem relisted_dotted (h : Delivered (eventsRead relisted) o) : Dotted o.spec.serviceName := by
  rcases relisted_delivered h with rfl | rfl <;> exact (by decide : Dotted "example.Users")

/-- The store is left with the second object. -/
theorem relisted_objects : (serviceAfter relisted).loader.state.rawServices =
    Function.update (fun _ => none) (usersObject "b" "example.Users").objectRef
      (some (usersObject "b" "example.Users")) := by
  have hstep := config_service_follows_watcher relisted relisted_protocol
    (fun _ => relisted_dotted) relisted List.prefix_rfl
  exact hstep.objects rfl rfl _ rfl

end Grcache.Store
