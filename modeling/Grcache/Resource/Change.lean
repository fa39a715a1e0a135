import Grcache.Base.Fault
import Grcache.Base.Runs
import Mathlib.Data.Finset.Insert
import Mathlib.Data.List.AList

/-!
# Resource changes

`resource_changes` turns the events of a kube watcher into the changes its
consumer has to make. It remembers the version of every object it has told the
consumer about, and the keys it has seen since the initialisation in progress
began, and it is silent about objects that have not changed.

The watched type is any `K` with keys in `R`. The order in which a hash map is
iterated is not fixed, so every event comes with one.
-/

namespace Grcache.Resource

open Base (Exec unwrap)

structure Lookup (K R : Type) where
  objectRef : K → R
  resourceVersion : K → Option String

inductive Event (K : Type)
  | init
  | initApply (r : K)
  | initDone
  | apply (r : K)
  | delete (r : K)
  deriving DecidableEq, Repr

inductive ResourceChange (K R : Type)
  | ready
  | apply (object : K)
  | delete (key : R)
  deriving DecidableEq, Repr

structure HashOrder (R : Type) where
  order : List R → List R
  perm : ∀ keys, (order keys).Perm keys

variable {K R ε : Type} [DecidableEq R]

structure Differ (R : Type) where
  objects : AList fun _ : R => String
  initPresent : Finset R

def Differ.init : Differ R := ⟨∅, ∅⟩

def observe (objects : AList fun _ : R => String) (key : R) (ver : String) (r : K) :
    (AList fun _ : R => String) × List (ResourceChange K R) :=
  match objects.lookup key with
  | some known => if known ≠ ver then (objects.insert key ver, [.apply r]) else (objects, [])
  | none => (objects.insert key ver, [.apply r])

def retain (p : R → Prop) [DecidablePred p] (objects : AList fun _ : R => String) :
    AList fun _ : R => String :=
  ⟨objects.entries.filter (p ·.1), .sublist List.filter_sublist objects.nodupKeys⟩

variable (lk : Lookup K R)

/-- One turn of the loop: the next state, and what is yielded. -/
def Differ.onEvent (hash : HashOrder R) (d : Differ R) :
    Except ε (Event K) → Exec Empty (Differ R × List (Except ε (ResourceChange K R)))
  | .ok .init => pure ({ d with initPresent := ∅ }, [])
  | .ok (.initApply r) => do
    let key := lk.objectRef r
    let ver ← unwrap (lk.resourceVersion r)
    let (objects, changes) := observe d.objects key ver r
    pure (⟨objects, insert key d.initPresent⟩, changes.map .ok)
  | .ok .initDone =>
    let removed := (hash.order d.objects.keys).filter (· ∉ d.initPresent)
    pure (⟨retain (· ∈ d.initPresent) d.objects, ∅⟩,
      removed.map (fun key => .ok (.delete key)) ++ [.ok .ready])
  | .ok (.apply r) => do
    let key := lk.objectRef r
    let ver ← unwrap (lk.resourceVersion r)
    let (objects, changes) := observe d.objects key ver r
    pure ({ d with objects }, changes.map .ok)
  | .ok (.delete r) =>
    let key := lk.objectRef r
    pure ({ d with objects := d.objects.erase key }, [.ok (.delete key)])
  | .error err => pure (d, [.error err])

structure Stream (K R ε : Type) where
  crashed : Bool
  differ : Differ R
  emitted : List (Except ε (ResourceChange K R))

def Stream.init : Stream K R ε := ⟨false, .init, []⟩

def Stream.step (s : Stream K R ε) (input : Except ε (Event K) × HashOrder R) : Stream K R ε :=
  if s.crashed then s
  else
    match s.differ.onEvent lk input.2 input.1 with
    | .ok (differ, changes) => ⟨false, differ, s.emitted ++ changes⟩
    | .error _ => { s with crashed := true }

def resourceChanges (inputs : List (Except ε (Event K) × HashOrder R)) : Stream K R ε :=
  Base.run (Stream.step lk) .init inputs

def replayChange (objects : R → Option K) : ResourceChange K R → R → Option K
  | .ready => objects
  | .apply object => Function.update objects (lk.objectRef object) (some object)
  | .delete key => Function.update objects key none

def replay (objects : R → Option K) (emitted : List (Except ε (ResourceChange K R))) :
    R → Option K :=
  emitted.foldl (fun objects change =>
    match change with
    | .ok change => replayChange lk objects change
    | .error _ => objects) objects

/-- What a watcher reports: the objects listed so far by the initialisation in
progress, and the objects as they are since the last one that completed. -/
structure Listing (K R : Type) where
  window : Option (R → Option K)
  current : Option (R → Option K)

def Listing.init : Listing K R := ⟨none, none⟩

def Listing.onEvent (l : Listing K R) : Except ε (Event K) → Listing K R
  | .ok .init => { l with window := some fun _ => none }
  | .ok (.initApply r) =>
    { l with window := l.window.map (Function.update · (lk.objectRef r) (some r)) }
  | .ok .initDone => ⟨none, l.window⟩
  | .ok (.apply r) =>
    { l with current := l.current.map (Function.update · (lk.objectRef r) (some r)) }
  | .ok (.delete r) => { l with current := l.current.map (Function.update · (lk.objectRef r) none) }
  | .error _ => l

def listing (events : List (Except ε (Event K))) : Listing K R :=
  Base.run (Listing.onEvent lk) .init events

/-- Listed objects come inside an initialisation, other changes outside. -/
def Allowed (l : Listing K R) : Except ε (Event K) → Prop
  | .ok .init => True
  | .ok (.initApply _) => l.window.isSome = true
  | .ok .initDone => l.window.isSome = true
  | .ok (.apply _) => l.window = none
  | .ok (.delete _) => l.window = none
  | .error _ => True

def Delivered (events : List (Except ε (Event K))) (r : K) : Prop :=
  .ok (.initApply r) ∈ events ∨ .ok (.apply r) ∈ events

/-- kube's protocol: an API object has a resource version, and a key and a
version make an object. -/
structure Protocol (events : List (Except ε (Event K))) : Prop where
  windows : Base.Always (Listing.onEvent lk) Allowed .init events
  versioned : ∀ r, Delivered events r → ∃ ver, lk.resourceVersion r = some ver
  sameVersion : ∀ r r', Delivered events r → Delivered events r' →
    lk.objectRef r = lk.objectRef r' → lk.resourceVersion r = lk.resourceVersion r' → r = r'

end Grcache.Resource
