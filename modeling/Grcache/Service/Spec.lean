import Grcache.Base.Fault
import Grcache.Service.QualifiedService
import Mathlib.Data.UInt

/-!
# Service specifications

`ServiceSpec::build` finds a service in a descriptor set and reads the caching
option of each of its methods. A descriptor keeps the fields the build reads:
packages, service and method names, and the `grcache` method option.
-/

namespace Grcache.Service

structure GrcacheMethodOptions where
  cacheTtl : Int32
  deriving DecidableEq, Repr

structure MethodDescriptor where
  name : String
  /-- The `grcache` extension of the method's options. -/
  grcache : Option GrcacheMethodOptions
  deriving DecidableEq, Repr

structure ServiceDescriptor where
  name : String
  methods : List MethodDescriptor
  deriving DecidableEq, Repr

structure FileDescriptorProto where
  package : String
  services : List ServiceDescriptor
  deriving DecidableEq, Repr

structure FileDescriptorSet where
  file : List FileDescriptorProto
  deriving DecidableEq, Repr

structure FileDescriptor where
  proto : FileDescriptorProto
  deriving DecidableEq, Repr

structure ProtobufError where
  message : String
  deriving DecidableEq, Repr

/-- `FileDescriptor::new_dynamic` of the protobuf crate: linking a file against
the files before it may fail, and otherwise describes that same file. -/
structure Linker where
  newDynamic : FileDescriptorProto → List FileDescriptor → Except ProtobufError FileDescriptor
  proto_eq : newDynamic descr deps = .ok f → f.proto = descr

inductive SpecError
  | descriptorError (error : ProtobufError)
  | serviceNotFound (service : QualifiedService)
  deriving DecidableEq, Repr

inductive ValidationError
  | invalidCacheTTL (value : Int32)
  deriving DecidableEq, Repr

/-- `hash_on` is always empty in the source and is left out. -/
structure CacheSpec where
  descriptor : GrcacheMethodOptions
  deriving DecidableEq, Repr

structure MethodSpec where
  name : String
  descriptor : MethodDescriptor
  cacheSpec : Option CacheSpec
  deriving DecidableEq, Repr

def MethodSpec.build (method : MethodDescriptor) : MethodSpec × List ValidationError :=
  match method.grcache with
  | none => (⟨method.name, method, none⟩, [])
  | some opt =>
    if opt.cacheTtl < 0 then (⟨method.name, method, none⟩, [.invalidCacheTTL opt.cacheTtl])
    else (⟨method.name, method, some ⟨opt⟩⟩, [])

structure ServiceSpec where
  name : QualifiedService
  passthrough : Bool
  methods : String → Option MethodSpec

def ServiceSpec.buildPassthrough (service : QualifiedService) : ServiceSpec :=
  ⟨service, true, fun _ => none⟩

def findService (descriptorSet : List FileDescriptor) (service : QualifiedService) :
    Except SpecError ServiceDescriptor :=
  match (descriptorSet.flatMap fun f => f.proto.services.map fun s => (f.proto.package, s)).find?
      fun ps => ps.1 = service.package ∧ ps.2.name = service.name with
  | some (_, s) => .ok s
  | none => .error (.serviceNotFound service)

def linkAll (linker : Linker) (files : List FileDescriptorProto) :
    Except SpecError (List FileDescriptor) :=
  files.foldlM (fun dyns descr =>
    match linker.newDynamic descr dyns with
    | .ok f => .ok (dyns ++ [f])
    | .error e => .error (.descriptorError e)) []

/-- `collect` of the methods into a map: a later method of the same name wins. -/
def methodMap (methods : List MethodDescriptor) : String → Option MethodSpec :=
  methods.foldl (fun m method =>
    let spec := (MethodSpec.build method).1
    Function.update m spec.name (some spec)) (fun _ => none)

def ServiceSpec.build (linker : Linker) (descriptorSet : FileDescriptorSet)
    (service : QualifiedService) : Except SpecError (ServiceSpec × List ValidationError) := do
  let dyns ← linkAll linker descriptorSet.file
  let serviceDescriptor ← findService dyns service
  let validationErrors := serviceDescriptor.methods.flatMap fun m => (MethodSpec.build m).2
  pure (⟨service, false, methodMap serviceDescriptor.methods⟩, validationErrors)

-- ---------------------------------------------------------------------------
-- What a build reads
-- ---------------------------------------------------------------------------

def FileDescriptorSet.firstService (descriptorSet : FileDescriptorSet)
    (service : QualifiedService) : Option ServiceDescriptor :=
  ((descriptorSet.file.flatMap fun f => f.services.map fun s => (f.package, s)).find?
    fun ps => ps.1 = service.package ∧ ps.2.name = service.name).map Prod.snd

@[simp] theorem MethodSpec.build_name (m : MethodDescriptor) :
    (MethodSpec.build m).1.name = m.name := by
  unfold MethodSpec.build
  split
  · rfl
  · split <;> rfl

theorem linkAll_proto {linker : Linker} (h : linkAll linker files = .ok dyns) :
    dyns.map (·.proto) = files := by
  induction files using List.reverseRecOn generalizing dyns with
  | nil =>
    cases h
    rfl
  | append_singleton files descr ih =>
    unfold linkAll at h ih
    rw [List.foldlM_append] at h
    obtain ⟨linked, hlinked, h⟩ := Base.bind_eq_ok_iff.mp h
    rw [List.foldlM_cons] at h
    obtain ⟨dyns', hdyns, h⟩ := Base.bind_eq_ok_iff.mp h
    cases h
    split at hdyns
    next f hf =>
      cases hdyns
      rw [List.map_append, ih hlinked, List.map_singleton, linker.proto_eq hf]
    next => cases hdyns

theorem findService_ok {dyns : List FileDescriptor} (h : findService dyns service = .ok s) :
    FileDescriptorSet.firstService ⟨dyns.map (·.proto)⟩ service = some s := by
  unfold findService at h
  split at h
  next hf =>
    cases h
    rw [FileDescriptorSet.firstService, List.flatMap_map, hf]
    rfl
  next => cases h

theorem ServiceSpec.build_ok {linker : Linker} {descriptorSet : FileDescriptorSet}
    (h : ServiceSpec.build linker descriptorSet service = .ok (spec, errors)) :
    ∃ s, descriptorSet.firstService service = some s ∧
      spec = ⟨service, false, methodMap s.methods⟩ ∧
      errors = s.methods.flatMap fun m => (MethodSpec.build m).2 := by
  unfold ServiceSpec.build at h
  obtain ⟨dyns, hdyns, h⟩ := Base.bind_eq_ok_iff.mp h
  obtain ⟨s, hfind, h⟩ := Base.bind_eq_ok_iff.mp h
  cases h
  have hs := findService_ok hfind
  rw [linkAll_proto hdyns] at hs
  exact ⟨s, hs, rfl, rfl⟩

theorem methodMap_eq (methods : List MethodDescriptor) (name : String) :
    methodMap methods name =
      (methods.reverse.find? (·.name = name)).map fun m => (MethodSpec.build m).1 := by
  induction methods using List.reverseRecOn with
  | nil => rfl
  | append_singleton methods m ih =>
    unfold methodMap at ih ⊢
    rw [List.foldl_append, List.foldl_cons, List.foldl_nil, List.reverse_append,
      List.reverse_singleton, List.singleton_append, List.find?_cons, MethodSpec.build_name]
    by_cases hm : m.name = name
    · simp [hm]
    · rw [Function.update_of_ne (Ne.symm hm), ih]
      simp [hm]

theorem methodMap_of_mem {methods : List MethodDescriptor}
    (hdistinct : (methods.map (·.name)).Nodup) (hm : m ∈ methods) :
    methodMap methods m.name = some (MethodSpec.build m).1 := by
  rw [methodMap_eq]
  cases hf : methods.reverse.find? (·.name = m.name) with
  | none =>
    rw [List.find?_eq_none] at hf
    exact absurd (by simp) (hf m (List.mem_reverse.mpr hm))
  | some m' =>
    have hname : m'.name = m.name := by simpa using List.find?_some hf
    have hm' : m' ∈ methods := List.mem_reverse.mp (List.mem_of_find?_eq_some hf)
    rw [List.inj_on_of_nodup_map hdistinct hm' hm hname]
    rfl

theorem methodMap_eq_some {methods : List MethodDescriptor}
    (h : methodMap methods name = some spec) :
    ∃ m ∈ methods, m.name = name ∧ (MethodSpec.build m).1 = spec := by
  rw [methodMap_eq] at h
  obtain ⟨m, hf, hspec⟩ := Option.map_eq_some_iff.mp h
  exact ⟨m, List.mem_reverse.mp (List.mem_of_find?_eq_some hf), by simpa using List.find?_some hf,
    hspec⟩

-- ---------------------------------------------------------------------------
-- What a build reports
-- ---------------------------------------------------------------------------

def MethodDescriptor.negativeTtl (m : MethodDescriptor) : Option Int32 :=
  (m.grcache.map (·.cacheTtl)).filter (· < 0)

structure Validated (s : ServiceDescriptor) (spec : ServiceSpec)
    (errors : List ValidationError) : Prop where
  reported : errors = s.methods.filterMap fun m => m.negativeTtl.map .invalidCacheTTL
  rejected : ∀ m ∈ s.methods, m.negativeTtl.isSome →
    spec.methods m.name = some ⟨m.name, m, none⟩
  kept : ∀ m ∈ s.methods, m.negativeTtl = none →
    spec.methods m.name = some ⟨m.name, m, m.grcache.map CacheSpec.mk⟩
  only : ∀ name, (∀ m ∈ s.methods, m.name ≠ name) → spec.methods name = none

theorem MethodSpec.build_eq (m : MethodDescriptor) :
    MethodSpec.build m = match m.negativeTtl with
      | none => (⟨m.name, m, m.grcache.map CacheSpec.mk⟩, [])
      | some ttl => (⟨m.name, m, none⟩, [.invalidCacheTTL ttl]) := by
  obtain ⟨name, grcache⟩ := m
  cases grcache with
  | none => rfl
  | some opt =>
    by_cases hneg : opt.cacheTtl < 0
    · simp [MethodSpec.build, MethodDescriptor.negativeTtl, Option.filter_some, hneg]
    · simp [MethodSpec.build, MethodDescriptor.negativeTtl, Option.filter_some, hneg]

theorem MethodSpec.build_gate (m : MethodDescriptor) :
    (∃ c, (MethodSpec.build m).1.cacheSpec = some c ∧ 0 < c.descriptor.cacheTtl) ↔
      ∃ opt, m.grcache = some opt ∧ 0 < opt.cacheTtl := by
  rw [MethodSpec.build_eq]
  cases hneg : m.negativeTtl with
  | none =>
    constructor
    · rintro ⟨c, hc, hpos⟩
      obtain ⟨opt, hopt, rfl⟩ := Option.map_eq_some_iff.mp hc
      exact ⟨opt, hopt, hpos⟩
    · rintro ⟨opt, hopt, hpos⟩
      exact ⟨⟨opt⟩, by simp [hopt], hpos⟩
  | some ttl =>
    -- a negative ttl is not positive
    obtain ⟨hmap, hlt⟩ := Option.filter_eq_some_iff.mp hneg
    constructor
    · rintro ⟨c, hc, -⟩
      cases hc
    · rintro ⟨opt, hopt, hpos⟩
      rw [hopt] at hmap
      cases hmap
      exact absurd hpos (Int32.not_lt.mpr (Int32.le_of_lt (of_decide_eq_true hlt)))

theorem validated_methodMap (service : QualifiedService) (s : ServiceDescriptor)
    (hdistinct : (s.methods.map (·.name)).Nodup) :
    Validated s ⟨service, false, methodMap s.methods⟩
      (s.methods.flatMap fun m => (MethodSpec.build m).2) where
  reported := by
    rw [List.filterMap_eq_flatMap_toList]
    refine List.flatMap_congr fun m _ => ?_
    rw [MethodSpec.build_eq]
    cases m.negativeTtl <;> rfl
  rejected m hm hneg := by
    obtain ⟨ttl, hneg⟩ := Option.isSome_iff_exists.mp hneg
    simp only [methodMap_of_mem hdistinct hm, MethodSpec.build_eq, hneg]
  kept m hm hneg := by
    simp only [methodMap_of_mem hdistinct hm, MethodSpec.build_eq, hneg]
  only name hname := by
    cases hf : methodMap s.methods name with
    | none => exact hf
    | some spec =>
      obtain ⟨m, hm, rfl, -⟩ := methodMap_eq_some hf
      exact absurd rfl (hname m hm)

end Grcache.Service
