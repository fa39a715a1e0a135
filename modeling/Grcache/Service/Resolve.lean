import Grcache.Service.Spec

/-!
# Resolving service names

A service name is parsed into a package and a name, and these are looked for in
the linked descriptors. protobuf names a service by its full name: the package,
a dot and the name, or the name alone when the file has no package. Splitting at
the last dot agrees with that for services with a package. Of the others the
full name has no dot and is no qualified name, while a dot and the name is one.
-/

namespace Grcache.Service

variable {files : List FileDescriptor} {s : String} {ps : String × ServiceDescriptor}

def servicesOf (files : List FileDescriptor) : List (String × ServiceDescriptor) :=
  files.flatMap fun f => f.proto.services.map fun s => (f.proto.package, s)

def fullName (ps : String × ServiceDescriptor) : String :=
  if ps.1 = "" then ps.2.name else ps.1 ++ "." ++ ps.2.name

inductive ResolveError
  | parse (error : ParseError)
  | find (error : SpecError)
  deriving DecidableEq, Repr

/-- `QualifiedService::parse`, then `find_service`. -/
def resolve (files : List FileDescriptor) (s : String) : Except ResolveError ServiceDescriptor :=
  match QualifiedService.parse s with
  | .ok service => (findService files service).mapError .find
  | .error e => .error (.parse e)

/-- Names resolve by the full names of the services. -/
structure Resolves (files : List FileDescriptor) (s : String) : Prop where
  succeeds : (∃ service, resolve files s = .ok service) ↔ ∃ ps ∈ servicesOf files, fullName ps = s
  first : ∀ service, resolve files s = .ok service →
    ((servicesOf files).find? (fullName · = s)).map Prod.snd = some service
  display : ∀ service, QualifiedService.parse s = .ok service → service.display = s

/-- The first service of that full name has a package and a plain name, and the
name is not a dot before the name of a service that has none. -/
structure Packaged (files : List FileDescriptor) (s : String) : Prop where
  first : ∀ ps, (servicesOf files).find? (fullName · = s) = some ps →
    ps.1 ≠ "" ∧ '.' ∉ ps.2.name.toList
  dotted : ∀ ps ∈ servicesOf files, ps.1 = "" → '.' ∉ ps.2.name.toList → s ≠ "." ++ ps.2.name

-- ---------------------------------------------------------------------------
-- Matching by the two parts
-- ---------------------------------------------------------------------------

/-- What `find_service` compares, in terms of the whole name. -/
def Matches (s : String) (ps : String × ServiceDescriptor) : Prop :=
  s = ps.1 ++ "." ++ ps.2.name ∧ '.' ∉ ps.2.name.toList

instance : DecidablePred (Matches s) := fun _ => inferInstanceAs (Decidable (_ ∧ _))

theorem findService_toOption (files : List FileDescriptor) (service : QualifiedService) :
    (findService files service).toOption = ((servicesOf files).find? fun ps =>
      ps.1 = service.package ∧ ps.2.name = service.name).map Prod.snd := by
  unfold findService servicesOf
  split
  next hf => rw [hf]; rfl
  next hf => rw [hf]; rfl

theorem matches_iff : Matches s ps ↔ QualifiedService.parse s = .ok ⟨ps.1, ps.2.name⟩ := by
  rw [parse_eq_ok]
  rfl

theorem resolve_toOption (files : List FileDescriptor) (s : String) :
    (resolve files s).toOption = ((servicesOf files).find? (Matches s ·)).map Prod.snd := by
  unfold resolve
  cases hp : QualifiedService.parse s with
  | error e =>
    have hnone : (servicesOf files).find? (Matches s ·) = none := by
      rw [List.find?_eq_none]
      intro ps _ hm
      rw [decide_eq_true_eq, matches_iff, hp] at hm
      cases hm
    rw [hnone]
    rfl
  | ok service =>
    have hsame : ∀ ps : String × ServiceDescriptor,
        Matches s ps ↔ ps.1 = service.package ∧ ps.2.name = service.name := by
      intro ps
      obtain ⟨package, name⟩ := service
      rw [matches_iff, hp, Except.ok.injEq, QualifiedService.mk.injEq, eq_comm,
        eq_comm (a := name)]
    have hfind : ((findService files service).mapError ResolveError.find).toOption =
        (findService files service).toOption := by
      cases findService files service <;> rfl
    simp only [hfind, findService_toOption, hsame]

theorem Matches.unique (h : Matches s ps) (h' : Matches s ps') :
    ps.1 = ps'.1 ∧ ps.2.name = ps'.2.name := by
  rw [matches_iff] at h h'
  rw [h, Except.ok.injEq, QualifiedService.mk.injEq] at h'
  exact h'

theorem Matches.fullName (h : Matches s ps) (hp : ps.1 ≠ "") : fullName ps = s := by
  rw [Service.fullName, if_neg hp, h.1]

theorem matches_of_fullName (h : fullName ps = s) (hp : ps.1 ≠ "")
    (hn : '.' ∉ ps.2.name.toList) : Matches s ps := by
  rw [fullName, if_neg hp] at h
  exact ⟨h.symm, hn⟩

theorem resolve_ok_iff : resolve files s = .ok service ↔
    ((servicesOf files).find? (Matches s ·)).map Prod.snd = some service := by
  rw [← resolve_toOption]
  cases resolve files s <;> simp [Except.toOption]

-- ---------------------------------------------------------------------------
-- The exact condition
-- ---------------------------------------------------------------------------

-- Under the condition both ways of matching find the same service.
theorem Packaged.find_eq (h : Packaged files s) :
    (servicesOf files).find? (Matches s ·) = (servicesOf files).find? (fullName · = s) := by
  cases hf : (servicesOf files).find? (fullName · = s) with
  | some ps =>
    obtain ⟨hpackage, hname⟩ := h.first ps hf
    obtain ⟨hfull, before, rest, hsplit, hbefore⟩ := List.find?_eq_some_iff_append.mp hf
    have hm : Matches s ps := matches_of_fullName (of_decide_eq_true hfull) hpackage hname
    refine List.find?_eq_some_iff_append.mpr ⟨decide_eq_true hm, before, rest, hsplit, ?_⟩
    intro ps' hps'
    have hne : ¬ fullName ps' = s := by simpa using hbefore ps' hps'
    simp only [Bool.not_eq_true', decide_eq_false_iff_not]
    intro hm'
    exact hne (hm'.fullName ((hm'.unique hm).1 ▸ hpackage))
  | none =>
    rw [List.find?_eq_none] at hf ⊢
    intro ps hps hm
    rw [decide_eq_true_eq] at hm
    by_cases hpackage : ps.1 = ""
    · refine h.dotted ps hps hpackage hm.2 ?_
      rw [hm.1, hpackage]
      rfl
    · exact hf ps hps (decide_eq_true (hm.fullName hpackage))

theorem Packaged.resolves (h : Packaged files s) : Resolves files s where
  succeeds := by
    simp only [resolve_ok_iff, h.find_eq]
    rw [← Option.isSome_iff_exists, Option.isSome_map, List.find?_isSome]
    simp
  first service hr := by
    rw [resolve_ok_iff, h.find_eq] at hr
    exact hr
  display service hp := (parse_eq_ok.mp hp).1.symm

theorem Resolves.packaged (h : Resolves files s) : Packaged files s := by
  have hfirst : ∀ ps, (servicesOf files).find? (fullName · = s) = some ps →
      ps.1 ≠ "" ∧ '.' ∉ ps.2.name.toList := by
    intro ps hf
    have hfull : fullName ps = s := by simpa using List.find?_some hf
    obtain ⟨service, hr⟩ := h.succeeds.mpr ⟨ps, List.mem_of_find?_eq_some hf, hfull⟩
    have hsame := h.first service hr
    rw [hf] at hsame
    -- the service that was found is this one, and it was found by its parts
    obtain ⟨ps', hf', rfl⟩ := Option.map_eq_some_iff.mp (resolve_ok_iff.mp hr)
    have hm : Matches s ps' := by simpa using List.find?_some hf'
    simp only [Option.map_some, Option.some.injEq] at hsame
    rw [hsame]
    refine ⟨fun hpackage => hm.2 ?_, hm.2⟩
    rw [fullName, if_pos hpackage, hsame, hm.1] at hfull
    rw [hfull]
    simp
  refine ⟨hfirst, fun ps hps hpackage hname hs => ?_⟩
  have hm : Matches s ps := ⟨by rw [hs, hpackage]; rfl, hname⟩
  have hfound : ((servicesOf files).find? (Matches s ·)).isSome := by
    rw [List.find?_isSome]
    exact ⟨ps, hps, decide_eq_true hm⟩
  obtain ⟨ps', hf'⟩ := Option.isSome_iff_exists.mp hfound
  obtain ⟨ps₀, hps₀, hfull⟩ := h.succeeds.mp ⟨ps'.2, resolve_ok_iff.mpr (by rw [hf']; rfl)⟩
  have hnamed : ((servicesOf files).find? (fullName · = s)).isSome := by
    rw [List.find?_isSome]
    exact ⟨ps₀, hps₀, decide_eq_true hfull⟩
  obtain ⟨ps₁, hf₁⟩ := Option.isSome_iff_exists.mp hnamed
  obtain ⟨hpackage₁, hname₁⟩ := hfirst ps₁ hf₁
  have hfull₁ : fullName ps₁ = s := by simpa using List.find?_some hf₁
  have hm₁ : Matches s ps₁ := matches_of_fullName hfull₁ hpackage₁ hname₁
  exact hpackage₁ ((hm₁.unique hm).1.trans hpackage)

/-- A string resolves by full name, in any set of files, exactly when the first
service it names in full has a package and a plain name, and it is not a dot
before the plain name of a service without a package. -/
theorem resolves_iff (files : List FileDescriptor) (s : String) :
    Resolves files s ↔ Packaged files s :=
  ⟨Resolves.packaged, Packaged.resolves⟩

def greeterFile : FileDescriptor := ⟨⟨"", [⟨"Greeter", []⟩]⟩⟩

/-- The full name of its service does not resolve. -/
theorem greeter_unresolved : ¬ Resolves [greeterFile] "Greeter" := by
  intro h
  obtain ⟨service, hr⟩ := h.succeeds.mpr ⟨("", ⟨"Greeter", []⟩), by decide, rfl⟩
  rw [show resolve [greeterFile] "Greeter" =
    .error (.parse (.failedParseQualifiedService "Greeter")) by decide] at hr
  cases hr

end Grcache.Service
