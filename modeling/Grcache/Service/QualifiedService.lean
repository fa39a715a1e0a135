import Mathlib.Data.List.Basic

/-!
# Qualified service names

`QualifiedService::parse` splits a service name at its last dot. A name without
a dot is an error.
-/

namespace Grcache.Service

def rsplitOnce (sep : Char) : List Char → Option (List Char × List Char)
  | [] => none
  | c :: cs =>
    match rsplitOnce sep cs with
    | some (left, right) => some (c :: left, right)
    | none => if c = sep then some ([], cs) else none

structure QualifiedService where
  package : String
  name : String
  deriving DecidableEq, Repr

inductive ParseError
  | failedParseQualifiedService (name : String)
  deriving DecidableEq, Repr

def QualifiedService.parse (qualifiedService : String) : Except ParseError QualifiedService :=
  match rsplitOnce '.' qualifiedService.toList with
  | some (package, serviceName) => .ok ⟨String.ofList package, String.ofList serviceName⟩
  | none => .error (.failedParseQualifiedService qualifiedService)

def QualifiedService.display (service : QualifiedService) : String :=
  service.package ++ "." ++ service.name

def Dotted (serviceName : String) : Prop := '.' ∈ serviceName.toList

instance (n : String) : Decidable (Dotted n) := inferInstanceAs (Decidable (_ ∈ _))

theorem rsplitOnce_eq_none : rsplitOnce sep cs = none ↔ sep ∉ cs := by
  induction cs with
  | nil => simp [rsplitOnce]
  | cons c cs ih =>
    cases hr : rsplitOnce sep cs with
    | none =>
      have hcs : sep ∉ cs := ih.mp hr
      by_cases hc : c = sep
      · simp [rsplitOnce, hr, hc]
      · simp [rsplitOnce, hr, hc, hcs, Ne.symm hc]
    | some p =>
      have hcs : sep ∈ cs := by
        by_contra h
        simp [ih.mpr h] at hr
      simp [rsplitOnce, hr, hcs]

theorem parse_ok_iff : (∃ service, QualifiedService.parse n = .ok service) ↔ Dotted n := by
  unfold QualifiedService.parse Dotted
  cases hr : rsplitOnce '.' n.toList with
  | none => simp [rsplitOnce_eq_none.mp hr]
  | some p =>
    have : '.' ∈ n.toList := by
      by_contra h
      simp [rsplitOnce_eq_none.mpr h] at hr
    simp [this]

theorem rsplitOnce_append (hright : sep ∉ right) :
    rsplitOnce sep (left ++ sep :: right) = some (left, right) := by
  induction left with
  | nil => simp [rsplitOnce, rsplitOnce_eq_none.mpr hright]
  | cons c left ih => simp [rsplitOnce, ih]

theorem rsplitOnce_some (h : rsplitOnce sep cs = some (left, right)) :
    cs = left ++ sep :: right ∧ sep ∉ right := by
  induction cs generalizing left with
  | nil => cases h
  | cons c cs ih =>
    unfold rsplitOnce at h
    split at h
    next left' right' hr =>
      cases h
      obtain ⟨hcs, hright⟩ := ih hr
      exact ⟨by rw [hcs, List.cons_append], hright⟩
    next hr =>
      split at h
      next hc =>
        cases h
        exact ⟨by rw [hc, List.nil_append], rsplitOnce_eq_none.mp hr⟩
      next => cases h

theorem rsplitOnce_eq_some : rsplitOnce sep cs = some (left, right) ↔
    cs = left ++ sep :: right ∧ sep ∉ right :=
  ⟨rsplitOnce_some, fun ⟨hcs, hright⟩ => hcs ▸ rsplitOnce_append hright⟩

theorem parse_eq_ok : QualifiedService.parse n = .ok service ↔
    n = service.display ∧ '.' ∉ service.name.toList := by
  obtain ⟨package, name⟩ := service
  have hsplit : rsplitOnce '.' n.toList = some (package.toList, name.toList) ↔
      n = package ++ "." ++ name ∧ '.' ∉ name.toList := by
    rw [rsplitOnce_eq_some, ← String.toList_inj]
    simp
  rw [QualifiedService.display, ← hsplit, QualifiedService.parse]
  cases rsplitOnce '.' n.toList with
  | none => simp
  | some p =>
    obtain ⟨left, right⟩ := p
    simp only [Except.ok.injEq, QualifiedService.mk.injEq, Option.some.injEq, Prod.mk.injEq]
    rw [← String.toList_inj, ← String.toList_inj, String.toList_ofList, String.toList_ofList]

end Grcache.Service
