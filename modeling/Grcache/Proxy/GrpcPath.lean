import Grcache.Base.Split
import Grcache.Proxy.Request

/-!
# The grammar of gRPC paths

`parse_grpc_path` takes the parts of a split path one by one. What it accepts is
a slash, a service, a slash and a method, neither of which has a slash in it:
the split has exactly three parts then, and the first is empty.
-/

namespace Grcache.Proxy

open Base (Bytes Separated)
open Http Grpc

def utf8 (s : String) : Bytes := s.toUTF8.data.toList

structure IsGrpcPath (path : Bytes) (service method : String) : Prop where
  valid : (fromUtf8 path).isSome
  bytes : path = ascii "/" ++ utf8 service ++ ascii "/" ++ utf8 method
  service_clean : '/' ∉ service.toList
  method_clean : '/' ∉ method.toList

theorem fromUtf8_eq_some : fromUtf8 path = some s ↔ utf8 s = path := by
  unfold fromUtf8 String.fromUTF8? utf8
  constructor
  · intro h
    split at h
    · cases h
      rfl
    · cases h
  · rintro rfl
    have hvalid : (ByteArray.mk s.toUTF8.data.toList.toArray).IsValidUTF8 := s.isValidUTF8
    rw [dif_pos hvalid]
    rfl

theorem utf8_append (s t : String) : utf8 (s ++ t) = utf8 s ++ utf8 t := by
  simp [utf8, String.toByteArray_append]

theorem utf8_slash : utf8 "/" = ascii "/" := by decide

theorem isGrpcPath_iff : IsGrpcPath path service method ↔
    fromUtf8 path = some ("/" ++ service ++ "/" ++ method) ∧
      '/' ∉ service.toList ∧ '/' ∉ method.toList := by
  have hbytes : utf8 ("/" ++ service ++ "/" ++ method) =
      ascii "/" ++ utf8 service ++ ascii "/" ++ utf8 method := by
    simp only [utf8_append, utf8_slash]
  rw [fromUtf8_eq_some, hbytes]
  constructor
  · rintro ⟨-, hpath, hservice, hmethod⟩
    exact ⟨hpath.symm, hservice, hmethod⟩
  · rintro ⟨hpath, hservice, hmethod⟩
    have hvalid : fromUtf8 path = some ("/" ++ service ++ "/" ++ method) :=
      fromUtf8_eq_some.mpr (hbytes.trans hpath)
    exact ⟨by rw [hvalid]; rfl, hpath.symm, hservice, hmethod⟩

theorem separated_path {service method p : String} :
    Separated '/' [[], service.toList, method.toList] p.toList ↔
      p = "/" ++ service ++ "/" ++ method ∧ '/' ∉ service.toList ∧ '/' ∉ method.toList := by
  have hjoin : ['/'].intercalate [[], service.toList, method.toList] = p.toList ↔
      p = "/" ++ service ++ "/" ++ method := by
    rw [← String.toList_inj, eq_comm]
    simp [List.intercalate_cons_cons, String.toList_append]
  constructor
  · rintro ⟨-, hclean, hjoined⟩
    exact ⟨hjoin.mp hjoined, hclean _ (by simp), hclean _ (by simp)⟩
  · rintro ⟨hp, hservice, hmethod⟩
    refine ⟨by simp, ?_, hjoin.mpr hp⟩
    rintro piece hpiece
    simp only [List.mem_cons, List.not_mem_nil, or_false] at hpiece
    rcases hpiece with rfl | rfl | rfl
    · simp
    · exact hservice
    · exact hmethod

-- ---------------------------------------------------------------------------
-- The parser
-- ---------------------------------------------------------------------------

-- The checks in order: the first part is empty, there is a third and no fourth.
theorem parseGrpcPath_ok : parseGrpcPath path = .ok (service, method) ↔
    ∃ p, fromUtf8 path = some p ∧
      p.toList.splitOn '/' = [[], service.toList, method.toList] := by
  unfold parseGrpcPath
  cases fromUtf8 path with
  | none => simp
  | some p =>
    simp only [Option.some.injEq, exists_eq_left']
    generalize p.toList.splitOn '/' = parts
    rcases parts with _ | ⟨first, _ | ⟨second, _ | ⟨third, rest⟩⟩⟩
    · simp
    · cases first <;> simp
    · cases first <;> simp
    · cases first with
      | cons c first => simp
      | nil =>
        cases rest with
        | cons fourth rest => simp
        | nil =>
          simp only [List.head?_cons, ne_eq, not_true_eq_false, ↓reduceIte, List.tail_cons,
            List.head?_nil, Option.isNone_some, Option.isSome_none, Bool.or_self,
            Bool.false_eq_true, Base.unwrap_some, Base.ok_bind, Base.pure_eq_ok,
            Except.ok.injEq, Prod.mk.injEq, List.cons.injEq, true_and, and_true]
          rw [← String.toList_inj, ← String.toList_inj, String.toList_ofList,
            String.toList_ofList]

theorem parseGrpcPath_ok_iff : parseGrpcPath path = .ok (service, method) ↔
    IsGrpcPath path service method := by
  rw [parseGrpcPath_ok, isGrpcPath_iff]
  constructor
  · rintro ⟨p, hutf8, hparts⟩
    obtain ⟨hp, hclean⟩ := separated_path.mp (Base.splitOn_eq_iff.mp hparts)
    exact ⟨hp ▸ hutf8, hclean⟩
  · rintro ⟨hutf8, hclean⟩
    exact ⟨_, hutf8, Base.splitOn_eq_iff.mpr (separated_path.mpr ⟨rfl, hclean⟩)⟩

/-- Every byte string: it is accepted exactly if it is the path of a service and
a method, which are then the ones returned and no other, and it is rejected with
an error, never by a panic, exactly if it is none. -/
theorem parseGrpcPath_exact (path : Bytes) :
    (∀ service method, parseGrpcPath path = .ok (service, method) ↔
      IsGrpcPath path service method) ∧
    (∀ service method service' method', IsGrpcPath path service method →
      IsGrpcPath path service' method' → service = service' ∧ method = method') ∧
    ((∃ e, parseGrpcPath path = .error (.error e)) ↔
      ∀ service method, ¬ IsGrpcPath path service method) ∧
    parseGrpcPath path ≠ .error .panic := by
  refine ⟨fun _ _ => parseGrpcPath_ok_iff, ?_, ?_, parseGrpcPath_ne_panic path⟩
  · intro service method service' method' h h'
    rw [← parseGrpcPath_ok_iff] at h h'
    rw [h] at h'
    cases h'
    exact ⟨rfl, rfl⟩
  · constructor
    · rintro ⟨e, he⟩ service method h
      rw [← parseGrpcPath_ok_iff, he] at h
      cases h
    · intro hnone
      cases hparse : parseGrpcPath path with
      | ok sm => exact absurd (parseGrpcPath_ok_iff.mp hparse) (hnone sm.1 sm.2)
      | error fault =>
        cases fault with
        | error e => exact ⟨e, rfl⟩
        | panic => exact absurd hparse (parseGrpcPath_ne_panic path)

end Grcache.Proxy
