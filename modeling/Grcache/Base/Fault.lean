import Mathlib.Logic.Function.Basic

/-!
# Results of fallible code

Rust code stops in two ways: it returns an error, which its caller sees, or it
panics, which no caller sees. `Exec` keeps the two apart.
-/

namespace Grcache.Base

inductive Fault (ε : Type*)
  | error (e : ε)
  | panic
  deriving DecidableEq, Repr

abbrev Exec (ε α : Type*) := Except (Fault ε) α

/-- `Option::unwrap` and `Option::expect`. -/
def unwrap : Option α → Exec ε α
  | some a => .ok a
  | none => .error .panic

/-- `?` on a result that carries no panic. -/
def raise : Except ε α → Exec ε α
  | .ok a => .ok a
  | .error e => .error (.error e)

def mapErr (f : ε → ε') : Exec ε α → Exec ε' α
  | .ok a => .ok a
  | .error .panic => .error .panic
  | .error (.error e) => .error (.error (f e))

/-- `unwrap` on a result: the error is lost in the panic. -/
def unwrapOk : Exec ε α → Exec ε' α
  | .ok a => .ok a
  | .error _ => .error .panic

theorem bind_eq_ok_iff {x : Except ε α} {k : α → Except ε β} :
    (x >>= k) = .ok b ↔ ∃ a, x = .ok a ∧ k a = .ok b := by
  cases x with
  | ok a => exact ⟨fun h => ⟨a, rfl, h⟩, fun ⟨_, ha, h⟩ => by cases ha; exact h⟩
  | error e => exact ⟨fun h => (nomatch h), fun ⟨_, ha, _⟩ => (nomatch ha)⟩

theorem map_bind {x : Except ε α} {k : α → Except ε β} {f : β → γ} :
    (x >>= k).map f = x >>= fun a => (k a).map f := by
  cases x <;> rfl

theorem bind_ne_panic {x : Exec ε α} {k : α → Exec ε β} (hx : x ≠ .error .panic)
    (hk : ∀ a, x = .ok a → k a ≠ .error .panic) : (x >>= k) ≠ .error .panic := by
  cases x with
  | ok a => exact hk a rfl
  | error e => exact fun h => hx (by cases h; rfl)

@[simp] theorem ok_bind {f : α → Except ε β} : (Except.ok a >>= f) = f a := rfl

@[simp] theorem error_bind {f : α → Except ε β} : (Except.error e >>= f) = .error e := rfl

@[simp] theorem pure_eq_ok : (pure a : Except ε α) = .ok a := rfl

@[simp] theorem unwrap_some : (unwrap (some a) : Exec ε α) = .ok a := rfl

@[simp] theorem unwrap_ok {o : Option α} : (unwrap o : Exec ε α) = .ok a ↔ o = some a := by
  cases o <;> simp [unwrap]

@[simp] theorem unwrapOk_ok {x : Exec ε α} : (unwrapOk x : Exec ε' α) = .ok a ↔ x = .ok a := by
  cases x <;> simp [unwrapOk]

@[simp] theorem mapErr_ok {f : ε → ε'} {x : Exec ε α} : mapErr f x = .ok a ↔ x = .ok a := by
  rcases x with (_ | _) | _ <;> simp [mapErr]

theorem raise_ne_panic {x : Except ε α} : raise x ≠ .error .panic := by
  cases x <;> simp [raise]

theorem mapErr_ne_panic {f : ε → ε'} {x : Exec ε α} (h : x ≠ .error .panic) :
    mapErr f x ≠ .error .panic := by
  rcases x with (_ | _) | _ <;> simp_all [mapErr]

@[simp] theorem raise_ok {x : Except ε α} : raise x = .ok a ↔ x = .ok a := by
  cases x <;> simp [raise]

/-- Two computations that return related values, or both do not return. -/
inductive Agree (R : α → β → Prop) : Except ε α → Except ε' β → Prop
  | ok (h : R a b) : Agree R (.ok a) (.ok b)
  | error : Agree R (.error e) (.error e')

theorem Agree.bind {x : Except ε α} {y : Except ε' β} {f : α → Except ε γ} {g : β → Except ε' δ}
    (h : Agree R x y) (hk : ∀ a b, R a b → Agree S (f a) (g b)) :
    Agree S (x >>= f) (y >>= g) := by
  cases h with
  | ok hab => exact hk _ _ hab
  | error => exact .error

theorem Agree.refl (x : Except ε α) : Agree Eq x x := by
  cases x with
  | ok a => exact .ok rfl
  | error e => exact .error

theorem Agree.bind_ok {x : Except ε α} {y : Except ε' β} {g : β → γ} (h : Agree R x y)
    (hk : ∀ a b, R a b → S a (g b)) : Agree S x (y >>= fun b => .ok (g b)) := by
  cases h with
  | ok hab => exact .ok (hk _ _ hab)
  | error => exact .error

theorem rel_imp {x : Option α} {y : Option β} (h : Option.Rel R x y)
    (hRS : ∀ a b, R a b → S a b) : Option.Rel S x y := by
  cases h with
  | some hab => exact .some (hRS _ _ hab)
  | none => exact .none

end Grcache.Base
