import Mathlib.Logic.Basic

/-!
# Watch channels

tokio's `watch`: one value, and a version that grows with every change a sender
reports. A receiver remembers the version it has seen last and is woken by any
other. It reads the newest value, so the versions in between are lost to it.
-/

namespace Grcache.Base

structure Watch (α : Type*) where
  value : α
  version : Nat
  closed : Bool
  deriving DecidableEq, Repr

def Watch.channel (value : α) : Watch α := ⟨value, 0, false⟩

def Watch.sendIfModified (ch : Watch α) (modify : α → α × Bool) : Watch α :=
  { ch with
    value := (modify ch.value).1
    version := if (modify ch.value).2 then ch.version + 1 else ch.version }

def Watch.close (ch : Watch α) : Watch α := { ch with closed := true }

/-- What is not reported as a change is none. -/
def Honest (modify : α → α × Bool) : Prop := ∀ a, (modify a).2 = false → (modify a).1 = a

/-- The version seen last; `none` after `mark_changed`. -/
structure Receiver where
  seen : Option Nat
  deriving DecidableEq, Repr

def Receiver.markChanged (_r : Receiver) : Receiver := ⟨none⟩

inductive Changed
  | pending
  | changed (r : Receiver)
  | closed

/-- `changed`: a version that was not seen comes before the end of the senders. -/
def Receiver.changed (r : Receiver) (ch : Watch α) : Changed :=
  if r.seen ≠ some ch.version then .changed ⟨some ch.version⟩
  else if ch.closed then .closed
  else .pending

/-- A receiver has seen no version that is yet to come, and what it took the
value for when it saw the newest version is the value. -/
structure Follows (r : Receiver) (ch : Watch α) (P : α → Prop) : Prop where
  seen_le : ∀ v, r.seen = some v → v ≤ ch.version
  current : r.seen = some ch.version → P ch.value

variable {ch : Watch α} {r : Receiver} {P : α → Prop} {modify : α → α × Bool}

theorem Follows.sendIfModified (h : Follows r ch P) (hm : Honest modify) :
    Follows r (ch.sendIfModified modify) P := by
  cases hmod : (modify ch.value).2 with
  | false =>
    have hsame : ch.sendIfModified modify = ch := by
      simp [Watch.sendIfModified, hmod, hm _ hmod]
    rw [hsame]
    exact h
  | true =>
    have hversion : (ch.sendIfModified modify).version = ch.version + 1 := by
      simp [Watch.sendIfModified, hmod]
    refine ⟨fun v hv => ?_, fun hseen => ?_⟩
    · rw [hversion]
      exact Nat.le_succ_of_le (h.seen_le v hv)
    · rw [hversion] at hseen
      exact absurd (h.seen_le _ hseen) (Nat.not_succ_le_self _)

theorem Follows.close (h : Follows r ch P) : Follows r ch.close P := ⟨h.seen_le, h.current⟩

end Grcache.Base
