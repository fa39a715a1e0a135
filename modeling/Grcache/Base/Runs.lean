import Mathlib.Data.List.Infix

/-!
# Runs of a total transition function

A component that reacts to actions one at a time is a total function
`step : σ → α → σ`; an action that finds nothing to act on leaves the state as
it was. A run is the left fold of `step`, and the states it visits are the ones
its prefixes lead to. The rules here turn a one-step argument into a fact about
every state of every run.
-/

namespace Grcache.Base

variable {σ α : Type*} {step : σ → α → σ}

def run (step : σ → α → σ) (s : σ) (as : List α) : σ := as.foldl step s

@[simp] theorem run_nil : run step s [] = s := rfl

@[simp] theorem run_cons : run step s (a :: as) = run step (step s a) as := rfl

theorem run_append : run step s (as ++ bs) = run step (run step s as) bs :=
  List.foldl_append

@[simp] theorem run_snoc : run step s (as ++ [a]) = step (run step s as) a := by
  simp [run_append]

/-- Every state a run visits, the first and the last included. -/
def Throughout (step : σ → α → σ) (P : σ → Prop) (s : σ) (as : List α) : Prop :=
  ∀ pre, pre <+: as → P (run step s pre)

/-- Every action of a run, with the state it is taken in. -/
def Always (step : σ → α → σ) (C : σ → α → Prop) (s : σ) (as : List α) : Prop :=
  ∀ pre a, pre ++ [a] <+: as → C (run step s pre) a

def Sometime (step : σ → α → σ) (C : σ → α → Prop) (s : σ) (as : List α) : Prop :=
  ∃ pre a, pre ++ [a] <+: as ∧ C (run step s pre) a

theorem always_snoc :
    Always step C s (as ++ [a]) ↔ Always step C s as ∧ C (run step s as) a := by
  constructor
  · intro h
    exact ⟨fun pre b hb => h pre b (hb.trans (List.prefix_append _ _)), h as a List.prefix_rfl⟩
  · rintro ⟨hpre, hlast⟩ pre b hb
    rcases List.prefix_concat_iff.mp hb with hb | hb
    · obtain ⟨rfl, hab⟩ := List.append_inj' hb rfl
      cases hab
      exact hlast
    · exact hpre pre b hb

theorem Always.initial (h : Always step C s as) (hp : pre <+: as) : Always step C s pre :=
  fun q b hb => h q b (hb.trans hp)

theorem always_nil : Always step C s [] := fun pre a hp => by simp at hp

theorem always_cons : Always step C s (a :: as) ↔ C s a ∧ Always step C (step s a) as := by
  constructor
  · intro h
    refine ⟨h [] a ⟨as, rfl⟩, fun pre b hb => ?_⟩
    exact h (a :: pre) b ((List.prefix_cons_inj a).mpr hb)
  · rintro ⟨ha, h⟩ pre b hb
    cases pre with
    | nil =>
      obtain ⟨rfl, -⟩ := List.cons_prefix_cons.mp hb
      exact ha
    | cons c pre =>
      obtain ⟨rfl, htail⟩ := List.cons_prefix_cons.mp hb
      exact h pre b htail

theorem sometime_iff : Sometime step C s as ↔ ¬ Always step (fun s a => ¬ C s a) s as := by
  simp [Sometime, Always]

theorem sometime_snoc :
    Sometime step C s (as ++ [a]) ↔ Sometime step C s as ∨ C (run step s as) a := by
  rw [sometime_iff, sometime_iff, always_snoc, not_and_or, not_not]

theorem Sometime.mono (h : Sometime step C s pre) (hp : pre <+: as) : Sometime step C s as := by
  obtain ⟨q, a, hq, hc⟩ := h
  exact ⟨q, a, hq.trans hp, hc⟩

theorem always_true : Always step (fun _ _ => True) s as := fun _ _ _ => trivial

theorem always_iff_mem {C : α → Prop} :
    Always step (fun _ a => C a) s as ↔ ∀ a ∈ as, C a := by
  constructor
  · intro h a ha
    obtain ⟨pre, post, rfl⟩ := List.append_of_mem ha
    exact h pre a ⟨post, by simp⟩
  · intro h pre a hp
    exact h a (hp.subset (by simp))

/-- The invariant rule for a run whose actions all meet `C`. -/
theorem run_invariant {I : σ → Prop} {C : σ → α → Prop} (hs : I s)
    (hstep : ∀ s a, I s → C s a → I (step s a)) (hc : Always step C s as) :
    I (run step s as) := by
  induction as using List.reverseRecOn with
  | nil => exact hs
  | append_singleton as a ih =>
    obtain ⟨hpre, ha⟩ := always_snoc.mp hc
    simpa using hstep _ _ (ih hpre) ha

theorem throughout_of_invariant {I P : σ → Prop} {C : σ → α → Prop} (hs : I s)
    (hstep : ∀ s a, I s → C s a → I (step s a)) (hP : ∀ s, I s → P s)
    (hc : Always step C s as) : Throughout step P s as :=
  fun _ hp => hP _ (run_invariant hs hstep (hc.initial hp))

/-- What is recorded of a run: exactly what some action of it did. -/
theorem run_records {I H : σ → Prop} {C : σ → α → Prop} (hs : I s)
    (hstep : ∀ s a, I s → I (step s a)) (hnone : ¬ H s)
    (hrec : ∀ s a, I s → (H (step s a) ↔ H s ∨ C s a)) :
    H (run step s as) ↔ Sometime step C s as := by
  induction as using List.reverseRecOn with
  | nil => exact iff_of_false hnone fun h => sometime_iff.mp h always_nil
  | append_singleton as a ih =>
    have hI : I (run step s as) := run_invariant hs (fun s a h _ => hstep s a h) always_true
    rw [run_snoc, hrec _ a hI, ih, sometime_snoc]

/-- A run is good throughout exactly when its actions all meet `C`, provided
good steps keep the invariant and a step that breaks `C` shows at once. -/
theorem throughout_iff_always {I P : σ → Prop} {C : σ → α → Prop} (hs : I s)
    (hstep : ∀ s a, I s → C s a → I (step s a)) (hP : ∀ s, I s → P s)
    (hbad : ∀ s a, I s → ¬ C s a → ¬ P (step s a)) :
    Throughout step P s as ↔ Always step C s as := by
  refine ⟨fun h => ?_, throughout_of_invariant hs hstep hP⟩
  induction as using List.reverseRecOn with
  | nil => exact always_nil
  | append_singleton as a ih =>
    have hpre : Always step C s as :=
      ih fun pre hp => h pre (hp.trans (List.prefix_append _ _))
    have hlast : C (run step s as) a := by
      by_contra hc
      refine hbad _ _ (run_invariant hs hstep hpre) hc ?_
      simpa using h (as ++ [a]) List.prefix_rfl
    exact always_snoc.mpr ⟨hpre, hlast⟩

/-- A countdown that no action sets back, and that some actions take further:
as many of those end it, whatever comes in between. -/
theorem run_countdown {P : Nat → σ → Prop} {counts : α → Bool}
    (hkeep : ∀ n s a, P n s → P n (step s a))
    (hcount : ∀ n s a, counts a = true → P (n + 1) s → P n (step s a))
    (hs : P n s) (hn : n ≤ as.countP counts) : P 0 (run step s as) := by
  induction as generalizing n s with
  | nil =>
    obtain rfl : n = 0 := by simpa using hn
    exact hs
  | cons a as ih =>
    rw [List.countP_cons] at hn
    cases n with
    | zero => exact ih (hkeep 0 s a hs) (Nat.zero_le _)
    | succ n =>
      split at hn
      next ha => exact ih (hcount n s a ha hs) (Nat.le_of_succ_le_succ hn)
      next => exact ih (hkeep _ s a hs) hn

-- ---------------------------------------------------------------------------
-- Parts of a system
-- ---------------------------------------------------------------------------

/-- The actions a part of the system takes in a run: `act` tells which one, if
any, an action of the whole is to the part. -/
def trace {β : Type*} (step : σ → α → σ) (act : σ → α → Option β) : σ → List α → List β
  | _, [] => []
  | s, a :: as => (act s a).toList ++ trace step act (step s a) as

def Projects {τ β : Type*} (step : σ → α → σ) (part : τ → β → τ) (proj : σ → τ)
    (act : σ → α → Option β) : Prop :=
  ∀ s a, proj (step s a) = run part (proj s) (act s a).toList

section
variable {τ β : Type*} {part : τ → β → τ} {proj : σ → τ} {act : σ → α → Option β}

theorem run_trace (h : Projects step part proj act) (s : σ) (as : List α) :
    proj (run step s as) = run part (proj s) (trace step act s as) := by
  induction as generalizing s with
  | nil => rfl
  | cons a as ih => rw [run_cons, ih, h, trace, run_append]

theorem mem_trace (hp : pre ++ [a] <+: as) (hb : act (run step s pre) a = some b) :
    b ∈ trace step act s as := by
  induction pre generalizing s as with
  | nil =>
    cases as with
    | nil => simp at hp
    | cons a' as =>
      obtain ⟨rfl, -⟩ := List.cons_prefix_cons.mp hp
      simp only [run_nil] at hb
      simp [trace, hb]
  | cons c pre ih =>
    cases as with
    | nil => simp at hp
    | cons a' as =>
      obtain ⟨rfl, htail⟩ := List.cons_prefix_cons.mp hp
      exact List.mem_append_right _ (ih htail hb)

theorem always_trace (h : Projects step part proj act) {C : τ → β → Prop} :
    Always part C (proj s) (trace step act s as) ↔
      Always step (fun s a => ∀ b, act s a = some b → C (proj s) b) s as := by
  induction as generalizing s with
  | nil => exact ⟨fun _ => always_nil, fun _ => always_nil⟩
  | cons a as ih =>
    have hstep := h s a
    rw [always_cons, ← ih, trace, hstep]
    cases hact : act s a with
    | none => simp
    | some b =>
      simp only [Option.toList_some, List.singleton_append, run_cons, run_nil, always_cons,
        Option.some.injEq, forall_eq']

end

/-- A simulation between two systems: related states stay related, when the
second one does its part of every action of the first, if it has any. -/
theorem run_simulates {τ β : Type*} {part : τ → β → τ} {R : σ → τ → Prop} {act : α → Option β}
    {s : σ} {t : τ}
    (hstep : ∀ s t a, R s t → R (step s a) (run part t (act a).toList)) (h : R s t) :
    R (run step s as) (run part t (as.filterMap act)) := by
  induction as generalizing s t with
  | nil => exact h
  | cons a as ih =>
    have ha := hstep s t a h
    rw [run_cons, List.filterMap_cons]
    cases hact : act a with
    | none =>
      rw [hact] at ha
      exact ih ha
    | some b =>
      rw [hact] at ha
      exact ih ha

end Grcache.Base
