import Grcache.Resource.Converge

/-!
# No redundant changes

Whatever events arrive and in whatever order, the versions the stream remembers
are those of the objects whose latest change was an apply. So it never repeats
an apply, and it deletes only what it has applied.
-/

namespace Grcache.Resource

variable {K R ε : Type} [DecidableEq R] (lk : Lookup K R)

-- ---------------------------------------------------------------------------
-- The latest change of a key
-- ---------------------------------------------------------------------------

def ResourceChange.key : ResourceChange K R → Option R
  | .ready => none
  | .apply object => some (lk.objectRef object)
  | .delete key => some key

def lastChange (emitted : List (Except ε (ResourceChange K R))) (key : R) :
    Option (ResourceChange K R) :=
  (emitted.filterMap Except.toOption).reverse.find? fun c => c.key lk = some key

theorem lastChange_append (out out' : List (Except ε (ResourceChange K R))) (key : R) :
    lastChange lk (out ++ out') key = (lastChange lk out' key).or (lastChange lk out key) := by
  simp [lastChange, List.find?_append]

theorem lastChange_ok (out : List (Except ε (ResourceChange K R))) (c : ResourceChange K R)
    (key : R) :
    lastChange lk (out ++ [.ok c]) key =
      if c.key lk = some key then some c else lastChange lk out key := by
  rw [lastChange_append]
  change ([c].find? fun c => c.key lk = some key).or _ = _
  by_cases hc : c.key lk = some key
  · simp [hc]
  · simp [hc]

theorem lastChange_error (out : List (Except ε (ResourceChange K R))) (err : ε) (key : R) :
    lastChange lk (out ++ [.error err]) key = lastChange lk out key := by
  rw [lastChange_append]
  rfl

/-- The latest change of a key decides whether the consumer holds an object. -/
theorem replay_eq_some (out : List (Except ε (ResourceChange K R))) (key : R) (r : K) :
    replay lk (fun _ => none) out key = some r ↔ lastChange lk out key = some (.apply r) := by
  induction out using List.reverseRecOn with
  | nil => exact ⟨nofun, nofun⟩
  | append_singleton out c ih =>
    rw [replay_append]
    rcases c with err | c
    · rw [lastChange_error]
      exact ih
    rw [lastChange_ok]
    change replayChange lk (replay lk (fun _ => none) out) c key = some r ↔ _
    cases c with
    | ready => simpa [replayChange, ResourceChange.key] using ih
    | apply r' =>
      by_cases hk : key = lk.objectRef r'
      · simp [replayChange, ResourceChange.key, hk]
      · simpa [replayChange, ResourceChange.key, hk, Ne.symm hk] using ih
    | delete key' =>
      by_cases hk : key = key'
      · simp [replayChange, ResourceChange.key, hk]
      · simpa [replayChange, ResourceChange.key, hk, Ne.symm hk] using ih

-- ---------------------------------------------------------------------------
-- One turn
-- ---------------------------------------------------------------------------

inductive Turn (objects : AList fun _ : R => String) :
    (AList fun _ : R => String) → List (Except ε (ResourceChange K R)) → Prop
  | silent : Turn objects objects []
  | error (err : ε) : Turn objects objects [.error err]
  | apply : lk.resourceVersion r = some ver → objects.lookup (lk.objectRef r) ≠ some ver →
      Turn objects (objects.insert (lk.objectRef r) ver) [.ok (.apply r)]
  | delete (key : R) : Turn objects (objects.erase key) [.ok (.delete key)]
  | sweep (hash : HashOrder R) (present : Finset R) :
      Turn objects (retain (· ∈ present) objects)
        (((hash.order objects.keys).filter (· ∉ present)).map (fun key => .ok (.delete key)) ++
          [.ok .ready])

theorem observe_turn (objects : AList fun _ : R => String)
    (hv : lk.resourceVersion r = some ver) :
    Turn lk objects (observe objects (lk.objectRef r) ver r).1
      ((observe objects (lk.objectRef r) ver r).2.map .ok :
        List (Except ε (ResourceChange K R))) := by
  unfold observe
  cases hl : objects.lookup (lk.objectRef r) with
  | none => exact .apply hv (by simp [hl])
  | some known =>
    simp only
    split
    next hne => exact .apply hv (by simpa [hl] using hne)
    next => exact .silent

theorem onEvent_turn {d d' : Differ R} {hash : HashOrder R} {e : Except ε (Event K)}
    (h : d.onEvent lk hash e = .ok (d', out)) : Turn lk d.objects d'.objects out := by
  rcases e with err | e
  · cases h
    exact .error err
  cases e with
  | init =>
    cases h
    exact .silent
  | initApply r =>
    obtain ⟨ver, hv, h⟩ := Base.bind_eq_ok_iff.mp h
    cases h
    exact observe_turn lk d.objects (Base.unwrap_ok.mp hv)
  | initDone =>
    cases h
    exact .sweep hash d.initPresent
  | apply r =>
    obtain ⟨ver, hv, h⟩ := Base.bind_eq_ok_iff.mp h
    cases h
    exact observe_turn lk d.objects (Base.unwrap_ok.mp hv)
  | delete r =>
    cases h
    exact .delete (lk.objectRef r)

/-- The remembered versions are those of the objects the consumer holds. -/
def Tracked (objects : AList fun _ : R => String) (held : R → Option K) : Prop :=
  ∀ key, (held key).map lk.resourceVersion = (objects.lookup key).map some

/-- No apply repeats the version that is held when it is made. -/
def Fresh (held : R → Option K) (out : List (Except ε (ResourceChange K R))) : Prop :=
  ∀ before r after, out = before ++ .ok (.apply r) :: after →
    (replay lk held before (lk.objectRef r)).map lk.resourceVersion ≠ some (lk.resourceVersion r)

variable {objects objects' : AList fun _ : R => String} {held : R → Option K}
  {out out' : List (Except ε (ResourceChange K R))}

theorem mem_removed (hash : HashOrder R) (present : Finset R) :
    key ∈ (hash.order objects.keys).filter (· ∉ present) ↔ key ∈ objects ∧ key ∉ present := by
  rw [List.mem_filter, (hash.perm objects.keys).mem_iff, ← AList.mem_keys]
  simp

theorem Tracked.turn (h : Tracked lk objects held) (ht : Turn lk objects objects' out) :
    Tracked lk objects' (replay lk held out) := by
  intro key
  cases ht with
  | silent => exact h key
  | error err => exact h key
  | @apply r ver hv =>
    change (Function.update held (lk.objectRef r) (some r) key).map _ = _
    by_cases hk : key = lk.objectRef r
    · subst hk
      simp [hv]
    · rw [Function.update_of_ne hk, AList.lookup_insert_ne hk]
      exact h key
  | delete key' =>
    change (Function.update held key' none key).map _ = _
    by_cases hk : key = key'
    · subst hk
      simp
    · rw [Function.update_of_ne hk, AList.lookup_erase_ne hk]
      exact h key
  | sweep hash present =>
    rw [replay_append, replay_deletes]
    change (if _ then none else held key).map _ = _
    rw [lookup_retain]
    simp only [mem_removed]
    by_cases hp : key ∈ present
    · simpa [hp] using h key
    · by_cases hk : key ∈ objects
      · simp [hp, hk]
      · -- what is not remembered is not held
        have hnone := h key
        rw [AList.lookup_eq_none.mpr hk] at hnone
        simpa [hp, hk] using hnone

theorem Fresh.append (h : Fresh lk held out) (h' : Fresh lk (replay lk held out) out') :
    Fresh lk held (out ++ out') := by
  intro before r after heq
  rcases List.append_eq_append_iff.mp heq with ⟨rest, hbefore, hout'⟩ | ⟨rest, hout, hrest⟩
  · rw [hbefore, replay_append]
    exact h' rest r after hout'
  · cases rest with
    | nil =>
      rw [List.nil_append] at hrest
      rw [List.append_nil] at hout
      rw [← hout]
      exact h' [] r after hrest.symm
    | cons c rest =>
      cases hrest
      exact h before r rest hout

theorem Turn.fresh (ht : Turn lk objects objects' out) (h : Tracked lk objects held) :
    Fresh lk held out := by
  intro before r after heq
  have hmem : .ok (.apply r) ∈ out := heq ▸ List.mem_append_right _ List.mem_cons_self
  cases ht with
  | silent => cases hmem
  | error err => simp at hmem
  | @apply r' ver hv hne =>
    obtain rfl : before = [] := by
      cases before with
      | nil => rfl
      | cons _ before => simp at heq
    cases heq
    rw [replay_nil, h, hv]
    simpa using hne
  | delete key => simp at hmem
  | sweep hash present => simp at hmem

-- ---------------------------------------------------------------------------
-- Runs
-- ---------------------------------------------------------------------------

-- A stream that has crashed yields nothing more.
theorem run_crashed {s : Stream K R ε} (hs : s.crashed = true)
    (inputs : List (Except ε (Event K) × HashOrder R)) :
    Base.run (Stream.step lk) s inputs = s := by
  induction inputs with
  | nil => rfl
  | cons input inputs ih =>
    have hstep : Stream.step lk s input = s := by simp [Stream.step, hs]
    rw [Base.run_cons, hstep, ih]

theorem step_turn (s : Stream K R ε) (input : Except ε (Event K) × HashOrder R) :
    ∃ out, (Stream.step lk s input).emitted = s.emitted ++ out ∧
      Turn lk s.differ.objects (Stream.step lk s input).differ.objects out := by
  unfold Stream.step
  split
  · exact ⟨[], by simp, .silent⟩
  · split
    next differ changes hevent => exact ⟨changes, rfl, onEvent_turn lk hevent⟩
    next => exact ⟨[], by simp, .silent⟩

structure Accounted (s : Stream K R ε) : Prop where
  tracked : Tracked lk s.differ.objects (replay lk (fun _ => none) s.emitted)
  fresh : Fresh lk (fun _ => none) s.emitted

theorem Accounted.init : Accounted lk (Stream.init : Stream K R ε) where
  tracked _ := rfl
  fresh before r after h := by
    cases before <;> cases h

theorem Accounted.step {s : Stream K R ε} (h : Accounted lk s)
    (input : Except ε (Event K) × HashOrder R) : Accounted lk (Stream.step lk s input) := by
  obtain ⟨out, hemitted, hturn⟩ := step_turn lk s input
  constructor
  · rw [hemitted, replay_append]
    exact h.tracked.turn lk hturn
  · rw [hemitted]
    exact h.fresh.append lk (hturn.fresh lk h.tracked)

theorem resourceChanges_accounted (inputs : List (Except ε (Event K) × HashOrder R)) :
    Accounted lk (resourceChanges lk inputs) :=
  Base.run_invariant (.init lk) (fun _ input h _ => h.step lk input) Base.always_true

def relisting (first last : HashOrder R) (listed : List (K × HashOrder R)) :
    List (Except ε (Event K) × HashOrder R) :=
  (.ok .init, first) :: (listed.map fun p => (.ok (.initApply p.1), p.2)) ++
    [(.ok .initDone, last)]

/-- The objects known so far, no more and no fewer, at the versions they were
applied with. -/
structure Known (emitted : List (Except ε (ResourceChange K R))) (listed : List K) : Prop where
  applied : ∀ r ∈ listed, ∃ r', lastChange lk emitted (lk.objectRef r) = some (.apply r') ∧
    lk.resourceVersion r' = lk.resourceVersion r
  all : ∀ key r', lastChange lk emitted key = some (.apply r') → ∃ r ∈ listed, lk.objectRef r = key

structure Economical (inputs : List (Except ε (Event K) × HashOrder R)) : Prop where
  applies : ∀ before r after,
    (resourceChanges lk inputs).emitted = before ++ .ok (.apply r) :: after →
    ∀ r', lastChange lk before (lk.objectRef r) = some (.apply r') →
      lk.resourceVersion r' ≠ lk.resourceVersion r
  deletes : ∀ hash, ∃ removed : List R, removed.Nodup ∧
    (∀ key ∈ removed, ∃ r, lastChange lk (resourceChanges lk inputs).emitted key =
      some (.apply r)) ∧
    (resourceChanges lk (inputs ++ [(.ok .initDone, hash)])).emitted =
      (resourceChanges lk inputs).emitted ++ removed.map (fun key => .ok (.delete key)) ++
        if (resourceChanges lk inputs).crashed then [] else [.ok .ready]
  relist : ∀ first last listed,
    Known lk (resourceChanges lk inputs).emitted (listed.map Prod.fst) →
    (resourceChanges lk (inputs ++ relisting first last listed)).emitted =
      (resourceChanges lk inputs).emitted ++
        if (resourceChanges lk inputs).crashed then [] else [.ok .ready]

theorem Tracked.applied (h : Tracked lk objects (replay lk (fun _ => none) out))
    (hkey : key ∈ objects) : ∃ r, lastChange lk out key = some (.apply r) := by
  obtain ⟨ver, hl⟩ := Option.isSome_iff_exists.mp (AList.lookup_isSome.mpr hkey)
  have hheld := h key
  rw [hl] at hheld
  obtain ⟨r, hr, -⟩ := Option.map_eq_some_iff.mp hheld
  exact ⟨r, (replay_eq_some lk out key r).mp hr⟩

-- An object that was applied has a version, which is remembered.
theorem Tracked.lookup (h : Tracked lk objects (replay lk (fun _ => none) out))
    (hlast : lastChange lk out key = some (.apply r)) :
    ∃ ver, lk.resourceVersion r = some ver ∧ objects.lookup key = some ver := by
  have hheld := h key
  rw [(replay_eq_some lk out key r).mpr hlast, Option.map_some] at hheld
  obtain ⟨ver, hl, hver⟩ := Option.map_eq_some_iff.mp hheld.symm
  exact ⟨ver, hver.symm, hl⟩

-- Known objects are passed over.
theorem run_listed (emitted : List (Except ε (ResourceChange K R)))
    (listed : List (K × HashOrder R))
    (hknown : ∀ p ∈ listed, ∃ ver, lk.resourceVersion p.1 = some ver ∧
      objects.lookup (lk.objectRef p.1) = some ver) (present : Finset R) :
    ∃ present', Base.run (Stream.step lk) ⟨false, ⟨objects, present⟩, emitted⟩
        (listed.map fun p => (.ok (.initApply p.1), p.2)) =
          ⟨false, ⟨objects, present'⟩, emitted⟩ ∧
      present ⊆ present' ∧ ∀ p ∈ listed, lk.objectRef p.1 ∈ present' := by
  induction listed generalizing present with
  | nil => exact ⟨present, rfl, subset_rfl, by simp⟩
  | cons p listed ih =>
    obtain ⟨ver, hv, hl⟩ := hknown p List.mem_cons_self
    have hstep : Stream.step lk (⟨false, ⟨objects, present⟩, emitted⟩ : Stream K R ε)
        (.ok (.initApply p.1), p.2) =
        ⟨false, ⟨objects, insert (lk.objectRef p.1) present⟩, emitted⟩ := by
      simp [Stream.step, Differ.onEvent, hv, observe, hl]
    obtain ⟨present', hrun, hsub, hmem⟩ :=
      ih (fun q hq => hknown q (List.mem_cons_of_mem _ hq)) (insert (lk.objectRef p.1) present)
    refine ⟨present', ?_, (Finset.subset_insert _ _).trans hsub, ?_⟩
    · rw [List.map_cons, Base.run_cons, hstep, hrun]
    · rintro q hq
      rcases List.mem_cons.mp hq with rfl | hq
      · exact hsub (Finset.mem_insert_self _ _)
      · exact hmem q hq

theorem step_initDone {s : Stream K R ε} (hs : s.crashed = false) (hash : HashOrder R) :
    (Stream.step lk s (.ok .initDone, hash)).emitted = s.emitted ++
      ((hash.order s.differ.objects.keys).filter (· ∉ s.differ.initPresent)).map
        (fun key => .ok (.delete key)) ++ [.ok .ready] := by
  simp [Stream.step, hs, Differ.onEvent]

theorem Accounted.deletes {s : Stream K R ε} (h : Accounted lk s) (hash : HashOrder R) :
    ∃ removed : List R, removed.Nodup ∧
      (∀ key ∈ removed, ∃ r, lastChange lk s.emitted key = some (.apply r)) ∧
      (Stream.step lk s (.ok .initDone, hash)).emitted =
        s.emitted ++ removed.map (fun key => .ok (.delete key)) ++
          if s.crashed then [] else [.ok .ready] := by
  cases hs : s.crashed with
  | true => exact ⟨[], .nil, by simp, by simp [Stream.step, hs]⟩
  | false =>
    refine ⟨_, ?_, ?_, step_initDone lk hs hash⟩
    · exact ((hash.perm _).nodup_iff.mpr s.differ.objects.keys_nodup).filter _
    · intro key hkey
      exact h.tracked.applied lk ((mem_removed hash s.differ.initPresent).mp hkey).1

theorem Accounted.relist {s : Stream K R ε} (h : Accounted lk s) {listed : List (K × HashOrder R)}
    (hknown : Known lk s.emitted (listed.map Prod.fst)) (first last : HashOrder R) :
    (Base.run (Stream.step lk) s (relisting first last listed)).emitted =
      s.emitted ++ if s.crashed then [] else [.ok .ready] := by
  cases hs : s.crashed with
  | true => simp [run_crashed lk hs]
  | false =>
    have hinit : Stream.step lk s (.ok .init, first) =
        ⟨false, ⟨s.differ.objects, ∅⟩, s.emitted⟩ := by
      simp [Stream.step, hs, Differ.onEvent]
    have hlisted : ∀ p ∈ listed, ∃ ver, lk.resourceVersion p.1 = some ver ∧
        s.differ.objects.lookup (lk.objectRef p.1) = some ver := by
      intro p hp
      obtain ⟨r', hlast, hv⟩ := hknown.applied p.1 (List.mem_map_of_mem hp)
      obtain ⟨ver, hver, hl⟩ := h.tracked.lookup lk hlast
      exact ⟨ver, hv ▸ hver, hl⟩
    obtain ⟨present, hrun, -, hpresent⟩ := run_listed lk s.emitted listed hlisted ∅
    have hremoved : (last.order s.differ.objects.keys).filter (· ∉ present) = [] := by
      refine List.eq_nil_iff_forall_not_mem.mpr fun key hkey => ?_
      obtain ⟨hmem, hnot⟩ := (mem_removed last present).mp hkey
      obtain ⟨r', hlast⟩ := h.tracked.applied lk hmem
      obtain ⟨r, hr, rfl⟩ := hknown.all key r' hlast
      obtain ⟨p, hp, rfl⟩ := List.mem_map.mp hr
      exact hnot (hpresent p hp)
    unfold relisting
    rw [Base.run_snoc, Base.run_cons, hinit, hrun, step_initDone lk rfl, hremoved]
    simp

/-- After any events, in any order: an apply is never repeated, an `InitDone`
deletes each object at most once and only what was applied, and listing the known
objects again yields only `Ready`. A stream that has crashed yields nothing. -/
theorem resource_changes_economical (inputs : List (Except ε (Event K) × HashOrder R)) :
    Economical lk inputs := by
  have h := resourceChanges_accounted lk inputs
  refine ⟨?_, fun hash => ?_, fun first last listed hknown => ?_⟩
  · intro before r after hemitted r' hlast
    have hfresh := h.fresh before r after hemitted
    rw [(replay_eq_some lk _ _ _).mpr hlast] at hfresh
    simpa using hfresh
  · rw [resourceChanges_snoc]
    exact h.deletes lk hash
  · rw [resourceChanges, Base.run_append]
    exact h.relist lk hknown first last

end Grcache.Resource
