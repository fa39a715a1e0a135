import Grcache.Resource.Change

/-!
# Resource changes converge

A consumer that replays the changes holds the watched objects whenever no
initialisation is in progress. What carries it: the versions the stream
remembers are those of the objects the consumer holds, and during an
initialisation the consumer already holds every object that was listed.
-/

namespace Grcache.Resource

variable {K R ε : Type} [DecidableEq R] (lk : Lookup K R)

-- ---------------------------------------------------------------------------
-- Replaying
-- ---------------------------------------------------------------------------

@[simp] theorem replay_nil :
    replay lk held ([] : List (Except ε (ResourceChange K R))) = held := rfl

theorem replay_append {out out' : List (Except ε (ResourceChange K R))} :
    replay lk held (out ++ out') = replay lk (replay lk held out) out' :=
  List.foldl_append

theorem replay_deletes (held : R → Option K) (removed : List R) :
    replay lk held
        ((removed.map fun key => .ok (.delete key)) : List (Except ε (ResourceChange K R))) =
      fun key => if key ∈ removed then none else held key := by
  induction removed generalizing held with
  | nil => simp
  | cons key removed ih =>
    have hcons : replay lk held (((key :: removed).map fun key => .ok (.delete key)) :
        List (Except ε (ResourceChange K R))) =
        replay lk (Function.update held key none) (removed.map fun key => .ok (.delete key)) := rfl
    rw [hcons, ih]
    funext key'
    by_cases hk : key' = key
    · simp [hk]
    · simp [hk]

theorem lookup_retain (p : R → Prop) [DecidablePred p] (objects : AList fun _ : R => String)
    (key : R) :
    (retain p objects).lookup key = if p key then objects.lookup key else none := by
  refine Option.ext fun ver => ?_
  rw [← Option.mem_def, AList.mem_lookup_iff]
  by_cases hp : p key
  · simp [retain, hp, ← Option.mem_def, AList.mem_lookup_iff]
  · simp [retain, hp]

-- ---------------------------------------------------------------------------
-- What the consumer holds
-- ---------------------------------------------------------------------------

/-- The stream remembers the versions of the objects the consumer holds. -/
structure Told (events : List (Except ε (Event K))) (objects : AList fun _ : R => String)
    (held : R → Option K) : Prop where
  version : ∀ key, objects.lookup key = (held key).bind lk.resourceVersion
  delivered : ∀ key r, held key = some r → lk.objectRef r = key ∧ Delivered events r

variable {events : List (Except ε (Event K))} {objects : AList fun _ : R => String}

theorem Told.insert (h : Told lk events objects held) (hr : Delivered events r)
    (hv : lk.resourceVersion r = some ver) :
    Told lk events (objects.insert (lk.objectRef r) ver)
      (Function.update held (lk.objectRef r) (some r)) where
  version key := by
    by_cases hk : key = lk.objectRef r
    · subst hk
      simp [hv]
    · simp [hk, AList.lookup_insert_ne hk, h.version]
  delivered key r' hr' := by
    by_cases hk : key = lk.objectRef r
    · simp only [hk, Function.update_self, Option.some.injEq] at hr'
      exact hr' ▸ ⟨hk.symm, hr⟩
    · rw [Function.update_of_ne hk] at hr'
      exact h.delivered key r' hr'

-- An object is passed over only when the consumer holds it already.
theorem observe_told (hp : Protocol lk events) (h : Told lk events objects held)
    (hr : Delivered events r) (hv : lk.resourceVersion r = some ver) :
    Told lk events (observe objects (lk.objectRef r) ver r).1
        (Function.update held (lk.objectRef r) (some r)) ∧
      replay lk held (((observe objects (lk.objectRef r) ver r).2.map .ok) :
        List (Except ε (ResourceChange K R))) = Function.update held (lk.objectRef r) (some r) ∧
      ∀ c ∈ (observe objects (lk.objectRef r) ver r).2, c = .apply r := by
  have hnew := h.insert lk hr hv
  have hversion := h.version (lk.objectRef r)
  unfold observe
  cases hl : objects.lookup (lk.objectRef r) with
  | none => exact ⟨hnew, rfl, by simp⟩
  | some known =>
    simp only
    split
    · exact ⟨hnew, rfl, by simp⟩
    next hsame =>
      rw [not_not] at hsame
      subst hsame
      rw [hl] at hversion
      obtain ⟨r', hheld, hv'⟩ := Option.bind_eq_some_iff.mp hversion.symm
      obtain ⟨hkey, hr'⟩ := h.delivered _ _ hheld
      obtain rfl : r' = r := hp.sameVersion _ _ hr' hr hkey (hv'.trans hv.symm)
      have hself : Function.update held (lk.objectRef r') (some r') = held :=
        Function.update_eq_self_iff.mpr hheld.symm
      rw [hself]
      exact ⟨h, rfl, by simp⟩

theorem Told.erase (h : Told lk events objects held) (key : R) :
    Told lk events (objects.erase key) (Function.update held key none) where
  version key' := by
    by_cases hk : key' = key
    · subst hk
      simp
    · simp [hk, AList.lookup_erase_ne hk, h.version]
  delivered key' r hr := by
    by_cases hk : key' = key
    · simp [hk] at hr
    · rw [Function.update_of_ne hk] at hr
      exact h.delivered key' r hr

theorem Told.retain (h : Told lk events objects held) (p : R → Prop) [DecidablePred p] :
    Told lk events (Resource.retain p objects) fun key => if p key then held key else none where
  version key := by
    rw [lookup_retain]
    split
    · exact h.version key
    · rfl
  delivered key r hr := by
    split at hr
    · exact h.delivered key r hr
    · cases hr

-- ---------------------------------------------------------------------------
-- One event
-- ---------------------------------------------------------------------------

/-- The invariant of the stream, the watcher and the consumer. -/
structure Converged (events : List (Except ε (Event K))) (l : Listing K R) (d : Differ R)
    (held : R → Option K) : Prop where
  told : Told lk events d.objects held
  present : ∀ w, l.window = some w → ∀ key, key ∈ d.initPresent ↔ w key ≠ none
  listed : ∀ w, l.window = some w → ∀ key r, w key = some r → held key = some r
  current : l.window = none → ∀ m, l.current = some m → held = m

structure Emits (l : Listing K R) (e : Except ε (Event K))
    (out : List (Except ε (ResourceChange K R))) : Prop where
  done : e = .ok .initDone → ∃ removed : List R,
    out = (removed.map fun key => .ok (.delete key)) ++ [.ok .ready] ∧
      ∀ w, l.window = some w → ∀ key ∈ removed, w key = none
  ready : e ≠ .ok .initDone → .ok .ready ∉ out
  delete : l.window.isSome = true → e ≠ .ok .initDone → ∀ key, .ok (.delete key) ∉ out

theorem Converged.init : Converged lk events .init .init fun _ => none where
  told := ⟨fun _ => rfl, fun _ _ h => nomatch h⟩
  present _ h := nomatch h
  listed _ h := nomatch h
  current _ _ h := nomatch h

theorem Converged.initApply (hp : Protocol lk events) (h : Converged lk events l d held)
    (hopen : l.window.isSome = true) (hr : Delivered events r)
    (hv : lk.resourceVersion r = some ver) :
    Converged lk events (l.onEvent lk (.ok (.initApply r) : Except ε (Event K)))
      ⟨(observe d.objects (lk.objectRef r) ver r).1, insert (lk.objectRef r) d.initPresent⟩
      (Function.update held (lk.objectRef r) (some r)) := by
  obtain ⟨w, hw⟩ := Option.isSome_iff_exists.mp hopen
  have hw' : (l.onEvent lk (.ok (.initApply r) : Except ε (Event K))).window =
      some (Function.update w (lk.objectRef r) (some r)) := by
    simp [Listing.onEvent, hw]
  refine ⟨(observe_told lk hp h.told hr hv).1, ?_, ?_, ?_⟩
  · rw [hw']
    rintro _ ⟨rfl⟩ key
    by_cases hk : key = lk.objectRef r
    · simp [hk]
    · simp [hk, h.present w hw key]
  · rw [hw']
    rintro _ ⟨rfl⟩ key r' hr'
    by_cases hk : key = lk.objectRef r
    · simpa [hk] using hr'
    · rw [Function.update_of_ne hk] at hr' ⊢
      exact h.listed w hw key r' hr'
  · rw [hw']
    rintro ⟨⟩

-- Taking the removed keys away is keeping the present ones.
theorem removed_eq (hp : Protocol lk events) (h : Told lk events objects held)
    (hash : HashOrder R) (present : Finset R) :
    (fun key => if key ∈ (hash.order objects.keys).filter (· ∉ present) then none else held key) =
      fun key => if key ∈ present then held key else none := by
  funext key
  by_cases hpresent : key ∈ present
  · simp [hpresent]
  · have hmem : key ∈ hash.order objects.keys ↔ key ∈ objects :=
      (hash.perm objects.keys).mem_iff.trans AList.mem_keys.symm
    cases hheld : held key with
    | none => simp
    | some r =>
      -- what the consumer holds the stream knows
      obtain ⟨ver, hv⟩ := hp.versioned r (h.delivered key r hheld).2
      have hlookup := h.version key
      rw [hheld, Option.bind_some, hv] at hlookup
      have hknown : key ∈ objects := AList.lookup_isSome.mp (by rw [hlookup]; rfl)
      simp [hpresent, hmem, hknown]

-- Exactly the listed objects are left.
theorem Converged.initDone (h : Converged lk events l d held) (hopen : l.window.isSome = true) :
    Converged lk events (l.onEvent lk (.ok .initDone : Except ε (Event K)))
      ⟨retain (· ∈ d.initPresent) d.objects, ∅⟩
      (fun key => if key ∈ d.initPresent then held key else none) := by
  obtain ⟨w, hw⟩ := Option.isSome_iff_exists.mp hopen
  refine ⟨h.told.retain lk _, nofun, nofun, ?_⟩
  rintro - m hm
  simp only [Listing.onEvent, hw, Option.some.injEq] at hm
  subst hm
  funext key
  have hpresent := h.present w hw key
  cases hkey : w key with
  | none => simp [hpresent, hkey]
  | some r => simp [hpresent, hkey, h.listed w hw key r hkey]

theorem Converged.apply (hp : Protocol lk events) (h : Converged lk events l d held)
    (hclosed : l.window = none) (hr : Delivered events r) (hv : lk.resourceVersion r = some ver) :
    Converged lk events (l.onEvent lk (.ok (.apply r) : Except ε (Event K)))
      { d with objects := (observe d.objects (lk.objectRef r) ver r).1 }
      (Function.update held (lk.objectRef r) (some r)) := by
  refine ⟨(observe_told lk hp h.told hr hv).1, ?_, ?_, ?_⟩
  · simp [Listing.onEvent, hclosed]
  · simp [Listing.onEvent, hclosed]
  · rintro - m hm
    obtain ⟨m, hcurrent, rfl⟩ := Option.map_eq_some_iff.mp hm
    rw [h.current hclosed m hcurrent]

theorem Converged.delete (h : Converged lk events l d held) (hclosed : l.window = none) (r : K) :
    Converged lk events (l.onEvent lk (.ok (.delete r) : Except ε (Event K)))
      { d with objects := d.objects.erase (lk.objectRef r) }
      (Function.update held (lk.objectRef r) none) := by
  refine ⟨h.told.erase lk _, ?_, ?_, ?_⟩
  · simp [Listing.onEvent, hclosed]
  · simp [Listing.onEvent, hclosed]
  · rintro - m hm
    obtain ⟨m, hcurrent, rfl⟩ := Option.map_eq_some_iff.mp hm
    rw [h.current hclosed m hcurrent]

omit [DecidableEq R] in
theorem emits_applies {out : List (ResourceChange K R)} (hout : ∀ c ∈ out, c = .apply r)
    (hne : e ≠ .ok .initDone) :
    Emits l e ((out.map .ok) : List (Except ε (ResourceChange K R))) := by
  refine ⟨fun he => absurd he hne, fun _ hmem => ?_, fun _ _ key hmem => ?_⟩
  · obtain ⟨c, hc, heq⟩ := List.mem_map.mp hmem
    rw [hout c hc] at heq
    cases heq
  · obtain ⟨c, hc, heq⟩ := List.mem_map.mp hmem
    rw [hout c hc] at heq
    cases heq

-- One allowed event: the stream goes on, and so does the invariant.
theorem Converged.onEvent (hp : Protocol lk events) (h : Converged lk events l d held)
    (ha : Allowed l e) (he : e ∈ events) (hash : HashOrder R) :
    ∃ d' out, d.onEvent lk hash e = .ok (d', out) ∧
      Converged lk events (l.onEvent lk e) d' (replay lk held out) ∧ Emits l e out := by
  rcases e with err | e
  · exact ⟨d, [.error err], rfl, ⟨h.told, h.present, h.listed, h.current⟩,
      by simp, by simp, by simp⟩
  cases e with
  | init =>
    refine ⟨_, [], rfl, ⟨h.told, ?_, ?_, nofun⟩, by simp, by simp, by simp⟩
    · rintro _ ⟨rfl⟩ key
      simp
    · rintro _ ⟨rfl⟩ key r hr
      cases hr
  | initApply r =>
    have hr : Delivered events r := .inl he
    obtain ⟨ver, hv⟩ := hp.versioned r hr
    obtain ⟨-, hreplay, hout⟩ := observe_told lk hp h.told hr hv
    refine ⟨_, _, by simp only [Differ.onEvent, hv, Base.unwrap_some, Base.ok_bind]; rfl, ?_, ?_⟩
    · rw [hreplay]
      exact h.initApply lk hp ha hr hv
    · exact emits_applies hout nofun
  | initDone =>
    refine ⟨_, _, rfl, ?_, fun _ => ⟨_, rfl, ?_⟩,
      fun hne => absurd rfl hne, fun _ hne => absurd rfl hne⟩
    · have hdone := h.initDone lk ha
      rw [← removed_eq lk hp h.told hash] at hdone
      rw [replay_append, replay_deletes]
      exact hdone
    · intro w hw key hkey
      have hnot : key ∉ d.initPresent := by simpa using (List.mem_filter.mp hkey).2
      simpa [h.present w hw key] using hnot
  | apply r =>
    have hr : Delivered events r := .inr he
    obtain ⟨ver, hv⟩ := hp.versioned r hr
    obtain ⟨-, hreplay, hout⟩ := observe_told lk hp h.told hr hv
    refine ⟨_, _, by simp only [Differ.onEvent, hv, Base.unwrap_some, Base.ok_bind]; rfl, ?_, ?_⟩
    · rw [hreplay]
      exact h.apply lk hp ha hr hv
    · exact emits_applies hout nofun
  | delete r =>
    refine ⟨_, _, rfl, h.delete lk ha r, nofun, by simp, fun hopen => ?_⟩
    rw [show l.window = none from ha] at hopen
    cases hopen

-- ---------------------------------------------------------------------------
-- Runs
-- ---------------------------------------------------------------------------

/-- What replaying everything emitted so far leaves. -/
def heldAfter (inputs : List (Except ε (Event K) × HashOrder R)) : R → Option K :=
  replay lk (fun _ => none) (resourceChanges lk inputs).emitted

theorem run_step (hp : Protocol lk events) (hs : s.crashed = false)
    (h : Converged lk events l s.differ held) (ha : Allowed l input.1) (he : input.1 ∈ events) :
    ∃ out, (Stream.step lk s input).crashed = false ∧
      (Stream.step lk s input).emitted = s.emitted ++ out ∧
      Converged lk events (l.onEvent lk input.1) (Stream.step lk s input).differ
        (replay lk held out) ∧ Emits l input.1 out := by
  obtain ⟨d', out, hevent, hconv, hemits⟩ := h.onEvent lk hp ha he input.2
  have hstep : Stream.step lk s input = ⟨false, d', s.emitted ++ out⟩ := by
    simp [Stream.step, hs, hevent]
  rw [hstep]
  exact ⟨out, rfl, rfl, hconv, hemits⟩

theorem resourceChanges_snoc {pre : List (Except ε (Event K) × HashOrder R)} :
    resourceChanges lk (pre ++ [input]) = Stream.step lk (resourceChanges lk pre) input :=
  Base.run_snoc

theorem listing_snoc {pre : List (Except ε (Event K) × HashOrder R)} :
    listing lk ((pre ++ [input]).map Prod.fst) =
      (listing lk (pre.map Prod.fst)).onEvent lk input.1 := by
  simp [listing]

theorem Protocol.at_prefix {inputs : List (Except ε (Event K) × HashOrder R)}
    (hp : Protocol lk (inputs.map Prod.fst)) (hpre : pre ++ [input] <+: inputs) :
    Allowed (listing lk (pre.map Prod.fst)) input.1 ∧ input.1 ∈ inputs.map Prod.fst := by
  constructor
  · exact hp.windows (pre.map Prod.fst) input.1 (by simpa using hpre.map Prod.fst)
  · exact List.mem_map_of_mem (hpre.subset (List.mem_append_right _ List.mem_cons_self))

theorem run_converged {inputs : List (Except ε (Event K) × HashOrder R)}
    (hp : Protocol lk (inputs.map Prod.fst)) (hpre : pre <+: inputs) :
    (resourceChanges lk pre).crashed = false ∧
      Converged lk (inputs.map Prod.fst) (listing lk (pre.map Prod.fst))
        (resourceChanges lk pre).differ (heldAfter lk pre) := by
  induction pre using List.reverseRecOn with
  | nil => exact ⟨rfl, .init lk⟩
  | append_singleton pre input ih =>
    obtain ⟨hs, hconv⟩ := ih ((List.prefix_append _ _).trans hpre)
    obtain ⟨hallowed, he⟩ := hp.at_prefix lk hpre
    obtain ⟨out, hs', hemitted, hconv', -⟩ := run_step lk hp hs hconv hallowed he
    rw [heldAfter, resourceChanges_snoc, listing_snoc, hemitted, replay_append]
    exact ⟨hs', hconv'⟩

structure Converges (pre : List (Except ε (Event K) × HashOrder R))
    (input : Except ε (Event K) × HashOrder R) : Prop where
  alive : (resourceChanges lk (pre ++ [input])).crashed = false
  objects : (listing lk ((pre ++ [input]).map Prod.fst)).window = none →
    ∀ m, (listing lk ((pre ++ [input]).map Prod.fst)).current = some m →
      heldAfter lk (pre ++ [input]) = m
  emits : ∃ out, (resourceChanges lk (pre ++ [input])).emitted =
      (resourceChanges lk pre).emitted ++ out ∧ Emits (listing lk (pre.map Prod.fst)) input.1 out

/-- At every event of a watcher that keeps to the protocol. -/
theorem resource_changes_converge (inputs : List (Except ε (Event K) × HashOrder R))
    (hp : Protocol lk (inputs.map Prod.fst)) :
    ∀ pre input, pre ++ [input] <+: inputs → Converges lk pre input := by
  intro pre input hpre
  obtain ⟨hs, hconv⟩ := run_converged lk hp ((List.prefix_append _ _).trans hpre)
  obtain ⟨hs', hconv'⟩ := run_converged lk hp hpre
  obtain ⟨hallowed, he⟩ := hp.at_prefix lk hpre
  obtain ⟨out, -, hemitted, -, hemits⟩ := run_step lk hp hs hconv hallowed he
  refine ⟨hs', hconv'.current, out, ?_, hemits⟩
  rw [resourceChanges_snoc, hemitted]

-- Two lists, with a change and an error between them.
def pairLookup : Lookup (String × String) String := ⟨Prod.fst, fun r => some r.2⟩

def relist : List (Except String (Event (String × String)) × HashOrder String) :=
  [.ok .init, .ok (.initApply ("a", "1")), .ok .initDone, .ok (.apply ("b", "2")), .error "gone",
    .ok .init, .ok (.initApply ("b", "2")), .ok .initDone].map fun e => (e, ⟨id, fun _ => .refl _⟩)

theorem relist_converges :
    Protocol pairLookup (relist.map Prod.fst) ∧
      heldAfter pairLookup relist =
        Function.update (fun _ => none) "b" (some ("b", "2")) := by
  have hp : Protocol pairLookup (relist.map Prod.fst) := by
    refine ⟨?_, fun r _ => ⟨r.2, rfl⟩, ?_⟩
    · simp [relist, Base.always_cons, Base.always_nil, Allowed, Listing.onEvent, Listing.init]
    · rintro r r' - - hkey hver
      exact Prod.ext hkey (Option.some.inj hver)
  have hlast := resource_changes_converge pairLookup relist hp relist.dropLast
    (.ok .initDone, ⟨id, fun _ => .refl _⟩) List.prefix_rfl
  exact ⟨hp, hlast.objects rfl _ rfl⟩

end Grcache.Resource
