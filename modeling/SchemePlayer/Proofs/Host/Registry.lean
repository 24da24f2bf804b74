import Mathlib.Algebra.Order.Ring.Nat
import Mathlib.Data.List.Nodup
import SchemePlayer.Host.Headless

/-!
# What is open on a shared host

Windows and streams of several projects are kept in one registry. It changes in four ways only
(`Registry.Change`): something is opened, a window is closed, a project is released, a stream is
used.

- `Registry.Sound`: names of windows and handles of streams are distinct, nothing belongs to a
  project that was released, and as long as handles have not run out no two things have the same.
  Every change keeps it (`Change.sound`).
- `Registry.Onward`: as long as handles have not run out, what is open later was open before, or has
  a handle that was not issued then (`Change.onward`). So a handle that is closed stays closed
  (`Onward.closed_stays`).
- `Registry.Orderly`: what this means for the handles as code reads them.
- `Registry.KeepsOthers`: a change leaves alone what other projects have opened. To close a window
  does so iff the window is not theirs (`keepsOthers_closeWindow_iff`), and to take in a stream iff
  it does not get the handle of one of theirs (`keepsOthers_openStream_iff`).
-/

namespace SchemePlayer

namespace Registry

variable {r r' r'' : Registry}

/-- The handles of all that is open. -/
def numbers (r : Registry) : List Nat :=
  r.windows.map (fun p => p.2.handle) ++ r.streams.map Prod.fst

/-- The handles of all that is open, as code reads them. -/
def handles (r : Registry) : List Int32 := r.numbers.map Int32.ofNat

/-! ### What can change -/

/-- Something is opened, or nothing. -/
inductive Gain (r : Registry) : Registry → Prop where
  | nothing : Gain r r
  | window {w : Window} {handle : Nat} {r' : Registry} :
    r.openWindow w = .ok (handle, r') → Gain r r'
  | stream {owner : Nat} {stream : Stream} {handle : Nat} {r' : Registry} :
    r.openStream owner stream = .ok (handle, r') → Gain r r'

/-- What a single event can do to a registry. -/
inductive Change (r : Registry) : Registry → Prop where
  | gain {r' : Registry} : Gain r r' → Change r r'
  | closeWindow (name : Text) : Change r (r.closeWindow name).2
  | release (project : Nat) : Change r (r.release project)
  | setStream (handle : Nat) (stream : Stream) : Change r (r.setStream handle stream)

/-- A window that was opened got the next handle, and its name was free. -/
theorem openWindow_eq_ok {w : Window} {handle : Nat} (h : r.openWindow w = .ok (handle, r')) :
    w.owner ∉ r.released ∧ r.window? w.name = none ∧
      r' = { r with
        windows := r.windows ++ [(Text.lower w.name, { w with handle := r.next })]
        issued := r.issued + 1 } := by
  unfold openWindow at h
  split at h
  · cases h
  · rename_i howner
    split at h
    · cases h
    · rename_i hname
      cases h
      exact ⟨howner, Option.not_isSome_iff_eq_none.mp hname, rfl⟩

/-- A stream that was taken in got the next handle, and no other stream has it. -/
theorem openStream_eq_ok {owner handle : Nat} {stream : Stream}
    (h : r.openStream owner stream = .ok (handle, r')) :
    owner ∉ r.released ∧ handle = r.next ∧
      r' = { r with
        streams := r.streams.filter (fun p => p.1 ≠ r.next) ++ [(r.next, ⟨owner, stream⟩)]
        issued := r.issued + 1 } := by
  unfold openStream at h
  split at h
  · cases h
  · rename_i howner
    cases h
    exact ⟨howner, rfl, rfl⟩

/-- One thing more is open, under the next handle. Nothing else is new. -/
def Extends (r r' : Registry) : Prop :=
  r'.issued = r.issued + 1 ∧
    ∃ kept, kept.Sublist r.numbers ∧ r'.numbers.Perm (r.next :: kept)

theorem extends_openWindow {w : Window} {handle : Nat} (h : r.openWindow w = .ok (handle, r')) :
    r.Extends r' := by
  obtain ⟨-, -, rfl⟩ := openWindow_eq_ok h
  refine ⟨rfl, r.numbers, .refl _, ?_⟩
  unfold numbers
  rw [List.map_append, List.append_assoc]
  exact List.perm_middle

theorem extends_openStream {owner handle : Nat} {stream : Stream}
    (h : r.openStream owner stream = .ok (handle, r')) : r.Extends r' := by
  obtain ⟨-, -, rfl⟩ := openStream_eq_ok h
  have hothers : ((r.streams.filter fun p => p.1 ≠ r.next).map Prod.fst).Sublist
      (r.streams.map Prod.fst) := List.filter_sublist.map _
  refine ⟨rfl, _, (List.Sublist.refl _).append hothers, ?_⟩
  unfold numbers
  rw [List.map_append, ← List.append_assoc]
  exact List.perm_append_singleton _ _

/-- The next handle is a new one, as long as handles have not run out. -/
theorem next_of_few (hfew : r.issued < 2 ^ 31 - 1) : r.next = r.issued + 1 :=
  Nat.mod_eq_of_lt (by omega)

/-- To use a stream changes neither its handle nor its owner. -/
theorem map_setStream (r : Registry) (handle : Nat) (stream : Stream) :
    (r.setStream handle stream).streams.map (fun p => (p.1, p.2.owner)) =
      r.streams.map fun p => (p.1, p.2.owner) := by
  simp only [setStream, List.map_map]
  refine List.map_congr_left fun p _ => ?_
  by_cases hp : p.1 = handle
  · simp [hp]
  · simp [hp]

theorem fst_setStream (r : Registry) (handle : Nat) (stream : Stream) :
    (r.setStream handle stream).streams.map Prod.fst = r.streams.map Prod.fst := by
  have hsame := congrArg (List.map Prod.fst) (map_setStream r handle stream)
  rw [List.map_map, List.map_map] at hsame
  exact hsame

/-! ### Names, handles and owners -/

/-- The handles of what is open are distinct, and all of them were issued. -/
structure Numbered (r : Registry) : Prop where
  distinct : r.numbers.Nodup
  issued : ∀ n ∈ r.numbers, 0 < n ∧ n ≤ r.issued

/-- Names of windows and handles of streams are distinct, and nothing belongs to a project that was
released. As long as handles have not run out, no two things have the same one. -/
structure Sound (r : Registry) : Prop where
  keyed : ∀ p ∈ r.windows, p.1 = Text.lower p.2.name
  names : (r.windows.map Prod.fst).Nodup
  keys : (r.streams.map Prod.fst).Nodup
  windows : ∀ p ∈ r.windows, p.2.owner ∉ r.released
  streams : ∀ p ∈ r.streams, p.2.owner ∉ r.released
  numbered : r.issued < 2 ^ 31 - 1 → r.Numbered

theorem sound_empty : ({} : Registry).Sound where
  keyed p hp := by cases hp
  names := List.nodup_nil
  keys := List.nodup_nil
  windows p hp := by cases hp
  streams p hp := by cases hp
  numbered _ := ⟨List.nodup_nil, fun n hn => by cases hn⟩

/-- A registry in which less is open stays sound. -/
theorem Sound.shrink (hr : r.Sound) (hwindows : r'.windows.Sublist r.windows)
    (hstreams : (r'.streams.map Prod.fst).Sublist (r.streams.map Prod.fst))
    (hissued : r'.issued = r.issued) (hwindow : ∀ p ∈ r'.windows, p.2.owner ∉ r'.released)
    (hstream : ∀ p ∈ r'.streams, p.2.owner ∉ r'.released) : r'.Sound := by
  have hnumbers : r'.numbers.Sublist r.numbers := (hwindows.map _).append hstreams
  constructor
  · intro p hp
    exact hr.keyed p (hwindows.subset hp)
  · exact hr.names.sublist (hwindows.map _)
  · exact hr.keys.sublist hstreams
  · exact hwindow
  · exact hstream
  · intro hfew
    rw [hissued] at hfew
    constructor
    · exact (hr.numbered hfew).distinct.sublist hnumbers
    · intro n hn
      rw [hissued]
      exact (hr.numbered hfew).issued n (hnumbers.subset hn)

/-- As long as handles have not run out, the next one is none of those that are open. -/
theorem Numbered.extends (hr : r.Numbered) (h : r.Extends r') (hfew : r'.issued < 2 ^ 31 - 1) :
    r'.Numbered := by
  obtain ⟨hissued, kept, hkept, hperm⟩ := h
  rw [next_of_few (by omega)] at hperm
  constructor
  · rw [hperm.nodup_iff, List.nodup_cons]
    refine ⟨fun hmem => ?_, hr.distinct.sublist hkept⟩
    have hold := hr.issued _ (hkept.subset hmem)
    omega
  · intro n hn
    rw [hissued]
    rcases List.mem_cons.mp (hperm.mem_iff.mp hn) with rfl | hn
    · omega
    · have hold := hr.issued n (hkept.subset hn)
      omega

/-- As long as handles have not run out, no stream has the next one. -/
theorem Sound.lookup_next (hr : r.Sound) (hfew : r.issued < 2 ^ 31 - 1) :
    r.streams.lookup r.next = none := by
  rw [List.lookup_eq_none_iff]
  intro p hp
  have hmem : p.1 ∈ r.numbers := List.mem_append_right _ (List.mem_map_of_mem hp)
  have hle := ((hr.numbered hfew).issued _ hmem).2
  rw [next_of_few hfew]
  exact bne_iff_ne.mpr (by omega)

/-- A name that no window has is no key. -/
theorem not_mem_of_window? {name : Text} (h : r.window? name = none) :
    Text.lower name ∉ r.windows.map Prod.fst := by
  intro hmem
  obtain ⟨p, hp, hkey⟩ := List.mem_map.mp hmem
  have hnone := List.lookup_eq_none_iff.mp h p hp
  rw [hkey] at hnone
  simp at hnone

theorem Sound.extends (hr : r.Sound) (h : r.Extends r') (hfew : r'.issued < 2 ^ 31 - 1) :
    r'.Numbered := by
  refine (hr.numbered ?_).extends h hfew
  have hissued := h.1
  omega

theorem Gain.sound (h : Gain r r') (hr : r.Sound) : r'.Sound := by
  cases h with
  | nothing => exact hr
  | window hopen =>
    have hnumbered := hr.extends (extends_openWindow hopen)
    obtain ⟨howner, hname, rfl⟩ := openWindow_eq_ok hopen
    refine ⟨?_, ?_, hr.keys, ?_, hr.streams, hnumbered⟩
    · intro p hp
      rcases List.mem_append.mp hp with hp | hp
      · exact hr.keyed p hp
      · obtain rfl := List.mem_singleton.mp hp
        rfl
    · rw [List.map_append]
      exact List.nodup_append_comm.mp (List.nodup_cons.mpr ⟨not_mem_of_window? hname, hr.names⟩)
    · intro p hp
      rcases List.mem_append.mp hp with hp | hp
      · exact hr.windows p hp
      · obtain rfl := List.mem_singleton.mp hp
        exact howner
  | stream hopen =>
    have hnumbered := hr.extends (extends_openStream hopen)
    obtain ⟨howner, -, rfl⟩ := openStream_eq_ok hopen
    refine ⟨hr.keyed, hr.names, ?_, hr.windows, ?_, hnumbered⟩
    · -- the stream that had the handle is gone
      rw [List.map_append]
      refine List.nodup_append_comm.mp (List.nodup_cons.mpr ⟨fun hmem => ?_, ?_⟩)
      · obtain ⟨p, hp, hkey⟩ := List.mem_map.mp hmem
        exact of_decide_eq_true (List.mem_filter.mp hp).2 hkey
      · exact hr.keys.sublist (List.filter_sublist.map _)
    · intro p hp
      rcases List.mem_append.mp hp with hp | hp
      · exact hr.streams p (List.mem_filter.mp hp).1
      · obtain rfl := List.mem_singleton.mp hp
        exact howner

/-- **Every change leaves a sound registry sound.** -/
theorem Change.sound (h : Change r r') (hr : r.Sound) : r'.Sound := by
  cases h with
  | gain hgain => exact hgain.sound hr
  | closeWindow name =>
    refine hr.shrink List.filter_sublist (List.Sublist.refl _) rfl ?_ hr.streams
    intro p hp
    exact hr.windows p (List.mem_filter.mp hp).1
  | release project =>
    have hgone : ∀ owner, owner ≠ project → owner ∉ r.released → owner ∉ project :: r.released := by
      intro owner hne hmem
      rw [List.mem_cons, not_or]
      exact ⟨hne, hmem⟩
    refine hr.shrink List.filter_sublist (List.filter_sublist.map _) rfl ?_ ?_
    · intro p hp
      obtain ⟨hmem, howner⟩ := List.mem_filter.mp hp
      exact hgone _ (of_decide_eq_true howner) (hr.windows p hmem)
    · intro p hp
      obtain ⟨hmem, howner⟩ := List.mem_filter.mp hp
      exact hgone _ (of_decide_eq_true howner) (hr.streams p hmem)
  | setStream handle stream =>
    refine hr.shrink (List.Sublist.refl _) ?_ rfl hr.windows ?_
    · rw [fst_setStream]
    · intro p hp
      have hmem : (p.1, p.2.owner) ∈ r.streams.map fun p => (p.1, p.2.owner) := by
        rw [← map_setStream r handle stream]
        exact List.mem_map_of_mem hp
      obtain ⟨q, hq, heq⟩ := List.mem_map.mp hmem
      have howner : q.2.owner = p.2.owner := congrArg Prod.snd heq
      rw [← howner]
      exact hr.streams q hq

/-! ### Handles over time -/

/-- A project that was released stays so. As long as handles have not run out, what is open later
was open before, or has a handle that had not been issued. -/
structure Onward (r r' : Registry) : Prop where
  issued : r.issued ≤ r'.issued
  released : ∀ project ∈ r.released, project ∈ r'.released
  numbers : r'.issued < 2 ^ 31 - 1 → ∀ n ∈ r'.numbers, n ∈ r.numbers ∨ r.issued < n

theorem Onward.refl (r : Registry) : r.Onward r :=
  ⟨Nat.le_refl _, fun _ h => h, fun _ _ h => .inl h⟩

theorem Onward.trans (h : r.Onward r') (h' : r'.Onward r'') : r.Onward r'' := by
  refine ⟨Nat.le_trans h.issued h'.issued, fun p hp => h'.released p (h.released p hp), ?_⟩
  intro hfew n hn
  rcases h'.numbers hfew n hn with hn | hlt
  · exact h.numbers (Nat.lt_of_le_of_lt h'.issued hfew) n hn
  · exact .inr (Nat.lt_of_le_of_lt h.issued hlt)

/-- **A handle that was issued and is not open is never open again**, as long as handles have not
run out. -/
theorem Onward.closed_stays (h : r.Onward r') (hfew : r'.issued < 2 ^ 31 - 1) {n : Nat}
    (hissued : n ≤ r.issued) (hclosed : n ∉ r.numbers) : n ∉ r'.numbers := by
  intro hmem
  rcases h.numbers hfew n hmem with hmem | hlt
  · exact hclosed hmem
  · omega

/-- The next handle is the only one that is new. -/
theorem Extends.onward (h : r.Extends r') (hreleased : r'.released = r.released) :
    r.Onward r' := by
  obtain ⟨hissued, kept, hkept, hperm⟩ := h
  refine ⟨by omega, fun p hp => hreleased ▸ hp, ?_⟩
  intro hfew n hn
  rcases List.mem_cons.mp (hperm.mem_iff.mp hn) with rfl | hn
  · rw [next_of_few (by omega)]
    exact .inr (Nat.lt_succ_self _)
  · exact .inl (hkept.subset hn)

theorem Change.onward (h : Change r r') : r.Onward r' := by
  cases h with
  | gain hgain =>
    cases hgain with
    | nothing => exact .refl r
    | window hopen =>
      refine (extends_openWindow hopen).onward ?_
      obtain ⟨-, -, rfl⟩ := openWindow_eq_ok hopen
      rfl
    | stream hopen =>
      refine (extends_openStream hopen).onward ?_
      obtain ⟨-, -, rfl⟩ := openStream_eq_ok hopen
      rfl
  | closeWindow name =>
    refine ⟨Nat.le_refl _, fun _ h => h, fun _ n hn => .inl ?_⟩
    exact ((List.filter_sublist.map _).append (List.Sublist.refl _)).subset hn
  | release project =>
    refine ⟨Nat.le_refl _, fun _ h => List.mem_cons_of_mem _ h, fun _ n hn => .inl ?_⟩
    exact ((List.filter_sublist.map _).append (List.filter_sublist.map _)).subset hn
  | setStream handle stream =>
    refine ⟨Nat.le_refl _, fun _ h => h, fun _ n hn => .inl ?_⟩
    rw [numbers, fst_setStream] at hn
    exact hn

/-! ### Handles as code reads them -/

/-- Handles that are not negative are told apart by what code reads. -/
theorem ofNat_inj {a b : Nat} (ha : a < 2 ^ 31) (hb : b < 2 ^ 31)
    (h : Int32.ofNat a = Int32.ofNat b) : a = b := by
  have hint := congrArg Int32.toInt h
  rw [Int32.toInt_ofNat_of_lt ha, Int32.toInt_ofNat_of_lt hb] at hint
  exact Int.ofNat.inj hint

/-- Windows are known by the lower-case forms of their names, one under each, and the handles of all
that is open are distinct and positive. -/
structure Orderly (r : Registry) : Prop where
  keyed : ∀ key w, (key, w) ∈ r.windows → key = Text.lower w.name
  names : (r.windows.map Prod.fst).Nodup
  distinct : r.handles.Nodup
  positive : ∀ n ∈ r.handles, 0 < n

/-- What is sound is in order, as long as handles have not run out. -/
theorem Sound.orderly (hr : r.Sound) (hfew : r.issued < 2 ^ 31 - 1) : r.Orderly := by
  obtain ⟨hdistinct, hissued⟩ := hr.numbered hfew
  refine ⟨fun key w hw => hr.keyed (key, w) hw, hr.names, ?_, ?_⟩
  · refine hdistinct.map_on fun a ha b hb hsame => ?_
    have hle := (hissued a ha).2
    have hle' := (hissued b hb).2
    exact ofNat_inj (by omega) (by omega) hsame
  · intro n hn
    obtain ⟨k, hk, rfl⟩ := List.mem_map.mp hn
    obtain ⟨hpos, hle⟩ := hissued k hk
    rw [Int32.lt_iff_toInt_lt, Int32.toInt_ofNat_of_lt (by omega)]
    exact Int.natCast_pos.mpr hpos

/-! ### What others have opened -/

/-- What is found under a key is still found if it is not filtered out. -/
theorem lookup_filter {α β : Type} [BEq α] [LawfulBEq α] {l : List (α × β)} {key : α} {x : β}
    {keep : α × β → Bool} (h : l.lookup key = some x) (hkeep : keep (key, x) = true) :
    (l.filter keep).lookup key = some x := by
  obtain ⟨before, after, rfl, hbefore⟩ := List.lookup_eq_some_iff.mp h
  rw [List.filter_append, List.filter_cons_of_pos hkeep]
  refine List.lookup_eq_some_iff.mpr ⟨_, _, rfl, fun q hq => ?_⟩
  exact hbefore q (List.mem_filter.mp hq).1

/-- All that projects other than one have opened is still open, and is as it was. -/
structure KeepsOthers (project : Nat) (r r' : Registry) : Prop where
  windows : ∀ key w, r.windows.lookup key = some w → w.owner ≠ project →
    r'.windows.lookup key = some w
  streams : ∀ handle s, r.streams.lookup handle = some s → s.owner ≠ project →
    r'.streams.lookup handle = some s

theorem KeepsOthers.refl (project : Nat) (r : Registry) : KeepsOthers project r r :=
  ⟨fun _ _ hw _ => hw, fun _ _ hs _ => hs⟩

/-- To open a window leaves alone all that is open. -/
theorem keepsOthers_openWindow {w : Window} {handle : Nat} (h : r.openWindow w = .ok (handle, r'))
    (project : Nat) : KeepsOthers project r r' := by
  obtain ⟨-, -, rfl⟩ := openWindow_eq_ok h
  constructor
  · intro key w hw _
    rw [List.lookup_append, hw]
    rfl
  · intro handle s hs _
    exact hs

/-- **To take in a stream leaves alone what others have opened iff the handle that it gets is not
that of one of their streams.** -/
theorem keepsOthers_openStream_iff {project handle : Nat} {stream : Stream}
    (h : r.openStream project stream = .ok (handle, r')) :
    KeepsOthers project r r' ↔ ∀ s, r.streams.lookup r.next = some s → s.owner = project := by
  obtain ⟨-, -, rfl⟩ := openStream_eq_ok h
  constructor
  · intro hkept s hs
    by_contra howner
    -- the stream that is found under the handle is the new one
    have hstill := hkept.streams r.next s hs howner
    have hnone : (r.streams.filter fun p => p.1 ≠ r.next).lookup r.next = none := by
      rw [List.lookup_eq_none_iff]
      intro p hp
      have hne : p.1 ≠ r.next := of_decide_eq_true (List.mem_filter.mp hp).2
      exact bne_iff_ne.mpr hne.symm
    rw [List.lookup_append, hnone] at hstill
    obtain rfl : ⟨project, stream⟩ = s := by simpa using hstill
    exact howner rfl
  · intro hown
    constructor
    · intro key w hw _
      exact hw
    · intro key s hs howner
      have hne : key ≠ r.next := by
        rintro rfl
        exact howner (hown s hs)
      rw [List.lookup_append, lookup_filter hs (decide_eq_true hne)]
      rfl

/-- To release a project leaves alone what others have opened. -/
theorem keepsOthers_release (r : Registry) (project : Nat) :
    KeepsOthers project r (r.release project) where
  windows _ _ hw howner := lookup_filter hw (decide_eq_true howner)
  streams _ _ hs howner := lookup_filter hs (decide_eq_true howner)

/-- **To close a window leaves alone what others have opened iff it is not theirs.** -/
theorem keepsOthers_closeWindow_iff (r : Registry) (project : Nat) (name : Text) :
    KeepsOthers project r (r.closeWindow name).2 ↔
      ∀ w, r.window? name = some w → w.owner = project := by
  constructor
  · intro hkept w hw
    by_contra howner
    -- nothing is left under the name
    have hstill := hkept.windows _ w hw howner
    obtain ⟨before, after, hlist, -⟩ := List.lookup_eq_some_iff.mp hstill
    have hmem : (Text.lower name, w) ∈ (r.closeWindow name).2.windows := by
      rw [hlist]
      exact List.mem_append_cons_self
    exact of_decide_eq_true (List.mem_filter.mp hmem).2 rfl
  · intro hown
    refine ⟨fun key w hw howner => ?_, fun _ _ hs _ => hs⟩
    refine lookup_filter hw (decide_eq_true ?_)
    rintro rfl
    exact howner (hown w hw)

end Registry

end SchemePlayer
