import SchemePlayer.Proofs.Store.Snapshot
import SchemePlayer.Proofs.Text.Sort
import SchemePlayer.Store.Basic

/-!
# A store of snapshots is a map

A store keeps texts in rows. Seen from outside it is a map from a project and the lower-case name of
a root class to a variable set: what is loaded is what was saved last under the key, unless the key
was deleted since.

The history of a store is a list of calls. `Live` says without looking at the store which set a key
has after some calls, and `Holds` that the rows of a store are just the live sets, one for each key.
One call keeps that (`Holds.after`), so it is true of every history (`holds_afterAll`), and all that
can be asked of a store follows from it:

- `Holds.load_iff`, `Holds.load_notFound_iff`: what is loaded.
- `Holds.list_spec`: what is listed.
- `map_of_calls`: **the store is a map**, for every sequence of calls.
-/

namespace SchemePlayer

namespace SnapshotStore

/-! ### Histories -/

/-- What can be asked of a store. -/
inductive Call where
  | save (project : Text) (v : Option VarSet)
  | load (project root : Text)
  | delete (project root : Text)
  | list (project : Text)

/-- The store after a call; one that fails leaves it as it was. -/
def after (s : SnapshotStore) : Call → SnapshotStore
  | .save project v => (s.save project v).toOption.getD s
  | .delete project root => (s.delete project root).toOption.getD s
  | .load _ _ | .list _ => s

/-- The store after some calls. -/
def afterAll (s : SnapshotStore) (calls : List Call) : SnapshotStore := calls.foldl after s

/-- Whether a call is about what is kept under a key. -/
def Call.Touches (project key : Text) : Call → Prop
  | .save p (some v) => p = project ∧ Text.lower v.className = key
  | .delete p root => p = project ∧ Text.lower root = key
  | _ => False

/-- The variable set that a key has after some calls: it was saved under it, and the key was neither
saved to nor deleted since. -/
def Live (project key : Text) (calls : List Call) (v : VarSet) : Prop :=
  ∃ before later, calls = before ++ .save project (some v) :: later ∧
    Text.lower v.className = key ∧ ∀ c ∈ later, ¬c.Touches project key

/-- **What one more call does to a key**: it gives it a new set, or leaves it as it is if it is
about another key. -/
theorem live_concat_iff {project key : Text} {calls : List Call} {c : Call} {v : VarSet} :
    Live project key (calls ++ [c]) v ↔
      (c = .save project (some v) ∧ Text.lower v.className = key) ∨
        (¬c.Touches project key ∧ Live project key calls v) := by
  constructor
  · rintro ⟨before, later, hcalls, hkey, hlater⟩
    rcases List.eq_nil_or_concat later with rfl | ⟨later, c', rfl⟩
    · obtain ⟨-, hc⟩ := List.append_inj' hcalls rfl
      exact .inl ⟨List.singleton_inj.mp hc, hkey⟩
    · rw [List.concat_eq_append, ← List.cons_append, ← List.append_assoc] at hcalls
      obtain ⟨rfl, hc⟩ := List.append_inj' hcalls rfl
      obtain rfl := List.singleton_inj.mp hc
      refine .inr ⟨hlater c (by simp), before, later, rfl, hkey, fun d hd => hlater d ?_⟩
      rw [List.concat_eq_append]
      exact List.mem_append_left _ hd
  · rintro (⟨rfl, hkey⟩ | ⟨hc, before, later, rfl, hkey, hlater⟩)
    · exact ⟨calls, [], rfl, hkey, fun d hd => nomatch hd⟩
    · refine ⟨before, later ++ [c], by simp, hkey, fun d hd => ?_⟩
      rcases List.mem_append.mp hd with hd | hd
      · exact hlater d hd
      · obtain rfl := List.mem_singleton.mp hd
        exact hc

/-! ### Rows -/

/-- The key of a row. -/
def keyOf (r : SnapshotRow) : Text × Text := (r.project, r.root)

theorem isFor_iff {project root : Text} {r : SnapshotRow} :
    r.isFor project root = true ↔ keyOf r = (project, Text.lower root) := by
  simp [SnapshotRow.isFor, keyOf]

theorem mem_without {s : SnapshotStore} {project root : Text} {r : SnapshotRow} :
    r ∈ s.without project root ↔ r ∈ s.rows ∧ keyOf r ≠ (project, Text.lower root) := by
  rw [without, List.mem_filter, Bool.not_eq_true', ← Bool.not_eq_true, isFor_iff]

/-- The rows of a store are the live sets, and no key has two of them. -/
structure Holds (calls : List Call) (s : SnapshotStore) : Prop where
  isOpen : s.isOpen = true
  distinct : (s.rows.map keyOf).Nodup
  rows : ∀ project key data, (⟨project, key, data⟩ : SnapshotRow) ∈ s.rows ↔
    ∃ v, Live project key calls v ∧ v.encode = data

namespace Holds

variable {calls : List Call} {s : SnapshotStore}

/-- A call that leaves the store and all keys alone. -/
theorem idle (h : Holds calls s) {c : Call} (hc : ∀ project key, ¬c.Touches project key)
    (hsave : ∀ project v, c ≠ .save project (some v)) : Holds (calls ++ [c]) s := by
  refine ⟨h.isOpen, h.distinct, fun project key data => ?_⟩
  rw [h.rows]
  simp only [live_concat_iff, hc, hsave, not_false_eq_true, true_and, false_and, false_or]

theorem nodup_without (h : Holds calls s) (project root : Text) :
    ((s.without project root).map keyOf).Nodup :=
  h.distinct.sublist (List.filter_sublist.map keyOf)

theorem save (h : Holds calls s) (project : Text) (v : VarSet) :
    Holds (calls ++ [.save project (some v)]) (s.after (.save project (some v))) := by
  have hafter : s.after (.save project (some v)) = { s with
      rows := s.without project v.className ++ [⟨project, Text.lower v.className, v.encode⟩] } := by
    simp [after, SnapshotStore.save, h.isOpen, Except.toOption]
  rw [hafter]
  refine ⟨h.isOpen, ?_, fun p key data => ?_⟩
  · rw [List.map_append, List.map_singleton, List.nodup_append]
    refine ⟨h.nodup_without .., List.nodup_singleton _, ?_⟩
    rintro k hk _ hnew rfl
    obtain ⟨r, hr, rfl⟩ := List.mem_map.mp hk
    exact (mem_without.mp hr).2 (List.mem_singleton.mp hnew)
  · simp only [List.mem_append, List.mem_singleton, mem_without, h.rows, live_concat_iff,
      SnapshotRow.mk.injEq, keyOf, ne_eq, Prod.mk.injEq, Call.Touches, Call.save.injEq,
      Option.some.injEq]
    constructor
    · rintro (⟨⟨w, hw, hdata⟩, hother⟩ | ⟨rfl, rfl, rfl⟩)
      · exact ⟨w, .inr ⟨fun hsame => hother ⟨hsame.1.symm, hsame.2.symm⟩, hw⟩, hdata⟩
      · exact ⟨v, .inl ⟨⟨rfl, rfl⟩, rfl⟩, rfl⟩
    · rintro ⟨w, ⟨⟨rfl, rfl⟩, rfl⟩ | ⟨hother, hw⟩, rfl⟩
      · exact .inr ⟨rfl, rfl, rfl⟩
      · exact .inl ⟨⟨w, hw, rfl⟩, fun hsame => hother ⟨hsame.1.symm, hsame.2.symm⟩⟩

theorem delete (h : Holds calls s) (project root : Text) :
    Holds (calls ++ [.delete project root]) (s.after (.delete project root)) := by
  have hafter : s.after (.delete project root) = { s with rows := s.without project root } := by
    simp [after, SnapshotStore.delete, h.isOpen, Except.toOption]
  rw [hafter]
  refine ⟨h.isOpen, h.nodup_without .., fun p key data => ?_⟩
  simp only [mem_without, h.rows, live_concat_iff, keyOf, ne_eq, Prod.mk.injEq, Call.Touches,
    reduceCtorEq, false_and, false_or]
  constructor
  · rintro ⟨⟨w, hw, hdata⟩, hother⟩
    exact ⟨w, ⟨fun hsame => hother ⟨hsame.1.symm, hsame.2.symm⟩, hw⟩, hdata⟩
  · rintro ⟨w, ⟨hother, hw⟩, hdata⟩
    exact ⟨⟨w, hw, hdata⟩, fun hsame => hother ⟨hsame.1.symm, hsame.2.symm⟩⟩

/-- **One call keeps the rows in step with the live sets.** -/
theorem after (h : Holds calls s) (c : Call) : Holds (calls ++ [c]) (s.after c) := by
  cases c with
  | save project v =>
    cases v with
    | none => exact h.idle (fun _ _ => id) (fun _ _ heq => by cases heq)
    | some v => exact h.save project v
  | load project root => exact h.idle (fun _ _ => id) (fun _ _ heq => by cases heq)
  | delete project root => exact h.delete project root
  | list project => exact h.idle (fun _ _ => id) (fun _ _ heq => by cases heq)

end Holds

/-- **The rows of a store are the live sets**, after every sequence of calls. -/
theorem holds_afterAll (path : Text) (calls : List Call) :
    Holds calls (afterAll { path } calls) := by
  induction calls using List.reverseRecOn with
  | nil =>
    refine ⟨rfl, List.nodup_nil, fun project key data => iff_of_false (fun h => nomatch h) ?_⟩
    rintro ⟨v, ⟨before, later, hcalls, -⟩, -⟩
    simp at hcalls
  | append_singleton calls c ih =>
    rw [afterAll, List.foldl_append]
    exact ih.after c

/-! ### What is read -/

/-- The variable sets that are saved by some calls can be kept. -/
def Storable (calls : List Call) : Prop :=
  ∀ project v, Call.save project (some v) ∈ calls → v.WellFormed ∧ v.nesting ≤ Json.maxDepth

theorem Storable.decode {calls : List Call} (h : Storable calls) {project key : Text} {v : VarSet}
    (hv : Live project key calls v) : VarSet.decode? v.encode = some v := by
  obtain ⟨before, later, rfl, -⟩ := hv
  obtain ⟨hwell, hdeep⟩ := h project v (List.mem_append_right _ List.mem_cons_self)
  exact VarSet.decode?_encode hwell hdeep

namespace Holds

variable {calls : List Call} {s : SnapshotStore}

/-- The row of a key is the one with the live set. -/
theorem row?_eq_some (h : Holds calls s) {project root : Text} {v : VarSet}
    (hv : Live project (Text.lower root) calls v) :
    s.row? project root = some ⟨project, Text.lower root, v.encode⟩ := by
  have hmem := (h.rows _ _ _).mpr ⟨v, hv, rfl⟩
  obtain ⟨r, hr⟩ : ∃ r, s.row? project root = some r := by
    rw [← Option.isSome_iff_exists, row?, List.find?_isSome]
    exact ⟨_, hmem, isFor_iff.mpr rfl⟩
  -- no other row has the key
  have hkey := isFor_iff.mp (List.find?_some hr)
  rw [hr, Option.some.injEq]
  exact List.inj_on_of_nodup_map h.distinct (List.mem_of_find?_eq_some hr) hmem hkey

theorem row?_eq_none (h : Holds calls s) {project root : Text}
    (hnone : ¬∃ v, Live project (Text.lower root) calls v) : s.row? project root = none := by
  rw [row?, List.find?_eq_none]
  rintro ⟨p, key, data⟩ hr hfor
  obtain ⟨rfl, rfl⟩ := Prod.mk.inj (isFor_iff.mp hfor)
  obtain ⟨v, hv, -⟩ := (h.rows _ _ _).mp hr
  exact hnone ⟨v, hv⟩

theorem load_of_live (h : Holds calls s) (hcalls : Storable calls) {project root : Text}
    {v : VarSet} (hv : Live project (Text.lower root) calls v) : s.load project root = .ok v := by
  simp [load, h.isOpen, h.row?_eq_some hv, hcalls.decode hv]

theorem load_of_none (h : Holds calls s) {project root : Text}
    (hnone : ¬∃ v, Live project (Text.lower root) calls v) :
    s.load project root = .error .notFound := by
  simp [load, h.isOpen, h.row?_eq_none hnone]

/-- **What is loaded is what the key has.** -/
theorem load_iff (h : Holds calls s) (hcalls : Storable calls) (project root : Text) (v : VarSet) :
    s.load project root = .ok v ↔ Live project (Text.lower root) calls v := by
  refine ⟨fun hload => ?_, h.load_of_live hcalls⟩
  by_cases hlive : ∃ v, Live project (Text.lower root) calls v
  · obtain ⟨w, hw⟩ := hlive
    rw [h.load_of_live hcalls hw] at hload
    cases hload
    exact hw
  · rw [h.load_of_none hlive] at hload
    cases hload

theorem load_notFound_iff (h : Holds calls s) (hcalls : Storable calls) (project root : Text) :
    s.load project root = .error .notFound ↔ ¬∃ v, Live project (Text.lower root) calls v := by
  refine ⟨?_, h.load_of_none⟩
  rintro hload ⟨v, hv⟩
  rw [h.load_of_live hcalls hv] at hload
  cases hload

/-- **A call about another key changes nothing for a key.** -/
theorem load_after (h : Holds calls s) {c : Call} {project root : Text}
    (hc : ¬c.Touches project (Text.lower root)) :
    (s.after c).load project root = s.load project root := by
  have hnext := h.after c
  have hsame : ∀ v, Live project (Text.lower root) (calls ++ [c]) v ↔
      Live project (Text.lower root) calls v := by
    intro v
    rw [live_concat_iff]
    constructor
    · rintro (⟨rfl, hkey⟩ | ⟨-, hv⟩)
      · exact absurd ⟨rfl, hkey⟩ hc
      · exact hv
    · exact fun hv => .inr ⟨hc, hv⟩
  have hrow : (s.after c).row? project root = s.row? project root := by
    by_cases hlive : ∃ v, Live project (Text.lower root) calls v
    · obtain ⟨v, hv⟩ := hlive
      rw [h.row?_eq_some hv, hnext.row?_eq_some ((hsame v).mpr hv)]
    · rw [h.row?_eq_none hlive, hnext.row?_eq_none (by simpa only [hsame] using hlive)]
  rw [load, load, hnext.isOpen, h.isOpen, hrow]

/-- **What is listed are the live roots, each once and in ascending order.** -/
theorem list_spec (h : Holds calls s) (project : Text) :
    ∃ roots, s.list project = .ok roots ∧ roots.Pairwise (fun a b => Text.lt a b = true) ∧
      ∀ key, key ∈ roots ↔ ∃ v, Live project key calls v := by
  refine ⟨Text.sort ((s.rows.filter (·.project = project)).map (·.root)), ?_, ?_, fun key => ?_⟩
  · simp [list, h.isOpen]
  · refine Text.pairwise_sort (List.Nodup.map_on ?_ ?_)
    · intro r hr r' hr' hroot
      have hproject := of_decide_eq_true (List.mem_filter.mp hr).2
      have hproject' := of_decide_eq_true (List.mem_filter.mp hr').2
      refine List.inj_on_of_nodup_map h.distinct (List.mem_filter.mp hr).1
        (List.mem_filter.mp hr').1 ?_
      rw [keyOf, keyOf, hproject, hproject', hroot]
    · exact h.distinct.of_map.filter _
  · rw [Text.mem_sort, List.mem_map]
    constructor
    · rintro ⟨⟨p, root, data⟩, hr, rfl⟩
      obtain ⟨hmem, hproject⟩ := List.mem_filter.mp hr
      obtain rfl : p = project := of_decide_eq_true hproject
      obtain ⟨v, hv, -⟩ := (h.rows _ _ _).mp hmem
      exact ⟨v, hv⟩
    · rintro ⟨v, hv⟩
      exact ⟨⟨project, key, v.encode⟩,
        List.mem_filter.mpr ⟨(h.rows _ _ _).mpr ⟨v, hv, rfl⟩, decide_eq_true rfl⟩, rfl⟩

end Holds

/-- **The store is a map.** For every sequence of calls on a store that was empty, with variable
sets that can be kept: calls go through; what is loaded for a project and a root is the set that was
saved last for that project under a class name of the same lower-case form and not deleted since,
and if there is none the store says so; no call changes what is loaded under another key; and the
roots that are listed for a project are those that have a set, each once and in ascending order. -/
theorem map_of_calls (path : Text) (calls : List Call) (hcalls : Storable calls) :
    let s := afterAll { path } calls
    (∀ project v, s.save project (some v) = .ok (s.after (.save project (some v)))) ∧
      (∀ project root, s.delete project root = .ok (s.after (.delete project root))) ∧
      (∀ project root v,
        s.load project root = .ok v ↔ Live project (Text.lower root) calls v) ∧
      (∀ project root, s.load project root = .error .notFound ↔
        ¬∃ v, Live project (Text.lower root) calls v) ∧
      (∀ c project root, ¬c.Touches project (Text.lower root) →
        (s.after c).load project root = s.load project root) ∧
      ∀ project, ∃ roots, s.list project = .ok roots ∧
        roots.Pairwise (fun a b => Text.lt a b = true) ∧
        ∀ key, key ∈ roots ↔ ∃ v, Live project key calls v := by
  intro s
  have h := holds_afterAll path calls
  refine ⟨fun project v => ?_, fun project root => ?_, h.load_iff hcalls,
    h.load_notFound_iff hcalls, fun c project root => h.load_after, h.list_spec⟩
  · simp [s, after, save, h.isOpen, Except.toOption]
  · simp [s, after, delete, h.isOpen, Except.toOption]

/-- A set with a child; its texts need quotes, escapes and more than a byte for a character. -/
def schemeSet (className : Text) : VarSet :=
  .mk className 0 [("a\"b", "<\n\u0001>"), ("é\\", "\u2028")] [.mk "Menu" (-1) [("x", "1")] []]

/-- A set is saved and saved again under the same name in upper case, one of another project is
saved and deleted. -/
def schemeCalls : List Call :=
  [.save "P" (some (schemeSet "Main")), .save "Q" (some (schemeSet "Main")), .list "P",
    .save "P" (some (schemeSet "MAIN")), .delete "Q" "mAIN", .load "P" "Main"]

theorem storable_schemeCalls : Storable schemeCalls := by
  have hwell : ∀ name, Text.isUtf8 name = true →
      (schemeSet name).WellFormed ∧ (schemeSet name).nesting ≤ Json.maxDepth := by
    intro name hname
    refine ⟨.mk hname (by decide) (by decide +kernel) (by decide +kernel) ?_, ?_⟩
    · intro c hc
      obtain rfl := List.mem_singleton.mp hc
      exact .mk (by decide +kernel) (by decide) (by decide +kernel) (by decide +kernel)
        (fun c hc => nomatch hc)
    · simp [schemeSet, VarSet.nesting, VarSet.nestingAll, Json.maxDepth]
  intro project v hv
  simp only [schemeCalls, List.mem_cons, Call.save.injEq, Option.some.injEq, reduceCtorEq,
    List.not_mem_nil, or_false, false_or] at hv
  rcases hv with ⟨-, rfl⟩ | ⟨-, rfl⟩ | ⟨-, rfl⟩
  · exact hwell "Main" (by decide +kernel)
  · exact hwell "Main" (by decide +kernel)
  · exact hwell "MAIN" (by decide +kernel)

/-- The set that was saved last is loaded, and the deleted one is gone. -/
theorem map_of_calls_scheme :
    let s := afterAll { path := "vars.db" } schemeCalls
    s.load "P" "main" = .ok (schemeSet "MAIN") ∧ s.load "Q" "main" = .error .notFound ∧
      s.list "Q" = .ok [] := by
  obtain ⟨-, -, hload, hnone, -, hlist⟩ :=
    map_of_calls "vars.db" schemeCalls storable_schemeCalls
  have hgone : ∀ key v, ¬Live "Q" key schemeCalls v := by
    intro key v hv
    have hsplit : schemeCalls =
        (schemeCalls.take 4 ++ [.delete "Q" "mAIN"]) ++ [.load "P" "Main"] := rfl
    rw [hsplit, live_concat_iff, live_concat_iff] at hv
    obtain ⟨heq, -⟩ | ⟨-, ⟨heq, -⟩ | ⟨hdeleted, before, later, hcalls, hkey, -⟩⟩ := hv
    · cases heq
    · cases heq
    -- what was saved before is what was deleted
    · have hmem : Call.save "Q" (some v) ∈ schemeCalls.take 4 := by
        rw [hcalls]
        exact List.mem_append_right _ List.mem_cons_self
      have hapart : ("Q" : Text) ≠ "P" := by decide +kernel
      simp only [schemeCalls, List.take, List.mem_cons, Call.save.injEq, Option.some.injEq,
        reduceCtorEq, hapart, List.not_mem_nil, or_false, false_or, false_and, true_and] at hmem
      subst hmem
      exact hdeleted ⟨rfl, by rw [← hkey]; decide +kernel⟩
  refine ⟨(hload "P" "main" _).mpr ?_, (hnone "Q" "main").mpr fun ⟨v, hv⟩ => hgone _ v hv, ?_⟩
  · refine ⟨schemeCalls.take 3, schemeCalls.drop 4, rfl, by decide +kernel, ?_⟩
    intro c hc
    rcases List.mem_pair.mp hc with rfl | rfl
    · rintro ⟨hproject, -⟩
      revert hproject
      decide +kernel
    · exact id
  · obtain ⟨roots, hroots, -, hmem⟩ := hlist "Q"
    obtain rfl : roots = [] := by
      refine List.eq_nil_iff_forall_not_mem.mpr fun key hkey => ?_
      obtain ⟨v, hv⟩ := (hmem key).mp hkey
      exact hgone key v hv
    exact hroots

end SnapshotStore

end SchemePlayer
