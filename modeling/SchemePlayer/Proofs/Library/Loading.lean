import SchemePlayer.Proofs.Library.Table

/-!
# What loading a file adds

A file is loaded class by class, up to the first whose name is taken. The classes before that one
are in the library by then, and they stay there:

- `Accepts`: the classes that a library takes one after another.
- `addAll_cases`: all classes are added, or those before the first that cannot be.
- `loadFile_cases`: the same of a file, which can also be unreadable.
- `loadFile_unchanged_iff`: **when a load that fails leaves a library as it was.**
- `loadFile_gains`: a compiled library that fails and leaves a class behind.
-/

namespace SchemePlayer.Library

variable {l l' : Library} {fs : Files} {path : Text}

/-! ### Classes -/

/-- A library takes classes one after another: their keys are new to it and to each other. -/
structure Accepts (l : Library) (es : List LibraryEntry) : Prop where
  distinct : (es.map key).Nodup
  fresh : ∀ e ∈ es, key e ∉ l.keys

theorem accepts_nil (l : Library) : l.Accepts [] :=
  ⟨List.nodup_nil, fun _ he => absurd he List.not_mem_nil⟩

/-- What comes later is taken by the library with what came before. -/
theorem accepts_cons_iff {e : LibraryEntry} {es : List LibraryEntry} :
    l.Accepts (e :: es) ↔ key e ∉ l.keys ∧ (l.extend [e]).Accepts es := by
  have hkeys : (l.extend [e]).keys = l.keys ++ [key e] := keys_extend l [e]
  constructor
  · rintro ⟨hdistinct, hfresh⟩
    obtain ⟨hother, hdistinct⟩ := List.nodup_cons.mp hdistinct
    refine ⟨hfresh e List.mem_cons_self, hdistinct, fun e' he' => ?_⟩
    rw [hkeys, List.mem_append, List.mem_singleton, not_or]
    exact ⟨hfresh e' (List.mem_cons_of_mem e he'),
      fun hsame => hother (List.mem_map.mpr ⟨e', he', hsame⟩)⟩
  · rintro ⟨hnew, hdistinct, hfresh⟩
    simp only [hkeys, List.mem_append, List.mem_singleton, not_or] at hfresh
    refine ⟨List.nodup_cons.mpr ⟨fun hmem => ?_, hdistinct⟩, fun e' he' => ?_⟩
    · obtain ⟨e', he', hsame⟩ := List.mem_map.mp hmem
      exact (hfresh e' he').2 hsame
    · rcases List.mem_cons.mp he' with rfl | he'
      · exact hnew
      · exact (hfresh e' he').1

/-- What a library took is found in it. -/
theorem Accepts.found {es : List LibraryEntry} (h : l.Accepts es) {e : LibraryEntry}
    (he : e ∈ es) : l.entry? e.proto.name = none ∧ entry? (l.extend es) e.proto.name = some e := by
  have hnone : l.entry? e.proto.name = none := entry?_eq_none_iff.mpr (h.fresh e he)
  have hdistinct : ((es.map fun e => (key e, e)).map (·.1)).Nodup := by
    rw [List.map_map]
    exact h.distinct
  refine ⟨hnone, ?_⟩
  rw [ entry?, extend, List.lookup_append, ← entry?, hnone, Option.none_or]
  exact (lookup_eq_some_iff_mem hdistinct).mpr (List.mem_map.mpr ⟨e, he, rfl⟩)

/-- A library that took classes is the one it was only if there were none. -/
theorem extend_eq_self_iff {es : List LibraryEntry} : l.extend es = l ↔ es = [] := by
  constructor
  · intro h
    have hlength := congrArg (fun l : Library => l.entries.length) h
    simp only [extend, List.length_append, List.length_map] at hlength
    exact List.eq_nil_of_length_eq_zero (by omega)
  · rintro rfl
    exact extend_nil l

/-- The classes with the origin that they are added from. -/
def fromOrigin (origin : Text) (ps : List Prototype) : List LibraryEntry :=
  ps.map fun p => ⟨p, origin⟩

/-- **All classes are added, or those before the first that cannot be.** -/
theorem addAll_cases (l : Library) (origin : Text) (ps : List Prototype) :
    (l.Accepts (fromOrigin origin ps) ∧
        l.addAll origin ps = (.ok (), l.extend (fromOrigin origin ps))) ∨
      ∃ before p after taken, ps = before ++ p :: after ∧ l.Accepts (fromOrigin origin before) ∧
        entry? (l.extend (fromOrigin origin before)) p.name = some taken ∧
        l.addAll origin ps = (.error (.duplicate p.name taken.origin origin),
          l.extend (fromOrigin origin before)) := by
  induction ps generalizing l with
  | nil => exact .inl ⟨accepts_nil l, by rw [fromOrigin, List.map_nil, extend_nil, addAll]⟩
  | cons p ps ih =>
    cases hentry : l.entry? p.name with
    | some taken =>
      refine .inr ⟨[], p, ps, taken, rfl, accepts_nil l, ?_, ?_⟩
      · rw [fromOrigin, List.map_nil, extend_nil, hentry]
      · rw [fromOrigin, List.map_nil, extend_nil, addAll, add, hentry]
    | none =>
      have hnew : Text.lower p.name ∉ l.keys := entry?_eq_none_iff.mp hentry
      have hadd : l.add p origin = .ok (l.extend [⟨p, origin⟩]) := add_eq_ok_iff.mpr ⟨hnew, rfl⟩
      have hextend : ∀ qs, l.extend (fromOrigin origin (p :: qs)) =
          (l.extend [⟨p, origin⟩]).extend (fromOrigin origin qs) :=
        fun qs => extend_append l [⟨p, origin⟩] (fromOrigin origin qs)
      have haccepts : ∀ qs, (l.extend [⟨p, origin⟩]).Accepts (fromOrigin origin qs) →
          l.Accepts (fromOrigin origin (p :: qs)) :=
        fun qs h => accepts_cons_iff.mpr ⟨hnew, h⟩
      rcases ih (l.extend [⟨p, origin⟩]) with
        ⟨hrest, hall⟩ | ⟨before, q, after, taken, rfl, hbefore, htaken, hstopped⟩
      · exact .inl ⟨haccepts ps hrest, by rw [addAll, hadd, hextend]; exact hall⟩
      · refine .inr ⟨p :: before, q, after, taken, rfl, haccepts before hbefore, ?_, ?_⟩
        · rw [hextend]
          exact htaken
        · rw [addAll, hadd, hextend]
          exact hstopped

/-! ### Files -/

/-- The classes of a file as a library takes them. -/
def classesIn (fs : Files) (path : Text) : Except LibraryError (List LibraryEntry) :=
  (readFile fs path).map fun ps =>
    fromOrigin path (ps.map (inDirectory (Path.directory path)))

/-- **A file is loaded, or cannot be read, or has a class that cannot be added.** -/
theorem loadFile_cases (l : Library) (fs : Files) (path : Text) :
    (∃ cause, readFile fs path = .error cause ∧ l.loadFile fs path = (.error cause, l)) ∨
      (∃ es, classesIn fs path = .ok es ∧ l.Accepts es ∧
        l.loadFile fs path = (.ok es.length, l.extend es)) ∨
      ∃ before p after taken, classesIn fs path = .ok (before ++ ⟨p, path⟩ :: after) ∧
        l.Accepts before ∧ entry? (l.extend before) p.name = some taken ∧
        l.loadFile fs path = (.error (.duplicate p.name taken.origin path), l.extend before) := by
  cases hread : readFile fs path with
  | error cause => exact .inl ⟨cause, rfl, by rw [loadFile, hread]⟩
  | ok ps =>
    have hclasses : classesIn fs path =
        .ok (fromOrigin path (ps.map (inDirectory (Path.directory path)))) := by
      rw [classesIn, hread]
      rfl
    right
    rcases l.addAll_cases path (ps.map (inDirectory (Path.directory path))) with
      ⟨haccepts, hall⟩ | ⟨before, p, after, taken, hsplit, haccepts, htaken, hstopped⟩
    · refine .inl ⟨_, hclasses, haccepts, ?_⟩
      rw [loadFile, hread]
      simp only [hall, fromOrigin, List.length_map]
    · refine .inr
        ⟨fromOrigin path before, p, fromOrigin path after, taken, ?_, haccepts, htaken, ?_⟩
      · rw [hclasses, hsplit, fromOrigin, fromOrigin, fromOrigin, List.map_append, List.map_cons]
      · rw [loadFile, hread]
        simp only [hstopped]

/-- **When a load that fails leaves the library as it was.** It does if and only if the file cannot
be read or its very first class is one whose name is taken. What it leaves behind otherwise are the
first classes of the file, none of which was there before. -/
theorem loadFile_unchanged_iff {e : LibraryError} (h : l.loadFile fs path = (.error e, l')) :
    (l' = l ↔ ∀ first rest, classesIn fs path = .ok (first :: rest) →
      ∃ taken, l.entry? first.proto.name = some taken) ∧
      ∃ gained, l' = l.extend gained ∧ (∀ es, classesIn fs path = .ok es → gained <+: es) ∧
        ∀ new ∈ gained, l.entry? new.proto.name = none ∧ l'.entry? new.proto.name = some new := by
  rcases l.loadFile_cases fs path with ⟨cause, hread, hload⟩ | ⟨es, -, -, hload⟩ |
    ⟨before, p, after, taken, hclasses, haccepts, htaken, hload⟩
  · cases h.symm.trans hload
    have hnone : ∀ es, classesIn fs path ≠ .ok es := by
      intro es hes
      rw [classesIn, hread] at hes
      cases hes
    refine ⟨iff_of_true rfl fun first rest hfile => absurd hfile (hnone _), [], (extend_nil l).symm,
      fun es hes => absurd hes (hnone es), fun new hnew => absurd hnew List.not_mem_nil⟩
  · cases h.symm.trans hload
  · cases h.symm.trans hload
    refine ⟨?_, before, rfl, fun es hes => ?_, fun new hnew => haccepts.found hnew⟩
    · rw [extend_eq_self_iff, hclasses]
      cases before with
      | nil =>
        refine iff_of_true rfl fun first rest hfile => ?_
        cases hfile
        rw [extend_nil] at htaken
        exact ⟨taken, htaken⟩
      | cons first before =>
        refine iff_of_false (List.cons_ne_nil first before) fun hfirst => ?_
        obtain ⟨taken', htaken'⟩ := hfirst first _ rfl
        cases (haccepts.found List.mem_cons_self).1.symm.trans htaken'
    · cases hclasses.symm.trans hes
      exact List.prefix_append before _

/-- A compiled library of two classes that have nothing in them. -/
def pairFile (first second : Text) : Files where
  nodes := [(["pair.slib"], .file (Compiled.encode [{ name := first }, { name := second }]))]

/-- A library with a lamp. -/
def lampLibrary : Library := Library.extend {} [⟨{ name := "Lamp" }, "lamp.yaml"⟩]

/-- The second lamp comes first in the file, so that the room after it stays out. -/
theorem loadFile_unchanged_lamp :
    ∃ e l', lampLibrary.loadFile (pairFile "LAMP" "Room") "/pair.slib" = (.error e, l') ∧
      l' = lampLibrary := by
  have hfailed :
      (lampLibrary.loadFile (pairFile "LAMP" "Room") "/pair.slib").1.toOption = none := by
    decide +kernel
  have htaken : (classesIn (pairFile "LAMP" "Room") "/pair.slib").toOption.all (fun es =>
      es.head?.all fun first => (lampLibrary.entry? first.proto.name).isSome) = true := by
    decide +kernel
  cases hload : lampLibrary.loadFile (pairFile "LAMP" "Room") "/pair.slib" with
  | mk result l' =>
    rw [hload] at hfailed
    cases result with
    | ok count => cases hfailed
    | error e =>
      refine ⟨e, l', rfl, (loadFile_unchanged_iff hload).1.mpr fun first rest hfile => ?_⟩
      rw [hfile] at htaken
      exact Option.isSome_iff_exists.mp htaken

/-- **A room is left behind** by a load that fails: it comes before the second lamp in the file. -/
theorem loadFile_gains :
    lampLibrary.Filled ∧ ∃ e l', lampLibrary.loadFile (pairFile "Room" "LAMP") "/pair.slib" =
      (.error e, l') ∧ lampLibrary.entry? "Room" = none ∧
      l'.entry? "Room" = some ⟨{ name := "Room", dir := "/" }, "/pair.slib"⟩ := by
  have hadd : Library.add {} { name := "Lamp" } "lamp.yaml" = .ok lampLibrary := rfl
  have heval : lampLibrary.entry? "Room" = none ∧
      (lampLibrary.loadFile (pairFile "Room" "LAMP") "/pair.slib").1.toOption = none ∧
      entry? (lampLibrary.loadFile (pairFile "Room" "LAMP") "/pair.slib").2 "Room" =
        some ⟨{ name := "Room", dir := "/" }, "/pair.slib"⟩ := by
    decide +kernel
  obtain ⟨hbefore, hfailed, hafter⟩ := heval
  cases hload : lampLibrary.loadFile (pairFile "Room" "LAMP") "/pair.slib" with
  | mk result l' =>
    rw [hload] at hfailed hafter
    cases result with
    | ok count => cases hfailed
    | error e => exact ⟨.add .empty hadd, e, l', rfl, hbefore, hafter⟩

/-- A class source has one class. -/
theorem length_classesIn_source {es : List LibraryEntry}
    (hsource : Text.lower (Path.extension path) = ".yaml" ∨
      Text.lower (Path.extension path) = ".yml")
    (h : classesIn fs path = .ok es) : es.length = 1 := by
  rw [classesIn, readFile, if_pos hsource] at h
  cases hread : readSource fs path with
  | error cause =>
    rw [hread] at h
    cases h
  | ok p =>
    rw [hread] at h
    cases h
    rfl

/-- **A load of a class source that fails leaves nothing behind.** -/
theorem loadFile_source_unchanged {e : LibraryError}
    (hsource : Text.lower (Path.extension path) = ".yaml" ∨
      Text.lower (Path.extension path) = ".yml")
    (h : l.loadFile fs path = (.error e, l')) : l' = l := by
  rcases l.loadFile_cases fs path with ⟨cause, -, hload⟩ | ⟨es, -, -, hload⟩ |
    ⟨before, p, after, taken, hclasses, -, -, hload⟩
  · cases h.symm.trans hload
    rfl
  · cases h.symm.trans hload
  · cases h.symm.trans hload
    have hone := length_classesIn_source hsource hclasses
    rw [List.length_append, List.length_cons] at hone
    rw [extend_eq_self_iff]
    exact List.eq_nil_of_length_eq_zero (by omega)

end SchemePlayer.Library
