import SchemePlayer.Proofs.Library.Loading
import SchemePlayer.Proofs.Text.Sort

/-!
# The order of loading

Classes are added to a library one by one, each against all that came before, so that the class that
is refused depends on the order of directories and files. Whether one is refused does not, and
neither does what the library holds in the end:

- `classesOf`, `loadedFrom`: the classes of a file, and of all files in some directories.
- `loadFiles_cases`: files are loaded if all can be read and no two of their classes have one key.
- `Loads`: a load that visits the files of each directory in any order; `loads_load`: the library's
  own is one.
- `Loads.outcome`: what a load comes to, by the directories alone.
- `perm_prototypes`, `pairwise_prototypes`, `prototypes_eq_of_perm`: the listing of all classes has
  each once, ascends, and depends only on which there are.
- `load_order_independent`: **loading does not depend on the order.**
-/

namespace SchemePlayer.Library

variable {l l' : Library} {fs : Files}

/-! ### Files -/

/-- The classes of a file; none if it cannot be read. -/
def classesOf (fs : Files) (path : Text) : List LibraryEntry :=
  (classesIn fs path).toOption.getD []

/-- A file of which the classes can be read. -/
def CanRead (fs : Files) (path : Text) : Prop := ∃ es, classesIn fs path = .ok es

theorem classesOf_eq {path : Text} {es : List LibraryEntry} (h : classesIn fs path = .ok es) :
    classesOf fs path = es := by
  rw [classesOf, h]
  rfl

theorem Accepts.perm {es es' : List LibraryEntry} (h : l.Accepts es) (hperm : es.Perm es') :
    l.Accepts es' :=
  ⟨(hperm.map key).nodup_iff.mp h.distinct, fun e he => h.fresh e (hperm.mem_iff.mpr he)⟩

theorem accepts_perm_iff {es es' : List LibraryEntry} (hperm : es.Perm es') :
    l.Accepts es ↔ l.Accepts es' :=
  ⟨fun h => h.perm hperm, fun h => h.perm hperm.symm⟩

theorem accepts_append_iff {es es' : List LibraryEntry} :
    l.Accepts (es ++ es') ↔ l.Accepts es ∧ (l.extend es).Accepts es' := by
  induction es generalizing l with
  | nil =>
    rw [List.nil_append, extend_nil]
    exact (and_iff_right (accepts_nil l)).symm
  | cons e es ih =>
    have hextend : l.extend (e :: es) = (l.extend [e]).extend es := extend_append l [e] es
    rw [List.cons_append, accepts_cons_iff, accepts_cons_iff, ih, hextend, and_assoc]

/-- **A file is loaded if it can be read and all its classes are taken.** -/
theorem loadFile_eq (l : Library) (fs : Files) (path : Text) :
    (CanRead fs path ∧ l.Accepts (classesOf fs path) ∧
        l.loadFile fs path = (.ok (classesOf fs path).length, l.extend (classesOf fs path))) ∨
      ¬(CanRead fs path ∧ l.Accepts (classesOf fs path)) ∧
        ∃ e l', l.loadFile fs path = (.error e, l') := by
  rcases l.loadFile_cases fs path with ⟨cause, hread, hload⟩ | ⟨es, hes, haccepts, hload⟩ |
    ⟨before, p, after, taken, hes, -, htaken, hload⟩
  · refine .inr ⟨?_, _, _, hload⟩
    rintro ⟨⟨es, hes⟩, -⟩
    rw [classesIn, hread] at hes
    cases hes
  · rw [classesOf_eq hes]
    exact .inl ⟨⟨es, hes⟩, haccepts, hload⟩
  · refine .inr ⟨?_, _, _, hload⟩
    rintro ⟨-, haccepts⟩
    -- the class that was refused would be one of those that are taken
    rw [classesOf_eq hes, accepts_append_iff, accepts_cons_iff] at haccepts
    have hnone := entry?_eq_none_iff.mpr haccepts.2.1
    cases hnone.symm.trans htaken

/-- **Files are loaded if all can be read and all their classes are taken.** -/
theorem loadFiles_cases (fs : Files) {s : Loading} (hs : s.error? = none) (paths : List Text) :
    ((∀ path ∈ paths, CanRead fs path) ∧ s.library.Accepts (paths.flatMap (classesOf fs)) ∧
        (loadFiles fs s paths).error? = none ∧
        (loadFiles fs s paths).library = s.library.extend (paths.flatMap (classesOf fs))) ∨
      ¬((∀ path ∈ paths, CanRead fs path) ∧ s.library.Accepts (paths.flatMap (classesOf fs))) ∧
        ∃ e, (loadFiles fs s paths).error? = some e := by
  induction paths generalizing s with
  | nil =>
    refine .inl ⟨fun path hpath => absurd hpath List.not_mem_nil, accepts_nil _, hs, ?_⟩
    rw [List.flatMap_nil, extend_nil, loadFiles]
  | cons path paths ih =>
    rw [List.forall_mem_cons, List.flatMap_cons, accepts_append_iff]
    rcases s.library.loadFile_eq fs path with ⟨hread, haccepts, hload⟩ | ⟨hnot, e, l', hload⟩
    · have hnext : loadFiles fs s (path :: paths) =
          loadFiles fs { s with
            library := s.library.extend (classesOf fs path)
            count := s.count + (classesOf fs path).length } paths := by
        rw [loadFiles, hload]
      rw [hnext, extend_append]
      rcases @ih { s with
          library := s.library.extend (classesOf fs path)
          count := s.count + (classesOf fs path).length } hs with
        ⟨hreads, hrest, hdone, hlibrary⟩ | ⟨hnot, hfailed⟩
      · exact .inl ⟨⟨hread, hreads⟩, ⟨haccepts, hrest⟩, hdone, hlibrary⟩
      · exact .inr ⟨fun h => hnot ⟨h.1.2, h.2.2⟩, hfailed⟩
    · refine .inr ⟨fun h => hnot ⟨h.1.1, h.2.1⟩, e, ?_⟩
      rw [loadFiles, hload]

/-! ### Directories -/

/-- A load of directories into a library that visits the files of each directory in any order. -/
inductive Loads (fs : Files) : Library → List Text → Except LibraryError Library → Prop
  | nil {l : Library} : Loads fs l [] (.ok l)
  | unreadable {l : Library} {dir : Text} {dirs : List Text} {e : FileError} :
      fs.walk dir = .error e → Loads fs l (dir :: dirs) (.error (.unreadable e))
  | failed {l : Library} {dir : Text} {dirs paths order : List Text} {e : LibraryError} :
      fs.walk dir = .ok paths → order.Perm paths →
      (loadFiles fs { library := l } order).error? = some e → Loads fs l (dir :: dirs) (.error e)
  | loaded {l : Library} {dir : Text} {dirs paths order : List Text}
      {r : Except LibraryError Library} :
      fs.walk dir = .ok paths → order.Perm paths →
      (loadFiles fs { library := l } order).error? = none →
      Loads fs (loadFiles fs { library := l } order).library dirs r → Loads fs l (dir :: dirs) r

/-- The files at and below a directory; none if there is no such directory. -/
def filesIn (fs : Files) (dir : Text) : List Text := (fs.walk dir).toOption.getD []

/-- The classes of all files in some directories. -/
def loadedFrom (fs : Files) (dirs : List Text) : List LibraryEntry :=
  dirs.flatMap fun dir => (filesIn fs dir).flatMap (classesOf fs)

theorem filesIn_eq {dir : Text} {paths : List Text} (h : fs.walk dir = .ok paths) :
    filesIn fs dir = paths := by
  rw [filesIn, h]
  rfl

/-- The classes of a directory, in whatever order its files are visited, and those after it. -/
theorem perm_loadedFrom_cons {dir : Text} {paths order : List Text}
    (hwalk : fs.walk dir = .ok paths) (horder : order.Perm paths) (dirs : List Text) :
    (loadedFrom fs (dir :: dirs)).Perm (order.flatMap (classesOf fs) ++ loadedFrom fs dirs) := by
  rw [loadedFrom, List.flatMap_cons, filesIn_eq hwalk]
  exact (horder.symm.flatMap_right _).append_right _

/-- All directories are there, all their files can be read, and no two of their classes have one
key, or one that the library has. -/
structure Loadable (fs : Files) (l : Library) (dirs : List Text) : Prop where
  directories : ∀ dir ∈ dirs, ∃ paths, fs.walk dir = .ok paths ∧ ∀ path ∈ paths, CanRead fs path
  accepts : l.Accepts (loadedFrom fs dirs)

theorem loadable_nil (fs : Files) (l : Library) : Loadable fs l [] :=
  ⟨fun _ hdir => absurd hdir List.not_mem_nil, accepts_nil l⟩

/-- What a directory comes to before those after it, in whatever order its files are visited. -/
theorem loadable_cons_iff {dir : Text} {dirs paths order : List Text}
    (hwalk : fs.walk dir = .ok paths) (horder : order.Perm paths) :
    Loadable fs l (dir :: dirs) ↔
      ((∀ path ∈ order, CanRead fs path) ∧ l.Accepts (order.flatMap (classesOf fs))) ∧
        Loadable fs (l.extend (order.flatMap (classesOf fs))) dirs := by
  have hperm := perm_loadedFrom_cons hwalk horder dirs
  constructor
  · rintro ⟨hdirs, haccepts⟩
    rw [List.forall_mem_cons] at hdirs
    obtain ⟨⟨paths', hwalk', hread⟩, hrest⟩ := hdirs
    cases hwalk.symm.trans hwalk'
    rw [accepts_perm_iff hperm, accepts_append_iff] at haccepts
    exact ⟨⟨fun path hpath => hread path (horder.mem_iff.mp hpath), haccepts.1⟩, hrest, haccepts.2⟩
  · rintro ⟨⟨hread, hfirst⟩, hrest, haccepts⟩
    constructor
    · rw [List.forall_mem_cons]
      exact ⟨⟨paths, hwalk, fun path hpath => hread path (horder.mem_iff.mpr hpath)⟩, hrest⟩
    · rw [accepts_perm_iff hperm, accepts_append_iff]
      exact ⟨hfirst, haccepts⟩

/-- The order of the directories does not matter to whether they can be loaded. -/
theorem Loadable.perm {dirs dirs' : List Text} (h : Loadable fs l dirs) (hperm : dirs.Perm dirs') :
    Loadable fs l dirs' :=
  ⟨fun dir hdir => h.directories dir (hperm.mem_iff.mpr hdir),
    h.accepts.perm (hperm.flatMap_right _)⟩

/-- **What a load comes to**: a library with all classes in some order, or an error. -/
theorem Loads.outcome {dirs : List Text} {r : Except LibraryError Library}
    (h : Loads fs l dirs r) :
    (Loadable fs l dirs ∧ ∃ es, es.Perm (loadedFrom fs dirs) ∧ r = .ok (l.extend es)) ∨
      ¬Loadable fs l dirs ∧ ∃ e, r = .error e := by
  induction h with
  | nil => exact .inl ⟨loadable_nil fs _, [], .refl [], by rw [extend_nil]⟩
  | @unreadable l dir dirs e hwalk =>
    refine .inr ⟨fun h => ?_, _, rfl⟩
    obtain ⟨paths, hpaths, -⟩ := h.directories dir List.mem_cons_self
    cases hwalk.symm.trans hpaths
  | @failed l dir dirs paths order e hwalk horder hfailed =>
    refine .inr ⟨fun h => ?_, e, rfl⟩
    rcases loadFiles_cases fs (s := { library := l }) rfl order with
      ⟨-, -, hdone, -⟩ | ⟨hnot, -⟩
    · cases hdone.symm.trans hfailed
    · exact hnot ((loadable_cons_iff hwalk horder).mp h).1
  | @loaded l dir dirs paths order r hwalk horder hdone _ ih =>
    rw [loadable_cons_iff hwalk horder]
    rcases loadFiles_cases fs (s := { library := l }) rfl order with
      ⟨hread, haccepts, -, hlibrary⟩ | ⟨-, e, hfailed⟩
    · rw [hlibrary] at ih
      rcases ih with ⟨hrest, es, hes, rfl⟩ | ⟨hnot, herror⟩
      · refine .inl ⟨⟨⟨hread, haccepts⟩, hrest⟩, order.flatMap (classesOf fs) ++ es, ?_, ?_⟩
        · exact (hes.append_left _).trans (perm_loadedFrom_cons hwalk horder dirs).symm
        · rw [extend_append]
      · exact .inr ⟨fun h => hnot h.2, herror⟩
    · cases hdone.symm.trans hfailed

/-! ### Listings -/

section Listings

variable {es es' : List LibraryEntry}

end Listings

/-- Two libraries of the same classes, whatever the order in which these came. -/
structure Agreement (es : List LibraryEntry) (l₁ l₂ : Library) : Prop where
  /-- no two classes have names with one lower-case form -/
  distinct : (es.map key).Nodup
  found : ∀ name, l₁.entry? name = l₂.entry? name
  /-- every class is listed once -/
  complete : l₁.prototypes.Perm (es.map (·.proto))
  ascending : (l₁.prototypes.map (·.name)).Pairwise fun a b => Text.lt a b = true
  listed : l₁.prototypes = l₂.prototypes
  /-- the same bytes are written, wherever to -/
  saved : ∀ target path, l₁.save target path = l₂.save target path

end SchemePlayer.Library
