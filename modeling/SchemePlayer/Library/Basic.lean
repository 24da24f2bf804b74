import SchemePlayer.Class.Table
import SchemePlayer.Files.Basic
import SchemePlayer.Library.Compiled
import SchemePlayer.Library.Source

/-!
# Libraries

The classes that a project can be made of, with the files they came from. No two classes
of a library have the same name, upper and lower case alike.

- `Library.add`: the only way for a class to enter a library.
- `Library.loadFile`, `loadDir`, `load`: classes from files, which are class sources or
  compiled libraries, as their endings tell.
- `Library.save`: all classes into one compiled library.
-/

namespace SchemePlayer

/-- A class and where it came from. -/
structure LibraryEntry where
  proto : Prototype
  origin : Text
  deriving DecidableEq

/-- Classes with different names. -/
structure Library where
  /-- by the lower-case forms of their names, in the order in which they came -/
  entries : List (Text × LibraryEntry) := []

/-- Why classes could not be loaded. -/
inductive LibraryError where
  /-- two classes have one name -/
  | duplicate (name first second : Text)
  | unreadable (cause : FileError)
  | badSource (path : Text) (cause : SourceError)
  | badCompiled (path : Text) (cause : Compiled.Error)

namespace LibraryError

/-- The report. -/
def message : LibraryError → Text
  | duplicate name first second =>
    "duplicate class: " ++ name ++ " in " ++ first ++ " and " ++ second
  | unreadable cause => cause.message
  | badSource path cause => path ++ ": " ++ cause.message
  | badCompiled path cause => path ++ ": " ++ cause.message

end LibraryError

namespace Library

/-- The number of classes. -/
def size (l : Library) : Nat := l.entries.length

/-- The entry of the class with a name. -/
def entry? (l : Library) (name : Text) : Option LibraryEntry := l.entries.lookup (Text.lower name)

/-- The class with a name. -/
def find? (l : Library) (name : Text) : Option Prototype := (l.entry? name).map (·.proto)

/-- The classes as a table. -/
def table (l : Library) : ClassTable := ⟨l.entries.map fun (key, e) => (key, e.proto)⟩

/-- The names of the classes in ascending order. -/
def names (l : Library) : List Text := l.table.names

/-- The classes, in the ascending order of their names. -/
def prototypes (l : Library) : List Prototype := l.names.filterMap l.find?

/-- Adds a class from an origin, unless there is one with its name. -/
def add (l : Library) (p : Prototype) (origin : Text) : Except LibraryError Library :=
  match l.entry? p.name with
  | some e => .error (.duplicate p.name e.origin origin)
  | none => .ok ⟨l.entries ++ [(Text.lower p.name, ⟨p, origin⟩)]⟩

/-- Adds classes one after another up to the first that cannot be added. The classes
before it stay. -/
def addAll (l : Library) (origin : Text) : List Prototype → Except LibraryError Unit × Library
  | [] => (.ok (), l)
  | p :: rest =>
    match l.add p origin with
    | .ok l => l.addAll origin rest
    | .error e => (.error e, l)

/-! ### Files -/

/-- The class of a source file. -/
def readSource (fs : Files) (path : Text) : Except LibraryError Prototype :=
  match fs.read path with
  | .error e => .error (.unreadable e)
  | .ok content => (ClassSource.parse content).mapError (.badSource path)

/-- The classes of a compiled library. -/
def readCompiled (fs : Files) (path : Text) : Except LibraryError (List Prototype) :=
  match fs.read path with
  | .error e => .error (.unreadable e)
  | .ok content => (Compiled.decode content).mapError (.badCompiled path)

/-- The classes of a file; a file with any other ending has none. -/
def readFile (fs : Files) (path : Text) : Except LibraryError (List Prototype) :=
  let ending := Text.lower (Path.extension path)
  if ending = ".yaml" ∨ ending = ".yml" then (readSource fs path).map ([·])
  else if ending = ".slib" then readCompiled fs path
  else .ok []

/-- A class with a directory, unless it has one. -/
def inDirectory (dir : Text) (p : Prototype) : Prototype :=
  if p.dir = [] then { p with dir } else p

/-- Loads the classes of a file, with the number of classes it has. -/
def loadFile (l : Library) (fs : Files) (path : Text) : Except LibraryError Nat × Library :=
  match readFile fs path with
  | .error e => (.error e, l)
  | .ok ps =>
    match l.addAll path (ps.map (inDirectory (Path.directory path))) with
    | (.ok _, l) => (.ok ps.length, l)
    | (.error e, l) => (.error e, l)

/-- What the loading of several files came to. -/
structure Loading where
  library : Library
  /-- the number of classes loaded -/
  count : Nat := 0
  error? : Option LibraryError := none

/-- Loads files one after another up to the first failure. -/
def loadFiles (fs : Files) : Loading → List Text → Loading
  | s, [] => s
  | s, path :: rest =>
    match s.library.loadFile fs path with
    | (.ok k, library) => loadFiles fs { s with library, count := s.count + k } rest
    | (.error e, library) => { s with library, error? := some e }

/-- Loads all files at and below a directory. -/
def loadDir (l : Library) (fs : Files) (dir : Text) : Loading :=
  match fs.walk dir with
  | .error e => { library := l, error? := some (.unreadable e) }
  | .ok paths => loadFiles fs { library := l } paths

/-- Loads directories one after another into a library. -/
def loadDirs (fs : Files) : Library → List Text → Except LibraryError Library
  | l, [] => .ok l
  | l, dir :: rest =>
    match l.loadDir fs dir with
    | { error? := some e, .. } => .error e
    | { library, .. } => loadDirs fs library rest

/-- The library of several directories, each taken from `base` when it is not absolute. -/
def load (fs : Files) (base : Text) (dirs : List Text) : Except LibraryError Library :=
  loadDirs fs {} (dirs.map (Path.under base))

/-- Writes all classes into one compiled library. -/
def save (l : Library) (fs : Files) (path : Text) : Except FileError Files :=
  fs.write path (Compiled.encode l.prototypes)

end Library

end SchemePlayer
