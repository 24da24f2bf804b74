import SchemePlayer.Files.Error
import SchemePlayer.Files.Path

/-!
# File trees

A tree of directories and files as a value, so that everything that touches files is a
function. Places in the tree are lists of element names, from the root.

- `Files.locate`: from a path to a place. Every element but the last must be a directory.
- `Files.read`, `write`, `makeAll`, `list`: what can be done at a path.
-/

namespace SchemePlayer

/-- What stands at a place. -/
inductive FileNode where
  | file (content : Text)
  | directory
  deriving DecidableEq

/-- A place in a tree: the names from the root down. -/
abbrev Place := List Text

/-- A tree of files. The root is always there. -/
structure Files where
  nodes : List (Place × FileNode) := []
  /-- where paths that are not absolute start -/
  current : Place := []

namespace Files

/-- What stands at a place. -/
def node? (fs : Files) (p : Place) : Option FileNode :=
  if p = [] then some .directory else fs.nodes.lookup p

/-- Puts something at a place. -/
def put (fs : Files) (p : Place) (n : FileNode) : Files :=
  if p = [] then fs else { fs with nodes := fs.nodes.filter (·.1 ≠ p) ++ [(p, n)] }

/-- The longest name that an element of a path can have. -/
def nameLimit : Nat := 255

/-- Follows elements from a place; all but the last must lead to directories. -/
def follow (fs : Files) : Place → List Text → Except FileError Place
  | p, [] => .ok p
  | p, element :: rest =>
    match fs.node? p with
    | none => .error .notExist
    | some (.file _) => .error .failed
    | some .directory =>
      if element = [] ∨ element = "." then fs.follow p rest
      else if element = ".." then fs.follow p.dropLast rest
      else if nameLimit < element.length then .error .failed
      else fs.follow (p ++ [element]) rest

/-- The place a path leads to, whether or not anything stands there. No path holds a zero
byte. -/
def locate (fs : Files) (path : Text) : Except FileError Place :=
  if path = [] then .error .notExist
  else if path.contains 0 then .error .failed
  else fs.follow (if Path.isAbsolute path then [] else fs.current) (Text.splitOn Path.slash path)

/-- What stands at a path. -/
def status (fs : Files) (path : Text) : Except FileError FileNode :=
  match fs.locate path with
  | .error e => .error e
  | .ok p =>
    match fs.node? p with
    | some n => .ok n
    | none => .error .notExist

/-- The content of a file. -/
def read (fs : Files) (path : Text) : Except FileError Text :=
  match fs.status path with
  | .error e => .error e
  | .ok .directory => .error .failed
  | .ok (.file content) => .ok content

/-- Whether the directory that a place is in is there. -/
def hasParent (fs : Files) (p : Place) : Bool := fs.node? p.dropLast == some .directory

/-- Writes a file, in the place of one that was there. -/
def write (fs : Files) (path content : Text) : Except FileError Files :=
  match fs.locate path with
  | .error e => .error e
  | .ok p =>
    match fs.node? p with
    | some .directory => .error .failed
    | _ => if fs.hasParent p then .ok (fs.put p (.file content)) else .error .notExist

/-- Makes every directory on the way from a place to one below it. -/
def makeFrom (fs : Files) (p : Place) : List Text → Except FileError Files
  | [] => .ok fs
  | element :: rest =>
    let q := p ++ [element]
    match fs.node? q with
    | some (.file _) => .error .failed
    | some .directory => fs.makeFrom q rest
    | none =>
      if nameLimit < element.length then .error .failed
      else (fs.put q .directory).makeFrom q rest

/-- Makes a directory with all that it is in. -/
def makeAll (fs : Files) (path : Text) : Except FileError Files :=
  if path = [] then .error .notExist
  else if path.contains 0 then .error .failed
  else if Path.isAbsolute path then fs.makeFrom [] (Path.elements path)
  else
    let whole := Path.elements (Path.slash :: Text.join [Path.slash] (fs.current ++ [path]))
    fs.makeFrom [] whole

/-- The absolute form of a path. -/
def absolute (fs : Files) (path : Text) : Text :=
  if Path.isAbsolute path then Path.clean path
  else Path.join [Path.slash :: Text.join [Path.slash] fs.current, path]

/-- The names in a directory, in ascending order. -/
def list (fs : Files) (p : Place) : List Text :=
  Text.sort (fs.nodes.filterMap fun (q, _) =>
    if q.dropLast = p then q.getLast? else none)

/-- The files at and below a place, in the order of their names, each with the path that
leads there; `depth` bounds how far down. -/
def walkFrom (fs : Files) : Nat → Text → Place → List Text
  | 0, _, _ => []
  | depth + 1, path, p =>
    match fs.node? p with
    | none => []
    | some (.file _) => [path]
    | some .directory =>
      (fs.list p).flatMap fun name => fs.walkFrom depth (Path.join [path, name]) (p ++ [name])

/-- The files at and below a path. No way down is longer than the number of nodes. -/
def walk (fs : Files) (path : Text) : Except FileError (List Text) :=
  match fs.locate path with
  | .error e => .error e
  | .ok p =>
    match fs.node? p with
    | none => .error .notExist
    | some _ => .ok (fs.walkFrom (fs.nodes.length + 1) path p)

/-- The paths of all that is below a directory, taken from there, in ascending order;
those of directories end in a slash. -/
def below (fs : Files) (dir : Text) : List Text :=
  Text.sort (fs.nodes.filterMap fun (p, n) =>
    (Text.dropBeginning? (dir ++ [Path.slash])
      (Path.slash :: Text.join [Path.slash] p)).map fun rest =>
        if n = .directory then rest ++ [Path.slash] else rest)

/-- Makes a file or, for a path that ends in a slash, a directory, with all that it is in. -/
def plant (fs : Files) (path content : Text) : Files :=
  if path.getLast? = some Path.slash then (fs.makeAll path).toOption.getD fs
  else
    let fs := (fs.makeAll (Path.directory path)).toOption.getD fs
    (fs.write path content).toOption.getD fs

end Files

end SchemePlayer
