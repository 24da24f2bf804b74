import SchemePlayer.Cbor.Field
import SchemePlayer.Cbor.Parser
import SchemePlayer.Files.Basic
import SchemePlayer.Store.Snapshot

/-!
# Stores of snapshots

A store keeps one snapshot for every project and root class; the class is taken in lower
case. It is a file, read when the store is opened.

- `SnapshotStore.save`, `load`, `delete`, `list`: what can be done with a store that is open.
- `SnapshotStore.openAt`, `flush`: from a file and back.
-/

namespace SchemePlayer

/-- A snapshot in a store. -/
structure SnapshotRow where
  project : Text
  /-- the lower-case form of the root's class name -/
  root : Text
  /-- the text of the variable set -/
  data : Text
  deriving DecidableEq

/-- A store. -/
structure SnapshotStore where
  path : Text := []
  rows : List SnapshotRow := []
  isOpen : Bool := true
  deriving DecidableEq

/-- Why a store did not do what it was asked for. -/
inductive StoreError where
  /-- there is no such snapshot -/
  | notFound
  /-- there is nothing to save -/
  | nothingToSave
  /-- a snapshot is no variable set -/
  | malformed
  /-- the store was closed -/
  | closed
  /-- the directory of the store cannot be made -/
  | noDirectory (cause : FileError)
  /-- there is something at the path that is no store -/
  | notAStore
  deriving DecidableEq

namespace StoreError

/-- The report. -/
def message : StoreError → Text
  | notFound => "snapshot not found"
  | nothingToSave => "saving snapshot: nil variable set"
  | malformed => "parsing snapshot: malformed variable set"
  | closed => "the store is closed"
  | noDirectory cause => "creating database directory: " ++ cause.message
  | notAStore => "opening database: not a database"

end StoreError

namespace SnapshotRow

/-- Whether a row is the one of a project and a root class. -/
def isFor (project root : Text) (r : SnapshotRow) : Bool :=
  r.project == project && r.root == Text.lower root

end SnapshotRow

namespace SnapshotStore

/-- The row of a project and a root class. -/
def row? (s : SnapshotStore) (project root : Text) : Option SnapshotRow :=
  s.rows.find? (·.isFor project root)

/-- The rows of all other projects and root classes. -/
def without (s : SnapshotStore) (project root : Text) : List SnapshotRow :=
  s.rows.filter fun r => !r.isFor project root

/-- Keeps a variable set as the snapshot of a project and the set's class. -/
def save (s : SnapshotStore) (project : Text) (v : Option VarSet) :
    Except StoreError SnapshotStore :=
  match v with
  | none => .error .nothingToSave
  | some v =>
    if !s.isOpen then .error .closed
    else
      .ok { s with
        rows := s.without project v.className ++ [⟨project, Text.lower v.className, v.encode⟩] }

/-- The snapshot of a project and a root class. -/
def load (s : SnapshotStore) (project root : Text) : Except StoreError VarSet :=
  if !s.isOpen then .error .closed
  else match s.row? project root with
    | none => .error .notFound
    | some r =>
      match VarSet.decode? r.data with
      | some v => .ok v
      | none => .error .malformed

/-- Forgets the snapshot of a project and a root class, if there is one. -/
def delete (s : SnapshotStore) (project root : Text) : Except StoreError SnapshotStore :=
  if !s.isOpen then .error .closed else .ok { s with rows := s.without project root }

/-- The root classes of a project's snapshots in ascending order. -/
def list (s : SnapshotStore) (project : Text) : Except StoreError (List Text) :=
  if !s.isOpen then .error .closed
  else .ok (Text.sort ((s.rows.filter (·.project = project)).map (·.root)))

/-- Puts a text in the place of a snapshot, and tells how many there were. -/
def replace (s : SnapshotStore) (project root data : Text) : Nat × SnapshotStore :=
  let hit (r : SnapshotRow) : Bool := r.project == project && r.root == root
  ((s.rows.filter hit).length,
    { s with rows := s.rows.map fun r => if hit r then { r with data } else r })

/-- Closes a store. -/
def close (s : SnapshotStore) : SnapshotStore := { s with isOpen := false }

/-! ### Files -/

/-- The item of a row. -/
def ofRow (r : SnapshotRow) : Cbor := .array [.bytes r.project, .bytes r.root, .bytes r.data]

/-- Reads a row. -/
def rowOf? : Cbor → Option SnapshotRow
  | .array [.bytes project, .bytes root, .bytes data] => some ⟨project, root, data⟩
  | _ => none

/-- The content of a store's file. -/
def encode (s : SnapshotStore) : Text := (Cbor.array (s.rows.map ofRow)).encode

/-- The rows of a store's file; one without content has none. -/
def rowsOf? (content : Text) : Option (List SnapshotRow) :=
  if content = [] then some []
  else match Cbor.parse? content with
    | some (.array items) => items.mapM rowOf?
    | _ => none

/-- Writes a store to its file. -/
def flush (s : SnapshotStore) (fs : Files) : Files :=
  (fs.write s.path s.encode).toOption.getD fs

/-- Opens the store at a path, which is made if it is not there. -/
def openAt (fs : Files) (path : Text) : Except StoreError (SnapshotStore × Files) :=
  let dir := Path.directory path
  match if dir = "." then .ok fs else fs.makeAll dir with
  | .error e => .error (.noDirectory e)
  | .ok fs =>
    match fs.status path with
    | .ok (.file content) =>
      match rowsOf? content with
      | some rows => .ok ({ path, rows }, fs)
      | none => .error .notAStore
    | .ok .directory => .error .notAStore
    | .error .failed => .error .notAStore
    | .error .notExist =>
      let s : SnapshotStore := { path }
      .ok (s, s.flush fs)

end SnapshotStore

end SchemePlayer
