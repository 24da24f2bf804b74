import SchemePlayer.Files.Basic
import SchemePlayer.Text.Case
import SchemePlayer.Toml.Parser

/-!
# Manifests

The configuration of a project, read from a file in its directory. What is left out has a
usual value; names that mean nothing are passed over, upper and lower case alike.
-/

namespace SchemePlayer

/-- The configuration of a project. -/
structure Manifest where
  name : Text := []
  root : Text := []
  /-- the working directory reported to code -/
  workDir : Text := []
  paths : List Text := []
  executor : Text := []
  rate : Int := 0
  steps : Int := 0
  strict : Bool := false
  db : Text := []
  load : Bool := false
  save : Bool := false
  verbosity : Int := 0
  /-- the directory the manifest is in -/
  dir : Text := []
  deriving DecidableEq

/-- Why there is no manifest. -/
inductive ManifestError where
  | unreadable (path : Text) (cause : FileError)
  | malformed (path : Text)
  | badExecutor (path : Option Text) (name : Text)
  | badSteps (path : Option Text) (steps : Int)
  deriving DecidableEq

namespace ManifestError

/-- A report of something in the file at a path. -/
def located (path : Option Text) (report : Text) : Text :=
  match path with
  | some path => path ++ ": " ++ report
  | none => report

/-- The report. -/
def message : ManifestError → Text
  | unreadable path _ => "cannot read " ++ path
  | malformed path => "parse error in " ++ path
  | badExecutor path name =>
    located path ("run.executor must be \"smooth\" or \"fastest\", got " ++ Text.quote name)
  | badSteps path steps =>
    located path ("run.steps must not be negative, got " ++ Text.ofInt steps)

end ManifestError

namespace Manifest

/-- The name of the file. -/
def fileName : Text := "stratum.toml"

/-! ### Reading fields -/

/-- Takes a text. -/
def asText : Toml → Option Text
  | .string s => some s
  | _ => none

/-- Takes a whole number. -/
def asInteger : Toml → Option Int
  | .integer n => some n
  | _ => none

/-- Takes a truth value. -/
def asBool : Toml → Option Bool
  | .bool b => some b
  | _ => none

/-- Takes a list of texts. -/
def asTexts : Toml → Option (List Text)
  | .array items => items.mapM asText
  | _ => none

/-- Takes the entries of a table. -/
def asTable : Toml → Option TomlTable
  | .table t => some t
  | _ => none

/-- Reads the entries whose names mean `name`, the last of which counts; all of them must
be of the right type. -/
def field? {α : Type} (t : TomlTable) (name : Text) (missing : α) (read : Toml → Option α) :
    Option α :=
  (t.filter fun e => Text.equalFold e.1 name).foldlM (fun _ e => read e.2) missing

/-- Reads the manifest of a document, in which nothing is filled in. -/
def ofTable? (t : TomlTable) : Option Manifest := do
  let project ← field? t "project" [] asTable
  let classes ← field? t "classes" [] asTable
  let run ← field? t "run" [] asTable
  let state ← field? t "state" [] asTable
  let log ← field? t "log" [] asTable
  return {
    name := ← field? project "name" [] asText
    root := ← field? project "root" [] asText
    workDir := ← field? project "dir" [] asText
    paths := ← field? classes "paths" [] asTexts
    executor := ← field? run "executor" [] asText
    rate := ← field? run "fps" 0 asInteger
    steps := ← field? run "steps" 0 asInteger
    strict := ← field? run "strict" false asBool
    db := ← field? state "db" [] asText
    load := ← field? state "load" false asBool
    save := ← field? state "save" false asBool
    verbosity := ← field? log "verbosity" 0 asInteger }

/-! ### Usual values and checks -/

/-- A text, or another when it is empty. -/
def orElse (t usual : Text) : Text := if t.isEmpty then usual else t

/-- Fills in what was left out. -/
def fill (m : Manifest) : Manifest :=
  { m with
    name := orElse m.name (Path.base m.dir)
    root := orElse m.root "Root"
    workDir := orElse m.workDir "."
    paths := if m.paths.isEmpty then ["classes"] else m.paths
    executor := orElse m.executor "smooth"
    rate := if m.rate ≤ 0 then 60 else m.rate
    db := orElse m.db ".stratum/state.db" }

/-- Refuses what has no sensible meaning. -/
def check (path : Option Text) (m : Manifest) : Except ManifestError Manifest :=
  if m.executor ≠ "smooth" ∧ m.executor ≠ "fastest" then .error (.badExecutor path m.executor)
  else if m.steps < 0 then .error (.badSteps path m.steps)
  else .ok m

/-- The manifest of a directory that has none. -/
def usual (dir : Text) : Manifest := fill { dir }

/-- Reads the manifest in a directory. -/
def read (fs : Files) (dir : Text) : Except ManifestError Manifest :=
  let path := Path.join [dir, fileName]
  match fs.read path with
  | .error e => .error (.unreadable path e)
  | .ok content =>
    match (Toml.parse? content).bind ofTable? with
    | none => .error (.malformed path)
    | some m => check (some path) (fill { m with dir := fs.absolute dir })

/-- Looks for a manifest from a directory upward; `depth` bounds how far. -/
def findFrom (fs : Files) : Nat → Text → Except ManifestError (Option Manifest)
  | 0, _ => .ok none
  | depth + 1, dir =>
    match fs.status (Path.join [dir, fileName]) with
    | .ok _ =>
      match read fs dir with
      | .ok m => .ok (some m)
      | .error e => .error e
    | .error _ =>
      let parent := Path.directory dir
      if parent = dir then .ok none else findFrom fs depth parent

/-- Looks for a manifest in a directory and in those it is in. -/
def find (fs : Files) (dir : Text) : Except ManifestError (Option Manifest) :=
  let dir := fs.absolute dir
  findFrom fs (dir.length + 1) dir

/-! ### Paths -/

/-- The directories that classes are loaded from. -/
def classPaths (m : Manifest) : List Text := m.paths.map (Path.under m.dir)

/-- The working directory of the project. -/
def projectDir (m : Manifest) : Text := Path.under m.dir m.workDir

/-- Where variable sets are kept. -/
def statePath (m : Manifest) : Text := Path.under m.dir m.db

end Manifest

end SchemePlayer
