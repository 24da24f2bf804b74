import SchemePlayer.Bytecode.Listing
import SchemePlayer.Cli.Flag
import SchemePlayer.Host.Headless
import SchemePlayer.Library.Basic
import SchemePlayer.Manifest
import SchemePlayer.Store.Keeper

/-!
# The command line

Plays a project from its manifest, compiles classes into a library, or lists the code of a
class. A run of the program is a function of its arguments and the files, so it can be
reasoned about; printing and exiting are left to the caller.

- `CliRun`: what a run prints, its exit code, and the files it leaves behind.
- `Cli.run`: the program.
-/

namespace SchemePlayer

/-- A line for the standard error. -/
structure Report where
  text : Text
  /-- whether it carries a text about files or formats that is not the program's own -/
  isForeign : Bool := false
  deriving DecidableEq

/-- A run of the program so far. -/
structure CliRun where
  files : Files
  output : Text := []
  reports : List Report := []
  exitCode : Nat := 0
  /-- where to listen, when that was asked for -/
  listenAt : Option Int := none

namespace CliRun

/-- Prints a line. -/
def print (r : CliRun) (line : Text) : CliRun := { r with output := r.output ++ line ++ [10] }

/-- Reports a line. -/
def report (r : CliRun) (text : Text) (isForeign : Bool) : CliRun :=
  { r with reports := r.reports ++ [⟨text, isForeign⟩] }

/-- Reports lines of the program's own. -/
def reportAll (r : CliRun) (lines : List Text) : CliRun :=
  { r with reports := r.reports ++ lines.map (⟨·, false⟩) }

/-- Fails with a report. -/
def fail (r : CliRun) (text : Text) (isForeign : Bool) : CliRun :=
  { r.report text isForeign with exitCode := 1 }

end CliRun

namespace Cli

/-! ### Whose texts they are -/

/-- Whether a report of a manifest is about the file as such. -/
def isForeignManifest : ManifestError → Bool
  | .unreadable _ _ | .malformed _ => true
  | _ => false

/-- Whether a report of classes is about a file as such. -/
def isForeignLibrary : LibraryError → Bool
  | .unreadable _ | .badSource _ .malformed | .badCompiled _ .malformed
  | .badCompiled _ .empty => true
  | _ => false

/-- Texts in brackets. -/
def bracketed (ts : List Text) : Text := 91 :: (Text.join [32] ts ++ [93])

/-! ### Compiling and listing -/

/-- The manifest for a directory: the nearest one, or the usual one. -/
def manifestFor (fs : Files) (dir : Text) : Except ManifestError Manifest :=
  match Manifest.find fs dir with
  | .error e => .error e
  | .ok (some m) => .ok m
  | .ok none => .ok (Manifest.usual (fs.absolute dir))

/-- Loads classes from directories, or from those of the manifest when none are given, and
goes on with them and the name of the project. -/
def withClasses (r : CliRun) (dirs : List Text) (go : CliRun → Library → Text → CliRun) : CliRun :=
  match manifestFor r.files "." with
  | .error e => r.fail ("Error loading manifest: " ++ e.message) (isForeignManifest e)
  | .ok m =>
    match Library.load r.files "." (if dirs.isEmpty then m.classPaths else dirs) with
    | .error e => r.fail ("Error: " ++ e.message) (isForeignLibrary e)
    | .ok l => go r l m.name

/-- The flags of `compile`. -/
def compileFlags : List FlagSpec :=
  [⟨"o", .text [], "Output file (default <project>.slib)"⟩]

/-- Ends a run whose arguments are not understood. -/
def misused (r : CliRun) (e : FlagError) (usage : List Text) : CliRun :=
  { (r.reportAll (if e.message.isEmpty then [] else [e.message])).reportAll usage with
    exitCode := e.exitCode }

/-- Compiles classes into a library. -/
def compile (r : CliRun) (args : List Text) : CliRun :=
  match Flags.parse compileFlags args with
  | .error e => misused r e (Text.ofString "Usage of compile:" :: compileFlags.flatMap Flags.explain)
  | .ok (flags, dirs) =>
    withClasses r dirs fun r l name =>
      let given := flags.text "o" []
      let path := if given = [] then name ++ ".slib" else given
      match l.save r.files path with
      | .error e => r.fail ("Error: " ++ e.message) true
      | .ok files =>
        ({ r with files } : CliRun).print
          ("Wrote " ++ Text.ofNat l.size ++ " classes to " ++ path)

/-- The lines about a class, before its code. -/
def classLines (p : Prototype) : List Text :=
  ["class " ++ p.name ++ " (" ++ p.dir ++ ")"]
    ++ p.vars.mapIdx (fun i v =>
      "  var " ++ Text.ofNat i ++ " " ++ v.name ++ " " ++ v.type.name ++ " = " ++ Text.quote v.dflt)
    ++ p.children.map fun c =>
      "  child #" ++ Text.ofInt c.handle ++ " " ++ c.className ++ " " ++ c.name

/-- Lists the code of a class. -/
def disassemble (r : CliRun) (args : List Text) : CliRun :=
  match args with
  | [] => r.fail "Usage: stratum disasm <class> [dirs...]" false
  | name :: dirs =>
    withClasses r dirs fun r l _ =>
      match l.find? name with
      | none => r.fail ("Error: " ++ (Tree.BuildError.prototypeNotFound name).message) false
      | some p =>
        let r := (classLines p).foldl CliRun.print r
        { r with output := r.output ++ p.program.listing }

/-! ### Playing -/

/-- The flags of the program itself. -/
def playFlags : List FlagSpec :=
  [⟨"dir", .text ".", "Project directory (searched upwards for stratum.toml)"⟩,
    ⟨"executor", .text [], "Scheduler: smooth or fastest"⟩,
    ⟨"fps", .int 0, "Ticks per second for the smooth scheduler"⟩,
    ⟨"no-state", .bool false, "Neither load nor save variable sets"⟩,
    ⟨"port", .int 4567, "Server port (used with -serve)"⟩,
    ⟨"root", .text [], "Root class (overrides stratum.toml)"⟩,
    ⟨"serve", .bool false, "Serve projects over Connect (HTTP/JSON)"⟩,
    ⟨"steps", .int (-1), "Run this many ticks headless, then exit"⟩,
    ⟨"strict", .bool false, "Fail when a child class is missing"⟩,
    ⟨"v", .bool false, "Verbose output"⟩,
    ⟨"verbosity", .int (-1), "Log verbosity (overrides stratum.toml)"⟩]

/-- How the program is used. -/
def usage : List Text :=
  ["Usage: stratum [options]",
    "       stratum compile [-o out.slib] [dirs...]",
    "       stratum disasm <class> [dirs...]",
    "",
    "Loads the classes configured in stratum.toml and plays the root class.",
    "",
    "Options:"].map Text.ofString
  ++ playFlags.flatMap Flags.explain
  ++ ["",
    "Examples:",
    "  stratum                       # play until the project closes",
    "  stratum -steps 100 -v         # run 100 ticks and print the root variables",
    "  stratum -serve -port 8080     # serve the control API on :8080"].map Text.ofString

/-- A manifest with what the flags change in it. -/
def override (m : Manifest) (f : Flags) : Manifest :=
  let root := f.text "root" []
  let steps := f.int "steps" (-1)
  let executor := f.text "executor" []
  let rate := f.int "fps" 0
  let stateless := f.isSet "no-state"
  { m with
    root := if root = [] then m.root else root
    steps := if 0 ≤ steps then steps else m.steps
    executor := if executor = [] then m.executor else executor
    rate := if 0 < rate then rate else m.rate
    strict := m.strict || f.isSet "strict"
    load := m.load && !stateless
    save := m.save && !stateless }

/-- Prints how a project ended. -/
def summary (r : CliRun) (p : Project) : CliRun :=
  let r := r.print
    (p.root ++ ": " ++ p.lifecycle.name ++ " after " ++ Text.ofNat p.iterations ++ " iterations")
  let r :=
    if p.denied = 0 then r
    else r.print ("  " ++ Text.ofNat p.denied ++ " nested calls denied")
  let values := p.snapshot.values
  (Text.sort (values.map (·.1))).foldl
    (fun r name => r.print ("  " ++ name ++ " = " ++ (values.lookup name).getD [])) r

/-- The text of the failure that a subscriber was told of. -/
def failure? (acts : List Act) : Option Text :=
  acts.findSome? fun a =>
    match a with
    | .notify _ .error message => some message
    | _ => none

/-- Plays a project: so many ticks, or until it ends. -/
def playThrough (m : Manifest) (p : Playback Headless) : Except PlayError Unit × Playback Headless :=
  if 0 < m.steps then
    (.ok (), (p.steps Headless.host Headless.settle m.steps.toNat).2)
  else
    match p.play Headless.host m.name with
    | (.error e, p) => (.error e, p)
    | (.ok _, p) => (.ok (), p.drive Headless.host Headless.settle Project.usualBudget)

/-- The variable set that a project starts from, if it is asked for and there is one. -/
def startSet (r : CliRun) (m : Manifest) (store : SnapshotStore) : Option VarSet × CliRun :=
  if !m.load then (none, r)
  else match store.load m.name m.root with
    | .ok set => (some set, r)
    | .error .notFound => (none, r)
    | .error e => (none, r.report ("Warning: " ++ e.message) true)

/-- Plays a project that has been built, to its end and its closing. -/
def playProject (r : CliRun) (m : Manifest) (verbose : Bool) (store : SnapshotStore)
    (project : Project) : CliRun × SnapshotStore :=
  let play : Playback Headless := { project, host := { files := r.files } }
  let kept : Kept Headless := if m.save then .start m.name play else { name := m.name, play }
  let (_, watched) := kept.play.project.subscribe Event.error.name .nothing
  let kept := { kept with play := { kept.play with project := watched } }
  let r :=
    if verbose then
      watched.tree.missing.report.foldl
        (fun r (name, classes) =>
          r.print ("Missing " ++ name ++ " (used by " ++ bracketed classes ++ ")")) r
    else r
  let (result, kept, store) := kept.change store (playThrough m)
  match result with
  | .error e => (r.fail ("Error: " ++ e.message) false, store)
  | .ok _ =>
    let ended := kept.play.project
    let told := failure? kept.play.acts
    let r := if verbose then summary r ended else r
    let (_, kept, store) := kept.change store fun p => ((), p.close Headless.host)
    let r : CliRun := { r with files := kept.play.host.settle.files }
    (if ended.lifecycle = .error then r.fail ("Error: " ++ told.getD []) false else r, store)

/-- Builds and plays the root class. -/
def playRoot (r : CliRun) (m : Manifest) (l : Library) (verbose : Bool) (store : SnapshotStore) :
    CliRun × SnapshotStore :=
  let (varSet, r) := startSet r m store
  match Project.create
      { id := 1, root := m.root, classes := l.table, dir := m.projectDir, strict := m.strict
        varSet } with
  | .error e => (r.fail ("Error: " ++ e.message) false, store)
  | .ok p => playProject r m verbose store p

/-- Plays with the store of the manifest, where it wants one. -/
def playStored (r : CliRun) (m : Manifest) (l : Library) (verbose : Bool) : CliRun :=
  if m.load || m.save then
    match SnapshotStore.openAt r.files m.statePath with
    | .error e => r.fail ("Error opening state database: " ++ e.message) true
    | .ok (store, files) =>
      let (r, store) := playRoot { r with files } m l verbose store
      { r with files := store.flush r.files }
  else (playRoot r m l verbose {}).1

/-- Plays a project from its manifest. -/
def play (r : CliRun) (args : List Text) : CliRun :=
  match Flags.parse playFlags args with
  | .error e => misused r e usage
  | .ok (flags, _) =>
    match manifestFor r.files (flags.text "dir" ".") with
    | .error e => r.fail ("Error loading manifest: " ++ e.message) (isForeignManifest e)
    | .ok m =>
      let m := override m flags
      match Library.load r.files m.dir m.classPaths with
      | .error e => r.fail ("Error loading classes: " ++ e.message) (isForeignLibrary e)
      | .ok l =>
        let verbose := flags.isSet "v"
        let r :=
          if verbose then
            r.print ("Loaded " ++ Text.ofNat l.size ++ " classes from " ++ bracketed m.classPaths)
          else r
        if flags.isSet "serve" then { r with listenAt := some (flags.int "port" 4567) }
        else playStored r m l verbose

/-- The program. -/
def run (files : Files) (args : List Text) : CliRun :=
  let r : CliRun := { files }
  match args with
  | command :: rest =>
    if command = "compile" then compile r rest
    else if command = "disasm" then disassemble r rest
    else play r args
  | [] => play r []

end Cli

end SchemePlayer
