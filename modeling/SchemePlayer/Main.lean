import SchemePlayer.Cli.Basic

/-!
# The program

Reads the files that a run can see, lets `Cli.run` do its work, writes back what has
changed and prints what is to be printed.
-/

namespace SchemePlayer.Main

/-- How far below a directory files are looked for. -/
def depthLimit : Nat := 64

/-- Takes in what stands at a path and below it. -/
def gather : Nat → String → Files → IO Files
  | 0, _, fs => return fs
  | depth + 1, path, fs => do
    let here ← IO.currentDir
    match ← (here / path).readDir.toBaseIO with
    | .ok entries =>
      let fs := fs.plant (Text.ofString path ++ "/") []
      entries.foldlM (fun fs e => gather depth (path ++ "/" ++ e.fileName) fs) fs
    | .error _ =>
      match ← (IO.FS.readBinFile path).toBaseIO with
      | .ok content => return fs.plant (Text.ofString path) content.data.toList
      | .error _ => return fs

/-- The directories above a path, the nearest first. -/
def above : Nat → Text → List Text
  | 0, _ => []
  | depth + 1, path =>
    let parent := Path.directory path
    if parent = path then [] else parent :: above depth parent

/-- Takes in the directories above a path that have a manifest. -/
def gatherAbove (path : Text) (fs : Files) : IO Files :=
  (above depthLimit path).foldlM
    (fun fs dir => do
      let manifest := Text.toString (Path.join [dir, Manifest.fileName])
      match ← (IO.FS.readBinFile manifest).toBaseIO with
      | .ok _ => gather depthLimit (Text.toString dir) fs
      | .error _ => return fs)
    fs

/-- The files that a run can see: those below the working directory and below the
arguments that are paths, and those of the projects they are in. -/
def visible (directory : Text) (args : List Text) : IO Files := do
  let start : Files := { current := Path.elements directory }
  let roots := directory :: (args.map (Path.under directory)).filter (· ≠ directory)
  roots.foldlM
    (fun fs root => do gatherAbove root (← gather depthLimit (Text.toString root) fs)) start

/-- Writes down what a run has changed. -/
def commit (before after : Files) : IO Unit :=
  after.nodes.forM fun (place, node) => do
    let path := Text.toString (Path.slash :: Text.join [Path.slash] place)
    if before.node? place ≠ some node then
      match node with
      | .directory => IO.FS.createDirAll path
      | .file content => IO.FS.writeBinFile path ⟨content.toArray⟩

/-- Prints a text. -/
def write (stream : IO.FS.Stream) (t : Text) : IO Unit := stream.write ⟨t.toArray⟩

end SchemePlayer.Main

open SchemePlayer in
/-- Runs the program with the given arguments. -/
def main (args : List String) : IO UInt32 := do
  let directory := Text.ofString (← IO.currentDir).toString
  let args := args.map Text.ofString
  let files ← Main.visible directory args
  let r := Cli.run files args
  Main.commit files r.files
  Main.write (← IO.getStdout) r.output
  let errors ← IO.getStderr
  r.reports.forM fun report => Main.write errors (report.text ++ [10])
  match r.listenAt with
  | none => return r.exitCode.toUInt32
  | some _ =>
    Main.write errors "Server error: requests are not taken from a network\n"
    return 1
