import SchemePlayer.Files.Basic
import SchemePlayer.Text.Case

/-!
# Byte streams

A stream reads and writes bytes, of a file or of a buffer in memory. An open file has one
position, which reading and writing share.

- `Files.openAs`: opens a file under a mode.
- `Stream.write`, `read`, `close`: what can be done with a stream. A stream whose file is
  closed works on its buffer from then on.
-/

namespace SchemePlayer

/-- How a file is opened. -/
structure OpenMode where
  /-- bytes may be written -/
  write : Bool := false
  /-- a file that is not there is made -/
  create : Bool := false
  /-- bytes are always written at the end -/
  append : Bool := false
  deriving DecidableEq

/-- A file that is open. -/
structure OpenFile where
  place : Place
  mode : OpenMode
  position : Nat := 0
  deriving DecidableEq

namespace Files

/-- Opens a file. A directory can be opened too, though not for writing. -/
def openAs (fs : Files) (path : Text) (mode : OpenMode) : Except FileError (OpenFile × Files) :=
  match fs.locate path with
  | .error e => .error e
  | .ok p =>
    match fs.node? p with
    | some .directory => if mode.write then .error .failed else .ok (⟨p, mode, 0⟩, fs)
    | some (.file _) => .ok (⟨p, mode, 0⟩, fs)
    | none => if mode.create then .ok (⟨p, mode, 0⟩, fs.put p (.file [])) else .error .notExist

end Files

/-- Why nothing could be read or written. -/
inductive StreamError where
  /-- nothing is left to read -/
  | atEnd
  | file (cause : FileError)
  deriving DecidableEq

namespace OpenFile

/-- Writes bytes over those at the position; the position moves behind them. -/
def write (f : OpenFile) (fs : Files) (bytes : Text) :
    Except FileError Nat × OpenFile × Files :=
  match fs.node? f.place with
  | some (.file content) =>
    if !f.mode.write then (.error .failed, f, fs)
    else
      let start := if f.mode.append then content.length else f.position
      let after := start + bytes.length
      (.ok bytes.length, { f with position := after },
        fs.put f.place (.file (content.take start ++ bytes ++ content.drop after)))
  | _ => (.error .failed, f, fs)

/-- Reads up to `count` bytes; the position moves behind them. -/
def read (f : OpenFile) (fs : Files) (count : Nat) : Except StreamError Text × OpenFile :=
  match fs.node? f.place with
  | some (.file content) =>
    let found := (content.drop f.position).take count
    if found.isEmpty && count ≠ 0 then (.error .atEnd, f)
    else (.ok found, { f with position := f.position + found.length })
  | _ => (if count = 0 then .ok [] else .error (.file .failed), f)

end OpenFile

/-- What a stream was opened on. -/
inductive StreamType where
  | file
  | memory
  deriving DecidableEq

namespace StreamType

/-- The name of a type. -/
def name : StreamType → Text
  | file => "FILE"
  | memory => "MEMORY"

/-- The type with a name, upper or lower case; an empty name is a file's. -/
def parse? (t : Text) : Option StreamType :=
  let upper := Text.upper t
  if upper = "MEMORY" then some memory
  else if upper = "FILE" ∨ upper = [] then some file
  else none

end StreamType

/-- A stream of bytes. -/
structure Stream where
  type : StreamType
  path : Text := []
  /-- the file, as long as it is open -/
  file : Option OpenFile := none
  /-- the bytes in memory that have not been read -/
  buffer : Text := []
  deriving DecidableEq

namespace Stream

/-- Whether a byte stands between the words of a mode. -/
def isSeparator (b : UInt8) : Bool := b == 32 || b == 44 || b == 124

/-- The words of a mode. -/
def modeWords (flags : Text) : List Text :=
  let spaced := (Text.upper flags).map fun b => if isSeparator b then 32 else b
  (Text.splitOn 32 spaced).filter (!·.isEmpty)

/-- The mode that some words ask for; words that say nothing do not count. -/
def mode (flags : Text) : OpenMode :=
  let asked (w : String) : Bool := (modeWords flags).contains (Text.ofString w)
  { write := asked "WRITE" || asked "CREATE" || asked "APPEND"
    create := asked "CREATE"
    append := asked "APPEND" }

/-- Opens a stream on a file or in memory. -/
def openAs (fs : Files) (type : StreamType) (path flags : Text) : Except FileError (Stream × Files) :=
  match type with
  | .memory => .ok ({ type }, fs)
  | .file =>
    match fs.openAs path (mode flags) with
    | .ok (f, fs) => .ok ({ type, path, file := some f }, fs)
    | .error e => .error e

/-- Writes bytes. -/
def write (s : Stream) (fs : Files) (bytes : Text) : Except StreamError Nat × Stream × Files :=
  match s.file with
  | some f =>
    let (r, f, fs) := f.write fs bytes
    (r.mapError .file, { s with file := some f }, fs)
  | none => (.ok bytes.length, { s with buffer := s.buffer ++ bytes }, fs)

/-- Reads up to `count` bytes. -/
def read (s : Stream) (fs : Files) (count : Nat) : Except StreamError Text × Stream :=
  match s.file with
  | some f =>
    let (r, f) := f.read fs count
    (r, { s with file := some f })
  | none =>
    let found := s.buffer.take count
    if found.isEmpty && count ≠ 0 then (.error .atEnd, s)
    else (.ok found, { s with buffer := s.buffer.drop count })

/-- Closes the file of a stream. -/
def close (s : Stream) : Stream := { s with file := none }

end Stream

end SchemePlayer
