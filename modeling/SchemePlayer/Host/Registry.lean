import SchemePlayer.Files.Stream
import SchemePlayer.Host.Call

/-!
# Open windows and streams

Windows and streams are known by handles, which come from one counter, and belong to the
project that opened them. Windows are also known by name, upper and lower case alike.

- `Registry.handleOf`: a handle has 32 bits, so that the counter starts over in the end.
- `Registry.openWindow`, `openStream`: the only ways to open something. A project that was
  released opens nothing any more.
- `Registry.release`: closes all that belongs to a project.
-/

namespace SchemePlayer

/-- How a window was opened. -/
inductive WindowKind where
  /-- for the scheme of a class -/
  | scheme
  /-- for a space in a file -/
  | space
  | plain
  deriving DecidableEq

namespace WindowKind

/-- The name of a kind. -/
def name : WindowKind → Text
  | scheme => "scheme"
  | space => "space"
  | plain => "window"

end WindowKind

/-- A window, which nobody sees. -/
structure Window where
  owner : Nat
  name : Text
  kind : WindowKind
  handle : Nat := 0
  /-- the class or the file that it shows -/
  source : Text := []
  parent : Text := []
  attributes : Text := []
  x : Float := 0
  y : Float := 0
  width : Float := 0
  height : Float := 0
  deriving DecidableEq

/-- A stream and whose it is. -/
structure OwnedStream where
  owner : Nat
  stream : Stream
  deriving DecidableEq

/-- What is open. -/
structure Registry where
  /-- by the lower-case forms of their names, the oldest first -/
  windows : List (Text × Window) := []
  /-- by handle -/
  streams : List (Nat × OwnedStream) := []
  /-- the projects that are gone -/
  released : List Nat := []
  /-- how many handles were handed out -/
  issued : Nat := 0

namespace Registry

/-- The handle with a number, the first one being 1. Only 32 bits of the number are kept, and code
reads them with a sign. -/
def handleOf (number : Nat) : Nat := number % 4294967296

/-- The handle that is handed out next. -/
def next (r : Registry) : Nat := handleOf (r.issued + 1)

/-- The window with a name. -/
def window? (r : Registry) (name : Text) : Option Window := r.windows.lookup (Text.lower name)

/-- The stream with a handle. -/
def stream? (r : Registry) (handle : Nat) : Option Stream :=
  (r.streams.lookup handle).map (·.stream)

/-- Opens a window under a new handle. -/
def openWindow (r : Registry) (w : Window) : Except HostError (Nat × Registry) :=
  if w.owner ∈ r.released then .error .released
  else if (r.window? w.name).isSome then .error (.windowExists w.name)
  else
    .ok (r.next,
      { r with
        windows := r.windows ++ [(Text.lower w.name, { w with handle := r.next })]
        issued := r.issued + 1 })

/-- Takes in a stream under a new handle. A stream that still has this handle, from before the
counter started over, is replaced. -/
def openStream (r : Registry) (owner : Nat) (stream : Stream) : Except HostError (Nat × Registry) :=
  if owner ∈ r.released then .error .released
  else
    let others := r.streams.filter fun (handle, _) => handle ≠ r.next
    .ok (r.next,
      { r with
        streams := others ++ [(r.next, ⟨owner, stream⟩)]
        issued := r.issued + 1 })

/-- Changes the stream with a handle. -/
def setStream (r : Registry) (handle : Nat) (stream : Stream) : Registry :=
  { r with
    streams := r.streams.map fun (h, s) => if h = handle then (h, { s with stream }) else (h, s) }

/-- Closes the window with a name, if there is one. -/
def closeWindow (r : Registry) (name : Text) : Bool × Registry :=
  ((r.window? name).isSome,
    { r with windows := r.windows.filter fun (key, _) => key ≠ Text.lower name })

/-- Closes all windows and streams of a project. -/
def release (r : Registry) (project : Nat) : Registry :=
  { r with
    windows := r.windows.filter fun (_, w) => w.owner ≠ project
    streams := r.streams.filter fun (_, s) => s.owner ≠ project
    released := project :: r.released }

end Registry

end SchemePlayer
