import SchemePlayer.Class.Table
import SchemePlayer.Files.Error
import SchemePlayer.Value.Basic

/-!
# Calls to the host

Code reaches windows, directories and streams through the host of its project. A host
answers a call at once, fails it, or promises a reply that is collected later.

- `HyperOp`: the operations a host offers, with the kinds of their arguments and results.
- `HostError`: why a call failed.
- `Host`: a host as a state machine over a state of its own.
-/

namespace SchemePlayer

/-- An operation delegated to the host. -/
inductive HyperOp where
  | screenWidth
  | screenHeight
  | openSchemeWindow
  | loadSpaceWindow
  | createWindowEx
  | createDir
  | fileExist
  | createStream
  | closeWindow
  /-- a number that stands for no operation -/
  | other (code : UInt8)
  deriving DecidableEq, Repr

namespace HyperOp

/-- The operation known by a number. -/
def ofCode (code : UInt8) : HyperOp :=
  match code with
  | 1 => screenWidth
  | 2 => screenHeight
  | 3 => openSchemeWindow
  | 4 => loadSpaceWindow
  | 5 => createWindowEx
  | 6 => createDir
  | 7 => fileExist
  | 8 => createStream
  | 9 => closeWindow
  | n => other n

/-- The name of an operation. -/
def name : HyperOp → Text
  | screenWidth => "GetScreenWidth"
  | screenHeight => "GetScreenHeight"
  | openSchemeWindow => "OpenSchemeWindow"
  | loadSpaceWindow => "LoadSpaceWindow"
  | createWindowEx => "CreateWindowEx"
  | createDir => "CreateDir"
  | fileExist => "FileExist"
  | createStream => "CreateStream"
  | closeWindow => "CloseWindow"
  | other code => "HyperOp(" ++ Text.ofNat code.toNat ++ ")"

/-- The operations that have a name of their own. -/
def all : List HyperOp :=
  [screenWidth, screenHeight, openSchemeWindow, loadSpaceWindow, createWindowEx, createDir,
    fileExist, createStream, closeWindow]

/-- The operation with a name. -/
def lookup? (name : Text) : Option HyperOp := all.find? fun op => op.name == name

/-- The kinds of the arguments, in the order in which code pushes them. -/
def args : HyperOp → List Kind
  | screenWidth | screenHeight | other _ => []
  | openSchemeWindow | loadSpaceWindow | createStream => [.string, .string, .string]
  | createWindowEx =>
    [.string, .string, .string, .float, .float, .float, .float, .string]
  | createDir | fileExist | closeWindow => [.string]

/-- The kind of the result. -/
def result : HyperOp → Kind
  | openSchemeWindow | loadSpaceWindow | createWindowEx | createStream => .handle
  | screenWidth | screenHeight | createDir | fileExist | closeWindow | other _ => .float

end HyperOp

/-- A request from running code. -/
structure HyperCall where
  op : HyperOp
  args : List Value
  deriving DecidableEq

namespace HyperCall

/-- The text of an argument, empty when it is missing or of another kind. -/
def text (c : HyperCall) (i : Nat) : Text :=
  match c.args[i]? with
  | some (.string s) => s
  | _ => []

/-- The number of an argument, zero when it is missing or of another kind. -/
def number (c : HyperCall) (i : Nat) : Float :=
  match c.args[i]? with
  | some (.float x) => x
  | _ => 0

end HyperCall

/-- Who makes a call. -/
structure Caller where
  project : Nat
  dir : Text
  className : Text := []
  inst : Nat := 0
  classes : ClassTable := {}

/-- Why a host failed a call. -/
inductive HostError where
  /-- the project has no host -/
  | noHost
  /-- a failure without a reason -/
  | unspecified
  /-- a failure with a reason -/
  | because (reason : Text)
  /-- a failure that must stop the project -/
  | unrecoverable (reason : Text)
  /-- a promised reply that will never come -/
  | replyLost
  | noScheme (className : Text)
  | unknownClass (className : Text)
  | windowExists (name : Text)
  | unknownStream (type : Text)
  /-- the project was released before its operation ended -/
  | released
  | unsupported (op : HyperOp)
  | file (cause : FileError)
  deriving DecidableEq

namespace HostError

/-- Whether a failure must stop the project. -/
def isFatal : HostError → Bool
  | unrecoverable _ => true
  | _ => false

/-- The report of a failure. -/
def message : HostError → Text
  | noHost => "no host attached"
  | unspecified => "failed"
  | because reason => reason
  | unrecoverable reason => reason ++ ": unrecoverable host failure"
  | replyLost => "reply channel closed"
  | noScheme className => className ++ ": class has no scheme"
  | unknownClass className => "unknown class: " ++ className
  | windowExists name => "window already open: " ++ name
  | unknownStream type => "unknown stream type: " ++ type
  | released => "project released"
  | unsupported op => "unsupported operation " ++ op.name
  | file cause => cause.message

end HostError

/-- What a host says to a call. -/
inductive Answer where
  | ready (value : Value)
  | failed (cause : HostError)
  /-- the reply will be found under a ticket -/
  | pending (ticket : Nat)
  deriving DecidableEq

/-- The outcome of a call that was pending. -/
inductive Reply where
  | value (value : Value)
  | failed (cause : HostError)
  deriving DecidableEq

/-- A host with a state of type `σ`. Projects are told apart by number. -/
structure Host (σ : Type) where
  /-- performs or begins an operation -/
  call : σ → Caller → HyperCall → Answer × σ
  /-- takes the reply under a ticket, if it has come -/
  collect : σ → Nat → Option Reply × σ
  /-- binds a project to a window when it starts to play -/
  attach : σ → Nat → Text → Except HostError Unit × σ
  /-- lets go of everything held for a project -/
  release : σ → Nat → σ

namespace Host

/-- The host of a project that has none: every call fails. -/
def absent : Host Unit where
  call _ _ _ := (.failed .noHost, ())
  collect _ _ := (none, ())
  attach _ _ _ := (.ok (), ())
  release _ _ := ()

/-- A host that may be missing, in which case every call fails. -/
def optional {σ : Type} (h : Host σ) : Host (Option σ) where
  call s who c :=
    match s with
    | none => (.failed .noHost, none)
    | some s => let (answer, s) := h.call s who c; (answer, some s)
  collect s ticket :=
    match s with
    | none => (none, none)
    | some s => let (reply, s) := h.collect s ticket; (reply, some s)
  attach s project target :=
    match s with
    | none => (.ok (), none)
    | some s => let (result, s) := h.attach s project target; (result, some s)
  release s project := s.map fun s => h.release s project

end Host

end SchemePlayer
