import SchemePlayer.Host.Registry
import SchemePlayer.Number.Binary64

/-!
# A host without a screen

Windows are registered and never drawn. Whatever touches files takes a while: the call
becomes a task with a ticket, and the reply is there when the task is finished. Tasks can
be finished in any order, also after the project that asked for them was released.

- `HostTask`: what is left to do for a call.
- `Headless.call`: answers a call or makes a task of it.
- `Headless.finish`, `settle`: finish one task, or all.
-/

namespace SchemePlayer

/-- What is left to do for a call. -/
inductive HostTask where
  /-- opens a window; what it shows, if anything, must be there -/
  | openWindow (window : Window) (shown : Option Text)
  | makeDirectory (path : Text)
  | lookFor (path : Text)
  | openStream (project : Nat) (type path flags : Text)

/-- The state of the host. -/
structure Headless where
  screenWidth : Int := 1920
  screenHeight : Int := 1080
  files : Files := {}
  registry : Registry := {}
  /-- the windows that projects were bound to -/
  targets : List (Nat × Text) := []
  /-- unfinished tasks by ticket -/
  tasks : List (Nat × HostTask) := []
  /-- replies that have not been collected, by ticket -/
  replies : List (Nat × Reply) := []
  /-- the number of tickets handed out -/
  tickets : Nat := 0

namespace Headless

/-- The value of a handle, whose highest bit is its sign. -/
def handleValue (handle : Nat) : Value := .handle (Int32.ofNat handle)

/-! ### Tasks -/

/-- Opens a window. -/
def openWindow (h : Headless) (w : Window) : Except HostError (Value × Headless) :=
  match h.registry.openWindow w with
  | .ok (handle, registry) => .ok (handleValue handle, { h with registry })
  | .error e => .error e

/-- Opens a stream. The file may have been made even if the project is gone. -/
def openStream (h : Headless) (project : Nat) (type path flags : Text) : Reply × Headless :=
  match StreamType.parse? type with
  | none => (.failed (.unknownStream type), h)
  | some known =>
    match Stream.openAs h.files known path flags with
    | .error e => (.failed (.file e), h)
    | .ok (stream, files) =>
      let h := { h with files }
      match h.registry.openStream project stream with
      | .ok (handle, registry) => (.value (handleValue handle), { h with registry })
      | .error e => (.failed e, h)

/-- Does a task. -/
def perform (h : Headless) : HostTask → Reply × Headless
  | .openWindow w shown =>
    match shown.map h.files.status with
    | some (.error e) => (.failed (.file e), h)
    | _ =>
      match h.openWindow w with
      | .ok (v, h) => (.value v, h)
      | .error e => (.failed e, h)
  | .makeDirectory path =>
    match h.files.makeAll path with
    | .ok files => (.value (.ofBool true), { h with files })
    | .error e => (.failed (.file e), h)
  | .lookFor path => (.value (.ofBool (h.files.status path).isOk), h)
  | .openStream project type path flags => h.openStream project type path flags

/-- Puts a task off. -/
def postpone (h : Headless) (task : HostTask) : Answer × Headless :=
  (.pending h.tickets, { h with tasks := h.tasks ++ [(h.tickets, task)], tickets := h.tickets + 1 })

/-- Finishes the task with a ticket. -/
def finish (h : Headless) (ticket : Nat) : Headless :=
  match h.tasks.lookup ticket with
  | none => h
  | some task =>
    let (reply, h) := h.perform task
    { h with
      tasks := h.tasks.filter (·.1 ≠ ticket)
      replies := h.replies ++ [(ticket, reply)] }

/-- Finishes all tasks in the order in which they were asked for. -/
def settle (h : Headless) : Headless := (h.tasks.map (·.1)).foldl finish h

/-! ### Calls -/

/-- Opens a window for the scheme of a class. -/
def openScheme (h : Headless) (who : Caller) (c : HyperCall) : Answer × Headless :=
  let className := c.text 1
  match who.classes.find? className with
  | none => (.failed (.unknownClass className), h)
  | some p =>
    if !p.hasScheme then (.failed (.noScheme p.name), h)
    else
      let w : Window :=
        { owner := who.project, name := c.text 0, kind := .scheme, source := p.name
          attributes := c.text 2 }
      match h.openWindow w with
      | .ok (v, h) => (.ready v, h)
      | .error e => (.failed e, h)

/-- The window for a space in a file. -/
def spaceWindow (who : Caller) (c : HyperCall) : Window :=
  { owner := who.project, name := c.text 0, kind := .space
    source := Path.resolve who.dir (c.text 1), attributes := c.text 2 }

/-- A window with a size, which may show a file. -/
def plainWindow (who : Caller) (c : HyperCall) : Window :=
  { owner := who.project, name := c.text 0, kind := .plain, parent := c.text 1
    source := if c.text 2 = [] then [] else Path.resolve who.dir (c.text 2)
    x := c.number 3, y := c.number 4, width := c.number 5, height := c.number 6
    attributes := c.text 7 }

/-- Answers a call. -/
def call (h : Headless) (who : Caller) (c : HyperCall) : Answer × Headless :=
  let path (i : Nat) : Text := Path.resolve who.dir (c.text i)
  match c.op with
  | .screenWidth => (.ready (.float (Binary64.ofInt h.screenWidth)), h)
  | .screenHeight => (.ready (.float (Binary64.ofInt h.screenHeight)), h)
  | .openSchemeWindow => h.openScheme who c
  | .loadSpaceWindow =>
    let w := spaceWindow who c
    h.postpone (.openWindow w (some w.source))
  | .createWindowEx =>
    let w := plainWindow who c
    h.postpone (.openWindow w (if w.source = [] then none else some w.source))
  | .createDir => h.postpone (.makeDirectory (path 0))
  | .fileExist => h.postpone (.lookFor (path 0))
  | .createStream => h.postpone (.openStream who.project (c.text 0) (path 1) (c.text 2))
  | .closeWindow =>
    let (wasOpen, registry) := h.registry.closeWindow (c.text 0)
    (.ready (.ofBool wasOpen), { h with registry })
  | .other _ => (.failed (.unsupported c.op), h)

/-- Takes the reply under a ticket, if its task is finished. -/
def collect (h : Headless) (ticket : Nat) : Option Reply × Headless :=
  (h.replies.lookup ticket, { h with replies := h.replies.filter (·.1 ≠ ticket) })

/-- Binds a project to a window. -/
def attach (h : Headless) (project : Nat) (target : Text) : Headless :=
  { h with targets := (project, target) :: h.targets.filter (·.1 ≠ project) }

/-- The window that a project was bound to. -/
def target (h : Headless) (project : Nat) : Text := (h.targets.lookup project).getD []

/-- Lets go of a project. -/
def release (h : Headless) (project : Nat) : Headless :=
  { h with
    registry := h.registry.release project
    targets := h.targets.filter (·.1 ≠ project) }

/-- The host as such. -/
def host : Host Headless where
  call := call
  collect := collect
  attach h project target := (.ok (), h.attach project target)
  release := release

end Headless

end SchemePlayer
