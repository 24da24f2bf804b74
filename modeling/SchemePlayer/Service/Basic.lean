import SchemePlayer.Service.Request
import SchemePlayer.Service.Session

/-!
# The service

Clients open projects from the classes of the service, play and inspect them, and close
them. Projects share the files and the store of snapshots, if there is one.

- `Service`: the sessions and what they share.
- `Service.serve`: does a request.
- `Service.destroy`, `sweep`: end a session, or all that nobody used lately.
-/

namespace SchemePlayer

/-- The sessions and what they share. -/
structure Service where
  classes : ClassTable := {}
  /-- the working directory of projects -/
  dir : Text := []
  /-- whether projects have a host -/
  headless : Bool := false
  files : Files := {}
  store : Option SnapshotStore := none
  /-- the name of the session with a number, different for each -/
  sessionId : Nat → Text
  /-- how many sessions have been opened -/
  opened : Nat := 0
  /-- the open sessions, the oldest first -/
  sessions : List Session := []
  /-- the time, which only ever grows -/
  now : Int := 0

namespace Service

/-- The largest number of ticks in one request. -/
def stepLimit : Int := 10000

/-! ### Sessions -/

/-- The session with a name. -/
def session? (v : Service) (id : Text) : Option Session := v.sessions.find? (·.id = id)

/-- A session whose host, if it has one, sees the files as they are. -/
def withFiles (fs : Files) (s : Session) : Session :=
  s.update fun p => { p with host := p.host.map fun h => { h with files := fs } }

/-- A session whose host has done all that it was asked for. -/
def settled (s : Session) : Session :=
  s.update fun p => { p with host := p.host.map Headless.settle }

/-- The files after what a session did. -/
def filesAfter (v : Service) (s : Session) : Files :=
  match s.worker.state.host with
  | some h => h.files
  | none => v.files

/-- The store after what a session did. -/
def storeAfter (v : Service) (s : Session) : Option SnapshotStore :=
  if s.due = 0 then v.store
  else v.store.map fun store => (store.save s.name (some s.project.snapshot)).toOption.getD store

/-- Takes over what a session did to what all share. -/
def share (v : Service) (s : Session) : Service :=
  { v with files := v.filesAfter s, store := v.storeAfter s }

/-- Puts a session in the place of the one with its name. -/
def put (v : Service) (s : Session) : Service :=
  { v with sessions := v.sessions.map fun t => if t.id = s.id then s else t }

/-- Lets something happen in a session. -/
def change {α : Type} (v : Service) (s : Session) (f : Session → α × Session) : α × Service :=
  let (a, s) := f (withFiles v.files s)
  let s := settled s
  (a, (v.share s).put { s with due := 0 })

/-- Ends sessions that have been taken out. -/
def bury (v : Service) (gone : List Session) : Service :=
  gone.foldl (fun v s => v.share (settled (withFiles v.files s).shut)) v

/-- Ends a session; the flag tells whether there was one. -/
def destroy (v : Service) (id : Text) : Bool × Service :=
  match v.session? id with
  | none => (false, v)
  | some s => (true, { v with sessions := v.sessions.filter (·.id ≠ id) }.bury [s])

/-- Ends the sessions that were last used longer ago than `age`, and tells how many. -/
def sweep (v : Service) (age : Int) : Nat × Service :=
  let isStale (s : Session) : Bool := s.lastUsed < v.now - age
  let stale := v.sessions.filter isStale
  (stale.length, { v with sessions := v.sessions.filter fun s => !isStale s }.bury stale)

/-- Ends all sessions. -/
def destroyAll (v : Service) : Service := { v with sessions := [] }.bury v.sessions

/-- Lets the executor of a session call back until the project stops playing. -/
def drive (v : Service) (id : Text) : Service :=
  match v.session? id with
  | some s => (v.change s fun s => ((), s.drive)).2
  | none => v

/-! ### Answers -/

/-- The record of a project's state. -/
def stateOf (lastError : Text) (p : Project) : Json :=
  .record ([("state", .str p.lifecycle.name), ("waiting", .bool p.waiting),
      ("iterations", .nat p.iterations)]
    ++ Json.optional (p.denied = 0) "reentrancyDenied" (.nat p.denied)
    ++ Json.optional lastError.isEmpty "error" (.str lastError))

/-- The record of a session. -/
def sessionOf (s : Session) : Json :=
  .record [("id", .str s.id), ("name", .str s.name), ("root", .str s.root),
    ("state", .str s.project.lifecycle.name)]

/-- The record of a new session. -/
def openedOf (s : Session) : Json :=
  let tree := s.project.tree
  let missing := tree.missing.report.map fun (name, classes) =>
    Json.record [("name", .str name), ("classes", .arr (classes.map .str))]
  .record ([("sessionId", .str s.id), ("instances", .nat tree.instances.size)]
    ++ Json.optional missing.isEmpty "missingCommands" (.arr missing))

/-- The record of an instance's variables. -/
def variablesOf (p : Project) (id : Nat) (inst : Instance) : Json :=
  let values := inst.proto.vars.foldl
    (fun found d => match p.var? id d.name with
      | some v => VarSet.setValue found d.name v.format
      | none => found)
    []
  .record [("class", .str inst.proto.name),
    ("values", .obj (values.map fun (name, text) => (name, .str text)))]

/-! ### Requests -/

/-- The snapshot that a new project starts from, if it is asked for and there is one. -/
def restored (v : Service) (name root : Text) (restore : Bool) :
    Except ServiceError (Option VarSet) :=
  match v.store with
  | none => .ok none
  | some store =>
    if !restore then .ok none
    else match store.load name root with
      | .ok set => .ok (some set)
      | .error .notFound => .ok none
      | .error e => .error (.store e)

/-- A session for a new project. -/
def newSession (v : Service) (name : Text) (p : Project) : Session :=
  let (saver, p) : Option Nat × Project :=
    if v.store.isSome then
      let (id, p) := p.subscribe Event.closed.name .nothing
      (some id, p)
    else (none, p)
  let (watcher, p) := p.subscribe Event.error.name .nothing
  { id := v.sessionId v.opened
    name
    root := p.root
    worker := { state := { project := p, host := if v.headless then some { files := v.files } else none } }
    saver
    watcher
    lastUsed := v.now }

/-- Opens a session. -/
def openSession (v : Service) (name root : Text) (restore strict : Bool) : Outcome × Service :=
  if root = [] then (.error .rootMissing, v)
  else
    let name := if name = [] then root else name
    match v.restored name root restore with
    | .error e => (.error e, v)
    | .ok varSet =>
      match Project.create
          { id := v.opened + 1, root, classes := v.classes, dir := v.dir, strict, varSet } with
      | .error e => (.error (.notBuilt e), v)
      | .ok p =>
        let s := v.newSession name p
        (.ok (openedOf s), { v with sessions := v.sessions ++ [s], opened := v.opened + 1 })

/-- Lets a job run in a session, which counts as use. -/
def within (v : Service) (id : Text) (job : Player → Outcome × Player) : Outcome × Service :=
  if id = [] then (.error .sessionMissing, v)
  else match v.session? id with
    | none => (.error (.unknownSession id), v)
    | some s => v.change { s with lastUsed := v.now } (·.ask job)

/-- Controls the project of a session, and reports its state. -/
def control (v : Service) (id : Text) (f : Player → Except PlayError Unit × Player) :
    Outcome × Service :=
  v.within id fun p =>
    match f p with
    | (.error e, p) => (.error (.notPlayed e), p)
    | (.ok _, p) => (.ok .null, p)

/-- The job that looks at the variables of an instance. -/
def lookAt (path : List Int) (p : Player) : Outcome :=
  match p.project.tree.find? path with
  | none => .error (.noInstance path)
  | some id =>
    match p.project.tree.instance? id with
    | none => .error (.noInstance path)
    | some inst => .ok (variablesOf p.project id inst)

/-- The job that sets a variable of an instance. -/
def assign (path : List Int) (name text : Text) (p : Player) : Outcome × Player :=
  match p.project.tree.find? path with
  | none => (.error (.noInstance path), p)
  | some id =>
    match p.project.tree.slot? id name with
    | none => (.error (.noVariable name), p)
    | some slot =>
      match Value.parse slot.kind text with
      | .error e => (.error (.badValue e), p)
      | .ok value =>
        match p.project.setVar? id name value with
        | none => (.error (.ended p.project.lifecycle), p)
        | some project => (.ok (.record []), { p with project })

/-- The state of a session as an answer to a request that was done. -/
def reportState (id : Text) (r : Outcome × Service) : Outcome × Service :=
  match r with
  | (.ok _, v) =>
    match v.session? id with
    | some s => (.ok (stateOf s.lastError s.project), v)
    | none => (.error (.unknownSession id), v)
  | r => r

/-- Does a request. -/
def serve (v : Service) : Request → Outcome × Service
  | .open name root restore strict => v.openSession name root restore strict
  | .play id target => reportState id (v.control id (·.play Session.host target))
  | .pause id => reportState id (v.control id fun p => (.ok (), p.pause))
  | .resume id => reportState id (v.control id fun p => (.ok (), p.resume))
  | .step id count =>
    if count > stepLimit then (.error (.tooManySteps count stepLimit), v)
    else reportState id (v.control id (·.steps Session.host (fun h => h) (max 1 count).toNat))
  | .close id =>
    if id = [] then (.error .sessionMissing, v)
    else match v.destroy id with
      | (true, v) => (.ok (.record []), v)
      | (false, v) => (.error (.unknownSession id), v)
  | .state id => reportState id (v.control id fun p => (.ok (), p))
  | .readVariables id path => v.within id fun p => (lookAt path p, p)
  | .setVariable id path name text => v.within id fun p => assign path name text p
  | .listSessions => (.ok (.record [("sessions", .arr (v.sessions.map sessionOf))]), v)

end Service

end SchemePlayer
