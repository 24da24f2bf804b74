import SchemePlayer.Host.Headless
import SchemePlayer.Json.Basic
import SchemePlayer.Service.Error

/-!
# Sessions

A session is one open project with the worker that keeps its requests apart. What a
project does on its own accord reaches the session through its subscriptions: the session
keeps the latest failure, and a snapshot is due when the project has closed.

- `Session.ask`: runs a job on the worker.
- `Session.drive`: lets the executor call back.
- `Session.shut`: closes the project, then stops the worker.
-/

namespace SchemePlayer

/-- A project that is played, with a host or without. -/
abbrev Player := Playback (Option Headless)

/-- What a job on a worker comes to. -/
abbrev Outcome := Except ServiceError Json

/-- An open project. -/
structure Session where
  id : Text
  /-- the name that snapshots are kept by -/
  name : Text
  root : Text
  worker : Worker Player Outcome
  /-- the subscription that keeps a snapshot, where there is a store -/
  saver : Option Nat := none
  /-- the subscription that keeps failures -/
  watcher : Nat := 0
  lastUsed : Int := 0
  lastError : Text := []
  /-- how many snapshots are due -/
  due : Nat := 0

namespace Session

/-- The host that players have. -/
def host : Host (Option Headless) := Headless.host.optional

/-- The project of a session. -/
def project (s : Session) : Project := s.worker.state.project

/-- Takes note of what subscribers were told. -/
def hear (s : Session) : Act → Session
  | .notify sub event message =>
    let s := if event = .error ∧ sub = s.watcher then { s with lastError := message } else s
    if event = .closed ∧ s.saver = some sub then { s with due := s.due + 1 } else s
  | _ => s

/-- Takes note of all that was done since the last time. -/
def catchUp (s : Session) : Session :=
  let s' := s.worker.state.acts.foldl hear s
  { s' with worker := { s'.worker with state := { s'.worker.state with acts := [] } } }

/-- Changes the player. -/
def update (s : Session) (f : Player → Player) : Session :=
  ({ s with worker := { s.worker with state := f s.worker.state } } : Session).catchUp

/-- Runs a job on the worker. -/
def ask (s : Session) (job : Player → Outcome × Player) : Outcome × Session :=
  let (r, worker) := s.worker.request fun p => let (a, p) := job p; (.ok a, p)
  let s := ({ s with worker } : Session).catchUp
  match r with
  | .ok a => (a, s)
  | .error e => (.error (.worker e), s)

/-- Lets the executor of a project that plays call back until the project stops playing. -/
def drive (s : Session) : Session :=
  s.update (·.drive host (Option.map Headless.settle) Project.usualBudget)

/-- Closes the project, stops the worker and ends the subscription. -/
def shut (s : Session) : Session :=
  let s := s.update (·.close host)
  let s := { s with worker := s.worker.stop?.getD s.worker }
  s.update fun p => p.update (·.unsubscribe s.watcher)

end Session

end SchemePlayer
