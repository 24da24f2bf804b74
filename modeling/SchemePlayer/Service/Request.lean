import SchemePlayer.Json.Field
import SchemePlayer.Json.Parser

/-!
# Requests to the service

A client names a procedure and sends a JSON record. What the record leaves out is empty,
zero or false; what it has too much is passed over.
-/

namespace SchemePlayer

/-- What a client wants done. -/
inductive Request where
  /-- makes a project of a class, under a name that snapshots are kept by -/
  | «open» (name root : Text) (restore strict : Bool)
  | play (session target : Text)
  | pause (session : Text)
  | resume (session : Text)
  | step (session : Text) (count : Int)
  | close (session : Text)
  | state (session : Text)
  /-- asks for the variables of the instance at a path of handles -/
  | readVariables (session : Text) (path : List Int)
  | setVariable (session : Text) (path : List Int) (name value : Text)
  | listSessions
  deriving DecidableEq

/-- The procedures of the service. -/
inductive Procedure where
  | «open»
  | play
  | pause
  | resume
  | step
  | close
  | state
  | readVariables
  | setVariable
  | listSessions
  deriving DecidableEq, Repr

namespace Procedure

/-- The name of a procedure. -/
def name : Procedure → Text
  | .open => "Open"
  | play => "Play"
  | pause => "Pause"
  | resume => "Continue"
  | step => "Step"
  | close => "Close"
  | state => "State"
  | readVariables => "Variables"
  | setVariable => "SetVariable"
  | listSessions => "ListSessions"

/-- All procedures. -/
def all : List Procedure :=
  [.open, play, pause, resume, step, close, state, readVariables, setVariable, listSessions]

/-- The procedure with a name. -/
def ofName? (t : Text) : Option Procedure := all.find? fun p => p.name == t

end Procedure

namespace Request

/-- Reads the request for a procedure from a record. -/
def ofRecord? (p : Procedure) (j : Json) : Option Request :=
  let text (name : String) : Option Text := j.field? name [] Json.asText?
  let flag (name : String) : Option Bool := j.field? name false Json.asBool?
  let int (name : String) : Option Int := j.field? name 0 Json.asInt?
  let path : Option (List Int) := j.field? "path" [] Json.asInts?
  match p with
  | .open => do
    let name ← text "name"
    let root ← text "root"
    let _ ← text "executor"
    let _ ← int "fps"
    let strict ← flag "strict"
    let restore ← flag "restoreState"
    return .open name root restore strict
  | .play => do return .play (← text "sessionId") (← text "target")
  | .pause => do return .pause (← text "sessionId")
  | .resume => do return .resume (← text "sessionId")
  | .step => do return .step (← text "sessionId") (← int "count")
  | .close => do return .close (← text "sessionId")
  | .state => do return .state (← text "sessionId")
  | .readVariables => do return .readVariables (← text "sessionId") (← path)
  | .setVariable => do
    return .setVariable (← text "sessionId") (← path) (← text "name") (← text "value")
  | .listSessions => some .listSessions

/-- Reads the request for a procedure from a text, where nothing says nothing. -/
def decode? (p : Procedure) (body : Text) : Option Request :=
  if body = [] then ofRecord? p .null
  else match Json.parse? body with
    | some j => if j.isRecord then ofRecord? p j else none
    | none => none

end Request

end SchemePlayer
