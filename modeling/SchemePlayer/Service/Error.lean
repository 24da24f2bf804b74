import SchemePlayer.Project.Playback
import SchemePlayer.Store.Basic
import SchemePlayer.Worker

/-!
# Refusals of the service

Why a request was not done, with the code and the text that the client is told.
-/

namespace SchemePlayer

/-- What kind of refusal it is. -/
inductive ErrorCode where
  | invalidArgument
  | notFound
  | failedPrecondition
  | internal
  deriving DecidableEq, Repr

namespace ErrorCode

/-- The name of a code. -/
def name : ErrorCode → Text
  | invalidArgument => "invalid_argument"
  | notFound => "not_found"
  | failedPrecondition => "failed_precondition"
  | internal => "internal"

/-- The status of an answer with a code. -/
def status : ErrorCode → Nat
  | invalidArgument | failedPrecondition => 400
  | notFound => 404
  | internal => 500

end ErrorCode

/-- Why a request was not done. -/
inductive ServiceError where
  /-- the text of the request cannot be read -/
  | undecodable
  | rootMissing
  | sessionMissing
  | unknownSession (id : Text)
  | tooManySteps (count limit : Int)
  | noInstance (path : List Int)
  | noVariable (name : Text)
  | badValue (cause : Value.ParseError)
  /-- the project has ended -/
  | ended (lifecycle : Lifecycle)
  | notPlayed (cause : PlayError)
  | notBuilt (cause : Tree.BuildError)
  | store (cause : StoreError)
  | worker (cause : WorkerError)

namespace ServiceError

/-- What kind of refusal it is. -/
def code : ServiceError → ErrorCode
  | undecodable | rootMissing | sessionMissing | tooManySteps _ _ | badValue _ => .invalidArgument
  | unknownSession _ | noInstance _ | noVariable _ => .notFound
  | ended _ => .failedPrecondition
  | notPlayed .closed => .failedPrecondition
  | notPlayed (.attach _) => .internal
  | notBuilt (.prototypeNotFound _) => .notFound
  | notBuilt _ => .invalidArgument
  | store _ | worker _ => .internal

/-- A list of integers in brackets. -/
def showPath (path : List Int) : Text := 91 :: (Text.join [32] (path.map Text.ofInt) ++ [93])

/-- What the client is told. -/
def message : ServiceError → Text
  | undecodable => "unmarshal message: malformed request"
  | rootMissing => "root is required"
  | sessionMissing => "sessionId is required"
  | unknownSession id => "session " ++ Text.quote id ++ " not found"
  | tooManySteps count limit =>
    "count " ++ Text.ofInt count ++ " exceeds " ++ Text.ofInt limit
  | noInstance path => "no instance at path " ++ showPath path
  | noVariable name => "no variable " ++ Text.quote name
  | badValue cause => cause.message
  | ended lifecycle => "project is " ++ lifecycle.name
  | notPlayed cause => cause.message
  | notBuilt cause => cause.message
  | store cause => cause.message
  | worker cause => cause.message

end ServiceError

end SchemePlayer
