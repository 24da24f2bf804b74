import SchemePlayer.Files.Path
import SchemePlayer.Service.Basic

/-!
# The service over HTTP

A procedure is a path, and its record is the body of a `POST` request. Everything that is
not a well-formed call of a procedure is answered with a status and nothing else.

- `HttpRequest.route`: what a request asks for.
- `Service.answer`: answers a request.
-/

namespace SchemePlayer

/-- An HTTP request. -/
structure HttpRequest where
  method : Text
  target : Text
  contentType : Text := []
  body : Text := []
  deriving DecidableEq

/-- An answer: a status alone, or the outcome of a procedure. -/
inductive HttpAnswer where
  | bare (status : Nat)
  | outcome (r : Outcome)

namespace HttpAnswer

/-- The status of an answer. -/
def status : HttpAnswer → Nat
  | bare status => status
  | outcome (.ok _) => 200
  | outcome (.error e) => e.code.status

/-- The record of a refusal. -/
def refusal (e : ServiceError) : Json :=
  .record ([("code", .str e.code.name)]
    ++ Json.optional e.message.isEmpty "message" (.str e.message))

/-- The body of an answer. -/
def body? : HttpAnswer → Option Json
  | bare _ => none
  | outcome (.ok j) => some j
  | outcome (.error e) => some (refusal e)

end HttpAnswer

/-- How the body of a request is written. -/
inductive BodyFormat where
  /-- a JSON record -/
  | record
  /-- a format of message that the service has none of -/
  | foreign
  /-- a format that is answered with trailers alone -/
  | framed
  deriving DecidableEq

namespace BodyFormat

/-- The base of a content type and what it says besides, in lower case. -/
def split (contentType : Text) : Text × Text :=
  let (base, parameters) := (Text.cut? 59 contentType).getD (contentType, [])
  (Text.lower (Text.trim base), Text.lower (Text.trim parameters))

/-- The format that a content type names. -/
def ofContentType? (contentType : Text) : Option BodyFormat :=
  let (base, parameters) := split contentType
  if base = "application/json" then
    if parameters = [] then some record
    else if parameters = "charset=utf-8" then some foreign
    else none
  else if parameters ≠ [] then none
  else if base = "application/proto" then some foreign
  else if ["application/grpc", "application/grpc+proto", "application/grpc+json",
      "application/grpc-web", "application/grpc-web+proto",
      "application/grpc-web+json"].any fun name => Text.ofString name == base then some framed
  else none

end BodyFormat

/-- What a request asks for. -/
inductive Route where
  | refused (status : Nat)
  | call (procedure : Procedure) (format : BodyFormat)
  deriving DecidableEq

namespace HttpRequest

/-- The path that all procedures are below. -/
def servicePath : Text := "/stratum.v1.PlayerService/"

/-- The path of a target, without the query. -/
def path (r : HttpRequest) : Text := ((Text.cut? 63 r.target).map (·.1)).getD r.target

/-- The shortest path that says the same; a slash at its end stays. -/
def cleanPath (p : Text) : Text :=
  let rooted := if Path.isAbsolute p then p else Path.slash :: p
  let clean := Path.clean rooted
  if rooted.getLast? = some Path.slash ∧ clean ≠ [Path.slash] then clean ++ [Path.slash] else clean

/-- What a request asks for. A path that can be said shorter is redirected. -/
def route (r : HttpRequest) : Route :=
  if cleanPath r.path ≠ r.path then .refused 301
  else match (Text.dropBeginning? servicePath r.path).bind Procedure.ofName? with
    | none => .refused 404
    | some p =>
      if r.method ≠ "POST" then .refused 405
      else match BodyFormat.ofContentType? r.contentType with
        | none => .refused 415
        | some format => .call p format

end HttpRequest

namespace Service

/-- Answers a request. -/
def answer (v : Service) (r : HttpRequest) : HttpAnswer × Service :=
  match r.route with
  | .refused status => (.bare status, v)
  | .call _ .foreign => (.outcome (.error .undecodable), v)
  | .call _ .framed => (.bare 200, v)
  | .call p .record =>
    match Request.decode? p r.body with
    | none => (.outcome (.error .undecodable), v)
    | some request =>
      let (o, v) := v.serve request
      (.outcome o, v)

end Service

end SchemePlayer
