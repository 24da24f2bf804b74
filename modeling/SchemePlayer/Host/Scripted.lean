import SchemePlayer.Host.Call

/-!
# A host that follows a script

Every call takes the next cue of a script. Replies to pending calls are sent by hand, so
that every order of events can be rehearsed.
-/

namespace SchemePlayer

/-- How a call is to be answered. -/
inductive Cue where
  | ready (value : Value)
  | failed (cause : HostError)
  /-- the reply is sent later -/
  | pending
  /-- the call is pending, but its reply is there already -/
  | replied (reply : Reply)
  deriving DecidableEq

/-- A place for the reply to one call. -/
structure Channel where
  unread : Option Reply := none
  isClosed : Bool := false
  deriving DecidableEq

namespace Channel

/-- Takes the reply; a closed channel without one says that it never comes. -/
def receive (c : Channel) : Option Reply × Channel :=
  match c.unread with
  | some r => (some r, { c with unread := none })
  | none => (if c.isClosed then some (.failed .replyLost) else none, c)

end Channel

/-- What was asked of the host. -/
inductive HostEntry where
  | call (caller : Caller) (call : HyperCall)
  | attach (target : Text)
  | release

/-- The state of a scripted host. -/
structure ScriptedHost where
  script : List Cue := []
  /-- the cue that follows the last one of the script, for ever -/
  usual : Cue := .ready (.float 0)
  /-- whether the host binds projects to windows and lets go of them -/
  attaches : Bool := false
  channels : Array Channel := #[]
  /-- the ticket of the latest call whose reply is sent by hand -/
  last : Option Nat := none
  /-- what was asked, in order -/
  entries : List HostEntry := []

namespace ScriptedHost

/-- Takes the next cue. -/
def cue (s : ScriptedHost) : Cue × ScriptedHost :=
  match s.script with
  | c :: script => (c, { s with script })
  | [] => (s.usual, s)

/-- Opens a channel. -/
def openChannel (s : ScriptedHost) (c : Channel) : Nat × ScriptedHost :=
  (s.channels.size, { s with channels := s.channels.push c })

/-- Answers a call by the next cue. -/
def answer (s : ScriptedHost) (caller : Caller) (call : HyperCall) : Answer × ScriptedHost :=
  let (cue, s) := { s with entries := s.entries ++ [HostEntry.call caller call] }.cue
  match cue with
  | .ready v => (.ready v, s)
  | .failed cause => (.failed cause, s)
  | .pending =>
    let (ticket, s) := s.openChannel {}
    (.pending ticket, { s with last := some ticket })
  | .replied reply =>
    let (ticket, s) := s.openChannel { unread := some reply }
    (.pending ticket, s)

/-- Takes the reply under a ticket. -/
def collect (s : ScriptedHost) (ticket : Nat) : Option Reply × ScriptedHost :=
  match s.channels[ticket]? with
  | none => (none, s)
  | some c =>
    let (r, c) := c.receive
    (r, { s with channels := s.channels.setIfInBounds ticket c })

/-- The host as such. No window is called `bad`. -/
def host : Host ScriptedHost where
  call := answer
  collect := collect
  attach s _ target :=
    if !s.attaches then (.ok (), s)
    else if target = "bad" then (.error (.because "no such window"), s)
    else (.ok (), { s with entries := s.entries ++ [.attach target] })
  release s _ := if s.attaches then { s with entries := s.entries ++ [.release] } else s

/-- Sends a reply to the latest call that waits for one by hand; refused when there is
no such call, it was given up, or a reply to it has not been read. -/
def send? (s : ScriptedHost) (reply : Reply) : Option ScriptedHost :=
  match s.last with
  | none => none
  | some ticket =>
    match s.channels[ticket]? with
    | none => none
    | some c =>
      if c.isClosed || c.unread.isSome then none
      else some { s with channels := s.channels.setIfInBounds ticket { c with unread := some reply } }

/-- Gives up the latest call that waits for a reply by hand; refused when there is no
such call or it was given up before. -/
def giveUp? (s : ScriptedHost) : Option ScriptedHost :=
  match s.last with
  | none => none
  | some ticket =>
    match s.channels[ticket]? with
    | none => none
    | some c =>
      if c.isClosed then none
      else some { s with channels := s.channels.setIfInBounds ticket { c with isClosed := true } }

end ScriptedHost

end SchemePlayer
