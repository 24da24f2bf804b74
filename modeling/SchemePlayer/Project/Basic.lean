import SchemePlayer.Machine.Basic
import SchemePlayer.Tree.Build

/-!
# Projects

A project is a tree of instances with its memory, played tick by tick. This module holds
what a project is; `Project/Playback` holds what it does.
-/

namespace SchemePlayer

/-- The stages of a project's life. The last two are final. -/
inductive Lifecycle where
  | ready
  | playing
  | paused
  | closed
  | error
  deriving DecidableEq, Repr

namespace Lifecycle

/-- The name of a stage. -/
def name : Lifecycle → Text
  | ready => "ready"
  | playing => "playing"
  | paused => "paused"
  | closed => "closed"
  | error => "error"

/-- Whether no tick can happen any more. -/
def isTerminal : Lifecycle → Bool
  | closed | error => true
  | _ => false

/-- The name of the stage known by a number. -/
def nameOfCode (n : Nat) : Text :=
  (([ready, playing, paused, closed, error][n]?).map name).getD "unknown"

end Lifecycle

/-- What subscribers can be told. -/
inductive Event where
  | closed
  | error
  deriving DecidableEq, Repr

namespace Event

/-- The name of an event. -/
def name : Event → Text
  | closed => "closed"
  | error => "error"

/-- The event with a name. -/
def ofName? (t : Text) : Option Event := [closed, error].find? fun e => e.name == t

end Event

/-- What a subscriber does with the project when it is told. -/
inductive Reaction where
  | nothing
  | close
  | step
  /-- take itself off the list -/
  | unsubscribe
  /-- take a subscriber off the list, perhaps another one -/
  | dismiss (subscription : Nat)
  /-- do one thing after the other -/
  | andThen (first second : Reaction)
  deriving DecidableEq, Repr

/-- A subscriber. -/
structure Subscription where
  id : Nat
  /-- the name of the event waited for; a name that is no event's waits for ever -/
  event : Text
  reaction : Reaction := .nothing
  deriving DecidableEq

/-- An event that subscribers have yet to be told. -/
structure Notice where
  event : Event
  message : Text := []
  deriving DecidableEq

/-- A project. -/
structure Project where
  /-- the number by which hosts know the project -/
  id : Nat
  /-- the name of the root class, as it was asked for -/
  root : Text
  dir : Text := []
  classes : ClassTable
  tree : Tree
  memory : Memory
  keys : Keyboard := {}
  /-- how many executions may be active at once -/
  maxDepth : Nat
  /-- how many steps of the machine a tick may take -/
  budget : Nat
  lifecycle : Lifecycle := .ready
  /-- whether a reply of the host is awaited -/
  waiting : Bool := false
  pending : Option PendingCall := none
  /-- the replies collected since the last tick that did not yield -/
  delivered : List (CallKey × Value) := []
  /-- the number of ticks that were committed -/
  iterations : Nat := 0
  denied : Nat := 0
  /-- the number of the executor that drives the project -/
  executor : Nat := 0
  /-- changes whenever earlier runs of an executor must not tick any more -/
  generation : Nat := 0
  subscriptions : List Subscription := []
  nextSubscription : Nat := 0
  queue : List Notice := []

/-- How a project is to be set up. -/
structure ProjectOptions where
  id : Nat
  root : Text
  classes : ClassTable
  dir : Text := []
  strict : Bool := false
  varSet : Option VarSet := none
  keys : Keyboard := {}
  /-- zero and less stand for the usual depth -/
  maxDepth : Int := 0
  executor : Nat := 0

namespace Project

/-- The usual number of executions that may be active at once. -/
def usualDepth : Nat := 59

/-- The usual number of steps of a tick, which no sensible tick takes. -/
def usualBudget : Nat := twoTo 62

/-- A new project. No code runs yet. -/
def create (o : ProjectOptions) : Except Tree.BuildError Project :=
  match Tree.build o.classes o.root o.strict o.varSet with
  | .error e => .error e
  | .ok (tree, memory) =>
    .ok { id := o.id
          root := o.root
          dir := o.dir
          classes := o.classes
          tree
          memory
          keys := o.keys
          maxDepth := if o.maxDepth ≤ 0 then usualDepth else o.maxDepth.toNat
          budget := usualBudget
          executor := o.executor }

/-- The committed values of the whole tree. -/
def snapshot (p : Project) : VarSet := p.tree.snapshot p.memory

/-- The working value of a variable. -/
def var? (p : Project) (id : Nat) (name : Text) : Option Value :=
  (p.tree.slot? id name).bind p.memory.read?

/-- Sets the working value of a variable, which the next tick commits. The value must be
of the variable's kind, and the project must not have ended. -/
def setVar? (p : Project) (id : Nat) (name : Text) (v : Value) : Option Project :=
  if p.lifecycle.isTerminal then none
  else match p.tree.slot? id name with
    | none => none
    | some s =>
      match p.memory.write s v with
      | .ok memory => some { p with memory }
      | .error _ => none

/-- Whether the table knows a class, whether or not the tree has an instance of it. -/
def hasClass (p : Project) (name : Text) : Bool := (p.classes.find? name).isSome

/-- Adds a subscriber; the number is its name. -/
def subscribe (p : Project) (event : Text) (reaction : Reaction) : Nat × Project :=
  (p.nextSubscription,
    { p with
      subscriptions := p.subscriptions ++ [⟨p.nextSubscription, event, reaction⟩]
      nextSubscription := p.nextSubscription + 1 })

/-- Removes a subscriber, if it is still there. -/
def unsubscribe (p : Project) (id : Nat) : Project :=
  { p with subscriptions := p.subscriptions.filter (·.id ≠ id) }

/-- What a tick of the project runs in. -/
def setting (p : Project) : Setting :=
  { tree := p.tree
    classes := p.classes
    keys := p.keys
    dir := p.dir
    project := p.id
    iterations := p.iterations
    maxDepth := p.maxDepth
    delivered := p.delivered }

end Project

end SchemePlayer
