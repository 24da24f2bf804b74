import SchemePlayer.Project.Playback

/-!
# Rehearsals

A rehearsal plays projects under executors that are driven by hand: the callback of any
run can be fired at any time, also of one that was stopped or replaced long ago. Several
projects may take part one after another; they share the host.

- `Post`: an executor, with the run it is to call back.
- `Rehearsal`: projects, posts, and what has happened since the last look.
-/

namespace SchemePlayer

/-- A run that an executor was asked for. -/
structure Run where
  /-- the project, by its place in the rehearsal -/
  project : Nat
  generation : Nat
  deriving DecidableEq

/-- An executor and its current run. -/
structure Post where
  /-- whether its callbacks are fired by hand -/
  byHand : Bool := true
  current : Option Run := none
  deriving DecidableEq

/-- Something a subscriber was told. -/
structure Heard where
  /-- the number of the subscriber in the rehearsal -/
  subscriber : Nat
  event : Event
  message : Text
  deriving DecidableEq

/-- Projects under rehearsal. -/
structure Rehearsal (σ : Type) where
  host : σ
  projects : Array Project := #[]
  posts : Array Post := #[]
  /-- every run asked of a post that is driven by hand -/
  runs : Array Run := #[]
  /-- every subscriber: its project and its number there -/
  subscribers : Array (Nat × Nat) := #[]
  heard : List Heard := []
  reports : List Text := []

namespace Rehearsal

variable {σ : Type}

/-- The place of the project that is being rehearsed. -/
def place (r : Rehearsal σ) : Nat := r.projects.size - 1

/-- The project that is being rehearsed. -/
def project? (r : Rehearsal σ) : Option Project := r.projects[r.place]?

/-- The executors that are driven by hand, by their place. -/
def handPosts (r : Rehearsal σ) : List Nat :=
  (List.range r.posts.size).filter fun i => (r.posts[i]?).any (·.byHand)

/-- Whether each executor that is driven by hand has a current run. -/
def running (r : Rehearsal σ) : List Bool :=
  r.handPosts.map fun i => (r.posts[i]?).any (·.current.isSome)

/-- Adds an executor; the number is its place. -/
def addPost (r : Rehearsal σ) (byHand : Bool) : Nat × Rehearsal σ :=
  (r.posts.size, { r with posts := r.posts.push { byHand } })

/-- Adds a project, which is the one under rehearsal from now on. -/
def addProject (r : Rehearsal σ) (p : Project) : Rehearsal σ :=
  { r with projects := r.projects.push p }

/-- Sets the current run of a post. -/
def setCurrent (r : Rehearsal σ) (post : Nat) (run : Option Run) : Rehearsal σ :=
  { r with posts := r.posts.modify post fun p => { p with current := run } }

/-- Does what a project at a place asked for. -/
def witness (place : Nat) (root : Text) (r : Rehearsal σ) : Act → Rehearsal σ
  | .run executor generation =>
    let run : Run := ⟨place, generation⟩
    let r := r.setCurrent executor (some run)
    if (r.posts[executor]?).any (·.byHand) then { r with runs := r.runs.push run } else r
  | .stop executor => r.setCurrent executor none
  | .release => r
  | .notify id event message =>
    match r.subscribers.findIdx? (· == (place, id)) with
    | some subscriber => { r with heard := r.heard ++ [⟨subscriber, event, message⟩] }
    | none => r
  | .report cause => { r with reports := r.reports ++ [root ++ ": " ++ cause.message] }

/-- Lets an operation play on the project at a place. -/
def perform {α : Type} (place : Nat) (fallback : α)
    (operation : Playback σ → α × Playback σ) (r : Rehearsal σ) : α × Rehearsal σ :=
  match r.projects[place]? with
  | none => (fallback, r)
  | some p =>
    let (a, after) := operation { project := p, host := r.host }
    let r := { r with
      host := after.host
      projects := r.projects.setIfInBounds place after.project }
    (a, after.acts.foldl (witness place p.root) r)

/-- Lets an operation play on the project under rehearsal. -/
def onCurrent {α : Type} (fallback : α) (operation : Playback σ → α × Playback σ)
    (r : Rehearsal σ) : α × Rehearsal σ :=
  r.perform r.place fallback operation

/-- Lets an operation without a result play on the project under rehearsal. -/
def change (operation : Playback σ → Playback σ) (r : Rehearsal σ) : Rehearsal σ :=
  (r.onCurrent () fun p => ((), operation p)).2

/-- Changes the project under rehearsal. -/
def changeProject (f : Project → Project) (r : Rehearsal σ) : Rehearsal σ :=
  { r with projects := r.projects.modify r.place f }

/-- Calls back a run, whether or not it is current. -/
def callback (h : Host σ) (run : Run) (r : Rehearsal σ) : Bool × Rehearsal σ :=
  r.perform run.project false (·.callback h run.generation)

/-- Calls back the current run of a post. A run that says no more is over, unless the
post has a new one by then. -/
def fire (h : Host σ) (post : Nat) (r : Rehearsal σ) : Bool × Rehearsal σ :=
  match (r.posts[post]?).bind (·.current) with
  | none => (false, r)
  | some run =>
    let (goesOn, r) := r.callback h run
    if !goesOn && (r.posts[post]?).any (·.current == some run) then
      (goesOn, r.setCurrent post none)
    else (goesOn, r)

/-- Ticks up to `count` times, and stops when the project has ended; after each tick the
host settles. -/
def steps (h : Host σ) (settle : σ → σ) :
    Nat → Rehearsal σ → Except PlayError Unit × Rehearsal σ
  | 0, r => (.ok (), r)
  | count + 1, r =>
    match r.onCurrent (.ok ()) (·.step h) with
    | (.error e, r) => (.error e, r)
    | (.ok _, r) => steps h settle count { r with host := settle r.host }

/-- Fires the executor of the project under rehearsal until the project has ended, at
most as many times as the budget allows. -/
def playOut (h : Host σ) (settle : σ → σ) : Nat → Rehearsal σ → Rehearsal σ
  | 0, r => r
  | budget + 1, r =>
    match r.project? with
    | none => r
    | some p =>
      if p.lifecycle.isTerminal then r
      else
        let (goesOn, r) := r.fire h p.executor
        let r := { r with host := settle r.host }
        if goesOn then playOut h settle budget r else r

/-- Subscribes to the project under rehearsal; the number is the subscriber's. -/
def subscribe (event : Text) (reaction : Reaction) (r : Rehearsal σ) : Nat × Rehearsal σ :=
  match r.project? with
  | none => (0, r)
  | some p =>
    let (id, p) := p.subscribe event reaction
    (r.subscribers.size,
      { r with
        projects := r.projects.setIfInBounds r.place p
        subscribers := r.subscribers.push (r.place, id) })

/-- Removes a subscriber, of whichever project it is. -/
def unsubscribe? (subscriber : Nat) (r : Rehearsal σ) : Option (Rehearsal σ) :=
  (r.subscribers[subscriber]?).map fun (place, id) =>
    { r with projects := r.projects.modify place (·.unsubscribe id) }

/-- A new project that starts from the committed state of the one under rehearsal takes
its place. The options are those of the first, except for the values. -/
def restore (o : ProjectOptions) (r : Rehearsal σ) : Except Tree.BuildError (Rehearsal σ) :=
  match r.project? with
  | none => .ok r
  | some p =>
    let (executor, r) := r.addPost true
    match Project.create { o with id := o.id + r.projects.size, varSet := some p.snapshot, executor } with
    | .error e => .error e
    | .ok q => .ok (r.addProject q)

/-- What was heard, by the names of events and then by subscriber. -/
def heardInOrder (r : Rehearsal σ) : List Heard :=
  r.heard.mergeSort fun a b =>
    Text.lt a.event.name b.event.name || (a.event == b.event && a.subscriber ≤ b.subscriber)

/-- Forgets what was heard and reported. -/
def forget (r : Rehearsal σ) : Rehearsal σ := { r with heard := [], reports := [] }

end Rehearsal

end SchemePlayer
