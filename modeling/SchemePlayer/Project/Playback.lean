import SchemePlayer.Project.Basic

/-!
# Playing a project

What can be done with a project: play, pause, continue, step, close, change its executor.
Besides changing the project and its host, an operation acts on the outside: it starts
and stops executors, tells subscribers, and reports failures. These acts are recorded in
their order, so that statements about them are statements about a list.

- `Playback`: a project, the state of its host and what was done so far.
- `Playback.tick`: one tick.
- `Playback.step`, `compute`, `callback`: the ways to ask for a tick.
- `Playback.deliver`: tells subscribers what has happened; they may act on the project.
-/

namespace SchemePlayer

/-- Something done to the outside. -/
inductive Act where
  /-- an executor is to call back with a generation -/
  | run (executor generation : Nat)
  | stop (executor : Nat)
  /-- the host lets go of what it held for the project -/
  | release
  | notify (subscription : Nat) (event : Event) (message : Text)
  /-- a failing tick is reported -/
  | report (cause : Failure)
  deriving DecidableEq

/-- A project, the state of its host, and what was done so far. -/
structure Playback (σ : Type) where
  project : Project
  host : σ
  acts : List Act := []

/-- Why a project could not be played. -/
inductive PlayError where
  | closed
  | attach (cause : HostError)
  deriving DecidableEq

namespace PlayError

/-- The report. -/
def message : PlayError → Text
  | closed => "project is closed"
  | attach cause => cause.message

end PlayError

namespace Playback

variable {σ : Type}

/-- Records an act. -/
def act (p : Playback σ) (a : Act) : Playback σ := { p with acts := p.acts ++ [a] }

/-- Changes the project. -/
def update (p : Playback σ) (f : Project → Project) : Playback σ :=
  { p with project := f p.project }

/-! ### Transitions -/

/-- Starts a run of the executor. -/
def start (p : Playback σ) : Playback σ :=
  let p := p.update fun q => { q with generation := q.generation + 1 }
  p.act (.run p.project.executor p.project.generation)

/-- Stops the executor; its runs so far do not tick any more. -/
def halt (p : Playback σ) : Playback σ :=
  let p := p.update fun q => { q with generation := q.generation + 1 }
  p.act (.stop p.project.executor)

/-- The project ends because of a failure. -/
def fail (p : Playback σ) (cause : Failure) : Playback σ :=
  let p := (p.update fun q => { q with lifecycle := .error }).halt.act (.report cause)
  p.update fun q => { q with queue := q.queue ++ [⟨.error, cause.notice⟩] }

/-- The project ends in good order. A reply that is still to come is ignored. -/
def shut (p : Playback σ) : Playback σ :=
  let p := (p.update fun q => { q with lifecycle := .closed }).halt
  p.update fun q =>
    { q with
      pending := none
      waiting := false
      delivered := []
      queue := q.queue ++ [⟨.closed, []⟩] }

/-! ### Ticks -/

/-- The value that code is to get for a reply. -/
def valueOf (op : HyperOp) : Reply → Value
  | .value v => Machine.accept op v
  | .failed _ => Value.zero op.result

/-- The failure that a reply means for the project, if it must stop. -/
def fatal? : Reply → Option HostError
  | .failed cause => if cause.isFatal then some cause else none
  | .value _ => none

/-- The name of the class of an instance. -/
def classOf (q : Project) (id : Nat) : Text := ((q.tree.instance? id).map (·.proto.name)).getD []

/-- Collects the reply that the project waits for, if it has come. It is kept for the
call that asked for it until a tick completes without yielding. -/
def poll (h : Host σ) (p : Playback σ) : Playback σ :=
  match p.project.pending with
  | none => p
  | some call =>
    match h.collect p.host call.ticket with
    | (none, host) => { p with host }
    | (some reply, host) =>
      let p := { p with host }.update fun q => { q with pending := none, waiting := false }
      match fatal? reply with
      | some cause =>
        let site := call.key.site
        p.fail (.at (classOf p.project site.inst) site.offset (.host call.op cause))
      | none =>
        p.update fun q => { q with delivered := q.delivered ++ [(call.key, valueOf call.op reply)] }

/-- Runs the code of the whole tree once. -/
def walk (h : Host σ) (p : Playback σ) : Machine σ × TickEnd :=
  (Machine.start p.project.memory p.host p.project.pending p.project.waiting).run h
    p.project.setting p.project.budget

/-- Takes over what a walk left behind. -/
def adopt (p : Playback σ) (m : Machine σ) : Playback σ :=
  { p with host := m.host }.update fun q =>
    { q with
      memory := m.memory
      denied := q.denied + m.denied
      pending := m.pending
      waiting := m.waiting }

/-- Ends a tick that did not fail: values go along the links, everything is committed,
and the project closes if code asked for it. -/
def conclude (p : Playback σ) (m : Machine σ) (yielded : Bool) : Playback σ :=
  match Tree.propagate p.project.tree.links p.project.memory with
  | .error e => p.fail (.at p.project.root 0 (.crash e))
  | .ok memory =>
    let p := p.update fun q =>
      { q with
        memory := memory.commit
        iterations := q.iterations + 1
        delivered := if yielded then q.delivered else [] }
    if m.closing then p.shut else p

/-- One tick: collect a reply, run the code, then commit. Nothing happens while a reply
is awaited. -/
def tick (h : Host σ) (p : Playback σ) : Playback σ :=
  let p := p.poll h
  if p.project.lifecycle.isTerminal || p.project.waiting then p
  else
    let (m, how) := p.walk h
    let p := p.adopt m
    match how with
    | .failed cause => p.fail cause
    | .yielded => p.conclude m true
    | .completed => p.conclude m false

/-! ### Telling subscribers -/

/-- Takes the notices, each with those who are subscribed to it now. -/
def takeNotices (p : Playback σ) : List (Notice × List Subscription) × Playback σ :=
  (p.project.queue.map fun n =>
      (n, p.project.subscriptions.filter fun s => s.event = n.event.name),
    p.update fun q => { q with queue := [] })

/-- The host lets go of a project that has closed. -/
def releaseFor (h : Host σ) (p : Playback σ) (n : Notice) : Playback σ :=
  match n.event with
  | .closed => { p with host := h.release p.host p.project.id }.act .release
  | .error => p

/-- A subscriber acts on the project. If this makes something happen, `tell` tells it. -/
def react (h : Host σ) (tell : Playback σ → Playback σ) (self : Nat) :
    Reaction → Playback σ → Playback σ
  | .nothing, p => p
  | .unsubscribe, p => p.update (·.unsubscribe self)
  | .dismiss id, p => p.update (·.unsubscribe id)
  | .close, p => if p.project.lifecycle = .closed then p else tell p.shut
  | .step, p => if p.project.lifecycle.isTerminal then p else tell (p.tick h)
  | .andThen first second, p => react h tell self second (react h tell self first p)

/-- Tells subscribers of a notice, one after the other. -/
def tellEach (h : Host σ) (tell : Playback σ → Playback σ) (n : Notice)
    (audience : List Subscription) (p : Playback σ) : Playback σ :=
  audience.foldl
    (fun p s => (p.act (.notify s.id n.event n.message)).react h tell s.id s.reaction) p

/-- Tells subscribers what has happened, and what happens because of it. Only the end of
a project is ever told, so that reactions to reactions come to an end too; `depth` is
how deep they may go. -/
def deliver (h : Host σ) : Nat → Playback σ → Playback σ
  | 0, p => p
  | depth + 1, p =>
    let (notices, p) := p.takeNotices
    notices.foldl
      (fun p (n, audience) => (p.releaseFor h n).tellEach h (deliver h depth) n audience) p

/-- A failure may be told, and the closing that a subscriber answers it with. -/
def deliverAll (h : Host σ) (p : Playback σ) : Playback σ := p.deliver h 3

/-! ### Operations -/

/-- Starts ticking. The host binds a project that starts for the first time to the window
`target`. -/
def play (h : Host σ) (target : Text) (p : Playback σ) : Except PlayError Unit × Playback σ :=
  match p.project.lifecycle with
  | .closed | .error => (.error .closed, p)
  | .playing => (.ok (), p)
  | .paused => (.ok (), (p.update fun q => { q with lifecycle := .playing }).start)
  | .ready =>
    match h.attach p.host p.project.id target with
    | (.error cause, host) => (.error (.attach cause), { p with host })
    | (.ok _, host) =>
      (.ok (), ({ p with host }.update fun q => { q with lifecycle := .playing }).start)

/-- Stops ticking. A reply that is awaited stays so. -/
def pause (p : Playback σ) : Playback σ :=
  if p.project.lifecycle = .playing then
    (p.update fun q => { q with lifecycle := .paused }).halt
  else p

/-- Starts ticking again after a pause. -/
def resume (p : Playback σ) : Playback σ :=
  if p.project.lifecycle = .paused then
    (p.update fun q => { q with lifecycle := .playing }).start
  else p

/-- One tick, whether or not the project plays; refused when it has ended. -/
def step (h : Host σ) (p : Playback σ) : Except PlayError Unit × Playback σ :=
  if p.project.lifecycle.isTerminal then (.error .closed, p)
  else (.ok (), (p.tick h).deliverAll h)

/-- One tick on behalf of a run of an executor; the flag tells whether to go on. -/
def callback (h : Host σ) (generation : Nat) (p : Playback σ) : Bool × Playback σ :=
  if generation = p.project.generation ∧ p.project.lifecycle = .playing then
    let p := p.tick h
    (p.project.lifecycle = .playing, p.deliverAll h)
  else (false, p)

/-- One tick if the project plays; the flag tells whether it still does. -/
def compute (h : Host σ) (p : Playback σ) : Bool × Playback σ :=
  p.callback h p.project.generation

/-- Ends the project. -/
def close (h : Host σ) (p : Playback σ) : Playback σ :=
  if p.project.lifecycle = .closed then p else p.shut.deliverAll h

/-- Changes the executor; a project that plays goes on with the new one. -/
def setExecutor (executor : Nat) (p : Playback σ) : Playback σ :=
  if p.project.lifecycle = .playing then
    (p.halt.update fun q => { q with executor }).start
  else p.update fun q => { q with executor }

/-- Ticks up to `count` times, and stops when the project has ended; after each tick the
host settles. -/
def steps (h : Host σ) (settle : σ → σ) : Nat → Playback σ → Except PlayError Unit × Playback σ
  | 0, p => (.ok (), p)
  | count + 1, p =>
    match p.step h with
    | (.error e, p) => (.error e, p)
    | (.ok _, p) => steps h settle count { p with host := settle p.host }

/-- Lets the executor of a project that plays call back until the project stops playing,
at most so many times; after each tick the host settles. -/
def drive (h : Host σ) (settle : σ → σ) : Nat → Playback σ → Playback σ
  | 0, p => p
  | budget + 1, p =>
    if p.project.lifecycle = .playing then
      let (_, p) := p.compute h
      drive h settle budget { p with host := settle p.host }
    else p

end Playback

end SchemePlayer
