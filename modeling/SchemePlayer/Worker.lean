import SchemePlayer.Text.Basic

/-!
# Workers

A worker keeps the requests of one session apart: they wait in a queue and run one after
another on the worker's state, so that a request made of several operations sees no other
request in between. A request that breaks down is answered with its cause and leaves the
worker in order.

- `Worker.submit?`, `serve`, `take?`: the moves of a request, between which others may come.
- `Worker.request`: a request from beginning to end.
-/

namespace SchemePlayer

/-- A request: it changes the state and has a result, or breaks down with a text. -/
abbrev Job (σ α : Type) := σ → Except Text α × σ

/-- Why a request has no result. -/
inductive WorkerError where
  /-- the worker was stopped -/
  | stopped
  /-- the request broke down -/
  | broken (cause : Text)
  deriving DecidableEq

namespace WorkerError

/-- The report. -/
def message : WorkerError → Text
  | stopped => "session closed"
  | broken cause => cause

end WorkerError

/-- A worker over a state. -/
structure Worker (σ α : Type) where
  state : σ
  isStopped : Bool := false
  /-- the requests that wait, the oldest first, each under a ticket -/
  queue : List (Nat × Job σ α) := []
  /-- results that nobody has taken -/
  results : List (Nat × Except Text α) := []
  nextTicket : Nat := 0

namespace Worker

variable {σ α : Type}

/-- Queues a request, unless the worker was stopped. -/
def submit? (w : Worker σ α) (job : Job σ α) : Option (Nat × Worker σ α) :=
  if w.isStopped then none
  else some (w.nextTicket,
    { w with queue := w.queue ++ [(w.nextTicket, job)], nextTicket := w.nextTicket + 1 })

/-- Runs the oldest request. -/
def serve (w : Worker σ α) : Worker σ α :=
  match w.queue with
  | [] => w
  | (ticket, job) :: queue =>
    let (result, state) := job w.state
    { w with state, queue, results := w.results ++ [(ticket, result)] }

/-- Takes the result of a request. -/
def take? (w : Worker σ α) (ticket : Nat) : Option (Except Text α × Worker σ α) :=
  (w.results.lookup ticket).map fun r =>
    (r, { w with results := w.results.filter (·.1 ≠ ticket) })

/-- Stops the worker, which can be done once. -/
def stop? (w : Worker σ α) : Option (Worker σ α) :=
  if w.isStopped then none else some { w with isStopped := true }

/-- A request from beginning to end, when no other is under way. -/
def request (w : Worker σ α) (job : Job σ α) : Except WorkerError α × Worker σ α :=
  match w.submit? job with
  | none => (.error .stopped, w)
  | some (ticket, w) =>
    let w := w.serve
    match w.take? ticket with
    | some (.ok a, w) => (.ok a, w)
    | some (.error cause, w) => (.error (.broken cause), w)
    | none => (.error .stopped, w)

end Worker

end SchemePlayer
