import Mathlib.Logic.Relation
import SchemePlayer.Worker

/-!
# Exchanges with a worker

A worker serves clients who act at the same time. Each of them asks whether the worker was stopped,
puts its function into a queue that holds so many, and waits for the result; and wherever it waits
it may as well learn that the worker was stopped in the meantime. The worker takes functions from
the queue one by one, and runs each of them call by call; between any two calls anything else may
happen, also to the project, since not everybody goes through the worker.

- `Script`: a function, told by the calls that it makes.
- `Exchange`: the worker, the clients and what has happened so far; `Exchange.Step`: what may happen
  next, and `Exchange.Turn`: what the worker does by itself.
- `Exchange.worker`: the worker of the exchange, without its clients. Left to itself it does what
  `Worker.serve` says (`works_serve`), and **a client that is alone with it gets what
  `Worker.request` says** (`request_alone`).
-/

namespace SchemePlayer

/-! ### Functions call by call -/

/-- A function that a worker is to run: it comes to an end with a value or breaks down, or it makes
a call that changes the project, and goes on as what it learns from it tells. -/
inductive Script (σ α : Type) where
  | ends (result : Except Text α)
  | call (change : σ → σ) (next : σ → Script σ α)

namespace Script

variable {σ α : Type}

/-- A function as a request, all of whose calls are made at once. -/
def run : Script σ α → Job σ α
  | ends result, s => (result, s)
  | call change next, s => (next s).run (change s)

/-- What is left of a function after calls that met these states of the project. -/
def follow : Script σ α → List σ → Option (Script σ α)
  | p, [] => some p
  | ends _, _ :: _ => none
  | call _ next, s :: seen => (next s).follow seen

theorem follow_append (p : Script σ α) (seen : List σ) (s : σ) :
    p.follow (seen ++ [s]) = (p.follow seen).bind fun q => q.follow [s] := by
  induction seen generalizing p with
  | nil => cases p <;> rfl
  | cons s' seen ih =>
    cases p with
    | ends result => rfl
    | call change next => exact ih (next s')

end Script

/-! ### Exchanges -/

/-- How far a client has got. -/
inductive Stage (α : Type) where
  | entered
  /-- the worker was not stopped when the client asked -/
  | admitted
  /-- the function is in the queue, or has left it on the other side -/
  | queued (ticket : Nat)
  | answered (ticket : Option Nat) (answer : Except WorkerError α)

/-- The ticket of a client's function, if it was queued. -/
def Stage.ticket? {α : Type} : Stage α → Option Nat
  | queued ticket => some ticket
  | answered ticket _ => ticket
  | _ => none

/-- The answer that a client has got. -/
def Stage.answer? {α : Type} : Stage α → Option (Except WorkerError α)
  | answered _ answer => some answer
  | _ => none

/-- A client with a function. -/
structure Client (σ α : Type) where
  script : Script σ α
  /-- whether the client came when the worker was stopped already -/
  isLate : Bool
  stage : Stage α := .entered

/-- A function that runs: the states of the project that its calls have met, and what is left of
it. -/
structure Running (σ α : Type) where
  ticket : Nat
  script : Script σ α
  seen : List σ := []
  rest : Script σ α

/-- What the worker does. -/
inductive WorkerEvent (σ α : Type) where
  | begins (ticket : Nat)
  /-- the function makes a call, which meets this state of the project -/
  | calls (ticket : Nat) (met : σ)
  | ends (ticket : Nat) (result : Except Text α)

/-- A worker and its clients. -/
structure Exchange (σ α : Type) where
  project : σ
  isStopped : Bool := false
  /-- the functions that wait, the oldest first, each under its ticket -/
  queue : List (Nat × Script σ α) := []
  running : Option (Running σ α) := none
  /-- whether the worker has gone home -/
  isOver : Bool := false
  /-- results that nobody has taken -/
  results : List (Nat × Except Text α) := []
  nextTicket : Nat := 0
  clients : List (Client σ α) := []
  /-- what the worker has done, in order -/
  log : List (WorkerEvent σ α) := []

namespace Exchange

variable {σ α : Type}

/-- How many functions can wait. -/
def capacity : Nat := 64

/-- What a client is told about the result of its function. -/
def reply (result : Except Text α) : Except WorkerError α := result.mapError .broken

/-- A client gets on. -/
def advance (e : Exchange σ α) (i : Nat) (c : Client σ α) (stage : Stage α) : Exchange σ α :=
  { e with clients := e.clients.set i { c with stage } }

/-- What the worker does by itself: it takes the next function and makes its calls one after another
until it ends, well or not. -/
inductive Turn : Exchange σ α → Exchange σ α → Prop where
  | begins {e : Exchange σ α} {ticket : Nat} {script : Script σ α}
      {queue : List (Nat × Script σ α)} (hover : e.isOver = false) (hidle : e.running = none)
      (hqueue : e.queue = (ticket, script) :: queue) :
      Turn e { e with
        queue
        running := some { ticket, script, rest := script }
        log := e.log ++ [.begins ticket] }
  | calls {e : Exchange σ α} {r : Running σ α} {change : σ → σ} {next : σ → Script σ α}
      (hrunning : e.running = some r) (hrest : r.rest = .call change next) :
      Turn e { e with
        project := change e.project
        running := some { r with seen := r.seen ++ [e.project], rest := next e.project }
        log := e.log ++ [.calls r.ticket e.project] }
  | ends {e : Exchange σ α} {r : Running σ α} {result : Except Text α}
      (hrunning : e.running = some r) (hrest : r.rest = .ends result) :
      Turn e { e with
        running := none
        results := e.results ++ [(r.ticket, result)]
        log := e.log ++ [.ends r.ticket result] }

/-- How a client gets on that neither puts in nor takes out anything: it finds out whether the
worker was stopped. -/
inductive Learns (e : Exchange σ α) : Stage α → Stage α → Prop where
  | admitted (h : e.isStopped = false) : Learns e .entered .admitted
  | refused (h : e.isStopped = true) : Learns e .entered (.answered none (.error .stopped))
  | shutOut (h : e.isStopped = true) : Learns e .admitted (.answered none (.error .stopped))
  | abandoned {ticket : Nat} (h : e.isStopped = true) :
      Learns e (.queued ticket) (.answered (some ticket) (.error .stopped))

/-- What may happen next. Whoever waits for two things may get either as soon as it is there: a
client that wants to put in its function, or waits for its result, learns of the stop or not, and
the worker goes home when it was stopped, or takes another function. -/
inductive Step : Exchange σ α → Exchange σ α → Prop where
  | comes {e : Exchange σ α} (script : Script σ α) :
      Step e { e with clients := e.clients ++ [{ script, isLate := e.isStopped }] }
  | learns {e : Exchange σ α} {i : Nat} {c : Client σ α} {stage : Stage α}
      (hclient : e.clients[i]? = some c) (hlearns : e.Learns c.stage stage) :
      Step e (e.advance i c stage)
  | sends {e : Exchange σ α} {i : Nat} {c : Client σ α} (hclient : e.clients[i]? = some c)
      (hstage : c.stage = .admitted) (hroom : e.queue.length < capacity) :
      Step e { e.advance i c (.queued e.nextTicket) with
        queue := e.queue ++ [(e.nextTicket, c.script)]
        nextTicket := e.nextTicket + 1 }
  | receives {e : Exchange σ α} {i : Nat} {c : Client σ α} {ticket : Nat}
      {result : Except Text α} (hclient : e.clients[i]? = some c)
      (hstage : c.stage = .queued ticket) (hresult : e.results.lookup ticket = some result) :
      Step e { e.advance i c (.answered (some ticket) (reply result)) with
        results := e.results.filter (·.1 ≠ ticket) }
  | turn {e e' : Exchange σ α} (hturn : Turn e e') : Step e e'
  | quits {e : Exchange σ α} (hstopped : e.isStopped = true) (hidle : e.running = none) :
      Step e { e with isOver := true }
  | stops {e : Exchange σ α} (hstopped : e.isStopped = false) : Step e { e with isStopped := true }
  /-- somebody calls the project without asking the worker -/
  | meddles {e : Exchange σ α} (change : σ → σ) : Step e { e with project := change e.project }

/-- Some steps. -/
abbrev Reaches : Exchange σ α → Exchange σ α → Prop := Relation.ReflTransGen Step

/-- Some turns of the worker, and nothing else. -/
abbrev Works : Exchange σ α → Exchange σ α → Prop := Relation.ReflTransGen Turn

theorem Works.reaches {e e' : Exchange σ α} (h : Works e e') : Reaches e e' :=
  h.lift id fun _ _ => .turn

/-- Before anybody comes. -/
def start (project : σ) : Exchange σ α := { project }

/-! ### The worker alone -/

/-- The worker of an exchange, to which functions are requests. -/
def worker (e : Exchange σ α) : Worker σ α where
  state := e.project
  isStopped := e.isStopped
  queue := e.queue.map fun (ticket, script) => (ticket, script.run)
  results := e.results
  nextTicket := e.nextTicket

/-- An exchange after a function has run to its end, with nothing in between. -/
theorem works_end {e : Exchange σ α} {r : Running σ α} (hrunning : e.running = some r) :
    ∃ log, Works e { e with
      project := (r.rest.run e.project).2
      running := none
      results := e.results ++ [(r.ticket, (r.rest.run e.project).1)]
      log } := by
  obtain ⟨ticket, script, seen, rest⟩ := r
  induction rest generalizing e seen with
  | ends result => exact ⟨_, .single (.ends hrunning rfl)⟩
  | call change next ih =>
    have hfirst : Turn e _ := .calls hrunning rfl
    obtain ⟨log, hworks⟩ := ih e.project (e := { e with
        project := change e.project
        running := some ⟨ticket, script, seen ++ [e.project], next e.project⟩
        log := e.log ++ [.calls ticket e.project] }) (seen ++ [e.project]) rfl
    exact ⟨log, .head hfirst hworks⟩

/-- **Left to itself, a worker that has nothing under way does what `Worker.serve` says.** -/
theorem works_serve {e : Exchange σ α} (hover : e.isOver = false) (hidle : e.running = none) :
    ∃ e', Works e e' ∧ e'.worker = e.worker.serve ∧ e'.isOver = false ∧ e'.running = none ∧
      e'.clients = e.clients ∧ e'.queue = e.queue.tail := by
  cases hqueue : e.queue with
  | nil =>
    refine ⟨e, .refl, ?_, hover, hidle, rfl, hqueue⟩
    simp [worker, Worker.serve, hqueue]
  | cons first queue =>
    obtain ⟨ticket, script⟩ := first
    have hfirst : Turn e _ := .begins hover hidle hqueue
    obtain ⟨log, hworks⟩ := works_end (e := { e with
        queue
        running := some { ticket, script, rest := script }
        log := e.log ++ [.begins ticket] }) rfl
    refine ⟨_, .head hfirst hworks, ?_, hover, rfl, rfl, rfl⟩
    simp [worker, Worker.serve, hqueue]

/-- The client that came last gets on. -/
theorem advance_last {e : Exchange σ α} {clients : List (Client σ α)} {c : Client σ α}
    (hclients : e.clients = clients ++ [c]) (stage : Stage α) :
    e.clients[clients.length]? = some c ∧ e.advance clients.length c stage =
      { e with clients := clients ++ [{ c with stage }] } := by
  rw [advance, hclients]
  exact ⟨by simp, by simp⟩

/-- **A client that is alone with the worker gets what `Worker.request` says**, and leaves the
worker as it says. -/
theorem request_alone {e : Exchange σ α} (hover : e.isOver = false) (hidle : e.running = none)
    (hqueue : e.queue = []) (hfresh : e.results.lookup e.nextTicket = none)
    (script : Script σ α) :
    ∃ e' ticket answer, Reaches e e' ∧
      e'.clients = e.clients ++ [⟨script, e.isStopped, .answered ticket answer⟩] ∧
      e.worker.request script.run = (answer, e'.worker) := by
  let c : Client σ α := { script, isLate := e.isStopped }
  let e₁ : Exchange σ α := { e with clients := e.clients ++ [c] }
  have hcomes : Step e e₁ := .comes script
  cases hstopped : e.isStopped with
  | true =>
    obtain ⟨hc, hadvance⟩ := advance_last (e := e₁) rfl (.answered none (.error .stopped))
    have hrefused : Step e₁ _ := .learns hc (.refused hstopped)
    rw [hadvance] at hrefused
    refine ⟨_, none, .error .stopped, .tail (.single hcomes) hrefused, ?_, ?_⟩
    · simp only [c, hstopped]
    · simp only [Worker.request, Worker.submit?, worker, hstopped, if_true, e₁]
  | false =>
    -- 1. the function is put into the queue
    obtain ⟨hc, hadvance⟩ := advance_last (e := e₁) rfl .admitted
    have hadmitted : Step e₁ _ := .learns hc (.admitted hstopped)
    rw [hadvance] at hadmitted
    let e₂ : Exchange σ α := { e with clients := e.clients ++ [{ c with stage := .admitted }] }
    obtain ⟨hc₂, hadvance₂⟩ := advance_last (e := e₂) rfl (.queued e.nextTicket)
    have hsends : Step e₂ _ := .sends hc₂ rfl (by rw [hqueue]; exact Nat.succ_pos 63)
    rw [hadvance₂] at hsends
    -- 2. it runs
    obtain ⟨e₄, hworks, hworker, -, -, hclients, -⟩ := works_serve (e := { e with
      clients := e.clients ++ [{ c with stage := .queued e.nextTicket }]
      queue := e.queue ++ [(e.nextTicket, script)]
      nextTicket := e.nextTicket + 1 }) hover hidle
    have hresults : e₄.results = e.results ++ [(e.nextTicket, (script.run e.project).1)] := by
      have hsame := congrArg Worker.results hworker
      simpa [worker, Worker.serve, hqueue] using hsame
    -- 3. the result is taken
    obtain ⟨hc₄, hadvance₄⟩ := advance_last hclients
      (.answered (some e.nextTicket) (reply (script.run e.project).1))
    have hlookup : e₄.results.lookup e.nextTicket = some (script.run e.project).1 := by
      rw [hresults]
      simp [List.lookup_append, hfresh]
    have hreceives : Step e₄ _ := .receives hc₄ rfl hlookup
    rw [hadvance₄] at hreceives
    refine ⟨_, some e.nextTicket, reply (script.run e.project).1,
      (((Relation.ReflTransGen.single hcomes).tail hadmitted).tail hsends).trans
        (hworks.reaches.tail hreceives), ?_, ?_⟩
    · simp only [c, hstopped]
    · have hsubmit : e.worker.submit? script.run =
          some (e.nextTicket, { e.worker with
            queue := e.worker.queue ++ [(e.nextTicket, script.run)]
            nextTicket := e.nextTicket + 1 }) := by
        simp only [Worker.submit?, worker, hstopped, Bool.false_eq_true, if_false]
      have hserve : ({ e.worker with
            queue := e.worker.queue ++ [(e.nextTicket, script.run)]
            nextTicket := e.nextTicket + 1 } : Worker σ α).serve = e₄.worker := by
        rw [hworker]
        simp only [worker, List.map_append, List.map_cons, List.map_nil]
      have htake : e₄.worker.take? e.nextTicket = some ((script.run e.project).1,
          { e₄.worker with results := e₄.results.filter (·.1 ≠ e.nextTicket) }) := by
        simp only [Worker.take?, worker, hlookup, Option.map_some]
      simp only [Worker.request, hsubmit, hserve, htake]
      cases (script.run e.project).1 <;> rfl

end Exchange

end SchemePlayer
