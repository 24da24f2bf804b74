import SchemePlayer.Executor.Pace
import SchemePlayer.Number.Power

/-!
# Runners

An executor runs one loop at a time. Asking for a new run tells the loop before it to
stop and does not wait for it, so loops that are about to end may overlap with the one
that counts. A runner keeps all of them: each loop has a stop signal of its own, and
ending one never touches another.

The moves of a loop are separate, because anything may happen between them: it finds out
whether to go on, it begins a callback, it gets the callback's answer, and when it is
through it is marked as ended.
-/

namespace SchemePlayer

/-- Where a loop is. -/
inductive LoopPhase where
  /-- about to look at its stop signal, or waiting for it and for its clock -/
  | looking
  /-- decided to call back -/
  | committed
  /-- inside the callback -/
  | calling
  /-- on its way out -/
  | leaving
  /-- marked as ended -/
  | ended
  deriving DecidableEq, Repr

/-- One run. -/
structure Loop where
  phase : LoopPhase := .looking
  /-- how often its stop signal was given -/
  signals : Nat := 0
  /-- the number of callbacks begun -/
  calls : Nat := 0
  deriving DecidableEq, Repr

namespace Loop

/-- Whether the loop was told to stop. -/
def isTold (l : Loop) : Bool := l.signals != 0

/-- Tells the loop to stop, unless it was told before. -/
def tell (l : Loop) : Loop := if l.isTold then l else { l with signals := l.signals + 1 }

/-- The loop finds that it was told to stop. -/
def heed (l : Loop) : Loop :=
  if l.phase = .looking ∧ l.isTold = true then { l with phase := .leaving } else l

/-- The loop decides to call back. -/
def commit (l : Loop) : Loop := if l.phase = .looking then { l with phase := .committed } else l

/-- The loop gives up before it has begun. -/
def giveUp (l : Loop) : Loop := if l.phase = .looking then { l with phase := .leaving } else l

/-- The loop begins a callback. -/
def call (l : Loop) : Loop :=
  if l.phase = .committed then { l with phase := .calling, calls := l.calls + 1 } else l

/-- The callback comes back and says whether to go on. -/
def back (l : Loop) (goesOn : Bool) : Loop :=
  if l.phase = .calling then { l with phase := if goesOn then .looking else .leaving } else l

/-- The loop is marked as ended. -/
def finish (l : Loop) : Loop := if l.phase = .leaving then { l with phase := .ended } else l

/-- What a loop may do by itself. -/
inductive Turn where
  | heeds
  | commits
  | givesUp
  | calls
  | returns (goesOn : Bool)
  | finishes
  deriving DecidableEq, Repr

namespace Turn

/-- A loop after a turn. -/
def take : Turn → Loop → Loop
  | heeds, l => l.heed
  | commits, l => l.commit
  | givesUp, l => l.giveUp
  | calls, l => l.call
  | returns goesOn, l => l.back goesOn
  | finishes, l => l.finish

/-- Whether a turn is possible for a loop of this pace. A loop that is as fast as it can looks at
its signal before each callback. One that is called once per interval waits for the signal and for
the clock, and if both are there, either may come first. There is no clock for an interval without
length. -/
def Fits (pace : Pace) (l : Loop) : Turn → Prop
  | heeds => pace ≠ .smooth 0 ∧ l.phase = .looking ∧ l.isTold = true
  | commits => pace ≠ .smooth 0 ∧ l.phase = .looking ∧ (pace = .fastest → l.isTold = false)
  | givesUp => pace = .smooth 0 ∧ l.phase = .looking
  | calls => l.phase = .committed
  | returns _ => l.phase = .calling
  | finishes => l.phase = .leaving

instance (pace : Pace) (l : Loop) : (turn : Turn) → Decidable (turn.Fits pace l)
  | heeds | commits => inferInstanceAs (Decidable (_ ∧ _ ∧ _))
  | givesUp => inferInstanceAs (Decidable (_ ∧ _))
  | calls | returns _ | finishes => inferInstanceAs (Decidable (_ = _))

end Turn

end Loop

/-- All loops ever started, and the current one. -/
structure Runner where
  loops : Array Loop := #[]
  current : Option Nat := none
  deriving DecidableEq, Repr

namespace Runner

/-- Tells the current loop to stop, if there is one. -/
def tellCurrent (r : Runner) : Runner :=
  match r.current with
  | none => r
  | some i => { r with loops := r.loops.modify i Loop.tell }

/-- Puts a new loop in the place of the current one. -/
def put (r : Runner) : Runner := { loops := r.loops.push {}, current := some r.loops.size }

/-- Has no current loop any more. -/
def drop (r : Runner) : Runner := { r with current := none }

/-- Starts a loop in the place of the current one. -/
def run (r : Runner) : Runner := r.tellCurrent.put

/-- Stops the current loop without waiting for it. -/
def stop (r : Runner) : Runner := r.tellCurrent.drop

/-- Whether the current loop has not ended. -/
def running (r : Runner) : Bool :=
  match r.current with
  | none => false
  | some i => (r.loops[i]?).any (·.phase != .ended)

/-- A loop takes a turn. -/
def turn (r : Runner) (i : Nat) (t : Loop.Turn) : Runner :=
  { r with loops := r.loops.modify i t.take }

/-- A loop looks at its stop signal. -/
def look (r : Runner) (i : Nat) : Runner :=
  r.turn i (if (r.loops[i]?).any Loop.isTold then .heeds else .commits)

/-- A loop begins a callback. -/
def call (r : Runner) (i : Nat) : Runner := r.turn i .calls

/-- The callback of a loop comes back. -/
def back (r : Runner) (i : Nat) (goesOn : Bool) : Runner := r.turn i (.returns goesOn)

/-- A loop is marked as ended, if it is through. -/
def finish (r : Runner) (i : Nat) : Runner := r.turn i .finishes

/-- One round of a loop with a callback that answers by the number of calls. -/
def round (answer : Nat → Bool) (i : Nat) (r : Runner) : Runner :=
  let r := (r.look i).call i
  (r.back i (answer (((r.loops[i]?).map (·.calls)).getD 0))).finish i

/-- Lets the current loop go round until it ends, at most `rounds` times. -/
def driveFor (answer : Nat → Bool) : Nat → Runner → Runner
  | 0, r => r
  | rounds + 1, r =>
    match r.current with
    | none => r
    | some i => if r.running then driveFor answer rounds (r.round answer i) else r

/-- Lets the current loop go round until it ends. -/
def drive (answer : Nat → Bool) (r : Runner) : Runner := r.driveFor answer (twoTo 62)

end Runner

end SchemePlayer
