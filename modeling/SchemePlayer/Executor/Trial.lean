import SchemePlayer.Executor.Runner

/-!
# Trials of runners

A runner is tried with callbacks that count their calls and say when they have had enough.
The callback of the first run may be held up while the runner is told to stop or given
another run.
-/

namespace SchemePlayer

/-- A runner after a trial, with its state while the first callback was held up and right
after it was told to stop. -/
structure Trial where
  runner : Runner
  during : Option Bool := none
  stopped : Option Bool := none

namespace Trial

/-- A callback that says no at a certain call. -/
def upTo (limit calls : Nat) : Bool := calls != limit

/-- Runs one after another, each of so many calls. -/
def inTurn (times limit : Nat) : Trial :=
  ⟨times.repeat (fun r => r.run.drive (upTo limit)) {}, none, none⟩

/-- A run whose first callback has begun. -/
def begun : Runner := (({} : Runner).run.look 0).call 0

/-- The runner is told to stop while the first callback is held up. -/
def stop : Trial :=
  let told := begun.stop
  ⟨((told.back 0 true).look 0).finish 0, some begun.running, some told.running⟩

/-- The runner is given another run, of three calls, while the first callback is held up. -/
def replace : Trial :=
  ⟨(((begun.run.back 0 true).look 0).finish 0).drive (upTo 3), some begun.running, none⟩

/-- The number of calls in each run. -/
def calls (t : Trial) : List Nat := t.runner.loops.toList.map (·.calls)

end Trial

end SchemePlayer
