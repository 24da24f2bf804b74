import SchemePlayer.Proofs.Machine.Request

/-!
# Nested executions

The machine keeps the executions that are active in a list, and when a tick yields or fails it
leaves the list as it is. The same can be said with calls that return: to execute an instance is to
raise a level, to run the code and to lower the level again, whichever way the code was left; a
message executes its targets one after the other inside the instruction that sends it, and a fault
is handed from every execution to the one around it. This module says it so.

- `Turn`, `Machine.turn`: what one instruction does to the execution it belongs to.
- `Guarded`: what all executions of a tick share, with the level of the guard and a log of the
  instructions that were begun.
- `Guarded.loop`, `Guarded.execute`: the code of an execution, and an execution with everything it
  sends messages to. A fault is located (`Thrown.locate`) where it leaves the execution in which it
  was raised; every execution that it passes gets to locate it again.
- `Guarded.visit`: the visit of a subtree.
- `Guarded.level_execute`: **the guard is balanced.**
- `Guarded.execute_of_full`: an execution at full depth is counted and left out;
  `Guarded.loop_of_full`: so are all targets of a message.
-/

namespace SchemePlayer

variable {σ : Type} {h : Host σ} {s : Setting}

/-! ### Turns -/

/-- What becomes of an execution and of the machine by one instruction. -/
inductive Turn (σ : Type) where
  /-- the execution goes on, perhaps with a message to bring to its targets -/
  | on (m : Machine σ) (f : Frame)
  | ended (m : Machine σ)
  /-- a reply is to be awaited -/
  | yielded (m : Machine σ)
  | raised (m : Machine σ) (fault : Fault)

namespace Machine

/-- What the answer to a call does. -/
def turnOfCall (h : Host σ) (s : Setting) (m : Machine σ) (f : Frame) (call : HyperCall)
    (next : Value → Frame) : Turn σ :=
  let after := m.afterCall h s f call
  match m.reception h s f call with
  | .recorded v => .on after (next v)
  | .held => .yielded after
  | .asked (.ready v) => .on after (next (accept call.op v))
  | .asked (.failed cause) =>
    if cause.isFatal then .raised after (.host call.op cause)
    else .on after (next (Value.zero call.op.result))
  | .asked (.pending ticket) =>
    .yielded { after with pending := some ⟨m.keyOf f, call.op, ticket⟩, waiting := true }

/-- What the effect of an instruction does. -/
def turnOf (h : Host σ) (s : Setting) (m : Machine σ) (f : Frame) (i : Instruction) :
    Effect → Turn σ
  | .next stack => .on m { f with pc := f.pc + i.size, stack }
  | .jump target stack => .on m { f with pc := target, stack }
  | .store slot value stack =>
    match m.memory.write slot value with
    | .ok memory => .on { m with memory } { f with pc := f.pc + i.size, stack }
    | .error e => .raised m (.crash e)
  | .finish => .ended m
  | .closeAll => .on { m with closing := true } { f with pc := f.pc + i.size }
  | .send className stack =>
    .on m { f with pc := f.pc + i.size, stack, targets := s.tree.instancesOf className }
  | .ask call stack =>
    m.turnOfCall h s f call fun v => { f with pc := f.pc + i.size, stack := v :: stack }

/-- What the next instruction of an execution does. At the end of its code, the execution ends. -/
def turn (h : Host σ) (s : Setting) (m : Machine σ) (f : Frame) : Turn σ :=
  let code := f.inst.proto.program
  match code.bytes[f.pc]? with
  | none => .ended m
  | some b =>
    match Instruction.readAt code.bytes f.pc b with
    | .error (.unknown code) => .raised m (.unknownOpcode code)
    | .error (.truncated op) => .raised m (.truncated op f.pc)
    | .ok i =>
      match i.effect (m.scenery s f) f.stack with
      | .error fault => .raised m fault
      | .ok effect => m.turnOf h s f i effect

/-- The machine with some of a visit left and some executions active. -/
def within (m : Machine σ) (agenda : List Visit) (frames : List Frame) : Machine σ :=
  { m with agenda, frames }

/-- The step of the machine that a turn of the innermost execution amounts to. -/
def ofTurn (agenda : List Visit) (f : Frame) (outer : List Frame) : Turn σ → Progress σ
  | .on m f' => goesOn (m.within agenda (f' :: outer))
  | .ended m => goesOn (m.within agenda outer)
  | .yielded m => (m.within agenda (f :: outer), some .yielded)
  | .raised m fault => (m.within agenda (f :: outer)).fail f fault

variable {m : Machine σ} {agenda : List Visit} {f : Frame} {outer : List Frame}

theorem ask_eq_ofTurn (call : HyperCall) (next : Value → Frame) :
    (m.within agenda (f :: outer)).ask h s f call (fun v => next v :: outer) =
      ofTurn agenda f outer (m.turnOfCall h s f call next) := by
  have hreception : (m.within agenda (f :: outer)).reception h s f call =
      m.reception h s f call := rfl
  rw [ask_eq]
  unfold turnOfCall
  dsimp only
  rw [hreception]
  cases m.reception h s f call with
  | recorded v => rfl
  | held => rfl
  | asked answer =>
    cases answer with
    | ready v => rfl
    | pending ticket => rfl
    | failed cause =>
      dsimp only
      split <;> rfl

theorem perform_eq_ofTurn (i : Instruction) (e : Effect) :
    (m.within agenda (f :: outer)).perform h s f outer i e =
      ofTurn agenda f outer (m.turnOf h s f i e) := by
  cases e with
  | ask call stack => exact ask_eq_ofTurn call _
  | store slot value stack =>
    have hmemory : (m.within agenda (f :: outer)).memory = m.memory := rfl
    simp only [perform, turnOf, hmemory]
    cases m.memory.write slot value <;> rfl
  | _ => rfl

/-- **A step of the machine is a turn of its innermost execution**, if that has brought its message
to all targets. -/
theorem step_eq_ofTurn (htargets : f.targets = []) :
    (m.within agenda (f :: outer)).step h s = ofTurn agenda f outer (m.turn h s f) := by
  have hstep : (m.within agenda (f :: outer)).step h s =
      (m.within agenda (f :: outer)).execute h s f outer := rfl
  have hscenery : (m.within agenda (f :: outer)).scenery s f = m.scenery s f := rfl
  rw [hstep, execute, htargets]
  unfold turn
  dsimp only
  cases hbyte : f.inst.proto.program.bytes[f.pc]? with
  | none => rfl
  | some b =>
    dsimp only
    cases hread : Instruction.readAt f.inst.proto.program.bytes f.pc b with
    | error cause => cases cause <;> rfl
    | ok i =>
      dsimp only
      rw [hscenery]
      cases i.effect (m.scenery s f) f.stack with
      | error fault => rfl
      | ok e => exact perform_eq_ofTurn i e

end Machine

/-! ### Executions that return -/

/-- What a fault is on its way out: just raised, or located by an execution that it has left. -/
inductive Thrown where
  | raw (fault : Fault)
  | located (cause : Failure)

/-- An execution of a class that has come to an offset locates a fault which leaves it, unless that
has been done. -/
def Thrown.locate (className : Text) (offset : Nat) : Thrown → Failure
  | raw fault => .at className offset fault
  | located cause => cause

/-- How the code of an execution is left. -/
inductive Exit where
  | finished
  | yielded
  | thrown (fault : Thrown)

/-- What an execution reports to whoever began it. -/
inductive Verdict where
  | done
  /-- it was left out for want of depth -/
  | denied
  | yielded
  | failed (cause : Failure)
  deriving DecidableEq

/-- How a tick ends after that, if it does. -/
def Verdict.end? : Verdict → Option TickEnd
  | done | denied => none
  | yielded => some .yielded
  | failed cause => some (.failed cause)

/-- What an execution of a class reports when its code is left at an offset. -/
def Exit.verdict (className : Text) (offset : Nat) : Exit → Verdict
  | finished => .done
  | yielded => .yielded
  | thrown fault => .failed (fault.locate className offset)

/-- What all executions of a tick share. The agenda and the executions of the machine are of no
account: calls keep them. -/
structure Guarded (σ : Type) where
  base : Machine σ
  /-- how many executions are active -/
  level : Nat := 0
  /-- the instructions begun so far, in order -/
  log : List CallSite := []

/-- The instruction that an execution begins next, unless it is at the end of its code. -/
def Frame.site? (f : Frame) : Option CallSite :=
  if f.pc < f.inst.proto.program.bytes.size then some ⟨f.id, f.pc⟩ else none

open Machine

namespace Guarded

/-- A run of code: it begins with an execution and the offset of its last instruction, and gives the
offset of the last instruction at which the code was left. -/
abbrev Code (σ : Type) := Guarded σ → Frame → Nat → Option (Guarded σ × Nat × Exit)

/-- So many executions more are left out. -/
def deny (count : Nat) (w : Guarded σ) : Guarded σ :=
  { w with base := { w.base with denied := w.base.denied + count } }

/-- Executes an instance, if there is room for one more execution. However its code is left, the
level goes down again, and a fault is located. -/
def executeWith (code : Code σ) (s : Setting) (w : Guarded σ) (id : Nat) :
    Option (Guarded σ × Verdict) :=
  if w.level < s.maxDepth then
    match s.tree.instance? id with
    | none => some (w, .done)
    | some inst =>
      match code { w with level := w.level + 1 } { id, inst } 0 with
      | none => none
      | some (w, offset, exit) =>
        some ({ w with level := w.level - 1 }, exit.verdict inst.proto.name offset)
  else some (w.deny 1, .denied)

/-- Runs the code of an execution until it is left, if the fuel is enough. A message that the
execution has to bring to its targets comes before its next instruction. -/
def loop (h : Host σ) (s : Setting) : Nat → Code σ
  | 0, _, _, _ => none
  | fuel + 1, w, f, offset =>
    match f.targets with
    | target :: targets =>
      match executeWith (loop h s fuel) s w target with
      | none => none
      | some (w, .done) => loop h s fuel w { f with targets } offset
      | some (w, .denied) => loop h s fuel w { f with targets } offset
      | some (w, .yielded) => some (w, offset, .yielded)
      | some (w, .failed cause) => some (w, offset, .thrown (.located cause))
    | [] =>
      let log := w.log ++ f.site?.toList
      match w.base.turn h s f with
      | .on base f' => loop h s fuel { w with base, log } f' f.pc
      | .ended base => some ({ w with base, log }, f.pc, .finished)
      | .yielded base => some ({ w with base, log }, f.pc, .yielded)
      | .raised base fault => some ({ w with base, log }, f.pc, .thrown (.raw fault))

/-- Executes an instance and everything that messages reach from there. -/
def execute (h : Host σ) (s : Setting) (fuel : Nat) (w : Guarded σ) (id : Nat) :
    Option (Guarded σ × Verdict) :=
  executeWith (loop h s fuel) s w id

/-- Visits one subtree after the other, up to the first one that yields or fails. -/
def visitAll (visit : Guarded σ → Nat → Option (Guarded σ × Verdict)) :
    List Nat → Guarded σ → Option (Guarded σ × Verdict)
  | [], w => some (w, .done)
  | id :: ids, w =>
    match visit w id with
    | some (w, .done) => visitAll visit ids w
    | some (w, .denied) => visitAll visit ids w
    | stop => stop

/-- Visits a subtree: what is below the instance, then the instance itself, and nothing of it if the
instance is disabled. -/
def visit (h : Host σ) (s : Setting) : Nat → Guarded σ → Nat → Option (Guarded σ × Verdict)
  | 0, _, _ => none
  | fuel + 1, w, id =>
    match s.tree.instance? id with
    | none => some (w, .done)
    | some inst =>
      if w.base.isDisabled inst then some (w, .done)
      else
        match visitAll (visit h s fuel) inst.children w with
        | some (w, .done) => w.execute h s fuel id
        | stop => stop

/-! ### The guard is balanced -/

variable {w w' : Guarded σ} {fuel : Nat}

theorem level_executeWith {code : Code σ} {id : Nat} {verdict : Verdict}
    (hcode : ∀ w f offset w' offset' exit, code w f offset = some (w', offset', exit) →
      w'.level = w.level)
    (hrun : executeWith code s w id = some (w', verdict)) : w'.level = w.level := by
  unfold executeWith at hrun
  split at hrun
  · split at hrun
    · cases hrun
      rfl
    · rename_i inst _
      split at hrun
      · cases hrun
      · rename_i last offset exit hlast
        have hkeeps : last.level = w.level + 1 := hcode _ _ _ _ _ _ hlast
        cases hrun
        show last.level - 1 = w.level
        rw [hkeeps, Nat.add_sub_cancel]
  · cases hrun
    rfl

/-- The code of an execution leaves the level as it found it. -/
theorem level_loop {f : Frame} {offset offset' : Nat} {exit : Exit}
    (hrun : loop h s fuel w f offset = some (w', offset', exit)) : w'.level = w.level := by
  -- the fuel bounds both the instructions to come and the depth of the executions in between
  induction fuel generalizing w w' f offset offset' exit with
  | zero => cases hrun
  | succ fuel ih =>
    have hexecute : ∀ {w w' : Guarded σ} {id : Nat} {verdict : Verdict},
        executeWith (loop h s fuel) s w id = some (w', verdict) → w'.level = w.level :=
      level_executeWith fun _ _ _ _ _ _ hcode => ih hcode
    unfold loop at hrun
    split at hrun
    · split at hrun
      · cases hrun
      · rename_i hdone
        exact (ih hrun).trans (hexecute hdone)
      · rename_i hdenied
        exact (ih hrun).trans (hexecute hdenied)
      · rename_i hyielded
        cases hrun
        exact hexecute hyielded
      · rename_i hfailed
        cases hrun
        exact hexecute hfailed
    · dsimp only at hrun
      split at hrun
      · have hkeeps := ih hrun
        exact hkeeps
      · cases hrun
        rfl
      · cases hrun
        rfl
      · cases hrun
        rfl

/-- **The guard is balanced**: an execution leaves the level as it found it, whatever it reports. -/
theorem level_execute {id : Nat} {verdict : Verdict}
    (hrun : w.execute h s fuel id = some (w', verdict)) : w'.level = w.level :=
  level_executeWith (fun _ _ _ _ _ _ hcode => level_loop hcode) hrun

/-! ### At full depth -/

/-- **An execution at full depth** changes nothing but the count of those left out. -/
theorem execute_of_full (hfull : s.maxDepth ≤ w.level) (id : Nat) :
    w.execute h s fuel id = some (w.deny 1, .denied) := by
  unfold execute executeWith
  rw [if_neg (Nat.not_lt.mpr hfull)]

/-- So do all targets of a message, and the execution that has to bring it goes on. -/
theorem loop_of_full (hfull : s.maxDepth ≤ w.level) {f : Frame} {targets : List Nat}
    (htargets : f.targets = targets) (offset : Nat) :
    loop h s (targets.length + fuel) w f offset =
      loop h s fuel (w.deny targets.length) { f with targets := [] } offset := by
  induction targets generalizing w f with
  | nil =>
    rw [List.length_nil, Nat.zero_add, ← htargets]
    rfl
  | cons target targets ih =>
    have hdenied : executeWith (loop h s (targets.length + fuel)) s w target =
        some (w.deny 1, .denied) := execute_of_full hfull target
    have hrest := ih (w := w.deny 1) hfull (f := { f with targets }) rfl
    have hcount : (w.deny 1).deny targets.length = w.deny (target :: targets).length := by
      rw [List.length_cons, Nat.add_comm targets.length 1]
      simp only [deny, Nat.add_assoc]
    rw [hcount] at hrest
    rw [List.length_cons, Nat.add_right_comm, loop, htargets]
    dsimp only
    rw [hdenied]
    exact hrest

/-- **A message that is sent at full depth** adds the number of instances of the class to the count,
and the sender goes on behind it with everything else as it was. -/
theorem loop_of_send {f : Frame} {i : Instruction} {className : Text} {stack : List Value}
    (hnext : (w.base.within [] [f]).next? = some (f, [], i))
    (heffect : i.effect (w.base.scenery s f) f.stack = .ok (.send className stack))
    (hfull : s.maxDepth ≤ w.level) (offset : Nat) :
    loop h s ((s.tree.instancesOf className).length + fuel + 1) w f offset =
      loop h s fuel
        { w.deny (s.tree.instancesOf className).length with log := w.log ++ [⟨f.id, f.pc⟩] }
        { f with pc := f.pc + i.size, stack, targets := [] } f.pc := by
  obtain ⟨-, htargets, b, hbyte, hfetch⟩ := next?_eq_some hnext
  let sender : Frame :=
    { f with pc := f.pc + i.size, stack, targets := s.tree.instancesOf className }
  have hturn : w.base.turn h s f = .on w.base sender := by
    simp only [turn, hbyte, Instruction.readAt_eq_fetchAt, hfetch, heffect]
    rfl
  have hsite : f.site? = some ⟨f.id, f.pc⟩ :=
    if_pos (Array.getElem?_eq_some_iff.mp hbyte).1
  let begun : Guarded σ := { w with log := w.log ++ [⟨f.id, f.pc⟩] }
  have hpassed : loop h s (sender.targets.length + fuel) begun sender f.pc =
      loop h s fuel (begun.deny sender.targets.length) { sender with targets := [] } f.pc :=
    loop_of_full (w := begun) hfull rfl f.pc
  rw [loop, htargets]
  dsimp only
  rw [hturn, hsite]
  exact hpassed

end Guarded

namespace Machine

variable {m : Machine σ} {f : Frame} {outer : List Frame} {targets : List Nat}

/-- A message that is sent at full depth passes all its targets by. -/
theorem run_of_full (hframes : m.frames = f :: outer) (htargets : f.targets = targets)
    (hfull : s.maxDepth ≤ m.frames.length) (budget : Nat) :
    m.run h s (targets.length + budget) =
      Machine.run h s budget
        { m with
          frames := { f with targets := [] } :: outer
          denied := m.denied + targets.length } := by
  induction targets generalizing m f with
  | nil =>
    rw [List.length_nil, Nat.zero_add, Nat.add_zero, ← htargets, ← hframes]
  | cons target targets ih =>
    have hstep : m.step h s =
        goesOn { m with frames := { f with targets } :: outer, denied := m.denied + 1 } := by
      have hlength : ¬({ f with targets } :: outer).length < s.maxDepth := by
        rw [hframes] at hfull
        exact Nat.not_lt.mpr hfull
      simp only [step, hframes, execute, htargets, begin, if_neg hlength]
    rw [List.length_cons, Nat.add_right_comm, run, hstep]
    dsimp only [goesOn]
    rw [ih (f := { f with targets }) rfl rfl (by rw [hframes] at hfull; exact hfull)]
    dsimp only
    rw [Nat.add_assoc, Nat.add_comm 1]

/-- The same of a message that the machine sends at full depth. -/
theorem run_of_send {i : Instruction} {className : Text} {stack : List Value}
    (hnext : m.next? = some (f, outer, i))
    (heffect : i.effect (m.scenery s f) f.stack = .ok (.send className stack))
    (hfull : s.maxDepth ≤ m.frames.length) (budget : Nat) :
    m.run h s ((s.tree.instancesOf className).length + budget + 1) =
      Machine.run h s budget
        { m with
          frames := { f with pc := f.pc + i.size, stack, targets := [] } :: outer
          denied := m.denied + (s.tree.instancesOf className).length } := by
  obtain ⟨hframes, -⟩ := next?_eq_some hnext
  let sender : Frame :=
    { f with pc := f.pc + i.size, stack, targets := s.tree.instancesOf className }
  have hstep : m.step h s = goesOn { m with frames := sender :: outer } := by
    rw [step_of_next hnext, heffect]
    rfl
  rw [hframes] at hfull
  have hpassed := run_of_full (h := h) (m := { m with frames := sender :: outer }) rfl rfl hfull
    budget
  rw [run, hstep]
  exact hpassed

end Machine

end SchemePlayer
