import SchemePlayer.Machine.Effect
import SchemePlayer.Tree.Basic

/-!
# The machine

One tick visits the tree children first and runs the code of every instance it reaches.
The machine does this in small steps, so that every moment of a tick is a value that can
be spoken about: `agenda` is what is left of the visit, `frames` are the executions that
have begun and not ended, the innermost first.

- `Machine.step`: one step.
- `Machine.run`: steps until the tick ends.
- `TickEnd`: how a tick ends. A host that promises a reply makes it yield: nothing runs
  after that, and the next tick begins again from the root.

A message runs the instances of a class inside the execution that sends it. No more than
`Setting.maxDepth` executions are ever active; what would be one more is counted and
left out.
-/

namespace SchemePlayer

/-- The instruction that made a call to the host. -/
structure CallSite where
  inst : Nat
  offset : Nat
  deriving DecidableEq

/-- One call of a tick: the site, and how often the tick had reached it before. -/
structure CallKey where
  site : CallSite
  turn : Nat
  deriving DecidableEq

/-- A call whose reply has not been collected. -/
structure PendingCall where
  key : CallKey
  op : HyperOp
  ticket : Nat
  deriving DecidableEq

/-- What a tick runs in and does not change. -/
structure Setting where
  tree : Tree
  classes : ClassTable
  keys : Keyboard
  dir : Text
  project : Nat
  iterations : Nat
  maxDepth : Nat
  /-- the replies collected since the last tick that did not yield -/
  delivered : List (CallKey × Value)

/-- An execution of an instance's code. -/
structure Frame where
  id : Nat
  inst : Instance
  pc : Nat := 0
  stack : List Value := []
  /-- instances still to be run before the next instruction, because of a message -/
  targets : List Nat := []

/-- What is left to do of a visit. -/
inductive Visit where
  /-- the instance with everything below it -/
  | enter (id : Nat)
  /-- the code of the instance alone -/
  | run (id : Nat)
  deriving DecidableEq

/-- A moment of a tick. -/
structure Machine (σ : Type) where
  memory : Memory
  host : σ
  agenda : List Visit
  frames : List Frame := []
  /-- the sites reached so far, the latest first -/
  reached : List CallSite := []
  /-- whether code asked to close the project -/
  closing : Bool := false
  /-- how many executions were left out for want of depth -/
  denied : Nat := 0
  pending : Option PendingCall := none
  /-- whether a reply of the host is awaited -/
  waiting : Bool := false

/-- How a tick ends. -/
inductive TickEnd where
  | completed
  | yielded
  | failed (cause : Failure)
  deriving DecidableEq

namespace Machine

variable {σ : Type}

/-- The state after a step, and how the tick ended if it did. -/
abbrev Progress (σ : Type) := Machine σ × Option TickEnd

/-- The tick goes on. -/
def goesOn (m : Machine σ) : Progress σ := (m, none)

/-- Whether the variable that disables an instance is positive. -/
def isDisabled (m : Machine σ) (inst : Instance) : Bool :=
  match inst.disable.bind m.memory.read? with
  | some (.float x) => decide (0 < x)
  | _ => false

/-- Begins to run the code of an instance, unless too many executions are active. -/
def begin (s : Setting) (m : Machine σ) (id : Nat) : Machine σ :=
  if m.frames.length < s.maxDepth then
    match s.tree.instance? id with
    | some inst => { m with frames := { id, inst } :: m.frames }
    | none => m
  else { m with denied := m.denied + 1 }

/-- Does the next thing of the visit. -/
def visit (s : Setting) (m : Machine σ) : Visit → Machine σ
  | .run id => m.begin s id
  | .enter id =>
    match s.tree.instance? id with
    | none => m
    | some inst =>
      if m.isDisabled inst then m
      else { m with agenda := inst.children.map .enter ++ .run id :: m.agenda }

/-- What the execution of a frame can see. -/
def scenery (s : Setting) (m : Machine σ) (f : Frame) : Scenery :=
  { slots := f.inst.slots
    code := f.inst.proto.program
    memory := m.memory
    keys := s.keys
    iterations := s.iterations
    dir := s.dir
    classes := s.classes }

/-- The tick fails at an instruction of a frame. -/
def fail (m : Machine σ) (f : Frame) (fault : Fault) : Progress σ :=
  (m, some (.failed (.at f.inst.proto.name f.pc fault)))

/-- The value that code gets for an answer: one of another kind than the operation's
result counts for nothing. -/
def accept (op : HyperOp) (v : Value) : Value := if v.kind = op.result then v else Value.zero op.result

/-- Asks the host on behalf of a frame, whose execution goes on in `next` with the value
it gets. A call whose reply was collected in an earlier tick is not made again, and none is
made while a reply is outstanding. -/
def ask (h : Host σ) (s : Setting) (m : Machine σ) (f : Frame) (call : HyperCall)
    (next : Value → List Frame) : Progress σ :=
  let site : CallSite := ⟨f.id, f.pc⟩
  let key : CallKey := ⟨site, m.reached.count site⟩
  let m := { m with reached := site :: m.reached }
  match s.delivered.lookup key with
  | some v => goesOn { m with frames := next v }
  | none =>
    if m.pending.isSome then (m, some .yielded)
    else
      let caller : Caller := ⟨s.project, s.dir, f.inst.proto.name, f.id, s.classes⟩
      match h.call m.host caller call with
      | (.pending ticket, host) =>
        ({ m with host, pending := some ⟨key, call.op, ticket⟩, waiting := true }, some .yielded)
      | (.failed cause, host) =>
        if cause.isFatal then ({ m with host } : Machine σ).fail f (.host call.op cause)
        else goesOn { m with host, frames := next (Value.zero call.op.result) }
      | (.ready v, host) => goesOn { m with host, frames := next (accept call.op v) }

/-- Carries out the effect of an instruction of the innermost frame. -/
def perform (h : Host σ) (s : Setting) (m : Machine σ) (f : Frame) (outer : List Frame)
    (i : Instruction) : Effect → Progress σ
  | .next stack => goesOn { m with frames := { f with pc := f.pc + i.size, stack } :: outer }
  | .jump target stack => goesOn { m with frames := { f with pc := target, stack } :: outer }
  | .store slot value stack =>
    match m.memory.write slot value with
    | .ok memory =>
      goesOn { m with memory, frames := { f with pc := f.pc + i.size, stack } :: outer }
    | .error e => m.fail f (.crash e)
  | .finish => goesOn { m with frames := outer }
  | .closeAll =>
    goesOn { m with closing := true, frames := { f with pc := f.pc + i.size } :: outer }
  | .send className stack =>
    let targets := s.tree.instancesOf className
    goesOn { m with frames := { f with pc := f.pc + i.size, stack, targets } :: outer }
  | .ask call stack =>
    m.ask h s f call fun v => { f with pc := f.pc + i.size, stack := v :: stack } :: outer

/-- One step of the innermost execution. -/
def execute (h : Host σ) (s : Setting) (m : Machine σ) (f : Frame) (outer : List Frame) :
    Progress σ :=
  match f.targets with
  | target :: targets =>
    goesOn (({ m with frames := { f with targets } :: outer } : Machine σ).begin s target)
  | [] =>
    let code := f.inst.proto.program
    match code.bytes[f.pc]? with
    | none => goesOn { m with frames := outer }
    | some b =>
      match Instruction.readAt code.bytes f.pc b with
      | .error (.unknown code) => m.fail f (.unknownOpcode code)
      | .error (.truncated op) => m.fail f (.truncated op f.pc)
      | .ok i =>
        match i.effect (m.scenery s f) f.stack with
        | .error fault => m.fail f fault
        | .ok effect => m.perform h s f outer i effect

/-- One step of a tick. -/
def step (h : Host σ) (s : Setting) (m : Machine σ) : Progress σ :=
  match m.frames with
  | f :: outer => m.execute h s f outer
  | [] =>
    match m.agenda with
    | [] => (m, some .completed)
    | v :: agenda => goesOn (({ m with agenda } : Machine σ).visit s v)

/-- Steps until the tick ends, at most as many as the budget allows. -/
def run (h : Host σ) (s : Setting) : Nat → Machine σ → Machine σ × TickEnd
  | 0, m => (m, .failed .exhausted)
  | budget + 1, m =>
    match m.step h s with
    | (m, none) => run h s budget m
    | (m, some how) => (m, how)

/-- The first moment of a tick. -/
def start (memory : Memory) (host : σ) (pending : Option PendingCall) (waiting : Bool) : Machine σ :=
  { memory, host, agenda := [.enter Tree.root], pending, waiting }

end Machine

end SchemePlayer
