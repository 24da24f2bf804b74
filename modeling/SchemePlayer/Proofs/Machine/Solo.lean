import SchemePlayer.Proofs.Machine.Safety
import SchemePlayer.Proofs.Memory.Committed
import SchemePlayer.Proofs.Memory.Restore

/-!
# Executions that keep to themselves

An execution that sends no message and asks the host for nothing is a matter of its own frame, the
memory and the wish to close the project; the rest of the machine waits below it. `Solo` is that
state, `Frame.move` its step and `Solo.run` its run. They are the machine's own steps, cut down to
what they touch:

- `step_above`: a step of the machine is a move of the frame on top of it.
- `Machine.Silent`, `Machine.SilentFor`: the next steps send nothing and ask for nothing;
  `silentFor_above_iff`: a machine is silent for as long as the frame on top moves by itself.
- `proceed_above`: **a silent execution of the machine is a run by itself.**
- `Memory.OnlyNew`: nothing but working values of some slots has changed; `onlyNew_run`: **an
  execution changes nothing but working values of its own slots.**
-/

namespace SchemePlayer

/-! ### Moves -/

/-- What one step of an execution does. -/
inductive Solo.Move where
  /-- it goes on, and has perhaps asked to close the project -/
  | on (f : Frame) (memory : Memory) (closes : Bool)
  | ended
  | fault (cause : Fault)
  /-- it sends a message or asks the host -/
  | outside

namespace Frame

/-- What an execution can see when memory is as given. -/
def scenery (s : Setting) (memory : Memory) (f : Frame) : Scenery :=
  { slots := f.inst.slots
    code := f.inst.proto.program
    memory
    keys := s.keys
    iterations := s.iterations
    dir := s.dir
    classes := s.classes }

/-- What becomes of an execution by the effect of an instruction. -/
def carry (memory : Memory) (f : Frame) (i : Instruction) : Effect → Solo.Move
  | .next stack => .on { f with pc := f.pc + i.size, stack } memory false
  | .jump target stack => .on { f with pc := target, stack } memory false
  | .store slot value stack =>
    match memory.write slot value with
    | .ok memory => .on { f with pc := f.pc + i.size, stack } memory false
    | .error e => .fault (.crash e)
  | .finish => .ended
  | .closeAll => .on { f with pc := f.pc + i.size } memory true
  | .send _ _ | .ask _ _ => .outside

/-- The next move of an execution. -/
def move (s : Setting) (memory : Memory) (f : Frame) : Solo.Move :=
  match f.inst.proto.program.bytes[f.pc]? with
  | none => .ended
  | some b =>
    match Instruction.fetchAt f.inst.proto.program.bytes f.pc b with
    | .error (.unknown code) => .fault (.unknownOpcode code)
    | .error (.truncated op) => .fault (.truncated op f.pc)
    | .ok i =>
      match i.effect (f.scenery s memory) f.stack with
      | .error cause => .fault cause
      | .ok e => f.carry memory i e

/-- **What a move can do**: it goes on in the same code, with memory as it was or with one of the
instance's own slots written. -/
theorem move_eq_on {s : Setting} {memory memory' : Memory} {f f' : Frame} {closes : Bool}
    (h : f.move s memory = .on f' memory' closes) :
    (f'.id = f.id ∧ f'.inst = f.inst ∧ f'.targets = f.targets) ∧
      (memory' = memory ∨ ∃ x ∈ f.inst.slots, ∃ v, memory.write x v = .ok memory') := by
  unfold move at h
  split at h
  · cases h
  split at h
  · cases h
  · cases h
  rename_i i _
  split at h
  · cases h
  rename_i e heffect
  unfold carry at h
  split at h
  · cases h
    exact ⟨⟨rfl, rfl, rfl⟩, .inl rfl⟩
  · cases h
    exact ⟨⟨rfl, rfl, rfl⟩, .inl rfl⟩
  · rename_i x v stack
    split at h
    · rename_i written hwrite
      cases h
      exact ⟨⟨rfl, rfl, rfl⟩, .inr ⟨x, (Instruction.lands_effect heffect).1, v, hwrite⟩⟩
    · cases h
  · cases h
  · cases h
    exact ⟨⟨rfl, rfl, rfl⟩, .inl rfl⟩
  · cases h
  · cases h

/-- An execution leaves its own world by a message or a call. -/
theorem move_eq_outside_iff {s : Setting} {memory : Memory} {f : Frame} :
    f.move s memory = .outside ↔
      ∃ b i, f.inst.proto.program.bytes[f.pc]? = some b ∧
        Instruction.fetchAt f.inst.proto.program.bytes f.pc b = .ok i ∧
        ((∃ className stack, i.effect (f.scenery s memory) f.stack = .ok (.send className stack)) ∨
          ∃ call stack, i.effect (f.scenery s memory) f.stack = .ok (.ask call stack)) := by
  constructor
  · intro h
    unfold move at h
    split at h
    · cases h
    rename_i b hbyte
    split at h
    · cases h
    · cases h
    rename_i i hfetch
    refine ⟨b, i, hbyte, hfetch, ?_⟩
    split at h
    · cases h
    rename_i e heffect
    cases e with
    | send className stack => exact .inl ⟨className, stack, heffect⟩
    | ask call stack => exact .inr ⟨call, stack, heffect⟩
    | store slot value stack =>
      unfold carry at h
      dsimp only at h
      split at h <;> cases h
    | next stack => cases h
    | jump target stack => cases h
    | finish => cases h
    | closeAll => cases h
  · rintro ⟨b, i, hbyte, hfetch, ⟨className, stack, heffect⟩ | ⟨call, stack, heffect⟩⟩
    · simp only [move, hbyte, hfetch, heffect, carry]
    · simp only [move, hbyte, hfetch, heffect, carry]

end Frame

/-! ### Runs -/

/-- The state of an execution by itself. -/
structure Solo where
  frame : Frame
  memory : Memory
  /-- whether it has asked to close the project -/
  closes : Bool := false

namespace Solo

/-- The first state of an execution. -/
def first (memory : Memory) (id : Nat) (inst : Instance) : Solo :=
  { frame := { id, inst }, memory }

/-- How an execution stands after some moves, if it keeps to itself. -/
def run (s : Setting) : Nat → Solo → Option (Solo × Machine.Fate)
  | 0, x => some (x, .runsOn)
  | count + 1, x =>
    match x.frame.move s x.memory with
    | .on frame memory closes => run s count ⟨frame, memory, x.closes || closes⟩
    | .ended => some (x, .finished)
    | .fault cause => some (x, .failed (.at x.frame.inst.proto.name x.frame.pc cause))
    | .outside => none

end Solo

namespace Machine

variable {σ : Type} {h : Host σ} {s : Setting} {m : Machine σ}

/-- The machine with an execution on top of those that are active. -/
def above (m : Machine σ) (x : Solo) : Machine σ :=
  { m with frames := x.frame :: m.frames, memory := x.memory, closing := m.closing || x.closes }

/-- The machine when the execution has ended. -/
def below (m : Machine σ) (x : Solo) : Machine σ :=
  { m with memory := x.memory, closing := m.closing || x.closes }

/-- The next instruction sends no message and asks the host for nothing. -/
def Silent (s : Setting) (m : Machine σ) : Prop :=
  ∀ f outer i, m.next? = some (f, outer, i) →
    (∀ className stack, i.effect (m.scenery s f) f.stack ≠ .ok (.send className stack)) ∧
      ∀ call stack, i.effect (m.scenery s f) f.stack ≠ .ok (.ask call stack)

/-- **A step of the machine is a move of the execution on top of it.** -/
theorem step_above {x : Solo} (htargets : x.frame.targets = []) :
    (m.above x).step h s =
      match x.frame.move s x.memory with
      | .on frame memory closes => goesOn (m.above ⟨frame, memory, x.closes || closes⟩)
      | .ended => goesOn (m.below x)
      | .fault cause => (m.above x).fail x.frame cause
      | .outside => (m.above x).step h s := by
  have hstep : (m.above x).step h s = (m.above x).execute h s x.frame m.frames := rfl
  have hscenery : (m.above x).scenery s x.frame = x.frame.scenery s x.memory := rfl
  rw [hstep, execute_eq, htargets, Frame.move]
  dsimp only
  cases hbyte : x.frame.inst.proto.program.bytes[x.frame.pc]? with
  | none => rfl
  | some b =>
    dsimp only
    cases hfetch : Instruction.fetchAt x.frame.inst.proto.program.bytes x.frame.pc b with
    | error cause => cases cause <;> rfl
    | ok i =>
      dsimp only
      rw [hscenery]
      cases heffect : i.effect (x.frame.scenery s x.memory) x.frame.stack with
      | error cause => rfl
      | ok e =>
        cases e with
        | next stack => simp [perform, Frame.carry, above]
        | jump target stack => simp [perform, Frame.carry, above]
        | store slot value stack =>
          cases hwrite : x.memory.write slot value with
          | error e => simp [perform, Frame.carry, above, hwrite]
          | ok memory => simp [perform, Frame.carry, above, hwrite]
        | finish => rfl
        | closeAll => simp [perform, Frame.carry, above]
        | send className stack => rfl
        | ask call stack => rfl

/-- A machine is silent if the execution on top of it moves by itself. -/
theorem silent_above_iff {x : Solo} (htargets : x.frame.targets = []) :
    (m.above x).Silent s ↔ x.frame.move s x.memory ≠ .outside := by
  rw [ne_eq, Frame.move_eq_outside_iff]
  constructor
  · rintro hsilent ⟨b, i, hbyte, hfetch, hleaves⟩
    have hnext : (m.above x).next? = some (x.frame, m.frames, i) := by
      simp only [next?, above, htargets, hbyte, hfetch]
    obtain ⟨hsend, hask⟩ := hsilent x.frame m.frames i hnext
    rcases hleaves with ⟨className, stack, heffect⟩ | ⟨call, stack, heffect⟩
    · exact hsend className stack heffect
    · exact hask call stack heffect
  · intro hstays f outer i hnext
    obtain ⟨hframes, -, b, hbyte, hfetch⟩ := next?_eq_some hnext
    obtain ⟨rfl, rfl⟩ := List.cons.inj hframes
    constructor
    · intro className stack heffect
      exact hstays ⟨b, i, hbyte, hfetch, .inl ⟨className, stack, heffect⟩⟩
    · intro call stack heffect
      exact hstays ⟨b, i, hbyte, hfetch, .inr ⟨call, stack, heffect⟩⟩

/-! ### Executions of the machine -/

/-- What becomes of the execution above `depth` others within a number of steps, with the moment it
has come to. -/
def proceed (h : Host σ) (s : Setting) (depth : Nat) : Nat → Machine σ → Machine σ × Fate
  | 0, m => (m, if m.frames.length ≤ depth then .finished else .runsOn)
  | count + 1, m =>
    if m.frames.length ≤ depth then (m, .finished)
    else match m.step h s with
      | (m', none) => proceed h s depth count m'
      | (m', some .completed) => (m', .finished)
      | (m', some .yielded) => (m', .yielded)
      | (m', some (.failed cause)) => (m', .failed cause)

/-- The execution above `depth` others sends nothing and asks for nothing within a number of
steps. -/
def SilentFor (h : Host σ) (s : Setting) (depth : Nat) : Nat → Machine σ → Prop
  | 0, _ => True
  | count + 1, m => depth < m.frames.length →
    m.Silent s ∧ ∀ m', m.step h s = (m', none) → SilentFor h s depth count m'

/-- The moment that a run has come to. -/
def upTo (m : Machine σ) : Solo × Fate → Machine σ × Fate
  | (x, .finished) => (m.below x, .finished)
  | (x, fate) => (m.above x, fate)

theorem length_above (m : Machine σ) (x : Solo) : m.frames.length < (m.above x).frames.length :=
  Nat.lt_succ_self _

/-- Nothing more happens to an execution that has ended. -/
theorem proceed_below (x : Solo) (count : Nat) :
    proceed h s m.frames.length count (m.below x) = (m.below x, .finished) := by
  have hdone : (m.below x).frames.length ≤ m.frames.length := Nat.le_refl _
  cases count with
  | zero => rw [proceed, if_pos hdone]
  | succ count => rw [proceed, if_pos hdone]

theorem silentFor_below (x : Solo) (count : Nat) :
    SilentFor h s m.frames.length count (m.below x) := by
  cases count with
  | zero => trivial
  | succ count => exact fun hlt => absurd hlt (Nat.lt_irrefl _)

/-- **A silent execution of the machine is a run by itself.** -/
theorem proceed_above {x : Solo} (htargets : x.frame.targets = []) {count : Nat}
    {r : Solo × Fate} (hrun : x.run s count = some r) :
    proceed h s m.frames.length count (m.above x) = m.upTo r := by
  have hlt : ∀ x, ¬(m.above x).frames.length ≤ m.frames.length :=
    fun x => Nat.not_le.mpr (m.length_above x)
  induction count generalizing x with
  | zero =>
    cases hrun
    rw [proceed, if_neg (hlt x)]
    rfl
  | succ count ih =>
    rw [proceed, if_neg (hlt x), step_above htargets]
    rw [Solo.run] at hrun
    cases hmove : x.frame.move s x.memory with
    | on frame memory closes =>
      rw [hmove] at hrun
      obtain ⟨⟨-, -, hsame⟩, -⟩ := Frame.move_eq_on hmove
      exact ih (hsame.trans htargets) hrun
    | ended =>
      rw [hmove] at hrun
      cases hrun
      exact proceed_below x count
    | fault cause =>
      rw [hmove] at hrun
      cases hrun
      rfl
    | outside =>
      rw [hmove] at hrun
      cases hrun

/-- A machine is silent for as long as the execution on top of it runs by itself. -/
theorem silentFor_above_iff {x : Solo} (htargets : x.frame.targets = []) {count : Nat} :
    SilentFor h s m.frames.length count (m.above x) ↔ (x.run s count).isSome = true := by
  induction count generalizing x with
  | zero => exact iff_of_true trivial rfl
  | succ count ih =>
    rw [SilentFor, forall_prop_of_true (m.length_above x), silent_above_iff htargets,
      step_above htargets, Solo.run]
    cases hmove : x.frame.move s x.memory with
    | on frame memory closes =>
      obtain ⟨⟨-, -, hsame⟩, -⟩ := Frame.move_eq_on hmove
      have hnext := @ih ⟨frame, memory, x.closes || closes⟩ (hsame.trans htargets)
      simp only [goesOn, Prod.mk.injEq, and_true, forall_eq', ne_eq, reduceCtorEq,
        not_false_eq_true, true_and, hnext]
    | ended =>
      simp only [goesOn, Prod.mk.injEq, and_true, forall_eq', ne_eq, reduceCtorEq,
        not_false_eq_true, true_and, Option.isSome_some, iff_true]
      exact silentFor_below x count
    | fault cause => simp [fail]
    | outside => simp

/-- The execution of an instance that begins now: the moment that it has come to within a number of
steps, and how it stands. -/
def executed (h : Host σ) (s : Setting) (m : Machine σ) (count id : Nat) : Machine σ × Fate :=
  proceed h s m.frames.length count (m.begin s id)

/-- The execution of an instance that begins now sends nothing and asks for nothing within a number
of steps. -/
def Discreet (h : Host σ) (s : Setting) (m : Machine σ) (count id : Nat) : Prop :=
  SilentFor h s m.frames.length count (m.begin s id)

theorem begin_eq_above {id : Nat} {inst : Instance} (hid : s.tree.instance? id = some inst)
    (hroom : m.frames.length < s.maxDepth) :
    m.begin s id = m.above (.first m.memory id inst) := by
  simp [begin, above, Solo.first, hid, hroom]

end Machine

/-! ### What changes -/

/-- Nothing is different but working values of some slots. -/
structure Memory.OnlyNew (slots : Array Slot) (m m' : Memory) : Prop where
  cells : ∀ x, x ∉ slots → m'.cell? x = m.cell? x
  old : m.SameOld m'
  dflt : m.SameDefaults m'
  size : ∀ k, m'.size k = m.size k

theorem Memory.OnlyNew.refl (slots : Array Slot) (m : Memory) : OnlyNew slots m m :=
  ⟨fun _ _ => rfl, .refl m, .refl m, fun _ => rfl⟩

theorem Memory.OnlyNew.trans {slots : Array Slot} {m m' m'' : Memory} (h : OnlyNew slots m m')
    (h' : OnlyNew slots m' m'') : OnlyNew slots m m'' :=
  ⟨fun x hx => (h'.cells x hx).trans (h.cells x hx), h.old.trans h'.old, h.dflt.trans h'.dflt,
    fun k => (h'.size k).trans (h.size k)⟩

theorem Memory.onlyNew_write {slots : Array Slot} {m m' : Memory} {x : Slot} {v : Value}
    (hx : x ∈ slots) (h : m.write x v = .ok m') : OnlyNew slots m m' where
  cells y hy := by
    rw [cell?_assign h, if_neg]
    rintro rfl
    exact hy hx
  old := sameOld_write h
  dflt := sameDefaults_write h
  size := size_write h

/-- **An execution changes nothing but working values of its own slots**, and stays one of its
instance. -/
theorem Solo.onlyNew_run {s : Setting} {count : Nat} {x y : Solo} {fate : Machine.Fate}
    (h : x.run s count = some (y, fate)) :
    y.frame.inst = x.frame.inst ∧ x.memory.OnlyNew x.frame.inst.slots y.memory := by
  induction count generalizing x with
  | zero =>
    cases h
    exact ⟨rfl, .refl ..⟩
  | succ count ih =>
    rw [run] at h
    cases hmove : x.frame.move s x.memory with
    | on frame memory closes =>
      rw [hmove] at h
      obtain ⟨⟨-, hinst, -⟩, hmemory⟩ := Frame.move_eq_on hmove
      obtain ⟨hsame, hlater⟩ := ih h
      dsimp only at hsame hlater
      rw [hinst] at hsame hlater
      refine ⟨hsame, Memory.OnlyNew.trans ?_ hlater⟩
      rcases hmemory with rfl | ⟨slot, hslot, v, hwrite⟩
      · exact .refl ..
      · exact Memory.onlyNew_write hslot hwrite
    | ended =>
      rw [hmove] at h
      cases h
      exact ⟨rfl, .refl ..⟩
    | fault cause =>
      rw [hmove] at h
      cases h
      exact ⟨rfl, .refl ..⟩
    | outside =>
      rw [hmove] at h
      cases h

end SchemePlayer
