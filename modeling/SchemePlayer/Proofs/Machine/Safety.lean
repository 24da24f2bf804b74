import SchemePlayer.Proofs.Machine.Fault
import SchemePlayer.Proofs.Machine.Trace
import SchemePlayer.Proofs.Tree.Shape

/-!
# Safety of the machine

Code is arbitrary bytes: jumps may lead into the middle of an operand, operands may be cut off,
indices may point anywhere. Whatever it does, the machine stays where it can go on or stop with
an ordinary fault:

- `Safe`: the invariant of the moments of a tick. Executions are of instances that the tree has
  and stand within their code, what is left to visit is there, and memory has all slots.
- `sure_step`: **a step from a safe moment leads to a safe moment**, and if the tick fails there,
  it fails with an ordinary fault, at an instruction of an instance.
- `Grounded`, `Safe.grounded`: at a safe moment everything is there that the next step looks up
  without a check.
- `Fate`, `ordinary_executeFor`: an execution that begins at a safe moment runs on, ends, yields, is
  denied, or fails with an ordinary fault.
-/

namespace SchemePlayer

/-- A failure that code or a host can bring about: an ordinary fault, at an instruction of an
instance of the tree. -/
def Failure.IsOrdinary (t : Tree) : Failure → Prop
  | .at className offset fault => fault.isOrdinary = true ∧
    ∃ id inst, t.instance? id = some inst ∧ inst.proto.name = className ∧
      offset < inst.proto.program.bytes.size
  | .exhausted => False

/-- An instruction that was read lies within the code, and its operand is complete. -/
theorem Instruction.fetchAt_eq_ok {bytes : Array UInt8} {offset : Nat} {b : UInt8} {i : Instruction}
    (h : fetchAt bytes offset b = .ok i) :
    offset + i.size ≤ bytes.size ∧ i.operand.length = i.op.operand.size := by
  unfold fetchAt at h
  split at h
  · cases h
  · rename_i op _
    split at h
    · rename_i hle
      cases h
      have hlength : (operandAt bytes offset op).length = op.operand.size := by
        simp only [operandAt, Array.length_toList, Array.size_extract]
        omega
      refine ⟨?_, hlength⟩
      rw [size, hlength]
      omega
    · cases h

/-- The instances of a class are instances. -/
theorem Tree.instance?_of_mem_instancesOf {t : Tree} {className : Text} {id : Nat}
    (h : id ∈ t.instancesOf className) : (t.instance? id).isSome = true := by
  obtain ⟨-, hname⟩ := List.mem_filter.mp h
  cases hid : t.instance? id with
  | none =>
    rw [hid] at hname
    cases hname
  | some inst => rfl

/-- The instance that is to be visited. -/
def Visit.id : Visit → Nat
  | .enter id => id
  | .run id => id

/-- An execution of an instance of the tree that stands within its code, and whose messages go to
instances. -/
structure Frame.Placed (s : Setting) (f : Frame) : Prop where
  known : f.Known s
  within : f.pc ≤ f.inst.proto.program.bytes.size
  targets : ∀ id ∈ f.targets, (s.tree.instance? id).isSome = true

namespace Machine

variable {σ : Type} {h : Host σ} {s : Setting} {m m' : Machine σ}

/-- What holds of every moment of a tick. -/
structure Safe (s : Setting) (m : Machine σ) : Prop where
  agenda : ∀ v ∈ m.agenda, (s.tree.instance? v.id).isSome = true
  frames : ∀ f ∈ m.frames, f.Placed s
  memory : s.tree.InBounds m.memory

/-- What holds of a step from a safe moment. -/
structure Sure (s : Setting) (x : Progress σ) : Prop where
  safe : x.1.Safe s
  failure : ∀ cause, x.2 = some (.failed cause) → cause.IsOrdinary s.tree

theorem Sure.goesOn (hm : m.Safe s) : Sure s (goesOn m) :=
  ⟨hm, fun _ hcause => by cases hcause⟩

/-- To fail with an ordinary fault, at an instruction of an execution. -/
theorem Sure.fail {f : Frame} {fault : Fault} (hm : m.Safe s) (hf : f.Placed s)
    (hlt : f.pc < f.inst.proto.program.bytes.size) (hfault : fault.isOrdinary = true) :
    Sure s (m.fail f fault) := by
  refine ⟨hm, fun cause hcause => ?_⟩
  cases hcause
  exact ⟨hfault, f.id, f.inst, hf.known, rfl, hlt⟩

/-! ### One step -/

theorem Safe.begin (hm : m.Safe s) (id : Nat) : (m.begin s id).Safe s := by
  unfold Machine.begin
  split
  · split
    · rename_i inst hinst
      refine ⟨hm.agenda, fun f hf => ?_, hm.memory⟩
      rcases List.mem_cons.mp hf with rfl | hf
      · exact ⟨hinst, Nat.zero_le _, fun id hid => absurd hid List.not_mem_nil⟩
      · exact hm.frames f hf
    · exact hm
  · exact ⟨hm.agenda, hm.frames, hm.memory⟩

theorem Safe.visit (hm : m.Safe s) (ht : s.tree.Closed) {v : Visit} : (m.visit s v).Safe s := by
  cases v with
  | run id => exact hm.begin id
  | enter id =>
    unfold Machine.visit
    dsimp only
    split
    · exact hm
    · rename_i inst hinst
      split
      · exact hm
      · refine ⟨fun v hv => ?_, hm.frames, hm.memory⟩
        -- the children, the instance itself, and what was to be visited anyway
        rcases List.mem_append.mp hv with hv | hv
        · obtain ⟨c, hc, rfl⟩ := List.mem_map.mp hv
          exact ht.children id inst hinst c hc
        · rcases List.mem_cons.mp hv with rfl | hv
          · show (s.tree.instance? id).isSome = true
            rw [hinst]
            rfl
          · exact hm.agenda v hv

/-- The innermost execution goes on in its own code. -/
theorem Safe.replace {f f' : Frame} {outer : List Frame} (hm : m.Safe s)
    (hframes : m.frames = f :: outer) (hf' : f'.Placed s) :
    ({ m with frames := f' :: outer } : Machine σ).Safe s := by
  refine ⟨hm.agenda, fun g hg => ?_, hm.memory⟩
  rcases List.mem_cons.mp hg with rfl | hg
  · exact hf'
  · exact hm.frames g (by rw [hframes]; exact List.mem_cons_of_mem _ hg)

/-- The innermost execution ends. -/
theorem Safe.pop {f : Frame} {outer : List Frame} (hm : m.Safe s)
    (hframes : m.frames = f :: outer) : ({ m with frames := outer } : Machine σ).Safe s :=
  ⟨hm.agenda, fun g hg => hm.frames g (by rw [hframes]; exact List.mem_cons_of_mem _ hg), hm.memory⟩

/-- Memory has the slots of every execution. -/
theorem Safe.cells (hm : m.Safe s) {f : Frame} (hf : f ∈ m.frames) :
    ∀ x ∈ f.inst.slots, x.InRange m.memory :=
  hm.memory.slots f.id f.inst (hm.frames f hf).known

/-- What is known about an instruction that is executed. -/
theorem within_of_next? {f : Frame} {outer : List Frame} {i : Instruction}
    (hnext : m.next? = some (f, outer, i)) :
    m.frames = f :: outer ∧ f ∈ m.frames ∧ f.targets = [] ∧
      f.pc < f.inst.proto.program.bytes.size ∧
      f.pc + i.size ≤ f.inst.proto.program.bytes.size ∧ i.operand.length = i.op.operand.size := by
  obtain ⟨hframes, htargets, b, hbyte, hfetch⟩ := next?_eq_some hnext
  obtain ⟨hle, hlength⟩ := Instruction.fetchAt_eq_ok hfetch
  exact ⟨hframes, by rw [hframes]; exact List.mem_cons_self .., htargets,
    (Array.getElem?_eq_some_iff.mp hbyte).1, hle, hlength⟩

/-- A value of its kind can be stored in a slot of an execution's instance. -/
theorem Safe.write (hm : m.Safe s) {f : Frame} (hf : f ∈ m.frames) {x : Slot} {v : Value}
    (hx : x ∈ f.inst.slots) (hv : v.kind = x.kind) : ∃ memory, m.memory.write x v = .ok memory :=
  Memory.assign_isOk (hm.cells hf x hx) hv ..

theorem Sure.ask {f : Frame} {call : HyperCall} {next : Value → List Frame} (hm : m.Safe s)
    (hf : f.Placed s) (hlt : f.pc < f.inst.proto.program.bytes.size)
    (hnext : ∀ v, ∀ g ∈ next v, g.Placed s) : Sure s (m.ask h s f call next) := by
  have hafter : (m.afterCall h s f call).Safe s := ⟨hm.agenda, hm.frames, hm.memory⟩
  have hwith : ∀ v, Sure s (Machine.goesOn { m.afterCall h s f call with frames := next v }) :=
    fun v => .goesOn ⟨hm.agenda, hnext v, hm.memory⟩
  rw [ask_eq]
  dsimp only
  split
  · exact hwith _
  · exact ⟨hafter, fun _ hcause => by cases hcause⟩
  · exact hwith _
  · split
    · rename_i hfatal
      exact .fail hafter hf hlt hfatal
    · exact hwith _
  · exact ⟨⟨hm.agenda, hm.frames, hm.memory⟩, fun _ hcause => by cases hcause⟩

/-- **An instruction that is carried out leads to a safe moment.** -/
theorem Sure.perform (hm : m.Safe s) {f : Frame} {outer : List Frame} {i : Instruction} {e : Effect}
    (hnext : m.next? = some (f, outer, i)) (hlands : e.Lands (m.scenery s f)) :
    Sure s (m.perform h s f outer i e) := by
  obtain ⟨hframes, hmem, htargets, hlt, hle, -⟩ := within_of_next? hnext
  have hf := hm.frames f hmem
  -- the execution goes on behind the instruction
  have hbehind : ∀ stack, Frame.Placed s { f with pc := f.pc + i.size, stack } :=
    fun stack => ⟨hf.known, hle, hf.targets⟩
  cases e with
  | next stack => exact .goesOn (hm.replace hframes (hbehind stack))
  | jump target stack => exact .goesOn (hm.replace hframes ⟨hf.known, hlands, hf.targets⟩)
  | store slot value stack =>
    obtain ⟨memory, hwrite⟩ := hm.write hmem hlands.1 hlands.2
    have hbounds : s.tree.InBounds memory :=
      hm.memory.mono fun k => Nat.le_of_eq (Memory.size_write hwrite k).symm
    have hnew := hm.replace hframes (hbehind stack)
    simp only [Machine.perform, hwrite]
    exact .goesOn ⟨hnew.agenda, hnew.frames, hbounds⟩
  | finish => exact .goesOn (hm.pop hframes)
  | closeAll =>
    have hnew := hm.replace hframes (hbehind f.stack)
    exact .goesOn ⟨hnew.agenda, hnew.frames, hnew.memory⟩
  | send className stack =>
    refine .goesOn (hm.replace hframes ⟨hf.known, hle, fun id hid => ?_⟩)
    exact Tree.instance?_of_mem_instancesOf hid
  | ask call stack =>
    refine .ask hm hf hlt fun v g hg => ?_
    exact (hm.replace hframes (hbehind (v :: stack))).frames g hg

/-- **A step from a safe moment leads to a safe moment, and fails only in an ordinary way.** -/
theorem sure_step (ht : s.tree.Closed) (hm : m.Safe s) : Sure s (m.step h s) := by
  cases hnext : m.next? with
  | some found =>
    obtain ⟨f, outer, i⟩ := found
    obtain ⟨-, hmem, -, hlt, -⟩ := within_of_next? hnext
    rw [step_of_next hnext]
    cases heffect : i.effect (m.scenery s f) f.stack with
    | error fault =>
      have hraised := Instruction.tame_effect fault heffect
      refine .fail hm (hm.frames f hmem) hlt (hraised.isOrdinary fun x hx => ?_)
      exact Memory.cell?_isSome (hm.cells hmem x hx)
    | ok e => exact .perform hm hnext (Instruction.lands_effect heffect)
  | none =>
    rcases step_of_not_next (h := h) (s := s) hnext with ⟨-, hstep⟩ |
      ⟨v, agenda, -, hagenda, hstep⟩ | ⟨f, outer, target, targets, hframes, htargets, hstep⟩ |
      ⟨f, outer, hframes, -, hstep⟩ | ⟨f, outer, fault, hframes, hlt, hfault, hstep⟩
    · rw [hstep]
      exact ⟨hm, fun _ hcause => by cases hcause⟩
    · have hrest : ({ m with agenda } : Machine σ).Safe s := by
        refine ⟨fun v' hv' => hm.agenda v' ?_, hm.frames, hm.memory⟩
        rw [hagenda]
        exact List.mem_cons_of_mem _ hv'
      rw [hstep]
      exact .goesOn (hrest.visit ht)
    · have hf := hm.frames f (by rw [hframes]; exact List.mem_cons_self ..)
      have hsender : Frame.Placed s { f with targets } := by
        refine ⟨hf.known, hf.within, fun id hid => hf.targets id ?_⟩
        rw [htargets]
        exact List.mem_cons_of_mem _ hid
      rw [hstep]
      exact .goesOn ((hm.replace hframes hsender).begin target)
    · rw [hstep]
      exact .goesOn (hm.pop hframes)
    · rw [hstep]
      refine .fail hm (hm.frames f (by rw [hframes]; exact List.mem_cons_self ..)) hlt ?_
      rcases hfault with ⟨code, rfl⟩ | ⟨op, rfl⟩
      · rfl
      · rfl

/-! ### Every moment of a tick -/

/-- A moment that a tick comes to, however many steps it may take. -/
inductive Reaches (h : Host σ) (s : Setting) (m : Machine σ) : Machine σ → Prop where
  | refl : Reaches h s m m
  | step {m₁ m₂ : Machine σ} : Reaches h s m m₁ → m₁.step h s = (m₂, none) → Reaches h s m m₂

theorem Reaches.safe (hreach : Reaches h s m m') (ht : s.tree.Closed) (hm : m.Safe s) :
    m'.Safe s := by
  induction hreach with
  | refl => exact hm
  | step _ hstep ih =>
    have hsure := (sure_step (h := h) ht ih).safe
    rw [hstep] at hsure
    exact hsure

/-- A tick begins at a safe moment. -/
theorem safe_start (ht : s.tree.Closed) {memory : Memory} (hbounds : s.tree.InBounds memory)
    (host : σ) (pending : Option PendingCall) (waiting : Bool) :
    (start memory host pending waiting).Safe s := by
  refine ⟨fun v hv => ?_, fun f hf => absurd hf List.not_mem_nil, hbounds⟩
  obtain rfl := List.mem_singleton.mp hv
  exact ht.root

/-- Everything that the next step looks up without a check is there. -/
structure Grounded (s : Setting) (m : Machine σ) : Prop where
  /-- the instance that is to be visited, and the number that may disable it -/
  visit : ∀ v agenda, m.frames = [] → m.agenda = v :: agenda →
    ∃ inst, s.tree.instance? v.id = some inst ∧
      ∀ x, inst.disable = some x → ∃ a, m.memory.read? x = some (.float a)
  /-- the instance that a message comes to -/
  target : ∀ f outer target targets, m.frames = f :: outer → f.targets = target :: targets →
    ∃ inst, s.tree.instance? target = some inst
  /-- the place in the code, and the bytes of an instruction that is executed -/
  place : ∀ f ∈ m.frames, f.pc ≤ f.inst.proto.program.bytes.size
  bytes : ∀ f outer i, m.next? = some (f, outer, i) →
    f.pc + i.size ≤ f.inst.proto.program.bytes.size ∧ i.operand.length = i.op.operand.size
  /-- what an instruction that is carried out takes from the stack and finds by its operand -/
  found : ∀ f outer i e, m.next? = some (f, outer, i) →
    i.effect (m.scenery s f) f.stack = .ok e → i.Found (m.scenery s f) f.stack
  /-- the cells of the variables -/
  cells : ∀ f ∈ m.frames, ∀ x ∈ f.inst.slots, ∃ c, m.memory.cell? x = some c
  /-- the cell that is written, which takes values of this kind -/
  write : ∀ f outer i x v stack, m.next? = some (f, outer, i) →
    i.effect (m.scenery s f) f.stack = .ok (.store x v stack) →
    v.kind = x.kind ∧ ∃ memory, m.memory.write x v = .ok memory

theorem Safe.grounded (hm : m.Safe s) (ht : s.tree.Closed) : m.Grounded s where
  visit v agenda _ hagenda := by
    have hv := hm.agenda v (by rw [hagenda]; exact List.mem_cons_self ..)
    obtain ⟨inst, hinst⟩ := Option.isSome_iff_exists.mp hv
    refine ⟨inst, hinst, fun x hx => ?_⟩
    obtain ⟨hmem, hkind⟩ := ht.disable v.id inst hinst x hx
    obtain ⟨value, hread, hvalue⟩ := Memory.exists_read? (hm.memory.slots v.id inst hinst x hmem)
    rw [hkind] at hvalue
    cases value with
    | float a => exact ⟨a, hread⟩
    | handle a => cases hvalue
    | string a => cases hvalue
  target f outer target targets hframes htargets := by
    have hf := hm.frames f (by rw [hframes]; exact List.mem_cons_self ..)
    exact Option.isSome_iff_exists.mp
      (hf.targets target (by rw [htargets]; exact List.mem_cons_self ..))
  place f hf := (hm.frames f hf).within
  bytes f outer i hnext := by
    obtain ⟨-, -, -, -, hle, hlength⟩ := within_of_next? hnext
    exact ⟨hle, hlength⟩
  found f outer i e _ heffect := Instruction.found_effect heffect
  cells f hf x hx := Option.isSome_iff_exists.mp (Memory.cell?_isSome (hm.cells hf x hx))
  write f outer i x v stack hnext heffect := by
    obtain ⟨-, hmem, -⟩ := within_of_next? hnext
    obtain ⟨hx, hv⟩ := Instruction.lands_effect heffect
    exact ⟨hv, hm.write hmem hx hv⟩

/-- **A tick that begins at a safe moment fails only in an ordinary way**, or goes on for longer
than it may. -/
theorem ordinary_run (ht : s.tree.Closed) (hm : m.Safe s) {budget : Nat} {cause : Failure}
    (hfailed : (m.run h s budget).2 = .failed cause) :
    cause.IsOrdinary s.tree ∨ cause = .exhausted := by
  induction budget generalizing m with
  | zero =>
    cases hfailed
    exact .inr rfl
  | succ budget ih =>
    have hsure := sure_step (h := h) ht hm
    unfold run at hfailed
    rcases hstep : m.step h s with ⟨m', _ | how⟩
    · rw [hstep] at hsure hfailed
      exact ih hsure.safe hfailed
    · rw [hstep] at hsure hfailed
      exact .inl (hsure.failure cause (congrArg some hfailed))

/-! ### Executions -/

/-- How an execution stands after some steps. -/
inductive Fate where
  | runsOn
  | finished
  | yielded
  /-- too many executions were active -/
  | denied
  | failed (cause : Failure)
  deriving DecidableEq

/-- Only ordinary failures happen to an execution. -/
def Fate.IsOrdinary (t : Tree) : Fate → Prop
  | .failed cause => cause.IsOrdinary t
  | _ => True

/-- What becomes of the execution above `depth` others within a number of steps. -/
def fate (h : Host σ) (s : Setting) (depth : Nat) : Nat → Machine σ → Fate
  | 0, m => if m.frames.length ≤ depth then .finished else .runsOn
  | count + 1, m =>
    if m.frames.length ≤ depth then .finished
    else match m.step h s with
      | (m', none) => fate h s depth count m'
      | (_, some .completed) => .finished
      | (_, some .yielded) => .yielded
      | (_, some (.failed cause)) => .failed cause

/-- What becomes of an execution of an instance within a number of steps, if it begins now. -/
def executeFor (h : Host σ) (s : Setting) (count : Nat) (m : Machine σ) (id : Nat) : Fate :=
  if m.frames.length < s.maxDepth then fate h s m.frames.length count (m.begin s id) else .denied

theorem ordinary_fate (ht : s.tree.Closed) (hm : m.Safe s) (depth count : Nat) :
    (fate h s depth count m).IsOrdinary s.tree := by
  induction count generalizing m with
  | zero =>
    unfold fate
    split
    · trivial
    · trivial
  | succ count ih =>
    have hsure := sure_step (h := h) ht hm
    unfold fate
    split
    · trivial
    · rcases hstep : m.step h s with ⟨m', _ | how⟩
      · rw [hstep] at hsure
        exact ih hsure.safe
      · rw [hstep] at hsure
        cases how with
        | completed => trivial
        | yielded => trivial
        | failed cause => exact hsure.failure cause rfl

/-- **An execution that begins at a safe moment fails only in an ordinary way.** -/
theorem ordinary_executeFor (ht : s.tree.Closed) (hm : m.Safe s) (count id : Nat) :
    (m.executeFor h s count id).IsOrdinary s.tree := by
  unfold executeFor
  split
  · exact ordinary_fate ht (hm.begin id) _ count
  · trivial

end Machine

end SchemePlayer
