import SchemePlayer.Machine.Basic
import SchemePlayer.Proofs.Machine.Effect

/-!
# Steps and requests

A step of the machine either makes a call to the host or does not depend on the host at
all. This module draws the line, so that no later proof has to look inside a step:

- `next?` is the instruction that the next step executes, `request?` the call that it
  makes, if it makes one.
- `step_of_not_request`: without a request the step is the same under every host. This is
  said by comparing machines without their hosts (`core`, `under`).
- `step_of_request`, `ask_eq`: with a request the step is decided by what becomes of the
  call (`Reception`): a recorded reply is used, the host is asked, or the call is held back
  because a reply is outstanding.
- `step_of_value`, `step_of_no_value`: a call that gets a value lets the tick go on, one
  that gets none ends it.
-/

namespace SchemePlayer

/-- The setting of another tick, after more ticks and with other replies recorded. -/
def Setting.rerun (s : Setting) (iterations : Nat) (delivered : List (CallKey × Value)) : Setting :=
  { s with iterations, delivered }

namespace Machine

variable {σ : Type}

/-! ### Machines without a host -/

/-- A machine without its host. -/
def core (m : Machine σ) : Machine Unit := { m with host := () }

/-- A machine under a host. -/
def under (c : Machine Unit) (host : σ) : Machine σ := { c with host }

@[simp] theorem memory_core (m : Machine σ) : m.core.memory = m.memory := rfl

@[simp] theorem scenery_core (s : Setting) (m : Machine σ) (f : Frame) :
    m.core.scenery s f = m.scenery s f := rfl

/-- A step that was made without a host, under one. -/
def Progress.under (x : Progress Unit) (host : σ) : Progress σ := (x.1.under host, x.2)

theorem begin_under (s : Setting) (m : Machine σ) (id : Nat) :
    m.begin s id = (m.core.begin s id).under m.host := by
  unfold begin
  split
  · rw [if_pos (by assumption)]
    split <;> rfl
  · rw [if_neg (by assumption)]
    rfl

theorem visit_under (s : Setting) (m : Machine σ) (v : Visit) :
    m.visit s v = (m.core.visit s v).under m.host := by
  cases v with
  | run id => exact begin_under s m id
  | enter id =>
    unfold visit
    dsimp only
    split
    · rfl
    · change (if m.core.isDisabled _ then _ else _) = _
      split <;> rfl

/-! ### The instruction and the request of a step -/

/-- A call that code makes: by which execution, and how the executions go on with the
value that it gets. -/
structure Request where
  frame : Frame
  call : HyperCall
  next : Value → List Frame

/-- A step of an execution, told by what is decoded of its code. -/
theorem execute_eq (h : Host σ) (s : Setting) (m : Machine σ) (f : Frame) (outer : List Frame) :
    m.execute h s f outer =
      match f.targets with
      | target :: targets =>
        goesOn (({ m with frames := { f with targets } :: outer } : Machine σ).begin s target)
      | [] =>
        match f.inst.proto.program.bytes[f.pc]? with
        | none => goesOn { m with frames := outer }
        | some b =>
          match Instruction.fetchAt f.inst.proto.program.bytes f.pc b with
          | .error (.unknown code) => m.fail f (.unknownOpcode code)
          | .error (.truncated op) => m.fail f (.truncated op f.pc)
          | .ok i =>
            match i.effect (m.scenery s f) f.stack with
            | .error fault => m.fail f fault
            | .ok effect => m.perform h s f outer i effect := by
  simp only [← Instruction.readAt_eq_fetchAt]
  rfl

/-- The instruction that the next step executes, with its execution and those around it. -/
def next? (m : Machine σ) : Option (Frame × List Frame × Instruction) :=
  match m.frames with
  | [] => none
  | f :: outer =>
    match f.targets with
    | _ :: _ => none
    | [] =>
      match f.inst.proto.program.bytes[f.pc]? with
      | none => none
      | some b =>
        match Instruction.fetchAt f.inst.proto.program.bytes f.pc b with
        | .error _ => none
        | .ok i => some (f, outer, i)

/-- The call that an instruction of an execution makes, if it makes one. -/
def requestOf (s : Setting) (m : Machine σ) (f : Frame) (outer : List Frame) (i : Instruction) :
    Option Request :=
  match i.effect (m.scenery s f) f.stack with
  | .ok (.ask call stack) =>
    some ⟨f, call, fun v => { f with pc := f.pc + i.size, stack := v :: stack } :: outer⟩
  | _ => none

/-- The call that the next step makes, if it makes one. -/
def request? (s : Setting) (m : Machine σ) : Option Request :=
  match m.next? with
  | none => none
  | some (f, outer, i) => m.requestOf s f outer i

@[simp] theorem next?_core (m : Machine σ) : m.core.next? = m.next? := rfl

@[simp] theorem request?_core (s : Setting) (m : Machine σ) :
    m.core.request? s = m.request? s := rfl

theorem next?_eq_some {m : Machine σ} {f : Frame} {outer : List Frame} {i : Instruction}
    (h : m.next? = some (f, outer, i)) :
    m.frames = f :: outer ∧ f.targets = [] ∧
      ∃ b, f.inst.proto.program.bytes[f.pc]? = some b ∧
        Instruction.fetchAt f.inst.proto.program.bytes f.pc b = .ok i := by
  unfold next? at h
  cases hframes : m.frames with
  | nil => simp only [hframes, reduceCtorEq] at h
  | cons f' outer' =>
    simp only [hframes] at h
    cases htargets : f'.targets with
    | cons target targets => simp only [htargets, reduceCtorEq] at h
    | nil =>
      simp only [htargets] at h
      cases hbyte : f'.inst.proto.program.bytes[f'.pc]? with
      | none => simp only [hbyte, reduceCtorEq] at h
      | some b =>
        simp only [hbyte] at h
        cases hfetch : Instruction.fetchAt f'.inst.proto.program.bytes f'.pc b with
        | error cause => simp only [hfetch, reduceCtorEq] at h
        | ok i' =>
          simp only [hfetch] at h
          cases h
          exact ⟨rfl, htargets, b, hbyte, hfetch⟩

/-- An instruction that is executed has its effect. -/
theorem step_of_next {h : Host σ} {s : Setting} {m : Machine σ} {f : Frame} {outer : List Frame}
    {i : Instruction} (hnext : m.next? = some (f, outer, i)) :
    m.step h s =
      match i.effect (m.scenery s f) f.stack with
      | .error fault => m.fail f fault
      | .ok effect => m.perform h s f outer i effect := by
  obtain ⟨hframes, htargets, b, hbyte, hfetch⟩ := next?_eq_some hnext
  cases heffect : i.effect (m.scenery s f) f.stack with
  | error fault => simp only [step, hframes, execute_eq, htargets, hbyte, hfetch, heffect]
  | ok effect => simp only [step, hframes, execute_eq, htargets, hbyte, hfetch, heffect]

/-- The steps that execute no instruction: the tick is over, the visit goes on, a message
reaches its next target, an execution ends, or there is no instruction to be read. -/
theorem step_of_not_next {h : Host σ} {s : Setting} {m : Machine σ} (hnext : m.next? = none) :
    (m.frames = [] ∧ m.step h s = (m, some .completed)) ∨
    (∃ v agenda, m.frames = [] ∧ m.agenda = v :: agenda ∧
      m.step h s = goesOn (({ m with agenda } : Machine σ).visit s v)) ∨
    (∃ f outer target targets, m.frames = f :: outer ∧ f.targets = target :: targets ∧
      m.step h s =
        goesOn (({ m with frames := { f with targets } :: outer } : Machine σ).begin s target)) ∨
    (∃ f outer, m.frames = f :: outer ∧ f.targets = [] ∧
      m.step h s = goesOn { m with frames := outer }) ∨
    (∃ f outer fault, m.frames = f :: outer ∧ f.pc < f.inst.proto.program.bytes.size ∧
      ((∃ code, fault = .unknownOpcode code) ∨ ∃ op, fault = .truncated op f.pc) ∧
      m.step h s = m.fail f fault) := by
  unfold next? at hnext
  cases hframes : m.frames with
  | nil =>
    cases hagenda : m.agenda with
    | nil => exact .inl ⟨rfl, by simp only [step, hframes, hagenda]⟩
    | cons v agenda =>
      exact .inr (.inl ⟨v, agenda, rfl, rfl, by simp only [step, hframes, hagenda]⟩)
  | cons f outer =>
    simp only [hframes] at hnext
    cases htargets : f.targets with
    | cons target targets =>
      refine .inr (.inr (.inl ⟨f, outer, target, targets, rfl, htargets, ?_⟩))
      simp only [step, hframes, execute_eq, htargets]
    | nil =>
      simp only [htargets] at hnext
      cases hbyte : f.inst.proto.program.bytes[f.pc]? with
      | none =>
        refine .inr (.inr (.inr (.inl ⟨f, outer, rfl, htargets, ?_⟩)))
        simp only [step, hframes, execute_eq, htargets, hbyte]
      | some b =>
        simp only [hbyte] at hnext
        cases hfetch : Instruction.fetchAt f.inst.proto.program.bytes f.pc b with
        | ok i => simp [hfetch] at hnext
        | error cause =>
          have hlt := (Array.getElem?_eq_some_iff.mp hbyte).1
          refine .inr (.inr (.inr (.inr ?_)))
          -- no instruction can be read here: its code is unknown, or its operands are cut off
          cases cause with
          | unknown code =>
            refine ⟨f, outer, .unknownOpcode code, rfl, hlt, .inl ⟨code, rfl⟩, ?_⟩
            simp only [step, hframes, execute_eq, htargets, hbyte, hfetch]
          | truncated op =>
            refine ⟨f, outer, .truncated op f.pc, rfl, hlt, .inr ⟨op, rfl⟩, ?_⟩
            simp only [step, hframes, execute_eq, htargets, hbyte, hfetch]

theorem step_of_request {h : Host σ} {s : Setting} {m : Machine σ} {r : Request}
    (hr : m.request? s = some r) : m.step h s = m.ask h s r.frame r.call r.next := by
  unfold request? at hr
  split at hr
  · cases hr
  · rename_i f outer i hnext
    unfold requestOf at hr
    split at hr
    · rename_i call stack heffect
      cases hr
      rw [step_of_next hnext, heffect]
      rfl
    · cases hr

/-- Nothing but `SYSTEM` tells the ticks of a project apart. -/
theorem effect_rerun {s : Setting} {m : Machine σ} {f : Frame} {i : Instruction} {n : Nat}
    {d : List (CallKey × Value)} (hsys : n = s.iterations ∨ i.op ≠ .system) :
    i.effect (m.scenery (s.rerun n d) f) f.stack = i.effect (m.scenery s f) f.stack := by
  rcases hsys with rfl | hop
  · rfl
  · exact Instruction.effect_iterations (w := m.scenery s f) hop n

/-- Requests do not depend on the host, nor on what was recorded. -/
theorem request?_rerun {s : Setting} {m : Machine σ} {n : Nat} {d : List (CallKey × Value)}
    (hsys : n = s.iterations ∨ ∀ f outer i, m.next? = some (f, outer, i) → i.op ≠ .system) :
    m.request? (s.rerun n d) = m.request? s := by
  unfold request?
  cases hnext : m.next? with
  | none => rfl
  | some found =>
    obtain ⟨f, outer, i⟩ := found
    simp only [requestOf]
    rw [effect_rerun (hsys.imp_right fun hne => hne f outer i hnext)]

/-- **A step without a request is the same under every host**, whatever is recorded, and
the same in a later tick unless it is a `SYSTEM` instruction. -/
theorem step_of_not_request {h : Host σ} {s : Setting} {m : Machine σ} {n : Nat}
    {d : List (CallKey × Value)}
    (hsys : n = s.iterations ∨ ∀ f outer i, m.next? = some (f, outer, i) → i.op ≠ .system)
    (hr : m.request? s = none) :
    m.step h s = (m.core.step Host.absent (s.rerun n d)).under m.host := by
  cases hnext : m.next? with
  | some found =>
    obtain ⟨f, outer, i⟩ := found
    simp only [request?, hnext, requestOf] at hr
    -- the instruction has the same effect without a host, and the effect is no call
    rw [step_of_next hnext, step_of_next (m := m.core) hnext,
      effect_rerun (hsys.imp_right fun hne => hne f outer i hnext), scenery_core]
    split at hr
    · cases hr
    · rename_i hnot
      cases heffect : i.effect (m.scenery s f) f.stack with
      | error fault => rfl
      | ok effect =>
        cases effect with
        | ask call stack => exact absurd heffect (hnot call stack)
        | store slot value stack =>
          simp only [perform, memory_core]
          cases m.memory.write slot value <;> rfl
        | _ => rfl
  | none =>
    unfold next? at hnext
    cases hframes : m.frames with
    | nil =>
      have hcore : m.core.frames = [] := hframes
      simp only [step, hframes, hcore]
      cases hagenda : m.agenda with
      | nil =>
        have hagenda' : m.core.agenda = [] := hagenda
        simp only [hagenda']
        rfl
      | cons v agenda =>
        have hagenda' : m.core.agenda = v :: agenda := hagenda
        simp only [hagenda']
        exact congrArg goesOn (visit_under s { m with agenda, frames := [] } v)
    | cons f outer =>
      have hcore : m.core.frames = f :: outer := hframes
      simp only [step, hframes, hcore, execute_eq]
      simp only [hframes] at hnext
      cases htargets : f.targets with
      | cons target targets =>
        exact congrArg goesOn
          (begin_under s { m with frames := { f with targets } :: outer } target)
      | nil =>
        simp only [htargets] at hnext ⊢
        cases hbyte : f.inst.proto.program.bytes[f.pc]? with
        | none => rfl
        | some b =>
          simp only [hbyte] at hnext ⊢
          cases hfetch : Instruction.fetchAt f.inst.proto.program.bytes f.pc b with
          | error cause => cases cause <;> rfl
          | ok i =>
            simp only [hfetch] at hnext
            cases hnext

/-! ### What becomes of a request -/

/-- What becomes of a call that code makes. -/
inductive Reception where
  /-- the reply that was recorded for it is used -/
  | recorded (value : Value)
  /-- the host is asked -/
  | asked (answer : Answer)
  /-- a reply to an earlier call is outstanding -/
  | held
  deriving DecidableEq

namespace Reception

/-- The value that code gets for its call, if it gets one now. -/
def value? (op : HyperOp) : Reception → Option Value
  | recorded v => some v
  | asked (.ready v) => some (accept op v)
  | asked (.failed cause) => if cause.isFatal then none else some (Value.zero op.result)
  | asked (.pending _) => none
  | held => none

/-- Whether the host was asked. -/
def isAsked : Reception → Bool
  | asked _ => true
  | _ => false

end Reception

/-- The call of a tick that an execution makes now. -/
def keyOf (m : Machine σ) (f : Frame) : CallKey := ⟨⟨f.id, f.pc⟩, m.reached.count ⟨f.id, f.pc⟩⟩

/-- Who makes the calls of an execution. -/
def callerOf (s : Setting) (f : Frame) : Caller :=
  ⟨s.project, s.dir, f.inst.proto.name, f.id, s.classes⟩

/-- What becomes of a call of an execution. -/
def reception (h : Host σ) (s : Setting) (m : Machine σ) (f : Frame) (call : HyperCall) :
    Reception :=
  match s.delivered.lookup (m.keyOf f) with
  | some v => .recorded v
  | none =>
    if m.pending.isSome then .held else .asked (h.call m.host (callerOf s f) call).1

/-- The host after a call of an execution. -/
def hostAfter (h : Host σ) (s : Setting) (m : Machine σ) (f : Frame) (call : HyperCall) : σ :=
  if (m.reception h s f call).isAsked then (h.call m.host (callerOf s f) call).2 else m.host

/-- The machine once a call of an execution was dealt with. -/
def afterCall (h : Host σ) (s : Setting) (m : Machine σ) (f : Frame) (call : HyperCall) :
    Machine σ :=
  { m with
    reached := ⟨f.id, f.pc⟩ :: m.reached
    host := m.hostAfter h s f call }

/-- A call is decided by what becomes of it. -/
theorem ask_eq (h : Host σ) (s : Setting) (m : Machine σ) (f : Frame) (call : HyperCall)
    (next : Value → List Frame) :
    m.ask h s f call next =
      let after := m.afterCall h s f call
      match m.reception h s f call with
      | .recorded v => goesOn { after with frames := next v }
      | .held => (after, some .yielded)
      | .asked (.ready v) => goesOn { after with frames := next (accept call.op v) }
      | .asked (.failed cause) =>
        if cause.isFatal then after.fail f (.host call.op cause)
        else goesOn { after with frames := next (Value.zero call.op.result) }
      | .asked (.pending ticket) =>
        ({ after with pending := some ⟨m.keyOf f, call.op, ticket⟩, waiting := true },
          some .yielded) := by
  -- the cases of `reception`: on record, held back, asked
  cases hkey : s.delivered.lookup (m.keyOf f) with
  | some v =>
    have hrec : m.reception h s f call = .recorded v := by simp only [reception, hkey]
    have hask : m.ask h s f call next =
        goesOn { m with reached := ⟨f.id, f.pc⟩ :: m.reached, frames := next v } := by
      unfold keyOf at hkey
      simp only [ask, hkey]
    simp only [hask, afterCall, hostAfter, hrec]
    rfl
  | none =>
    unfold keyOf at hkey
    by_cases hpending : m.pending.isSome
    · have hrec : m.reception h s f call = .held := by
        simp only [reception, keyOf, hkey, hpending, if_true]
      simp only [afterCall, hostAfter, hrec, ask, hkey, hpending, if_true]
      rfl
    · have hrec : m.reception h s f call = .asked (h.call m.host (callerOf s f) call).1 := by
        simp only [reception, keyOf, hkey, hpending, if_false, Bool.false_eq_true]
      simp only [afterCall, hostAfter, hrec, ask, hkey, hpending, Reception.isAsked, if_true, if_false,
        Bool.false_eq_true]
      rcases hcall : h.call m.host (callerOf s f) call with ⟨answer, host⟩
      unfold callerOf at hcall
      simp only [hcall]
      cases answer <;> rfl

/-- A call that gets a value lets the tick go on with it. -/
theorem step_of_value {h : Host σ} {s : Setting} {m : Machine σ} {r : Request} {v : Value}
    (hr : m.request? s = some r)
    (hv : (m.reception h s r.frame r.call).value? r.call.op = some v) :
    m.step h s = goesOn { m.afterCall h s r.frame r.call with frames := r.next v } := by
  rw [step_of_request hr, ask_eq]
  dsimp only
  -- the answer has to be taken apart in the hypothesis and the goal at once
  revert hv
  cases m.reception h s r.frame r.call with
  | recorded u =>
    intro hv
    cases hv
    rfl
  | held =>
    intro hv
    cases hv
  | asked answer =>
    cases answer with
    | ready u =>
      intro hv
      cases hv
      rfl
    | pending ticket =>
      intro hv
      cases hv
    | failed cause =>
      intro hv
      simp only [Reception.value?] at hv
      split at hv
      · cases hv
      · rename_i hfatal
        cases hv
        simp only [hfatal, if_false, Bool.false_eq_true]

/-- A call that gets no value ends the tick. It yields if the reply is still to come. -/
theorem step_of_no_value {h : Host σ} {s : Setting} {m : Machine σ} {r : Request}
    (hr : m.request? s = some r)
    (hv : (m.reception h s r.frame r.call).value? r.call.op = none) :
    (m.reception h s r.frame r.call = .held ∧
      m.step h s = (m.afterCall h s r.frame r.call, some .yielded)) ∨
    (∃ ticket, m.reception h s r.frame r.call = .asked (.pending ticket) ∧
      m.step h s =
        ({ m.afterCall h s r.frame r.call with
            pending := some ⟨m.keyOf r.frame, r.call.op, ticket⟩, waiting := true },
          some .yielded)) ∨
    (∃ cause, m.reception h s r.frame r.call = .asked (.failed cause) ∧ cause.isFatal ∧
      m.step h s =
        (m.afterCall h s r.frame r.call).fail r.frame (.host r.call.op cause)) := by
  rw [step_of_request hr, ask_eq]
  dsimp only
  revert hv
  cases m.reception h s r.frame r.call with
  | recorded u =>
    intro hv
    cases hv
  | held => exact fun _ => .inl ⟨rfl, rfl⟩
  | asked answer =>
    cases answer with
    | ready u =>
      intro hv
      cases hv
    | pending ticket => exact fun _ => .inr (.inl ⟨ticket, rfl, rfl⟩)
    | failed cause =>
      intro hv
      simp only [Reception.value?] at hv
      split at hv
      · rename_i hfatal
        refine .inr (.inr ⟨cause, rfl, hfatal, ?_⟩)
        simp only [hfatal, if_true]
      · cases hv

end Machine

end SchemePlayer
