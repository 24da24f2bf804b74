import SchemePlayer.Proofs.Machine.Safety

/-!
# Strides

A step that does not end the tick is small. It carries out one instruction of the innermost
execution, or it carries on a message or the visit. What it can do is said here once, so that
nothing that is shown about whole ticks has to look at instructions one by one.

- `Instruction.taken`, `Instruction.stackEffect`: whether an instruction jumps, and what the table
  of operations says about the height of the stack.
- `Instruction.advances_effect`: **what an instruction does agrees with the table of operations.**
  One lemma for each helper from which instructions are put together leads up to it.
- `Frame.After`: an execution after one of its instructions.
- `Machine.Stride`, `Machine.stride_of_step`: **what a step can do**, to the executions and to what
  is left of the visit.
-/

namespace SchemePlayer

/-! ### What an instruction does to its execution -/

namespace Instruction

/-- Whether an instruction jumps, with these values on the stack. -/
def taken (i : Instruction) (stack : List Value) : Bool :=
  match i.op, stack with
  | .jump, _ => true
  | .jumpIfFalse, .float x :: _ => x == 0
  | .jumpIfTrue, .float x :: _ => x != 0
  | _, _ => false

/-- By how much an instruction changes the height of the stack: as the table of operations says,
and for `SYSTEM` by as many values as its operand drops. -/
def stackEffect (i : Instruction) : Int := i.op.info.effect.getD (-i.number)

end Instruction

/-- Where and with how many values an execution goes on after an effect of an instruction. -/
def Effect.Advances (i : Instruction) (stack : List Value) : Effect → Prop
  | .next rest | .store _ _ rest | .send _ rest =>
    i.taken stack = false ∧ (rest.length : Int) = stack.length + i.stackEffect
  | .ask _ rest => i.taken stack = false ∧ (rest.length + 1 : Int) = stack.length + i.stackEffect
  | .jump target rest => i.taken stack = true ∧ (target : Int) = i.target ∧
    (rest.length : Int) = stack.length + i.stackEffect
  | .closeAll => i.taken stack = false ∧ i.stackEffect = 0
  | .finish => i.op = .ret

namespace Instruction

variable {i : Instruction} {w : Scenery} {stack : List Value} {e : Effect}

/-- An instruction that never jumps and changes the height of the stack by a fixed number. -/
structure Steady (i : Instruction) (change : Int) : Prop where
  stays : ∀ stack, i.taken stack = false
  height : i.stackEffect = change

theorem taken_of_not_jump (hop : i.op.operand ≠ .jump) (stack : List Value) :
    i.taken stack = false := by
  unfold taken
  split
  · rename_i heq
    rw [heq] at hop
    exact absurd rfl hop
  · rename_i heq
    rw [heq] at hop
    exact absurd rfl hop
  · rename_i heq
    rw [heq] at hop
    exact absurd rfl hop
  · rfl

/-- Only jumps jump. -/
theorem jump_of_taken (htaken : i.taken stack = true) : i.op.operand = .jump := by
  by_contra hother
  rw [taken_of_not_jump hother] at htaken
  cases htaken

theorem taken_jump (hop : i.op = .jump) : i.taken stack = true := by
  simp only [taken, hop]

theorem taken_jumpIfFalse (hop : i.op = .jumpIfFalse) {x : Float} {rest : List Value} :
    i.taken (.float x :: rest) = (x == 0) := by
  simp only [taken, hop]

theorem taken_jumpIfTrue (hop : i.op = .jumpIfTrue) {x : Float} {rest : List Value} :
    i.taken (.float x :: rest) = (x != 0) := by
  simp only [taken, hop]

/-- What the table says about an operation that is no jump. -/
theorem Steady.of {op : Opcode} (hop : i.op = op) (hjump : op.operand ≠ .jump) {change : Int}
    (heffect : op.info.effect = some change) : i.Steady change :=
  ⟨taken_of_not_jump (by rwa [hop]), by rw [stackEffect, hop, heffect]; rfl⟩

/-- Of `SYSTEM` the table says nothing. -/
theorem Steady.system (hop : i.op = .system) : i.Steady (-i.number) :=
  ⟨taken_of_not_jump (by rw [hop]; decide), by rw [stackEffect, hop]; rfl⟩

/-! One lemma for each helper from which instructions are put together. -/

theorem advances_onFloat {g : Float → Value} (hi : i.Steady 0) (h : i.onFloat g stack = .ok e) :
    e.Advances i stack := by
  obtain ⟨a, rest, rfl, rfl⟩ := onFloat_eq_ok h
  exact ⟨hi.stays _, by rw [hi.height]; simp⟩

theorem advances_onHandle {g : Int32 → Value} (hi : i.Steady 0) (h : i.onHandle g stack = .ok e) :
    e.Advances i stack := by
  obtain ⟨a, rest, rfl, rfl⟩ := onHandle_eq_ok h
  exact ⟨hi.stays _, by rw [hi.height]; simp⟩

theorem advances_onText {g : Text → Value} (hi : i.Steady 0) (h : i.onText g stack = .ok e) :
    e.Advances i stack := by
  obtain ⟨a, rest, rfl, rfl⟩ := onText_eq_ok h
  exact ⟨hi.stays _, by rw [hi.height]; simp⟩

theorem advances_onFloats {g : Float → Float → Value} (hi : i.Steady (-1))
    (h : i.onFloats g stack = .ok e) : e.Advances i stack := by
  obtain ⟨a, b, rest, rfl, rfl⟩ := onFloats_eq_ok h
  exact ⟨hi.stays _, by rw [hi.height]; simp only [List.length_cons]; omega⟩

theorem advances_onHandles {g : Int32 → Int32 → Value} (hi : i.Steady (-1))
    (h : i.onHandles g stack = .ok e) : e.Advances i stack := by
  obtain ⟨a, b, rest, rfl, rfl⟩ := onHandles_eq_ok h
  exact ⟨hi.stays _, by rw [hi.height]; simp only [List.length_cons]; omega⟩

theorem advances_onTexts {g : Text → Text → Value} (hi : i.Steady (-1))
    (h : i.onTexts g stack = .ok e) : e.Advances i stack := by
  obtain ⟨a, b, rest, rfl, rfl⟩ := onTexts_eq_ok h
  exact ⟨hi.stays _, by rw [hi.height]; simp only [List.length_cons]; omega⟩

theorem advances_stay (hi : i.Steady 0) : (Effect.next stack).Advances i stack :=
  ⟨hi.stays _, by rw [hi.height, Int.add_zero]⟩

theorem advances_closeAll (hi : i.Steady 0) : Effect.closeAll.Advances i stack :=
  ⟨hi.stays _, hi.height⟩

/-- A value more. -/
theorem advances_push {v : Value} (hi : i.Steady 1) : (Effect.next (v :: stack)).Advances i stack :=
  ⟨hi.stays _, by rw [hi.height]; simp⟩

theorem advances_load {read : Slot → Option Value} (hi : i.Steady 1)
    (h : i.load w read stack = .ok e) : e.Advances i stack := by
  obtain ⟨x, v, -, -, rfl⟩ := load_eq_ok h
  exact advances_push hi

theorem advances_literal (hi : i.Steady 1) (h : i.literal w stack = .ok e) :
    e.Advances i stack := by
  obtain ⟨text, -, rfl⟩ := literal_eq_ok h
  exact advances_push hi

theorem advances_save (hi : i.Steady (-1)) (h : i.save w stack = .ok e) : e.Advances i stack := by
  obtain ⟨x, v, rest, -, hpop, rfl⟩ := save_eq_ok h
  have hlength := popKind_length hpop
  exact ⟨hi.stays _, by rw [hi.height]; omega⟩

theorem advances_ask {op : HyperOp} (hi : i.Steady (1 - op.args.length))
    (h : i.ask op stack = .ok e) : e.Advances i stack := by
  obtain ⟨args, rest, hargs, rfl⟩ := ask_eq_ok h
  have hlength := popArgs_length hargs
  exact ⟨hi.stays _, by rw [hi.height]; omega⟩

theorem advances_system (hi : i.Steady (-i.number)) (h : i.systemCall w stack = .ok e) :
    e.Advances i stack := by
  unfold systemCall at h
  split at h
  · cases h
  · rename_i rest hpop
    obtain ⟨a, below, rfl, rfl⟩ := onFloat_eq_ok h
    have hlength := popMany_length hpop
    rw [List.length_cons] at hlength
    exact ⟨hi.stays _, by rw [hi.height, List.length_cons]; omega⟩

theorem advances_send (hi : i.Steady (-1))
    (h : ((i.popText stack).map fun (name, rest) => .send name rest) = .ok e) :
    e.Advances i stack := by
  cases hpop : i.popText stack with
  | error fault =>
    rw [hpop] at h
    cases h
  | ok taken =>
    obtain ⟨name, rest⟩ := taken
    rw [hpop] at h
    cases h
    rw [popText_eq_ok hpop]
    exact ⟨hi.stays _, by rw [hi.height, List.length_cons]; omega⟩

/-- A value that is taken off, and any number of its copies put back. -/
theorem advances_pop {n : Nat} (hi : i.Steady (n - 1))
    (h : ((i.pop stack).map fun (v, rest) => .next (List.replicate n v ++ rest)) = .ok e) :
    e.Advances i stack := by
  cases stack with
  | nil => cases h
  | cons v rest =>
    cases h
    exact ⟨hi.stays _, by rw [hi.height]; simp; omega⟩

theorem advances_goto (htaken : i.taken stack = true) {rest : List Value}
    (hheight : (rest.length : Int) = stack.length + i.stackEffect) (h : i.goto w rest = .ok e) :
    e.Advances i stack := by
  obtain ⟨⟨hge, -⟩, rfl⟩ := goto_eq_ok h
  exact ⟨htaken, Int.toNat_of_nonneg hge, hheight⟩

theorem advances_gotoIf {test : Float → Bool}
    (htaken : ∀ {x : Float} {rest : List Value}, i.taken (.float x :: rest) = test x)
    (hheight : i.stackEffect = -1) (h : i.gotoIf w test stack = .ok e) : e.Advances i stack := by
  obtain ⟨x, rest, rfl, hjump⟩ := gotoIf_eq_ok h
  have hlength : (rest.length : Int) = (Value.float x :: rest).length + i.stackEffect := by
    rw [hheight, List.length_cons]
    omega
  split at hjump
  · rename_i hx
    exact advances_goto (htaken.trans hx) hlength hjump
  · rename_i hx
    subst hjump
    exact ⟨htaken.trans (Bool.eq_false_iff.mpr hx), hlength⟩

/-- **What an instruction does agrees with the table of operations.** -/
theorem advances_effect (h : i.effect w stack = .ok e) : e.Advances i stack := by
  unfold effect at h
  -- one case for each operation, settled by the lemma about its helper
  split at h <;> rename_i hop
  all_goals first
    | exact advances_onFloat (.of hop (by decide) rfl) h
    | exact advances_onFloats (.of hop (by decide) rfl) h
    | exact advances_onHandle (.of hop (by decide) rfl) h
    | exact advances_onHandles (.of hop (by decide) rfl) h
    | exact advances_onText (.of hop (by decide) rfl) h
    | exact advances_onTexts (.of hop (by decide) rfl) h
    | exact advances_ask (.of hop (by decide) rfl) h
    | exact advances_load (.of hop (by decide) rfl) h
    | exact advances_save (.of hop (by decide) rfl) h
    | exact advances_literal (.of hop (by decide) rfl) h
    | exact advances_pop (n := 0) (.of hop (by decide) rfl) h
    | exact advances_pop (n := 2) (.of hop (by decide) rfl) h
    | exact advances_send (.of hop (by decide) rfl) h
    | exact advances_system (.system hop) h
    | exact advances_goto (taken_jump hop) (by rw [stackEffect, hop]; exact (Int.add_zero _).symm) h
    | exact advances_gotoIf (taken_jumpIfFalse hop) (by rw [stackEffect, hop]; rfl) h
    | exact advances_gotoIf (taken_jumpIfTrue hop) (by rw [stackEffect, hop]; rfl) h
    | -- the operations that need no helper
      cases h
      first
      | exact hop
      | exact advances_push (.of hop (by decide) rfl)
      | exact advances_stay (.of hop (by decide) rfl)
      | exact advances_closeAll (.of hop (by decide) rfl)

end Instruction

/-! ### One step -/

/-- What the table of operations and the decoder say about an execution after one of its
instructions: where it stands, and how many values it has. -/
structure Frame.After (f : Frame) (i : Instruction) (f' : Frame) : Prop where
  id : f'.id = f.id
  inst : f'.inst = f.inst
  place : (f'.pc : Int) = if i.taken f.stack then i.target else f.pc + 1 + i.op.operand.size
  height : (f'.stack.length : Int) = f.stack.length + i.stackEffect

namespace Machine

variable {σ : Type} {h : Host σ} {s : Setting} {m m' : Machine σ} {f : Frame} {outer : List Frame}
  {i : Instruction} {bytes : Array UInt8}

/-- A call after which the tick goes on has got a value. -/
theorem frames_of_ask {call : HyperCall} {next : Value → List Frame}
    (hask : m.ask h s f call next = (m', none)) :
    (∃ v, m'.frames = next v) ∧ m'.agenda = m.agenda := by
  rw [ask_eq] at hask
  dsimp only at hask
  split at hask
  · cases hask
    exact ⟨⟨_, rfl⟩, rfl⟩
  · cases hask
  · cases hask
    exact ⟨⟨_, rfl⟩, rfl⟩
  · split at hask
    · cases hask
    · cases hask
      exact ⟨⟨_, rfl⟩, rfl⟩
  · cases hask

/-- The executions after one more was to begin: it may have been left out. -/
inductive Begins (s : Setting) (id : Nat) (old : List Frame) : List Frame → Prop where
  | denied : Begins s id old old
  | begun {inst : Instance} (hinst : s.tree.instance? id = some inst)
      (hdepth : old.length < s.maxDepth) : Begins s id old ({ id, inst } :: old)

theorem Begins.suffix {id : Nat} {old new : List Frame} (hbegins : Begins s id old new) :
    old <:+ new := by
  cases hbegins with
  | denied => exact List.suffix_rfl
  | begun => exact List.suffix_cons ..

theorem begins_begin {old : List Frame} (hold : m.frames = old) (id : Nat) :
    Begins s id old (m.begin s id).frames := by
  subst hold
  unfold begin
  split
  · rename_i hdepth
    split
    · rename_i inst hinst
      exact .begun hinst hdepth
    · exact .denied
  · exact .denied

@[simp] theorem agenda_begin (s : Setting) (m : Machine σ) (id : Nat) :
    (m.begin s id).agenda = m.agenda := by
  unfold begin
  split
  · split <;> rfl
  · rfl

/-- **What a step does that does not end the tick**: to the executions, and to what is left of the
visit. -/
inductive Stride (s : Setting) (m m' : Machine σ) : Prop where
  /-- an instruction is carried out, and its execution goes on -/
  | executes {f f' : Frame} {outer : List Frame} {i : Instruction}
      (hnext : m.next? = some (f, outer, i)) (hafter : f.After i f')
      (hmessage : f'.targets = [] ∨ ∃ className, f'.targets = s.tree.instancesOf className)
      (hframes : m'.frames = f' :: outer) (hagenda : m'.agenda = m.agenda)
  /-- an instruction ends its execution -/
  | returns {f : Frame} {outer : List Frame} {i : Instruction}
      (hnext : m.next? = some (f, outer, i)) (hop : i.op = .ret)
      (hframes : m'.frames = outer) (hagenda : m'.agenda = m.agenda)
  /-- an execution has come to the end of its code -/
  | ends {f : Frame} {outer : List Frame} (hnone : m.next? = none) (hold : m.frames = f :: outer)
      (htargets : f.targets = []) (hframes : m'.frames = outer) (hagenda : m'.agenda = m.agenda)
  /-- a message goes to its next target -/
  | sends {f : Frame} {outer : List Frame} {target : Nat} {targets : List Nat}
      (hold : m.frames = f :: outer) (htargets : f.targets = target :: targets)
      (hframes : Begins s target ({ f with targets } :: outer) m'.frames)
      (hagenda : m'.agenda = m.agenda)
  /-- the visit comes to the code of an instance -/
  | runs {id : Nat} {agenda : List Visit} (hold : m.frames = [])
      (hvisit : m.agenda = .run id :: agenda) (hframes : Begins s id [] m'.frames)
      (hagenda : m'.agenda = agenda)
  /-- the visit comes to an instance, and leaves it out or goes on below it -/
  | enters {id : Nat} {agenda : List Visit} (hold : m.frames = [])
      (hvisit : m.agenda = .enter id :: agenda) (hframes : m'.frames = [])
      (hagenda : m'.agenda = agenda ∨ ∃ inst, s.tree.instance? id = some inst ∧
        m'.agenda = inst.children.map .enter ++ .run id :: agenda)

/-- **An instruction moves its execution as the table of operations says.** Those around it stay
as they are. -/
theorem stride_of_next (hnext : m.next? = some (f, outer, i)) (hstep : m.step h s = (m', none)) :
    Stride s m m' := by
  obtain ⟨-, -, hnone, -, -, hlength⟩ := within_of_next? hnext
  have hsize : i.size = 1 + i.op.operand.size := by rw [Instruction.size, hlength]
  -- the execution goes on behind the instruction
  have hbehind : ∀ {stack : List Value} {targets : List Nat}, i.taken f.stack = false →
      (stack.length : Int) = f.stack.length + i.stackEffect →
      f.After i { f with pc := f.pc + i.size, stack, targets } := by
    intro stack targets htaken hheight
    refine ⟨rfl, rfl, ?_, hheight⟩
    rw [htaken, hsize]
    simp only [Bool.false_eq_true, if_false]
    omega
  rw [step_of_next hnext] at hstep
  cases heffect : i.effect (m.scenery s f) f.stack with
  | error fault =>
    rw [heffect] at hstep
    cases hstep
  | ok e =>
    rw [heffect] at hstep
    have hadvances := Instruction.advances_effect heffect
    cases e with
    | next stack =>
      cases hstep
      exact .executes hnext (hbehind hadvances.1 hadvances.2) (.inl hnone) rfl rfl
    | jump target stack =>
      cases hstep
      have hafter : f.After i { f with pc := target, stack } := by
        refine ⟨rfl, rfl, ?_, hadvances.2.2⟩
        rw [hadvances.1, if_pos rfl, ← hadvances.2.1]
      exact .executes hnext hafter (.inl hnone) rfl rfl
    | store slot value stack =>
      dsimp only [perform] at hstep
      split at hstep
      · cases hstep
        exact .executes hnext (hbehind hadvances.1 hadvances.2) (.inl hnone) rfl rfl
      · cases hstep
    | finish =>
      cases hstep
      exact .returns hnext hadvances rfl rfl
    | closeAll =>
      cases hstep
      have hheight : (f.stack.length : Int) = f.stack.length + i.stackEffect := by
        rw [hadvances.2, Int.add_zero]
      exact .executes hnext (hbehind hadvances.1 hheight) (.inl hnone) rfl rfl
    | send className stack =>
      cases hstep
      exact .executes hnext (hbehind hadvances.1 hadvances.2) (.inr ⟨className, rfl⟩) rfl rfl
    | ask call stack =>
      obtain ⟨⟨v, hframes⟩, hagenda⟩ := frames_of_ask hstep
      have hheight : ((v :: stack).length : Int) = f.stack.length + i.stackEffect := by
        rw [List.length_cons]
        exact_mod_cast hadvances.2
      exact .executes hnext (hbehind hadvances.1 hheight) (.inl hnone) hframes hagenda

theorem stride_visit {v : Visit} {agenda : List Visit} (hold : m.frames = [])
    (hvisit : m.agenda = v :: agenda) :
    Stride s m (({ m with agenda } : Machine σ).visit s v) := by
  cases v with
  | run id =>
    exact .runs hold hvisit (begins_begin (m := { m with agenda }) hold id) (agenda_begin ..)
  | enter id =>
    unfold visit
    dsimp only
    split
    · exact .enters hold hvisit hold (.inl rfl)
    · rename_i inst hinst
      split
      · exact .enters hold hvisit hold (.inl rfl)
      · exact .enters hold hvisit hold (.inr ⟨inst, hinst, rfl⟩)

/-- **A step that does not end the tick is a stride.** -/
theorem stride_of_step (hstep : m.step h s = (m', none)) : Stride s m m' := by
  cases hnext : m.next? with
  | some found =>
    obtain ⟨f, outer, i⟩ := found
    exact stride_of_next hnext hstep
  | none =>
    rcases step_of_not_next (h := h) (s := s) hnext with ⟨-, heq⟩ |
      ⟨v, agenda, hframes, hvisit, heq⟩ | ⟨f, outer, target, targets, hframes, htargets, heq⟩ |
      ⟨f, outer, hframes, htargets, heq⟩ | ⟨f, outer, fault, -, -, -, heq⟩
    · rw [heq] at hstep
      cases hstep
    · rw [heq] at hstep
      cases hstep
      exact stride_visit hframes hvisit
    · rw [heq] at hstep
      cases hstep
      refine .sends hframes htargets ?_ (agenda_begin ..)
      exact begins_begin (m := { m with frames := { f with targets } :: outer }) rfl target
    · rw [heq] at hstep
      cases hstep
      exact .ends hnext hframes htargets rfl rfl
    · rw [heq] at hstep
      cases hstep

end Machine

end SchemePlayer
