import SchemePlayer.Machine.Basic
import SchemePlayer.Proofs.Machine.Effect

/-!
# Faults of instructions

An instruction checks its operand and its arguments, and a check that fails is an ordinary
fault: a code that stands for no operation, a value of another kind, an empty stack, an operand
that leads nowhere, or a host that stops the project. What is not checked is whether a slot of
an instance is one of memory, because it always is.

- `Fault.isOrdinary`: everything but an access to memory that goes wrong.
- `Instruction.MayRaise`: the faults that an instruction can raise by itself, and when.
- `tame_effect`: whatever an instruction and a stack are, the instruction raises only these
  faults. One lemma for each helper from which instructions are put together leads up to it.
- `Found`, `found_effect`: an instruction that is carried out has found its arguments on the
  stack, and its variable or literal where its operand says.
- `Effect.Lands`, `lands_effect`: a jump leads into the code or to its end, and what is stored
  is of the kind of a slot of the instance.
- `Machine.Fails`, `fails_perform`: what is carried out fails in the innermost execution, and only
  by a crash of memory or by the host.
-/

namespace SchemePlayer

/-- Whether a fault is one that code or a host can bring about. -/
def Fault.isOrdinary : Fault → Bool
  | .unknownOpcode _ => true
  | .typeMismatch .. => true
  | .underflow .. => true
  | .truncated .. => true
  | .badVariable .. => true
  | .badLiteral .. => true
  | .badJump _ => true
  | .host _ cause => cause.isFatal
  | .crash _ => false

/-- Whether a fault is one of code that is badly encoded: a byte that stands for no operation, an
operand that is cut off, a jump that leaves the code. -/
def Fault.isEncoding : Fault → Bool
  | .unknownOpcode _ | .truncated .. | .badJump _ => true
  | _ => false

namespace Opcode

/-- The operations whose operand is a variable. -/
theorem eq_of_operand_slot {op : Opcode} (h : op.operand = .slot) :
    op = .pushVar ∨ op = .pushOld ∨ op = .pushDefault ∨ op = .storeVar := by
  cases op <;> cases h <;> simp

/-- The operation whose operand is a literal. -/
theorem eq_of_operand_string {op : Opcode} (h : op.operand = .string) : op = .pushString := by
  cases op <;> cases h
  rfl

end Opcode

namespace Instruction

/-- The faults that an instruction can raise by itself, and when. That its code is unknown or its
operand cut off is found out before, and a host that fails is none of its business. -/
def MayRaise (i : Instruction) (w : Scenery) : Fault → Prop
  | .typeMismatch op offset _ _ | .underflow op offset => op = i.op ∧ offset = i.offset
  | .badVariable index count => index = i.number ∧ count = w.slots.size
  | .badLiteral index count => index = i.number ∧ count = w.code.strings.size
  | .badJump target => i.op.operand = .jump ∧ target = i.target ∧
    ¬(0 ≤ target ∧ target ≤ w.code.bytes.size)
  | .crash _ => ∃ x ∈ w.slots, w.memory.cell? x = none
  | .unknownOpcode _ | .truncated .. | .host .. => False

/-- What goes wrong, if anything does, is a fault of the instruction. -/
def Tame {α : Type} (i : Instruction) (w : Scenery) (x : Except Fault α) : Prop :=
  ∀ fault, x = .error fault → i.MayRaise w fault

theorem Tame.ok {α : Type} {i : Instruction} {w : Scenery} {a : α} : i.Tame w (.ok a) := by
  intro fault h
  cases h

theorem Tame.error {α : Type} {i : Instruction} {w : Scenery} {fault : Fault}
    (h : i.MayRaise w fault) : i.Tame w (.error fault : Except Fault α) := by
  intro fault' h'
  cases h'
  exact h

theorem Tame.map {α β : Type} {i : Instruction} {w : Scenery} {x : Except Fault α}
    (hx : i.Tame w x) (f : α → β) : i.Tame w (x.map f) := by
  cases x with
  | error fault => exact .error (hx fault rfl)
  | ok a => exact .ok

/-- If memory has the slots of the instance, the fault is an ordinary one. -/
theorem MayRaise.isOrdinary {i : Instruction} {w : Scenery} {fault : Fault}
    (h : i.MayRaise w fault) (hcells : ∀ x ∈ w.slots, (w.memory.cell? x).isSome = true) :
    fault.isOrdinary = true := by
  cases fault with
  | crash cause =>
    obtain ⟨x, hx, hnone⟩ := h
    have hsome := hcells x hx
    rw [hnone] at hsome
    cases hsome
  | host op cause => exact absurd h id
  | _ => rfl

end Instruction

/-- The landing place of an effect: a jump stays within the code, a value that is stored is of
the kind of its slot, which is one of the instance's. -/
def Effect.Lands (w : Scenery) : Effect → Prop
  | .jump target _ => target ≤ w.code.bytes.size
  | .store slot value _ => slot ∈ w.slots ∧ value.kind = slot.kind
  | _ => True

namespace Instruction

variable {i : Instruction} {w : Scenery} {stack : List Value}

/-! ### Taking from the stack -/

theorem tame_pop : i.Tame w (i.pop stack) := by
  unfold pop
  split
  · exact .error ⟨rfl, rfl⟩
  · exact .ok

theorem tame_popMany {count : Nat} : i.Tame w (i.popMany count stack) := by
  fun_induction popMany i count stack with
  | case1 => exact .ok
  | case2 => exact .error ⟨rfl, rfl⟩
  | case3 _ _ _ ih => exact ih

theorem tame_popKind {k : Kind} : i.Tame w (i.popKind k stack) := by
  unfold popKind
  split
  · rename_i hpop
    exact .error (tame_pop _ hpop)
  · split
    · exact .ok
    · exact .error ⟨rfl, rfl⟩

theorem tame_popFloat : i.Tame w (i.popFloat stack) := by
  unfold popFloat
  split
  · exact .error ⟨rfl, rfl⟩
  · exact .ok
  · exact .error ⟨rfl, rfl⟩

theorem tame_popHandle : i.Tame w (i.popHandle stack) := by
  unfold popHandle
  split
  · exact .error ⟨rfl, rfl⟩
  · exact .ok
  · exact .error ⟨rfl, rfl⟩

theorem tame_popText : i.Tame w (i.popText stack) := by
  unfold popText
  split
  · exact .error ⟨rfl, rfl⟩
  · exact .ok
  · exact .error ⟨rfl, rfl⟩

theorem tame_popArgs {kinds : List Kind} : i.Tame w (i.popArgs kinds stack) := by
  induction kinds with
  | nil => exact .ok
  | cons k kinds ih =>
    simp only [popArgs, List.foldr_cons]
    split
    · rename_i hbelow
      exact .error (ih _ hbelow)
    · split
      · rename_i hpop
        exact .error (tame_popKind _ hpop)
      · exact .ok

/-! ### Helpers of instructions -/

theorem tame_onFloat {g : Float → Value} : i.Tame w (i.onFloat g stack) := by
  unfold onFloat
  split
  · rename_i hpop
    exact .error (tame_popFloat _ hpop)
  · exact .ok

theorem tame_onFloats {g : Float → Float → Value} : i.Tame w (i.onFloats g stack) := by
  unfold onFloats
  split
  · rename_i hpop
    exact .error (tame_popFloat _ hpop)
  · exact tame_onFloat

theorem tame_onHandle {g : Int32 → Value} : i.Tame w (i.onHandle g stack) := by
  unfold onHandle
  split
  · rename_i hpop
    exact .error (tame_popHandle _ hpop)
  · exact .ok

theorem tame_onHandles {g : Int32 → Int32 → Value} : i.Tame w (i.onHandles g stack) := by
  unfold onHandles
  split
  · rename_i hpop
    exact .error (tame_popHandle _ hpop)
  · exact tame_onHandle

theorem tame_onText {g : Text → Value} : i.Tame w (i.onText g stack) := by
  unfold onText
  split
  · rename_i hpop
    exact .error (tame_popText _ hpop)
  · exact .ok

theorem tame_onTexts {g : Text → Text → Value} : i.Tame w (i.onTexts g stack) := by
  unfold onTexts
  split
  · rename_i hpop
    exact .error (tame_popText _ hpop)
  · exact tame_onText

theorem tame_slotOf : i.Tame w (i.slotOf w) := by
  unfold slotOf
  split
  · exact .ok
  · exact .error ⟨rfl, rfl⟩

/-- What is loaded is there, if memory has its slot. -/
theorem tame_load {read : Slot → Option Value}
    (hread : ∀ x, read x = none → w.memory.cell? x = none) : i.Tame w (i.load w read stack) := by
  unfold load
  split
  · rename_i hslot
    exact .error (tame_slotOf _ hslot)
  · rename_i x hslot
    split
    · exact .ok
    · rename_i hnone
      unfold slotOf at hslot
      split at hslot
      · rename_i hx
        cases hslot
        exact .error ⟨_, Array.mem_of_getElem? hx, hread _ hnone⟩
      · cases hslot

theorem tame_save : i.Tame w (i.save w stack) := by
  unfold save
  split
  · rename_i hslot
    exact .error (tame_slotOf _ hslot)
  · split
    · rename_i hpop
      exact .error (tame_popKind _ hpop)
    · exact .ok

theorem tame_literal : i.Tame w (i.literal w stack) := by
  unfold literal
  split
  · exact .ok
  · exact .error ⟨rfl, rfl⟩

theorem tame_goto (hop : i.op.operand = .jump) : i.Tame w (i.goto w stack) := by
  unfold goto
  split
  · exact .ok
  · rename_i hout
    exact .error ⟨hop, rfl, hout⟩

theorem tame_gotoIf {test : Float → Bool} (hop : i.op.operand = .jump) :
    i.Tame w (i.gotoIf w test stack) := by
  unfold gotoIf
  split
  · rename_i hpop
    exact .error (tame_popFloat _ hpop)
  · split
    · exact tame_goto hop
    · exact .ok

theorem tame_systemCall : i.Tame w (i.systemCall w stack) := by
  unfold systemCall
  split
  · rename_i hpop
    exact .error (tame_popMany _ hpop)
  · exact tame_onFloat

theorem tame_ask {op : HyperOp} : i.Tame w (i.ask op stack) := by
  unfold ask
  split
  · rename_i hpop
    exact .error (tame_popArgs _ hpop)
  · exact .ok

/-! ### Whole instructions -/

/-- **Instructions raise no faults but their own.** -/
theorem tame_effect : i.Tame w (i.effect w stack) := by
  have hread : ∀ {f : Cell Value → Value} (x : Slot), (w.memory.cell? x).map f = none →
      w.memory.cell? x = none := fun x hx => Option.map_eq_none_iff.mp hx
  unfold effect
  -- one case for each operation, settled by the lemma about its helper
  split <;> rename_i hop
  all_goals first
    | exact .ok
    | exact tame_onFloats
    | exact tame_onFloat
    | exact tame_onHandles
    | exact tame_onHandle
    | exact tame_onTexts
    | exact tame_onText
    | exact tame_ask
    | exact tame_load hread
    | exact tame_save
    | exact tame_literal
    | exact tame_gotoIf (by rw [hop]; rfl)
    | exact tame_goto (by rw [hop]; rfl)
    | exact tame_systemCall
    | exact tame_pop.map _
    | exact tame_popText.map _

/-- How many values an instruction takes from the stack. -/
def arity (i : Instruction) : Nat :=
  match i.op with
  | .pop | .dup | .storeVar | .neg | .not | .floatToInt | .intToFloat | .floatToString
  | .stringToFloat | .strLen | .jumpIfFalse | .jumpIfTrue | .getAsyncKeyState | .getClassDir
  | .addSlash | .sendMessage => 1
  | .add | .sub | .mul | .div | .mod | .eq | .ne | .lt | .gt | .le | .ge | .iadd | .isub | .iand
  | .ior | .ieq | .ine | .and | .or | .concat | .strEq => 2
  | .system => i.number + 1
  | op => (op.hyperOp?.map fun hyper => hyper.args.length).getD 0

/-- What an instruction looks up is there: its arguments, its variable, its literal. -/
structure Found (i : Instruction) (w : Scenery) (stack : List Value) : Prop where
  arguments : i.arity ≤ stack.length
  slot : i.op.operand = .slot → i.number < w.slots.size
  literal : i.op.operand = .string → i.number < w.code.strings.size

theorem popMany_length {count : Nat} {rest : List Value} (h : i.popMany count stack = .ok rest) :
    stack.length = count + rest.length := by
  fun_induction popMany i count stack with
  | case1 stack =>
    cases h
    exact (Nat.zero_add _).symm
  | case2 => cases h
  | case3 count v stack ih =>
    have hrest := ih h
    rw [List.length_cons]
    omega

theorem popKind_length {k : Kind} {v : Value} {rest : List Value}
    (h : i.popKind k stack = .ok (v, rest)) : stack.length = rest.length + 1 := by
  unfold popKind pop at h
  grind

theorem popArgs_length {kinds : List Kind} {args rest : List Value}
    (h : i.popArgs kinds stack = .ok (args, rest)) : stack.length = kinds.length + rest.length := by
  induction kinds generalizing args rest with
  | nil =>
    cases h
    exact (Nat.zero_add _).symm
  | cons k kinds ih =>
    simp only [popArgs, List.foldr_cons] at h
    split at h
    · cases h
    · rename_i below left hbelow
      split at h
      · cases h
      · rename_i v left' hpop
        cases h
        have hkinds := ih hbelow
        have hlast := popKind_length hpop
        rw [List.length_cons]
        omega

@[grind →]
theorem systemCall_length {e : Effect} (h : i.systemCall w stack = .ok e) :
    i.number + 1 ≤ stack.length := by
  unfold systemCall at h
  split at h
  · cases h
  · rename_i rest hpop
    obtain ⟨a, rest', rfl, -⟩ := onFloat_eq_ok h
    have hlength := popMany_length hpop
    rw [List.length_cons] at hlength
    omega

@[grind →]
theorem map_pop_length {f : Value × List Value → Effect} {e : Effect}
    (h : (i.pop stack).map f = .ok e) : 1 ≤ stack.length := by
  cases stack with
  | nil => cases h
  | cons v rest => exact Nat.succ_pos _

@[grind →]
theorem map_popText_length {f : Text × List Value → Effect} {e : Effect}
    (h : (i.popText stack).map f = .ok e) : 1 ≤ stack.length := by
  cases stack with
  | nil => cases h
  | cons v rest => exact Nat.succ_pos _

@[grind →]
theorem ask_length {op : HyperOp} {e : Effect} (h : i.ask op stack = .ok e) :
    op.args.length ≤ stack.length := by
  obtain ⟨args, rest, hargs, -⟩ := ask_eq_ok h
  have hlength := popArgs_length hargs
  omega

@[grind →]
theorem save_length {e : Effect} (h : i.save w stack = .ok e) : 1 ≤ stack.length := by
  obtain ⟨x, v, rest, -, hpop, -⟩ := save_eq_ok h
  have hlength := popKind_length hpop
  omega

theorem arity_le_of_effect {e : Effect} (h : i.effect w stack = .ok e) :
    i.arity ≤ stack.length := by
  unfold effect at h
  -- what each helper took from the stack is said by its lemma
  split at h <;> rename_i hop <;> simp only [arity, hop]
  all_goals first
    | exact Nat.zero_le _
    | exact ask_length h
    | grind

theorem lt_of_slot {e : Effect} (h : i.effect w stack = .ok e) (hslot : i.op.operand = .slot) :
    i.number < w.slots.size := by
  have hfound : ∀ {x : Slot}, w.slots[i.number]? = some x → i.number < w.slots.size :=
    fun hx => (Array.getElem?_eq_some_iff.mp hx).1
  rcases Opcode.eq_of_operand_slot hslot with hop | hop | hop | hop <;>
    simp only [effect, hop] at h
  · obtain ⟨x, v, hx, -⟩ := load_eq_ok h
    exact hfound hx
  · obtain ⟨x, v, hx, -⟩ := load_eq_ok h
    exact hfound hx
  · obtain ⟨x, v, hx, -⟩ := load_eq_ok h
    exact hfound hx
  · obtain ⟨x, v, rest, hx, -⟩ := save_eq_ok h
    exact hfound hx

theorem lt_of_literal {e : Effect} (h : i.effect w stack = .ok e)
    (hliteral : i.op.operand = .string) : i.number < w.code.strings.size := by
  simp only [effect, Opcode.eq_of_operand_string hliteral] at h
  obtain ⟨s, hs, -⟩ := literal_eq_ok h
  exact (Array.getElem?_eq_some_iff.mp hs).1

/-- **An instruction that is carried out has found what it looked up.** -/
theorem found_effect {e : Effect} (h : i.effect w stack = .ok e) : i.Found w stack :=
  ⟨arity_le_of_effect h, lt_of_slot h, lt_of_literal h⟩

theorem lands_goto {e : Effect} (h : i.goto w stack = .ok e) : e.Lands w := by
  obtain ⟨⟨hge, hle⟩, rfl⟩ := goto_eq_ok h
  show i.target.toNat ≤ w.code.bytes.size
  omega

theorem lands_gotoIf {test : Float → Bool} {e : Effect} (h : i.gotoIf w test stack = .ok e) :
    e.Lands w := by
  obtain ⟨x, rest, -, hjump⟩ := gotoIf_eq_ok h
  split at hjump
  · exact lands_goto hjump
  · subst hjump
    trivial

theorem lands_save {e : Effect} (h : i.save w stack = .ok e) : e.Lands w := by
  obtain ⟨x, v, rest, hx, hpop, rfl⟩ := save_eq_ok h
  exact ⟨Array.mem_of_getElem? hx, popKind_kind hpop⟩

/-- **What an instruction brings about stays within the code and the slots of its instance.** -/
theorem lands_effect {e : Effect} (h : i.effect w stack = .ok e) : e.Lands w := by
  unfold effect at h
  split at h
  all_goals first
    | exact lands_goto h
    | exact lands_gotoIf h
    | exact lands_save h
    | -- every other operation goes on, ends or asks
      grind [Effect.Lands]

end Instruction

namespace Machine

variable {σ : Type}

/-! ### Steps -/

/-- A step fails, if it does, by a fault of some sort in the innermost execution, whose instance
is `inst`. -/
def Fails (P : Fault → Prop) (inst : Instance) (x : Progress σ) : Prop :=
  ∀ className place fault, x.2 = some (.failed (.at className place fault)) →
    x.1.frames.head?.map (·.inst) = some inst ∧ P fault

theorem fails_goesOn {m : Machine σ} {P : Fault → Prop} {inst : Instance} :
    Fails P inst (goesOn m) := by
  intro className place fault hend
  exact absurd hend (by simp [goesOn])

theorem fails_fail {m : Machine σ} {P : Fault → Prop} {inst : Instance} {f : Frame} {fault : Fault}
    (hinner : m.frames.head?.map (·.inst) = some inst) (hP : P fault) :
    Fails P inst (m.fail f fault) := by
  intro className place fault' hend
  simp only [fail, Option.some.injEq, TickEnd.failed.injEq, Failure.at.injEq] at hend
  exact ⟨hinner, hend.2.2 ▸ hP⟩

section Fails

variable {h : Host σ} {s : Setting} {m : Machine σ} {P : Fault → Prop} {inst : Instance}
  {f : Frame} {outer : List Frame}
  (hinner : m.frames.head?.map (·.inst) = some inst) (hhost : ∀ op cause, P (.host op cause))
  (hcrash : ∀ cause, P (.crash cause))

include hinner hhost

theorem fails_ask {call : HyperCall} {next : Value → List Frame} :
    Fails P inst (m.ask h s f call next) := by
  unfold ask
  dsimp only
  split
  · exact fails_goesOn
  · split
    · intro className place fault hend
      exact absurd hend (by simp)
    · split
      · intro className place fault hend
        exact absurd hend (by simp)
      · split
        · exact fails_fail hinner (hhost _ _)
        · exact fails_goesOn
      · exact fails_goesOn

include hcrash

theorem fails_perform {i : Instruction} {e : Effect} :
    Fails P inst (m.perform h s f outer i e) := by
  cases e with
  | ask call stack => exact fails_ask hinner hhost
  | store slot value stack =>
    unfold perform
    dsimp only
    split
    · exact fails_goesOn
    · exact fails_fail hinner (hcrash _)
  | _ => exact fails_goesOn

end Fails

theorem fails_execute {h : Host σ} {s : Setting} {m : Machine σ} {f : Frame} {outer : List Frame}
    (hframes : m.frames = f :: outer) :
    Fails (fun _ => True) f.inst (m.execute h s f outer) := by
  have hinner : m.frames.head?.map (·.inst) = some f.inst := by rw [hframes]; rfl
  unfold execute
  split
  · exact fails_goesOn
  · dsimp only
    split
    · exact fails_goesOn
    · split
      · exact fails_fail hinner trivial
      · exact fails_fail hinner trivial
      · split
        · exact fails_fail hinner trivial
        · exact fails_perform hinner (fun _ _ => trivial) fun _ => trivial

end Machine

end SchemePlayer
