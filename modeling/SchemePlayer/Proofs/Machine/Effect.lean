import SchemePlayer.Machine.Effect

/-!
# Effects of instructions

Every helper from which the instructions are put together has one lemma that says all
there is to say about its success: what stood on the stack and what is to happen
(`onFloat_eq_ok`, `load_eq_ok`, …). From them follows what a whole instruction can do
(`effect_cases`), and from that:

- `call?_effect`: an instruction makes a call to the host iff its operation is one of the
  host's, and then it is that one, with arguments of the kinds the operation wants
  (`kinds_of_effect`);
- `closeAll_of_effect`: only `CLOSE_ALL` closes the project.

What is read for execution is what is fetched for decoding (`readAt_eq_fetchAt`), since every
operation reads as many bytes as the table of operations says. Besides, no instruction but
`SYSTEM` sees how many ticks were completed (`effect_iterations`).
-/

namespace SchemePlayer

namespace Opcode

/-- The operation of the host that an instruction asks for, if it asks for one. -/
def hyperOp? : Opcode → Option HyperOp
  | getScreenWidth => some .screenWidth
  | getScreenHeight => some .screenHeight
  | openSchemeWindow => some .openSchemeWindow
  | loadSpaceWindow => some .loadSpaceWindow
  | createWindowEx => some .createWindowEx
  | createDir => some .createDir
  | fileExist => some .fileExist
  | createStream => some .createStream
  | closeWindow => some .closeWindow
  | _ => none

/-- **Every operation reads as many bytes as the table says.** -/
theorem reads_eq (op : Opcode) : op.reads = op.operand.size := by cases op <;> rfl

end Opcode

namespace Effect

/-- The call that an effect makes, if it makes one. -/
def call? : Effect → Option HyperCall
  | .ask call _ => some call
  | _ => none

end Effect

namespace Instruction

variable {i : Instruction} {w : Scenery} {stack rest : List Value} {e : Effect}

/-- **The instruction that is executed at an offset is the one that is decoded there.** -/
theorem readAt_eq_fetchAt (bytes : Array UInt8) (offset : Nat) (b : UInt8) :
    readAt bytes offset b = fetchAt bytes offset b := by
  unfold readAt fetchAt
  cases Opcode.ofByte? b with
  | none => rfl
  | some op =>
    dsimp only
    rw [op.reads_eq]
    rfl

/-! ### What was taken from the stack -/

theorem popFloat_eq_ok {x : Float} (h : i.popFloat stack = .ok (x, rest)) :
    stack = .float x :: rest := by
  unfold popFloat at h
  split at h <;> cases h
  rfl

theorem popHandle_eq_ok {n : Int32} (h : i.popHandle stack = .ok (n, rest)) :
    stack = .handle n :: rest := by
  unfold popHandle at h
  split at h <;> cases h
  rfl

theorem popText_eq_ok {s : Text} (h : i.popText stack = .ok (s, rest)) :
    stack = .string s :: rest := by
  unfold popText at h
  split at h <;> cases h
  rfl

theorem popKind_kind {k : Kind} {v : Value} (h : i.popKind k stack = .ok (v, rest)) :
    v.kind = k := by
  unfold popKind at h
  split at h
  · cases h
  · split at h
    · cases h
      assumption
    · cases h

/-- Arguments are taken in the kinds asked for, position by position. -/
theorem popArgs_kinds {kinds : List Kind} {args : List Value}
    (h : i.popArgs kinds stack = .ok (args, rest)) : args.map Value.kind = kinds := by
  induction kinds generalizing args rest with
  | nil =>
    cases h
    rfl
  | cons k kinds ih =>
    simp only [popArgs, List.foldr_cons] at h
    split at h
    · cases h
    · rename_i below left hbelow
      split at h
      · cases h
      · rename_i v left' hpop
        cases h
        rw [List.map_cons, popKind_kind hpop, ih hbelow]

/-! ### What is to happen -/

@[grind →]
theorem onFloat_eq_ok {g : Float → Value} (h : i.onFloat g stack = .ok e) :
    ∃ a rest, stack = .float a :: rest ∧ e = .next (g a :: rest) := by
  unfold onFloat at h
  split at h
  · cases h
  · rename_i a rest hpop
    cases h
    exact ⟨a, rest, popFloat_eq_ok hpop, rfl⟩

@[grind →]
theorem onFloats_eq_ok {g : Float → Float → Value} (h : i.onFloats g stack = .ok e) :
    ∃ a b rest, stack = .float b :: .float a :: rest ∧ e = .next (g a b :: rest) := by
  unfold onFloats at h
  split at h
  · cases h
  · rename_i b below hpop
    obtain ⟨a, rest, rfl, rfl⟩ := onFloat_eq_ok h
    exact ⟨a, b, rest, popFloat_eq_ok hpop, rfl⟩

@[grind →]
theorem onHandle_eq_ok {g : Int32 → Value} (h : i.onHandle g stack = .ok e) :
    ∃ a rest, stack = .handle a :: rest ∧ e = .next (g a :: rest) := by
  unfold onHandle at h
  split at h
  · cases h
  · rename_i a rest hpop
    cases h
    exact ⟨a, rest, popHandle_eq_ok hpop, rfl⟩

@[grind →]
theorem onHandles_eq_ok {g : Int32 → Int32 → Value} (h : i.onHandles g stack = .ok e) :
    ∃ a b rest, stack = .handle b :: .handle a :: rest ∧ e = .next (g a b :: rest) := by
  unfold onHandles at h
  split at h
  · cases h
  · rename_i b below hpop
    obtain ⟨a, rest, rfl, rfl⟩ := onHandle_eq_ok h
    exact ⟨a, b, rest, popHandle_eq_ok hpop, rfl⟩

@[grind →]
theorem onText_eq_ok {g : Text → Value} (h : i.onText g stack = .ok e) :
    ∃ a rest, stack = .string a :: rest ∧ e = .next (g a :: rest) := by
  unfold onText at h
  split at h
  · cases h
  · rename_i a rest hpop
    cases h
    exact ⟨a, rest, popText_eq_ok hpop, rfl⟩

@[grind →]
theorem onTexts_eq_ok {g : Text → Text → Value} (h : i.onTexts g stack = .ok e) :
    ∃ a b rest, stack = .string b :: .string a :: rest ∧ e = .next (g a b :: rest) := by
  unfold onTexts at h
  split at h
  · cases h
  · rename_i b below hpop
    obtain ⟨a, rest, rfl, rfl⟩ := onText_eq_ok h
    exact ⟨a, b, rest, popText_eq_ok hpop, rfl⟩

@[grind →]
theorem load_eq_ok {read : Slot → Option Value} (h : i.load w read stack = .ok e) :
    ∃ s v, w.slots[i.number]? = some s ∧ read s = some v ∧ e = .next (v :: stack) := by
  unfold load slotOf at h
  grind

@[grind →]
theorem save_eq_ok (h : i.save w stack = .ok e) :
    ∃ s v rest, w.slots[i.number]? = some s ∧ i.popKind s.kind stack = .ok (v, rest) ∧
      e = .store s v rest := by
  unfold save slotOf at h
  grind

@[grind →]
theorem literal_eq_ok (h : i.literal w stack = .ok e) :
    ∃ s, w.code.strings[i.number]? = some s ∧ e = .next (.string s :: stack) := by
  unfold literal at h
  grind

@[grind →]
theorem goto_eq_ok (h : i.goto w stack = .ok e) :
    (0 ≤ i.target ∧ i.target ≤ w.code.bytes.size) ∧ e = .jump i.target.toNat stack := by
  unfold goto at h
  grind

@[grind →]
theorem gotoIf_eq_ok {test : Float → Bool} (h : i.gotoIf w test stack = .ok e) :
    ∃ x rest, stack = .float x :: rest ∧
      if test x then i.goto w rest = .ok e else e = .next rest := by
  unfold gotoIf at h
  split at h
  · cases h
  · rename_i x rest hpop
    refine ⟨x, rest, popFloat_eq_ok hpop, ?_⟩
    grind

@[grind →]
theorem systemCall_eq_ok (h : i.systemCall w stack = .ok e) :
    ∃ v rest, e = .next (v :: rest) := by
  unfold systemCall at h
  grind

@[grind →]
theorem ask_eq_ok {op : HyperOp} (h : i.ask op stack = .ok e) :
    ∃ args rest, i.popArgs op.args stack = .ok (args, rest) ∧ e = .ask ⟨op, args⟩ rest := by
  unfold ask at h
  grind

/-- Effects that are computed from what was taken, whatever that was. -/
@[grind →]
theorem map_eq_ok {α : Type} {f : α → Effect} {taken : Except Fault α}
    (h : taken.map f = .ok e) : ∃ a, e = f a := by
  cases taken with
  | error _ => cases h
  | ok a =>
    cases h
    exact ⟨a, rfl⟩

/-! ### Whole instructions -/

/-- **What an instruction can do**, as far as calls and closing are concerned: it asks for the
host's operation that it stands for, or it makes no call, and closes only by `CLOSE_ALL`. -/
theorem effect_cases (h : i.effect w stack = .ok e) :
    (∃ op, i.op.hyperOp? = some op ∧ i.ask op stack = .ok e) ∨
    (i.op.hyperOp? = none ∧ e.call? = none ∧ (e = .closeAll → i.op = .closeAll)) := by
  unfold effect at h
  -- one case for each operation; the lemmas above say what its helper has done
  split at h <;> rename_i hop <;> rw [hop]
  all_goals first
    | exact .inl ⟨_, rfl, h⟩
    | refine .inr ⟨rfl, ?_, ?_⟩ <;> grind [Effect.call?]

/-- An instruction makes a call iff its operation is one of the host's. -/
theorem call?_effect (h : i.effect w stack = .ok e) :
    e.call?.map HyperCall.op = i.op.hyperOp? := by
  rcases effect_cases h with ⟨op, hop, hask⟩ | ⟨hop, hcall, -⟩
  · obtain ⟨args, rest, -, rfl⟩ := ask_eq_ok hask
    rw [hop]
    rfl
  · rw [hop, hcall]
    rfl

/-- The arguments of a call are of the kinds that its operation wants. -/
theorem kinds_of_effect {call : HyperCall} (h : i.effect w stack = .ok (.ask call rest)) :
    call.args.map Value.kind = call.op.args := by
  rcases effect_cases h with ⟨op, -, hask⟩ | ⟨-, hcall, -⟩
  · obtain ⟨args, left, hargs, heq⟩ := ask_eq_ok hask
    cases heq
    exact popArgs_kinds hargs
  · cases hcall

/-- Only `CLOSE_ALL` asks to close the project. -/
theorem closeAll_of_effect (h : i.effect w stack = .ok .closeAll) : i.op = .closeAll := by
  rcases effect_cases h with ⟨op, -, hask⟩ | ⟨-, -, hclose⟩
  · obtain ⟨args, left, -, heq⟩ := ask_eq_ok hask
    cases heq
  · exact hclose rfl

/-- Only `SYSTEM` sees how many ticks were completed. -/
theorem effect_iterations (hop : i.op ≠ .system) (n : Nat) :
    i.effect { w with iterations := n } stack = i.effect w stack := by
  unfold effect
  split <;> first | rfl | contradiction

end Instruction

end SchemePlayer
