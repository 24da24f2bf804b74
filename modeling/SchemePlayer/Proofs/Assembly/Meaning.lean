import SchemePlayer.Proofs.Assembly.Program
import SchemePlayer.Proofs.Machine.Fault

/-!
# The meaning of a line

What a statement of a program does can be said without any bytes: it pushes the number or the
text that its operand is, it reads or writes the variable that its operand names, it goes to the
line behind a label. Where it stands matters only for faults, which name the place.

- `lineEffect`: what a line does.
- `Fault.relocate`, `Effect.relocate`, `relocated`: the same with other places.
- `Instruction.effect_moved`: an instruction without operand does the same wherever it stands.
- `effect_eq_lineEffect`: **an instruction that reads as an operand does what the line with that
  operand does**, lines being translated to offsets.
-/

namespace SchemePlayer

/-! ### Other places -/

/-- The same fault at another place. -/
def Fault.relocate (g : Nat → Nat) : Fault → Fault
  | .typeMismatch op place want got => .typeMismatch op (g place) want got
  | .underflow op place => .underflow op (g place)
  | .truncated op place => .truncated op (g place)
  | fault => fault

/-- Tells other faults from those of bad encoding, which it makes all the same. -/
def Fault.conceal (fault : Fault) : Fault :=
  if fault.isEncoding then .crash .outOfRange else fault

/-- The same effect, a jump leading to another place. -/
def Effect.relocate (g : Nat → Nat) : Effect → Effect
  | .jump target stack => .jump (g target) stack
  | e => e

/-- What an instruction does, its faults renamed and its jumps led elsewhere. -/
def renamed (r : Fault → Fault) (g : Nat → Nat) (x : Except Fault Effect) : Except Fault Effect :=
  (x.mapError r).map (Effect.relocate g)

/-- What an instruction does, at another place. -/
abbrev relocated (g : Nat → Nat) (x : Except Fault Effect) : Except Fault Effect :=
  renamed (Fault.relocate g) g x

namespace Instruction

/-- Two instructions with the same operation, and a renaming of faults that takes those of the
second about the stack to those of the first. -/
structure Moved (r : Fault → Fault) (i j : Instruction) : Prop where
  op : i.op = j.op
  underflow : Fault.underflow i.op i.offset = r (.underflow j.op j.offset)
  mismatch : ∀ want got,
    Fault.typeMismatch i.op i.offset want got = r (.typeMismatch j.op j.offset want got)

/-- An instruction and its copy at another place. -/
theorem moved_relocate {g : Nat → Nat} {i j : Instruction} (hop : i.op = j.op)
    (hplace : i.offset = g j.offset) : Moved (Fault.relocate g) i j := by
  refine ⟨hop, ?_, fun want got => ?_⟩
  · rw [hop, hplace]
    rfl
  · rw [hop, hplace]
    rfl

variable {r : Fault → Fault} {i j : Instruction} {w : Scenery} {stack : List Value}

theorem pop_moved (h : Moved r i j) :
    i.pop stack = (j.pop stack).mapError r := by
  cases stack with
  | nil => exact congrArg Except.error h.underflow
  | cons v stack => rfl

theorem popMany_moved (h : Moved r i j) (count : Nat) :
    i.popMany count stack = (j.popMany count stack).mapError r := by
  induction count generalizing stack with
  | zero => cases stack <;> rfl
  | succ count ih =>
    cases stack with
    | nil => exact congrArg Except.error h.underflow
    | cons v stack => exact ih

theorem popKind_moved (h : Moved r i j) (k : Kind) :
    i.popKind k stack = (j.popKind k stack).mapError r := by
  cases stack with
  | nil => exact congrArg Except.error h.underflow
  | cons v stack =>
    show (if v.kind = k then _ else _) = (if v.kind = k then _ else _ : Except Fault _).mapError _
    split
    · rfl
    · exact congrArg Except.error (h.mismatch k v.kind)

theorem popFloat_moved (h : Moved r i j) :
    i.popFloat stack = (j.popFloat stack).mapError r := by
  cases stack with
  | nil => exact congrArg Except.error h.underflow
  | cons v stack =>
    cases v with
    | float x => rfl
    | handle n => exact congrArg Except.error (h.mismatch _ _)
    | string s => exact congrArg Except.error (h.mismatch _ _)

theorem popHandle_moved (h : Moved r i j) :
    i.popHandle stack = (j.popHandle stack).mapError r := by
  cases stack with
  | nil => exact congrArg Except.error h.underflow
  | cons v stack =>
    cases v with
    | handle n => rfl
    | float x => exact congrArg Except.error (h.mismatch _ _)
    | string s => exact congrArg Except.error (h.mismatch _ _)

theorem popText_moved (h : Moved r i j) :
    i.popText stack = (j.popText stack).mapError r := by
  cases stack with
  | nil => exact congrArg Except.error h.underflow
  | cons v stack =>
    cases v with
    | string s => rfl
    | float x => exact congrArg Except.error (h.mismatch _ _)
    | handle n => exact congrArg Except.error (h.mismatch _ _)

theorem popArgs_moved (h : Moved r i j) (kinds : List Kind) :
    i.popArgs kinds stack = (j.popArgs kinds stack).mapError r := by
  induction kinds with
  | nil => rfl
  | cons k kinds ih =>
    unfold popArgs at ih ⊢
    rw [List.foldr_cons, List.foldr_cons, ih]
    generalize List.foldr _ _ kinds = taken
    cases taken with
    | error fault => rfl
    | ok taken =>
      obtain ⟨args, stack⟩ := taken
      simp only [Except.mapError, popKind_moved h]
      cases j.popKind k stack with
      | error fault => rfl
      | ok popped => rfl

/-! ### Effects at other places -/

theorem renamed_map {g : Nat → Nat} {α : Type} {x y : Except Fault α} (hxy : x = y.mapError r)
    {f : α → Effect} (hf : ∀ a, (f a).relocate g = f a) : x.map f = renamed r g (y.map f) := by
  rw [hxy]
  cases y with
  | error fault => rfl
  | ok a => exact congrArg Except.ok (hf a).symm

theorem onFloat_moved (h : Moved r i j) (g : Nat → Nat) (f : Float → Value) :
    i.onFloat f stack = renamed r g (j.onFloat f stack) := by
  unfold onFloat
  rw [popFloat_moved h]
  cases j.popFloat stack with
  | error fault => rfl
  | ok taken => rfl

theorem onFloats_moved (h : Moved r i j) (g : Nat → Nat) (f : Float → Float → Value) :
    i.onFloats f stack = renamed r g (j.onFloats f stack) := by
  unfold onFloats
  rw [popFloat_moved h]
  cases j.popFloat stack with
  | error fault => rfl
  | ok taken => exact onFloat_moved h g _

theorem onHandle_moved (h : Moved r i j) (g : Nat → Nat) (f : Int32 → Value) :
    i.onHandle f stack = renamed r g (j.onHandle f stack) := by
  unfold onHandle
  rw [popHandle_moved h]
  cases j.popHandle stack with
  | error fault => rfl
  | ok taken => rfl

theorem onHandles_moved (h : Moved r i j) (g : Nat → Nat) (f : Int32 → Int32 → Value) :
    i.onHandles f stack = renamed r g (j.onHandles f stack) := by
  unfold onHandles
  rw [popHandle_moved h]
  cases j.popHandle stack with
  | error fault => rfl
  | ok taken => exact onHandle_moved h g _

theorem onText_moved (h : Moved r i j) (g : Nat → Nat) (f : Text → Value) :
    i.onText f stack = renamed r g (j.onText f stack) := by
  unfold onText
  rw [popText_moved h]
  cases j.popText stack with
  | error fault => rfl
  | ok taken => rfl

theorem onTexts_moved (h : Moved r i j) (g : Nat → Nat) (f : Text → Text → Value) :
    i.onTexts f stack = renamed r g (j.onTexts f stack) := by
  unfold onTexts
  rw [popText_moved h]
  cases j.popText stack with
  | error fault => rfl
  | ok taken => exact onText_moved h g _

theorem ask_moved (h : Moved r i j) (g : Nat → Nat) (op : HyperOp) :
    i.ask op stack = renamed r g (j.ask op stack) := by
  unfold ask
  rw [popArgs_moved h]
  cases j.popArgs op.args stack with
  | error fault => rfl
  | ok taken => rfl

/-- **An instruction without operand does the same wherever it stands.** -/
theorem effect_moved (h : Moved r i j) (hnone : i.op.operand = .none) (g : Nat → Nat) :
    i.effect w stack = renamed r g (j.effect w stack) := by
  unfold effect
  rw [← h.op]
  -- one case for each operation, by the lemma for the helper that it is made of
  cases hop : i.op
  all_goals first
    | (rw [hop] at hnone; cases hnone; done)
    | rfl
    | exact onFloat_moved h g _
    | exact onFloats_moved h g _
    | exact onHandle_moved h g _
    | exact onHandles_moved h g _
    | exact onText_moved h g _
    | exact onTexts_moved h g _
    | exact ask_moved h g _
    | exact renamed_map (pop_moved h) fun _ => rfl
    | exact renamed_map (popText_moved h) fun _ => rfl

/-- What no renaming of bad encoding can change has no fault of that sort. -/
theorem isEncoding_of_conceal {α : Type} {x : Except Fault α} (hx : x = x.mapError Fault.conceal)
    {fault : Fault} (h : x = .error fault) : fault.isEncoding = false := by
  rw [h] at hx
  have heq : fault = fault.conceal := Except.error.inj hx
  cases hencoding : fault.isEncoding with
  | false => rfl
  | true =>
    rw [Fault.conceal, hencoding, if_pos rfl] at heq
    rw [heq] at hencoding
    cases hencoding

theorem moved_conceal (i : Instruction) : Moved Fault.conceal i i := ⟨rfl, rfl, fun _ _ => rfl⟩

theorem renamed_id (x : Except Fault Effect) : renamed r id x = x.mapError r := by
  cases x with
  | error fault => rfl
  | ok e => cases e <;> rfl

/-- **Without operand, nothing can go wrong with the encoding.** -/
theorem isEncoding_effect (hnone : i.op.operand = .none) {fault : Fault}
    (h : i.effect w stack = .error fault) : fault.isEncoding = false :=
  isEncoding_of_conceal ((effect_moved (moved_conceal i) hnone id).trans (renamed_id _)) h

end Instruction

namespace Assembly

/-! ### Lines -/

/-- The offset of a line: as many bytes as the lines before it take. -/
def offsetOf (program : List Statement) (line : Nat) : Nat := programSize (program.take line)

/-- Pushes a value that was read from memory. -/
def pushed (stack : List Value) : Option Value → Except Fault Effect
  | some v => .ok (.next (v :: stack))
  | none => .error (.crash .outOfRange)

/-- Reads or writes a variable. -/
def variableEffect (i : Instruction) (slot : Slot) (w : Scenery) (stack : List Value) :
    Except Fault Effect :=
  match i.op with
  | .pushVar => pushed stack (w.memory.read? slot)
  | .pushOld => pushed stack (w.memory.readOld? slot)
  | .pushDefault => pushed stack (w.memory.readDefault? slot)
  | _ =>
    match i.popKind slot.kind stack with
    | .error e => .error e
    | .ok (v, stack) => .ok (.store slot v stack)

/-- Takes a number and goes to a line if it satisfies a test. -/
def branch (i : Instruction) (test : Float → Bool) (target : Nat) (stack : List Value) :
    Except Fault Effect :=
  match i.popFloat stack with
  | .error e => .error e
  | .ok (x, stack) => .ok (if test x then .jump target stack else .next stack)

/-- Goes to a line, always or on a condition. -/
def jumpEffect (i : Instruction) (target : Nat) (stack : List Value) : Except Fault Effect :=
  match i.op with
  | .jump => .ok (.jump target stack)
  | .jumpIfFalse => branch i (fun x => x == 0) target stack
  | _ => branch i (fun x => x != 0) target stack

/-- What an instruction on a line does. A jump goes to the line behind its label. -/
def lineEffect (program : List Statement) (line : Nat) (op : Opcode) (operand : Operand)
    (w : Scenery) (stack : List Value) : Except Fault Effect :=
  let i : Instruction := ⟨line, op, []⟩
  match operand with
  | .none => i.effect w stack
  | .float x => .ok (.next (.float x :: stack))
  | .int n => .ok (.next (.handle (Int32.ofInt n) :: stack))
  | .literal s => .ok (.next (.string s :: stack))
  | .slot index =>
    match w.slots[index]? with
    | .some slot => variableEffect i slot w stack
    | .none => .error (.badVariable index w.slots.size)
  | .label name => jumpEffect i (program.idxOf (.label name) + 1) stack
  | .byte count =>
    match i.popMany count stack with
    | .error e => .error e
    | .ok stack =>
      i.onFloat (fun x => Instruction.systemCommand w (Binary64.toWord 64 x)) stack

/-- The line behind a label is where the label was placed. -/
theorem offsetOf_label {program : List Statement} {name : Text} {place : Nat}
    (h : places program name = some place) :
    offsetOf program (program.idxOf (.label name) + 1) = place := by
  suffices hgeneral : ∀ position, (layout position program).lookup name = some place →
      position + programSize (program.take (program.idxOf (.label name) + 1)) = place by
    simpa [offsetOf] using hgeneral 0 h
  clear h
  intro position h
  fun_induction layout position program with
  | case1 => cases h
  | case2 position rest other ih =>
    rw [List.lookup_cons] at h
    by_cases heq : name = other
    · subst heq
      rw [beq_self_eq_true] at h
      obtain rfl := Option.some.inj h
      rw [List.idxOf_cons_self]
      rfl
    · have hmiss : (name == other) = false := by simpa using heq
      rw [hmiss] at h
      rw [List.idxOf_cons_ne _ (by simpa using fun h => heq h.symm), List.take_succ_cons,
        programSize_cons, Statement.size, Nat.zero_add]
      exact ih h
  | case3 position rest op operand ih =>
    rw [List.idxOf_cons_ne _ (by simp), List.take_succ_cons, programSize_cons, ← Nat.add_assoc]
    exact ih h

variable {program : List Statement} {line : Nat} {i : Instruction} {w : Scenery}
  {stack : List Value}

theorem effect_variable {index : Nat} (hkind : i.op.operand = .slot) (hindex : i.number = index)
    (hplace : i.offset = offsetOf program line) :
    i.effect w stack =
      relocated (offsetOf program) (lineEffect program line i.op (.slot index) w stack) := by
  have hmoved : Instruction.Moved (Fault.relocate (offsetOf program)) i ⟨line, i.op, []⟩ :=
    Instruction.moved_relocate rfl hplace
  rw [lineEffect]
  cases hslot : w.slots[index]? with
  | none =>
    have hfound : i.slotOf w = .error (.badVariable index w.slots.size) := by
      rw [Instruction.slotOf, hindex, hslot]
    rcases Opcode.eq_of_operand_slot hkind with hop | hop | hop | hop <;>
      simp only [Instruction.effect, hop, Instruction.load, Instruction.save, hfound] <;> rfl
  | some slot =>
    have hfound : i.slotOf w = .ok slot := by
      rw [Instruction.slotOf, hindex, hslot]
    rcases Opcode.eq_of_operand_slot hkind with hop | hop | hop | hop <;>
      simp only [Instruction.effect, hop, Instruction.load, Instruction.save, hfound,
        variableEffect]
    · cases w.memory.read? slot <;> rfl
    · cases w.memory.readOld? slot <;> rfl
    · cases w.memory.readDefault? slot <;> rfl
    · rw [hop] at hmoved
      rw [Instruction.popKind_moved hmoved]
      cases Instruction.popKind ⟨line, .storeVar, []⟩ slot.kind stack <;> rfl

theorem effect_jump {name : Text} {place : Nat} (hkind : i.op.operand = .jump)
    (hlabel : places program name = some place) (htarget : i.target = place)
    (hsize : w.code.bytes.size = programSize program) (hplace : i.offset = offsetOf program line) :
    i.effect w stack =
      relocated (offsetOf program) (lineEffect program line i.op (.label name) w stack) := by
  have hmoved : Instruction.Moved (Fault.relocate (offsetOf program)) i ⟨line, i.op, []⟩ :=
    Instruction.moved_relocate rfl hplace
  have hline := offsetOf_label hlabel
  have hgoto : ∀ stack, i.goto w stack = .ok (.jump place stack) := by
    intro stack
    have hle : place ≤ 0 + programSize program := Written.lookup_layout_le hlabel
    rw [Instruction.goto, htarget, if_pos (by omega), Int.toNat_natCast]
  have hgotoIf : ∀ test, i.gotoIf w test stack = relocated (offsetOf program)
      (branch ⟨line, i.op, []⟩ test (program.idxOf (.label name) + 1) stack) := by
    intro test
    rw [Instruction.gotoIf, branch, Instruction.popFloat_moved hmoved]
    cases Instruction.popFloat ⟨line, i.op, []⟩ stack with
    | error fault => rfl
    | ok taken =>
      obtain ⟨x, stack⟩ := taken
      simp only [Except.mapError, hgoto, renamed, Except.map]
      split
      · rw [Effect.relocate, hline]
      · rfl
  have hops : i.op = .jump ∨ i.op = .jumpIfFalse ∨ i.op = .jumpIfTrue := by
    cases hop : i.op <;> rw [hop] at hkind <;> cases hkind <;> simp
  rw [lineEffect]
  rcases hops with hop | hop | hop <;> simp only [Instruction.effect, hop, jumpEffect]
  · rw [hgoto, relocated, renamed, Except.mapError, Except.map, Effect.relocate, hline]
  · rw [hgotoIf, hop]
  · rw [hgotoIf, hop]

/-- **An instruction that reads as an operand does what the line with that operand does.** -/
theorem effect_eq_lineEffect {operand : Operand} (hkind : operand.kind = i.op.operand)
    (hplace : i.offset = offsetOf program line)
    (hread : operand.ReadBy (places program) w.code.strings.toList i)
    (hsize : w.code.bytes.size = programSize program) :
    i.effect w stack =
      relocated (offsetOf program) (lineEffect program line i.op operand w stack) := by
  have hmoved : Instruction.Moved (Fault.relocate (offsetOf program)) i ⟨line, i.op, []⟩ :=
    Instruction.moved_relocate rfl hplace
  cases operand with
  | none => exact Instruction.effect_moved hmoved hkind.symm _
  | float x =>
    have hop : i.op = .pushFloat := by
      cases hop : i.op <;> rw [hop] at hkind <;> cases hkind
    have hx : i.float = x := hread
    simp only [Instruction.effect, hop, hx]
    rfl
  | int n =>
    have hop : i.op = .pushInt := by
      cases hop : i.op <;> rw [hop] at hkind <;> cases hkind
    have hn : i.handle = Int32.ofInt n := hread
    simp only [Instruction.effect, hop, hn]
    rfl
  | literal s =>
    have hop := Opcode.eq_of_operand_string hkind.symm
    have hs : w.code.strings[i.number]? = some s := by
      rw [← Array.getElem?_toList]
      exact hread
    simp only [Instruction.effect, hop, Instruction.literal, hs]
    rfl
  | slot index => exact effect_variable hkind.symm hread hplace
  | label name =>
    obtain ⟨place, hlabel, htarget⟩ := hread
    exact effect_jump hkind.symm hlabel htarget hsize hplace
  | byte count =>
    have hop : i.op = .system := by
      cases hop : i.op <;> rw [hop] at hkind <;> cases hkind
    have hcount : i.number = count := hread
    have heffect : i.effect w stack = i.systemCall w stack := by
      simp only [Instruction.effect, hop]
    rw [heffect, Instruction.systemCall, hcount, Instruction.popMany_moved hmoved, lineEffect]
    cases Instruction.popMany ⟨line, i.op, []⟩ count stack with
    | error fault => rfl
    | ok stack => exact Instruction.onFloat_moved hmoved _ _

/-- **A line is never badly encoded.** -/
theorem isEncoding_lineEffect {op : Opcode} {operand : Operand} (hkind : operand.kind = op.operand)
    {fault : Fault} (h : lineEffect program line op operand w stack = .error fault) :
    fault.isEncoding = false := by
  have hmoved := Instruction.moved_conceal ⟨line, op, []⟩
  have hbranch : ∀ test target,
      branch ⟨line, op, []⟩ test target stack = .error fault → fault.isEncoding = false := by
    intro test target h
    unfold branch at h
    split at h
    · rename_i e hpop
      cases h
      exact Instruction.isEncoding_of_conceal (Instruction.popFloat_moved hmoved) hpop
    · cases h
  cases operand with
  | none => exact Instruction.isEncoding_effect hkind.symm h
  | float x => cases h
  | int n => cases h
  | literal s => cases h
  | slot index =>
    rw [lineEffect] at h
    have hpushed : ∀ v, pushed stack v = .error fault → fault.isEncoding = false := by
      rintro (_ | v) h <;> cases h
      rfl
    split at h
    · unfold variableEffect at h
      split at h
      · exact hpushed _ h
      · exact hpushed _ h
      · exact hpushed _ h
      · split at h
        · rename_i e hpop
          cases h
          exact Instruction.isEncoding_of_conceal (Instruction.popKind_moved hmoved _) hpop
        · cases h
    · cases h
      rfl
  | label name =>
    rw [lineEffect, jumpEffect] at h
    split at h
    · cases h
    · exact hbranch _ _ h
    · exact hbranch _ _ h
  | byte count =>
    rw [lineEffect] at h
    split at h
    · rename_i e hpop
      cases h
      exact Instruction.isEncoding_of_conceal (Instruction.popMany_moved hmoved _) hpop
    · refine Instruction.isEncoding_of_conceal ?_ h
      exact (Instruction.onFloat_moved hmoved id _).trans (Instruction.renamed_id _)

end Assembly

end SchemePlayer
