import SchemePlayer.Bytecode.Instruction
import SchemePlayer.Keyboard
import SchemePlayer.Machine.Fault

/-!
# What an instruction does

The meaning of one instruction as a function of what it can see (`Scenery`) and of the
operand stack of its execution. The result says what is to happen (`Effect`) and leaves
it to the machine to do it, so that nothing here depends on other executions.

Arguments are taken from the stack last first, and operands of the instruction are
checked before the stack is touched.

How many bytes an operation reads behind its own is said here once more (`Opcode.reads`), next to
what is done with them: executing code does not consult the table that decoding it goes by.
-/

namespace SchemePlayer

/-- What one execution of code can see. -/
structure Scenery where
  /-- the slots of the executing instance's variables -/
  slots : Array Slot
  code : Code
  memory : Memory
  keys : Keyboard
  /-- the number of ticks completed so far -/
  iterations : Nat
  /-- the project directory -/
  dir : Text
  classes : ClassTable

/-- What is to happen. -/
inductive Effect where
  /-- go on behind the instruction -/
  | next (stack : List Value)
  /-- go on at an offset -/
  | jump (target : Nat) (stack : List Value)
  /-- write to a slot and go on -/
  | store (slot : Slot) (value : Value) (stack : List Value)
  /-- end this execution -/
  | finish
  /-- close the project after the tick -/
  | closeAll
  /-- run all instances of a class, then go on -/
  | send (className : Text) (stack : List Value)
  /-- ask the host, and go on with its answer on the stack -/
  | ask (call : HyperCall) (stack : List Value)
  deriving DecidableEq

/-- The number of bytes that an operation reads behind its own when it is executed. -/
def Opcode.reads : Opcode → Nat
  | .pushFloat => 8
  | .pushInt => 4
  | .pushString | .pushVar | .pushOld | .pushDefault | .storeVar => 2
  | .jump | .jumpIfFalse | .jumpIfTrue => 2
  | .system => 1
  | _ => 0

namespace Instruction

/-- Reads the instruction that is to be executed at an offset, where the byte `b` stands. -/
def readAt (bytes : Array UInt8) (offset : Nat) (b : UInt8) : Except FetchError Instruction :=
  match Opcode.ofByte? b with
  | none => .error (.unknown b)
  | some op =>
    if offset + 1 + op.reads ≤ bytes.size then
      .ok ⟨offset, op, (bytes.extract (offset + 1) (offset + 1 + op.reads)).toList⟩
    else .error (.truncated op)

/-! ### Taking from the stack -/

/-- Takes the topmost value. -/
def pop (i : Instruction) : List Value → Except Fault (Value × List Value)
  | [] => .error (.underflow i.op i.offset)
  | v :: stack => .ok (v, stack)

/-- Takes any number of values. -/
def popMany (i : Instruction) : Nat → List Value → Except Fault (List Value)
  | 0, stack => .ok stack
  | _ + 1, [] => .error (.underflow i.op i.offset)
  | count + 1, _ :: stack => i.popMany count stack

/-- Takes a value of a kind. -/
def popKind (i : Instruction) (k : Kind) (stack : List Value) :
    Except Fault (Value × List Value) :=
  match i.pop stack with
  | .error e => .error e
  | .ok (v, stack) =>
    if v.kind = k then .ok (v, stack) else .error (.typeMismatch i.op i.offset k v.kind)

/-- Takes a number. -/
def popFloat (i : Instruction) : List Value → Except Fault (Float × List Value)
  | [] => .error (.underflow i.op i.offset)
  | .float x :: stack => .ok (x, stack)
  | v :: _ => .error (.typeMismatch i.op i.offset .float v.kind)

/-- Takes a handle. -/
def popHandle (i : Instruction) : List Value → Except Fault (Int32 × List Value)
  | [] => .error (.underflow i.op i.offset)
  | .handle n :: stack => .ok (n, stack)
  | v :: _ => .error (.typeMismatch i.op i.offset .handle v.kind)

/-- Takes a text. -/
def popText (i : Instruction) : List Value → Except Fault (Text × List Value)
  | [] => .error (.underflow i.op i.offset)
  | .string s :: stack => .ok (s, stack)
  | v :: _ => .error (.typeMismatch i.op i.offset .string v.kind)

/-- Takes values of the given kinds, the last kind from the top; the result is in the
order of the kinds. -/
def popArgs (i : Instruction) (kinds : List Kind) (stack : List Value) :
    Except Fault (List Value × List Value) :=
  kinds.foldr
    (fun k taken =>
      match taken with
      | .error e => .error e
      | .ok (args, stack) =>
        match i.popKind k stack with
        | .error e => .error e
        | .ok (v, stack) => .ok (v :: args, stack))
    (.ok ([], stack))

/-! ### Operations that put back one value -/

/-- Replaces a number. -/
def onFloat (i : Instruction) (g : Float → Value) (stack : List Value) : Except Fault Effect :=
  match i.popFloat stack with
  | .error e => .error e
  | .ok (a, stack) => .ok (.next (g a :: stack))

/-- Replaces two numbers. -/
def onFloats (i : Instruction) (g : Float → Float → Value) (stack : List Value) :
    Except Fault Effect :=
  match i.popFloat stack with
  | .error e => .error e
  | .ok (b, stack) => i.onFloat (fun a => g a b) stack

/-- Replaces a handle. -/
def onHandle (i : Instruction) (g : Int32 → Value) (stack : List Value) : Except Fault Effect :=
  match i.popHandle stack with
  | .error e => .error e
  | .ok (a, stack) => .ok (.next (g a :: stack))

/-- Replaces two handles. -/
def onHandles (i : Instruction) (g : Int32 → Int32 → Value) (stack : List Value) :
    Except Fault Effect :=
  match i.popHandle stack with
  | .error e => .error e
  | .ok (b, stack) => i.onHandle (fun a => g a b) stack

/-- Replaces a text. -/
def onText (i : Instruction) (g : Text → Value) (stack : List Value) : Except Fault Effect :=
  match i.popText stack with
  | .error e => .error e
  | .ok (a, stack) => .ok (.next (g a :: stack))

/-- Replaces two texts. -/
def onTexts (i : Instruction) (g : Text → Text → Value) (stack : List Value) :
    Except Fault Effect :=
  match i.popText stack with
  | .error e => .error e
  | .ok (b, stack) => i.onText (fun a => g a b) stack

/-! ### Variables and literals -/

/-- The slot that the operand names. -/
def slotOf (i : Instruction) (w : Scenery) : Except Fault Slot :=
  match w.slots[i.number]? with
  | some s => .ok s
  | none => .error (.badVariable i.number w.slots.size)

/-- Pushes what is read from the slot that the operand names. -/
def load (i : Instruction) (w : Scenery) (read : Slot → Option Value) (stack : List Value) :
    Except Fault Effect :=
  match i.slotOf w with
  | .error e => .error e
  | .ok s =>
    match read s with
    | some v => .ok (.next (v :: stack))
    | none => .error (.crash .outOfRange)

/-- Takes a value of the kind of the slot that the operand names, to be written there. -/
def save (i : Instruction) (w : Scenery) (stack : List Value) : Except Fault Effect :=
  match i.slotOf w with
  | .error e => .error e
  | .ok s =>
    match i.popKind s.kind stack with
    | .error e => .error e
    | .ok (v, stack) => .ok (.store s v stack)

/-- Pushes the literal that the operand names. -/
def literal (i : Instruction) (w : Scenery) (stack : List Value) : Except Fault Effect :=
  match w.code.strings[i.number]? with
  | some s => .ok (.next (.string s :: stack))
  | none => .error (.badLiteral i.number w.code.strings.size)

/-! ### Jumps and requests -/

/-- Goes to the target of a jump, which may be the end of the code. -/
def goto (i : Instruction) (w : Scenery) (stack : List Value) : Except Fault Effect :=
  if 0 ≤ i.target ∧ i.target ≤ w.code.bytes.size then .ok (.jump i.target.toNat stack)
  else .error (.badJump i.target)

/-- Takes a number and jumps if it satisfies a test. -/
def gotoIf (i : Instruction) (w : Scenery) (test : Float → Bool) (stack : List Value) :
    Except Fault Effect :=
  match i.popFloat stack with
  | .error e => .error e
  | .ok (x, stack) => if test x then i.goto w stack else .ok (.next stack)

/-- Takes the arguments of an operation of the host. -/
def ask (i : Instruction) (op : HyperOp) (stack : List Value) : Except Fault Effect :=
  match i.popArgs op.args stack with
  | .error e => .error e
  | .ok (args, stack) => .ok (.ask ⟨op, args⟩ stack)

/-- Command 4 asks for the number of completed ticks; every other command yields one. -/
def systemCommand (w : Scenery) (command : Int) : Value :=
  .float (if command = 4 then Binary64.ofInt w.iterations else 1)

/-- Drops as many values as the operand says and performs the command below them. -/
def systemCall (i : Instruction) (w : Scenery) (stack : List Value) : Except Fault Effect :=
  match i.popMany i.number stack with
  | .error e => .error e
  | .ok stack => i.onFloat (fun x => systemCommand w (Binary64.toWord 64 x)) stack

/-- A path that ends in a backslash. -/
def withSlash (path : Text) : Text := if [92].isSuffixOf path then path else path ++ [92]

/-- The number a text stands for, zero when it stands for none. -/
def numberOf (s : Text) : Float :=
  match Reading.float (Text.trim s) with
  | .ok x => x
  | .error _ => 0

/-- The directory of a class, empty when there is no such class. -/
def classDir (w : Scenery) (name : Text) : Text := ((w.classes.find? name).map (·.dir)).getD []

/-! ### The instructions -/

/-- The effect of an instruction. -/
def effect (i : Instruction) (w : Scenery) (stack : List Value) : Except Fault Effect :=
  match i.op with
  | .nop => .ok (.next stack)
  | .pop => (i.pop stack).map fun (_, stack) => .next stack
  | .dup => (i.pop stack).map fun (v, stack) => .next (v :: v :: stack)
  | .pushFloat => .ok (.next (.float i.float :: stack))
  | .pushInt => .ok (.next (.handle i.handle :: stack))
  | .pushString => i.literal w stack
  | .pushVar => i.load w w.memory.read? stack
  | .pushOld => i.load w w.memory.readOld? stack
  | .pushDefault => i.load w w.memory.readDefault? stack
  | .storeVar => i.save w stack
  | .add => i.onFloats (fun a b => .float (a + b)) stack
  | .sub => i.onFloats (fun a b => .float (a - b)) stack
  | .mul => i.onFloats (fun a b => .float (a * b)) stack
  | .div => i.onFloats (fun a b => .float (if b == 0 then 0 else a / b)) stack
  | .mod => i.onFloats (fun a b => .float (if b == 0 then 0 else Binary64.remainder a b)) stack
  | .neg => i.onFloat (fun a => .float (-a)) stack
  | .eq => i.onFloats (fun a b => .ofBool (a == b)) stack
  | .ne => i.onFloats (fun a b => .ofBool (a != b)) stack
  | .lt => i.onFloats (fun a b => .ofBool (a < b)) stack
  | .gt => i.onFloats (fun a b => .ofBool (b < a)) stack
  | .le => i.onFloats (fun a b => .ofBool (a ≤ b)) stack
  | .ge => i.onFloats (fun a b => .ofBool (b ≤ a)) stack
  | .iadd => i.onHandles (fun a b => .handle (a + b)) stack
  | .isub => i.onHandles (fun a b => .handle (a - b)) stack
  | .iand => i.onHandles (fun a b => .handle (a &&& b)) stack
  | .ior => i.onHandles (fun a b => .handle (a ||| b)) stack
  | .ieq => i.onHandles (fun a b => .ofBool (a == b)) stack
  | .ine => i.onHandles (fun a b => .ofBool (a != b)) stack
  | .not => i.onFloat (fun a => .ofBool (a == 0)) stack
  | .and => i.onFloats (fun a b => .ofBool (a != 0 && b != 0)) stack
  | .or => i.onFloats (fun a b => .ofBool (a != 0 || b != 0)) stack
  | .floatToInt => i.onFloat (fun a => .handle (Binary64.toHandle a)) stack
  | .intToFloat => i.onHandle (fun a => .float (Binary64.ofInt a.toInt)) stack
  | .floatToString => i.onFloat (fun a => .string (NumberFormat.plain.render a)) stack
  | .stringToFloat => i.onText (fun s => .float (numberOf s)) stack
  | .concat => i.onTexts (fun a b => .string (a ++ b)) stack
  | .strEq => i.onTexts (fun a b => .ofBool (a == b)) stack
  | .strLen => i.onText (fun s => .float (Binary64.ofInt (Text.runeCount s))) stack
  | .jump => i.goto w stack
  | .jumpIfFalse => i.gotoIf w (fun x => x == 0) stack
  | .jumpIfTrue => i.gotoIf w (fun x => x != 0) stack
  | .ret => .ok .finish
  | .closeAll => .ok .closeAll
  | .getAsyncKeyState =>
    i.onFloat (fun x => .float (Binary64.ofInt (w.keys.state (Binary64.toWord 64 x)).toNat)) stack
  | .system => i.systemCall w stack
  | .getClassDir => i.onText (fun name => .string (classDir w name)) stack
  | .addSlash => i.onText (fun path => .string (withSlash path)) stack
  | .getProjectDir => .ok (.next (.string w.dir :: stack))
  | .sendMessage => (i.popText stack).map fun (name, stack) => .send name stack
  | .getScreenWidth => i.ask .screenWidth stack
  | .getScreenHeight => i.ask .screenHeight stack
  | .openSchemeWindow => i.ask .openSchemeWindow stack
  | .loadSpaceWindow => i.ask .loadSpaceWindow stack
  | .createWindowEx => i.ask .createWindowEx stack
  | .createDir => i.ask .createDir stack
  | .fileExist => i.ask .fileExist stack
  | .createStream => i.ask .createStream stack
  | .closeWindow => i.ask .closeWindow stack

end Instruction

end SchemePlayer
