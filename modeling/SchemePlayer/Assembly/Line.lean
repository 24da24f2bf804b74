import SchemePlayer.Assembly.Statement
import SchemePlayer.Number.Reading
import SchemePlayer.Text.Case

/-!
# Lines of assembler source

How one line is understood: a semicolon outside double quotes starts a comment, blanks
around the rest do not count, a word that ends in a colon places a label, and otherwise
a mnemonic is followed by at most one operand.
-/

namespace SchemePlayer.Assembly

/-- A line without its comment. Inside double quotes a semicolon starts none, and a
backslash keeps the byte after it from ending the quotes. -/
def stripComment : Bool → Text → Text
  | _, [] => []
  | quoted, c :: rest =>
    if c = 59 ∧ quoted = false then []
    else if c = 34 then c :: stripComment (!quoted) rest
    else if c = 92 ∧ quoted = true then
      match rest with
      | [] => [c]
      | d :: rest => c :: d :: stripComment quoted rest
    else c :: stripComment quoted rest

/-- The label a trimmed line places, if it places one. -/
def labelOf? (line : Text) : Option Text :=
  match Text.dropEnding? [58] line with
  | some name => if name.any fun c => c = 32 ∨ c = 9 ∨ c = 34 then none else some name
  | none => none

/-- The index of the first variable with a name, upper or lower case. -/
def variableIndex? (names : List Text) (name : Text) : Option Nat :=
  names.findIdx? fun n => Text.equalFold n name

/-- The index of the variable an operand names: `#` and a number, or a name. -/
def slotOf (names : List Text) (operand : Text) : Except LineError Nat :=
  match operand with
  | 35 :: digits =>
    match Reading.natural? 10 digits with
    | some n => if n < 65536 then .ok n else .error (.badSlot operand)
    | none => .error (.badSlot operand)
  | _ =>
    match variableIndex? names operand with
    | some i => .ok i
    | none => .error (.unknownVariable operand)

/-- Understands the operand of an operation that takes one. -/
def operandOf (names : List Text) (op : Opcode) (operand : Text) : Except LineError Operand :=
  match op.operand with
  | .none => .ok .none
  | .float64 =>
    match Reading.float operand with
    | .ok x => .ok (.float x)
    | .error _ => .error (.badFloat operand)
  | .int32 =>
    match Reading.integer? 32 operand with
    | some n => .ok (.int n)
    | none => .error (.badInteger operand)
  | .string =>
    match Text.unquote? operand with
    | some s => .ok (.literal s)
    | none => .error (.badString operand)
  | .slot => (slotOf names operand).map .slot
  | .jump => .ok (.label operand)
  | .byte =>
    match Reading.markedNatural? operand with
    | some n => if n < 256 then .ok (.byte n) else .error (.badByte operand)
    | none => .error (.badByte operand)

/-- Understands a trimmed line that holds an instruction. -/
def instructionOf (names : List Text) (line : Text) : Except LineError Statement :=
  let (mnemonic, operand) := match Text.cut? 32 line with
    | some (word, rest) => (word, Text.trim rest)
    | none => (line, [])
  match Opcode.lookup? mnemonic with
  | none => .error (.unknownMnemonic mnemonic)
  | some op =>
    if op.operand = .none then
      if operand = [] then .ok (.instruction op .none) else .error (.noOperandTaken op)
    else if operand = [] then .error (.operandMissing op)
    else (operandOf names op operand).map (.instruction op)

/-- Understands a line; `none` when it says nothing. -/
def statementOf (names : List Text) (line : Text) : Except LineError (Option Statement) :=
  let line := Text.trim (stripComment false line)
  if line = [] then .ok none
  else match labelOf? line with
    | some name => .ok (some (.label name))
    | none => (instructionOf names line).map some

end SchemePlayer.Assembly
