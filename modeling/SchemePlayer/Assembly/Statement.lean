import SchemePlayer.Bytecode.Opcode
import SchemePlayer.Text.Quoted

/-!
# Assembler statements

A line of assembler source is empty, places a label, or holds an instruction whose
operand has been understood: a number, a literal, the index of a variable, the name of a
label. `Assembly.Error` lists what can be wrong with a line.
-/

namespace SchemePlayer.Assembly

/-- An understood operand. -/
inductive Operand where
  | none
  | float (x : Float)
  | int (n : Int)
  | literal (s : Text)
  | slot (index : Nat)
  | label (name : Text)
  | byte (n : Nat)
  deriving DecidableEq

/-- What a line of source says. -/
inductive Statement where
  | label (name : Text)
  | instruction (op : Opcode) (operand : Operand)
  deriving DecidableEq

namespace Statement

/-- The number of bytes a statement takes. -/
def size : Statement → Nat
  | label _ => 0
  | instruction op _ => 1 + op.operand.size

end Statement

/-- What can be wrong with a line. -/
inductive LineError where
  | labelTwice (name : Text)
  | unknownMnemonic (word : Text)
  | noOperandTaken (op : Opcode)
  | operandMissing (op : Opcode)
  | badFloat (operand : Text)
  | badInteger (operand : Text)
  | badString (operand : Text)
  | badSlot (operand : Text)
  | unknownVariable (operand : Text)
  | badByte (operand : Text)
  | undefinedLabel (name : Text)
  deriving DecidableEq

namespace LineError

/-- The report of a bad line, without its number. -/
def message : LineError → Text
  | labelTwice name => "label " ++ Text.quote name ++ " defined twice"
  | unknownMnemonic word => "unknown mnemonic " ++ Text.quote word
  | noOperandTaken op => op.name ++ " takes no operand"
  | operandMissing op => op.name ++ " needs an operand"
  | badFloat operand => "bad float " ++ Text.quote operand
  | badInteger operand => "bad integer " ++ Text.quote operand
  | badString operand => "bad string " ++ operand
  | badSlot operand => "bad variable index " ++ Text.quote operand
  | unknownVariable operand => "unknown variable " ++ Text.quote operand
  | badByte operand => "bad byte " ++ Text.quote operand
  | undefinedLabel name => "undefined label " ++ Text.quote name

end LineError

/-- Why a source could not be assembled. -/
inductive Error where
  | line (number : Nat) (cause : LineError)
  | lineTooLong
  deriving DecidableEq

namespace Error

/-- The report of a source that could not be assembled. -/
def message : Error → Text
  | line number cause => "line " ++ Text.ofNat number ++ ": " ++ cause.message
  | lineTooLong => "bufio.Scanner: token too long"

end Error

end SchemePlayer.Assembly
