import SchemePlayer.Bytecode.Instruction
import SchemePlayer.Number.Format
import SchemePlayer.Text.Quoted

/-!
# Listings

The listing of code has one line per instruction: offset, mnemonic, operand. It ends
where decoding ends.
-/

namespace SchemePlayer

namespace Instruction

/-- The operand of an instruction as a listing shows it. -/
def showOperand (strings : Array Text) (i : Instruction) : Text :=
  match i.op.operand with
  | .none => []
  | .float64 => " " ++ NumberFormat.plain.render i.float
  | .int32 => " " ++ Text.ofInt i.handle.toInt
  | .string =>
    match strings[i.number]? with
    | some s => " " ++ Text.quote s
    | none => " #" ++ Text.ofNat i.number
  | .slot => " " ++ Text.ofNat i.number
  | .jump => " @" ++ Text.ofInt i.target
  | .byte => " " ++ Text.ofNat i.number

/-- The line of an instruction. -/
def line (strings : Array Text) (i : Instruction) : Text :=
  Text.padZero 4 (Text.ofNat i.offset) ++ "  " ++ i.op.name ++ i.showOperand strings ++ "\n"

end Instruction

namespace Code

/-- The last line of a listing that could not go on to the end of the code. -/
def listingEnd (bytes : Array UInt8) : DecodeStop → Text
  | .finished => []
  | .unknown offset =>
    Text.padZero 4 (Text.ofNat offset) ++ "  " ++ Opcode.nameOfByte (bytes[offset]?.getD 0) ++ "\n"
  | stop@(.truncated _ _) => "; " ++ (stop.error?).getD [] ++ "\n"

/-- The listing of code. -/
def listing (c : Code) : Text :=
  let (instructions, stop) := decode c.bytes
  instructions.flatMap (Instruction.line c.strings) ++ listingEnd c.bytes stop

end Code

end SchemePlayer
