import SchemePlayer.Bytecode.Code
import SchemePlayer.Bytecode.Opcode
import SchemePlayer.Bytecode.Word

/-!
# Instructions

Reading bytes as instructions: `Instruction.fetch` reads the one at an offset, `decode`
walks a whole string of bytes and says where and why it stopped.
-/

namespace SchemePlayer

/-- An instruction and the offset it was read from. -/
structure Instruction where
  offset : Nat
  op : Opcode
  operand : List UInt8
  deriving DecidableEq

namespace Instruction

/-- The operand as a natural number. -/
def number (i : Instruction) : Nat := Word.ofBytes i.operand

/-- The operand as a handle. -/
def handle (i : Instruction) : Int32 := Int32.ofNat i.number

/-- The operand as a double. -/
def float (i : Instruction) : Float := Float.ofBits i.number.toUInt64

/-- The operand as a signed distance. -/
def distance (i : Instruction) : Int := Word.signedOfBytes i.operand

/-- The number of bytes an instruction takes. -/
def size (i : Instruction) : Nat := 1 + i.operand.length

/-- The offset a jump leads to: its distance counts from the end of its operand. -/
def target (i : Instruction) : Int := i.offset + 3 + i.distance

/-- The bytes of an instruction. -/
def encode (i : Instruction) : List UInt8 := i.op.code :: i.operand

/-- Why no instruction could be read. -/
inductive FetchError where
  | unknown (code : UInt8)
  | truncated (op : Opcode)
  deriving DecidableEq

/-- The operand bytes of an operation read at an offset; fewer than the operation wants
when the code ends too early. -/
def operandAt (bytes : Array UInt8) (offset : Nat) (op : Opcode) : List UInt8 :=
  (bytes.extract (offset + 1) (offset + 1 + op.operand.size)).toList

/-- Reads the instruction at an offset where the byte `b` stands. -/
def fetchAt (bytes : Array UInt8) (offset : Nat) (b : UInt8) : Except FetchError Instruction :=
  match Opcode.ofByte? b with
  | none => .error (.unknown b)
  | some op =>
    if offset + 1 + op.operand.size ≤ bytes.size then
      .ok ⟨offset, op, operandAt bytes offset op⟩
    else .error (.truncated op)

end Instruction

/-- Why a walk over code ended. -/
inductive DecodeStop where
  | finished
  | unknown (offset : Nat)
  | truncated (offset : Nat) (op : Opcode)
  deriving DecidableEq

namespace DecodeStop

/-- The offset at which the walk could not go on, `-1` when it reached the end. -/
def offset : DecodeStop → Int
  | finished => -1
  | unknown at_ => at_
  | truncated at_ _ => at_

/-- The report of a walk that met a cut-off operand. -/
def error? : DecodeStop → Option Text
  | truncated at_ op =>
    some (op.name ++ " at " ++ Text.ofNat at_ ++ ": truncated operand")
  | _ => none

end DecodeStop

/-- The instructions from an offset on, and why the walk ended. -/
def decodeFrom (bytes : Array UInt8) (offset : Nat) : List Instruction × DecodeStop :=
  if h : offset < bytes.size then
    match Instruction.fetchAt bytes offset bytes[offset] with
    | .error (.unknown _) => ([], .unknown offset)
    | .error (.truncated op) => ([], .truncated offset op)
    | .ok i =>
      let (rest, stop) := decodeFrom bytes (offset + (1 + i.operand.length))
      (i :: rest, stop)
  else ([], .finished)
termination_by bytes.size - offset

/-- The instructions of a string of bytes, and why the walk ended. -/
def decode (bytes : Array UInt8) : List Instruction × DecodeStop := decodeFrom bytes 0

/-- The first `limit` instructions; a walk that got so far ended of its own will. -/
def decodeUpTo (limit : Nat) (bytes : Array UInt8) : List Instruction × DecodeStop :=
  let (instructions, stop) := decode bytes
  if limit = 0 ∨ instructions.length < limit then (instructions, stop)
  else (instructions.take limit, .finished)

end SchemePlayer
