import SchemePlayer.Bytecode.Opcode
import SchemePlayer.Host.Call
import SchemePlayer.Memory.Basic

/-!
# Faults

What stops a project while its code runs. A fault is reported twice: in full, with the
class and the offset of the instruction that raised it, and to subscribers as the class
and the kind of fault only.
-/

namespace SchemePlayer

/-- Why an instruction could not be performed. -/
inductive Fault where
  /-- a byte that stands for no operation -/
  | unknownOpcode (code : UInt8)
  /-- a value of the wrong kind on the stack -/
  | typeMismatch (op : Opcode) (offset : Nat) (want got : Kind)
  /-- an empty stack -/
  | underflow (op : Opcode) (offset : Nat)
  /-- an operand that the end of the code cuts off -/
  | truncated (op : Opcode) (offset : Nat)
  /-- an index beyond the variables of the class -/
  | badVariable (index count : Nat)
  /-- an index beyond the literals of the code -/
  | badLiteral (index count : Nat)
  /-- a jump that leaves the code -/
  | badJump (target : Int)
  /-- a failure of the host that must stop the project -/
  | host (op : HyperOp) (cause : HostError)
  /-- an access to memory that no code makes -/
  | crash (cause : MemoryCrash)
  deriving DecidableEq

namespace Fault

/-- What kinds of fault subscribers are told apart. -/
def kindName : Fault → Text
  | unknownOpcode _ => "unknown instruction"
  | typeMismatch .. => "operand type mismatch"
  | underflow .. => "operand stack underflow"
  | truncated .. | badVariable .. | badLiteral .. | badJump _ => "malformed instruction operand"
  | host .. => "unrecoverable host failure"
  | crash _ => "execution failed"

/-- An operation and where it stands. -/
def place (op : Opcode) (offset : Nat) : Text := op.name ++ " at " ++ Text.ofNat offset

/-- The full report of a fault, without its location. -/
def message (f : Fault) : Text :=
  match f with
  | unknownOpcode code => "unknown opcode 0x" ++ Text.hex true 2 code.toNat
  | typeMismatch op offset want got =>
    f.kindName ++ ": " ++ place op offset ++ ": want " ++ want.name ++ ", got " ++ got.name
  | underflow op offset => f.kindName ++ ": " ++ place op offset
  | truncated op offset => f.kindName ++ ": " ++ place op offset ++ ": truncated"
  | badVariable index count =>
    f.kindName ++ ": variable " ++ Text.ofNat index ++ " out of range (" ++ Text.ofNat count ++ ")"
  | badLiteral index count =>
    f.kindName ++ ": string literal " ++ Text.ofNat index ++ " out of range ("
      ++ Text.ofNat count ++ ")"
  | badJump target => f.kindName ++ ": jump target " ++ Text.ofInt target ++ " outside code"
  | host op cause => "hyper-call " ++ op.name ++ ": " ++ cause.message
  | crash cause => cause.message?.getD "memory access out of range"

end Fault

/-- Why a tick failed. -/
inductive Failure where
  /-- a fault raised by the instruction at an offset of a class's code -/
  | at (className : Text) (offset : Nat) (fault : Fault)
  /-- the tick took more steps than it was given -/
  | exhausted
  deriving DecidableEq

namespace Failure

/-- The full report. -/
def message : Failure → Text
  | .at className offset fault =>
    className ++ "@" ++ Text.ofNat offset ++ ": " ++ fault.message
  | exhausted => "tick does not end"

/-- The report for subscribers. -/
def notice : Failure → Text
  | .at className _ fault => className ++ ": " ++ fault.kindName
  | exhausted => "execution failed"

end Failure

end SchemePlayer
