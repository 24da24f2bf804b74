import SchemePlayer.Bytecode.Code
import SchemePlayer.Bytecode.Opcode
import SchemePlayer.Bytecode.Word
import SchemePlayer.Number.Binary64

/-!
# Building code

A builder collects bytes and literals. Jumps name labels, which may be placed before or
after the jumps that use them: a jump to a label not yet placed leaves a gap that
placing the label fills.
-/

namespace SchemePlayer

/-- A label of a builder: where it is, or the gaps that wait for it. -/
inductive Label where
  | awaited (gaps : List Nat)
  | placed (position : Nat)
  deriving DecidableEq

/-- Code under construction. -/
structure Builder where
  bytes : Array UInt8 := #[]
  pool : Pool := {}
  labels : List (Text × Label) := []

namespace Builder

/-- Appends bytes. -/
def append (b : Builder) (bs : List UInt8) : Builder :=
  { b with bytes := bs.foldl (fun acc x => acc.push x) b.bytes }

/-- The number of bytes so far. -/
def size (b : Builder) : Nat := b.bytes.size

/-- The finished code. -/
def build (b : Builder) : Code := ⟨b.bytes, b.pool.strings⟩

/-- A raw byte. -/
def raw (b : Builder) (x : UInt8) : Builder := b.append [x]

/-- A byte that stands for an operation, with a one-byte operand. -/
def emitByte (b : Builder) (code operand : UInt8) : Builder := b.append [code, operand]

/-- An operation with a 16-bit operand. -/
def emitWord (b : Builder) (code : UInt8) (operand : Int) : Builder :=
  b.append (code :: Word.signedBytes 2 operand)

/-- An operation with a 32-bit operand. -/
def emitHandle (b : Builder) (code : UInt8) (operand : Int) : Builder :=
  b.append (code :: Word.signedBytes 4 operand)

/-- An operation with a double as operand. -/
def emitFloat (b : Builder) (code : UInt8) (operand : Float) : Builder :=
  b.append (code :: Word.bytes 8 (Binary64.codeBits operand).toNat)

/-- The index of a literal, cut to the 16 bits that an operand has for it. -/
def intern (b : Builder) (s : Text) : Nat × Builder :=
  let (i, pool) := b.pool.intern s
  (i % 65536, { b with pool })

/-- Interns `n` literals: `s` followed by a number. The index is that of the last. -/
def internMany (b : Builder) (s : Text) (n : Nat) : Nat × Builder :=
  (List.range n).foldl (fun (_, b) k => b.intern (s ++ Text.ofNat k)) (0, b)

/-- Pushes a literal. -/
def pushString (b : Builder) (s : Text) : Builder :=
  let (i, b) := b.intern s
  b.emitWord Opcode.pushString.code i

/-- What is known of a label. -/
def label (b : Builder) (name : Text) : Label := (b.labels.lookup name).getD (.awaited [])

/-- Records what is known of a label. -/
def setLabel (b : Builder) (name : Text) (l : Label) : Builder :=
  { b with labels := (name, l) :: b.labels.filter (·.1 ≠ name) }

/-- Stores the distance from the gap at `gap` to `position` in that gap. -/
def fill (position : Nat) (bytes : Array UInt8) (gap : Nat) : Array UInt8 :=
  match Word.signedBytes 2 ((position : Int) - (gap + 2)) with
  | [lo, hi] => (bytes.setIfInBounds gap lo).setIfInBounds (gap + 1) hi
  | _ => bytes

/-- Places a label here and fills the gaps that wait for it; `none` when it is placed
already. -/
def mark? (b : Builder) (name : Text) : Option Builder :=
  match b.label name with
  | .placed _ => none
  | .awaited gaps =>
    some ({ b with bytes := gaps.foldl (fill b.size) b.bytes }.setLabel name (.placed b.size))

/-- A jump to a label. -/
def jump (b : Builder) (code : UInt8) (name : Text) : Builder :=
  let b := b.append [code]
  match b.label name with
  | .placed position => b.append (Word.signedBytes 2 ((position : Int) - (b.size + 2)))
  | .awaited gaps => (b.append [0, 0]).setLabel name (.awaited (gaps ++ [b.size]))

end Builder

end SchemePlayer
