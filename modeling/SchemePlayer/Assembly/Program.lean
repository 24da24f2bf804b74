import SchemePlayer.Assembly.Line
import SchemePlayer.Bytecode.Code
import SchemePlayer.Bytecode.Word
import SchemePlayer.Number.Binary64

/-!
# Assembling

Source is assembled in two passes. The first understands the lines one after another and
stops at the first that cannot be; the second lays the statements out, which gives every
label its position, and writes them down.

- `Assembly.statements`: the first pass, line numbers kept.
- `Assembly.layout`: the positions of the labels.
- `Assembly.reports`: what may be reported of a source.
- `Assembly.assemble`: both passes.
-/

namespace SchemePlayer.Assembly

/-- A statement and the number of its line. -/
structure Numbered where
  line : Nat
  statement : Statement
  deriving DecidableEq

/-- A line may hold fewer bytes than this. -/
def lineLimit : Nat := 65536

/-- The lines of a source. A break ends a line rather than separating two, and a carriage
return before it does not count. -/
def lines (source : Text) : List Text :=
  let pieces := Text.splitOn 10 source
  if pieces.getLast? = some [] then pieces.dropLast else pieces

/-- A line without the carriage return before its break. -/
def withoutReturn (line : Text) : Text := (Text.dropEnding? [13] line).getD line

/-- Understands the lines from a given number on; `placed` holds the labels placed so far. -/
def statementsFrom (names : List Text) :
    Nat → List Text → List Text → Except Error (List Numbered)
  | _, _, [] => .ok []
  | number, placed, line :: rest =>
    if lineLimit ≤ line.length then .error .lineTooLong
    else match statementOf names (withoutReturn line) with
      | .error e => .error (.line number e)
      | .ok none => statementsFrom names (number + 1) placed rest
      | .ok (some (.label name)) =>
        if name ∈ placed then .error (.line number (.labelTwice name))
        else
          match statementsFrom names (number + 1) (name :: placed) rest with
          | .ok more => .ok (⟨number, .label name⟩ :: more)
          | .error e => .error e
      | .ok (some s) =>
        match statementsFrom names (number + 1) placed rest with
        | .ok more => .ok (⟨number, s⟩ :: more)
        | .error e => .error e

/-- The first pass. -/
def statements (names : List Text) (source : Text) : Except Error (List Numbered) :=
  statementsFrom names 1 [] (lines source)

/-- The positions of the labels, the first statement standing at `position`. -/
def layout : Nat → List Statement → List (Text × Nat)
  | _, [] => []
  | position, s :: rest =>
    match s with
    | .label name => (name, position) :: layout position rest
    | .instruction _ _ => layout (position + s.size) rest

/-- The labels that are jumped to and never placed, each once and with the line of the first jump
to it; `met` holds those that came before. -/
def undefinedLabels (positions : List (Text × Nat)) :
    List Text → List Numbered → List (Nat × Text)
  | _, [] => []
  | met, ⟨line, .instruction _ (.label name)⟩ :: rest =>
    if (positions.lookup name).isSome ∨ name ∈ met then undefinedLabels positions met rest
    else (line, name) :: undefinedLabels positions (name :: met) rest
  | met, _ :: rest => undefinedLabels positions met rest

/-- The operand bytes of an instruction that stands at `position`, a new literal entering
the pool. -/
def operandBytes (positions : List (Text × Nat)) (position : Nat) (pool : Pool) :
    Operand → List UInt8 × Pool
  | .none => ([], pool)
  | .float x => (Word.bytes 8 (Binary64.codeBits x).toNat, pool)
  | .int n => (Word.signedBytes 4 n, pool)
  | .literal s =>
    let (i, pool) := pool.intern s
    (Word.bytes 2 i, pool)
  | .slot i => (Word.bytes 2 i, pool)
  | .label name =>
    let target : Nat := (positions.lookup name).getD 0
    (Word.signedBytes 2 ((target : Int) - (position + 3)), pool)
  | .byte n => (Word.bytes 1 n, pool)

/-- Writes statements down after the bytes already there. -/
def write (positions : List (Text × Nat)) : Array UInt8 → Pool → List Statement → Array UInt8 × Pool
  | bytes, pool, [] => (bytes, pool)
  | bytes, pool, .label _ :: rest => write positions bytes pool rest
  | bytes, pool, .instruction op operand :: rest =>
    let (operand, pool) := operandBytes positions bytes.size pool operand
    write positions (operand.foldl (fun acc b => acc.push b) (bytes.push op.code)) pool rest

/-- The code of a list of statements. -/
def codeOf (program : List Statement) : Code :=
  let (bytes, pool) := write (layout 0 program) #[] {} program
  ⟨bytes, pool.strings⟩

/-- What may be reported of a source. Labels are kept in a table without an order: if several are
missing, it is left open which of them is met first. -/
def reports (names : List Text) (source : Text) : List Error :=
  match statements names source with
  | .error e => [e]
  | .ok numbered =>
    (undefinedLabels (layout 0 (numbered.map (·.statement))) [] numbered).map
      fun (line, name) => .line line (.undefinedLabel name)

/-- Assembles a source against the names of the declared variables. Of several reports the first
is given. -/
def assemble (names : List Text) (source : Text) : Except Error Code :=
  match statements names source with
  | .error e => .error e
  | .ok numbered =>
    let program := numbered.map (·.statement)
    match undefinedLabels (layout 0 program) [] numbered with
    | [] => .ok (codeOf program)
    | (line, name) :: _ => .error (.line line (.undefinedLabel name))

end SchemePlayer.Assembly
