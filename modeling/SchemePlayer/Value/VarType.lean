import SchemePlayer.Value.Basic

/-!
# Declared types

A class declares each variable with a type; several types share one kind of value. A
type is kept as its number, because a compiled library may bring numbers that name no
type.
-/

namespace SchemePlayer

/-- The declared type of a variable. -/
structure VarType where
  code : UInt8
  deriving DecidableEq, Repr

namespace VarType

def float : VarType := ⟨0⟩
def handle : VarType := ⟨1⟩
def colorRef : VarType := ⟨2⟩
def string : VarType := ⟨3⟩

/-- The types that exist, with their names. -/
def named : List (VarType × Text) :=
  [(float, "FLOAT"), (handle, "HANDLE"), (colorRef, "COLORREF"), (string, "STRING")]

/-- Whether a number names a type. -/
def isKnown (t : VarType) : Bool := t.code ≤ 3

/-- The kind of the values of a type; a number that names no type counts as a number's. -/
def kind (t : VarType) : Kind :=
  if t = handle ∨ t = colorRef then .handle
  else if t = string then .string
  else .float

/-- The name of a type. -/
def name (t : VarType) : Text :=
  match named.lookup t with
  | some n => n
  | none => "VarType(" ++ Text.ofNat t.code.toNat ++ ")"

/-- The type with a name, upper or lower case. -/
def parse? (t : Text) : Option VarType :=
  (named.find? fun entry => Text.equalFold t entry.2).map (·.1)

/-- The report of a name that is no type's. -/
def unknownMessage (t : Text) : Text := "unknown variable type " ++ Text.quote t

end VarType

end SchemePlayer
