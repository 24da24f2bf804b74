import SchemePlayer.Bytecode.Code
import SchemePlayer.Value.VarType

/-!
# Classes

A class declares variables, places instances of other classes inside itself, links
variables of these, and has code. `Prototype` is the whole of it; every instance of the
class shares it.
-/

namespace SchemePlayer

/-- A declared variable. -/
structure VarDecl where
  name : Text
  type : VarType
  dflt : Text := []
  flags : UInt32 := 0
  deriving DecidableEq

/-- An instance of another class, placed inside a class under a handle. -/
structure ChildDecl where
  className : Text
  handle : Int
  name : Text := []
  x : Float := 0
  y : Float := 0
  flags : UInt32 := 0
  deriving DecidableEq

/-- Variables of two endpoints, joined pairwise. Handle zero is the declaring class
itself, any other one of its children. -/
structure LinkDecl where
  handle1 : Int
  handle2 : Int
  vars : List (Text × Text) := []
  flags : UInt32 := 0
  deriving DecidableEq

namespace LinkDecl

/-- Whether values go from the second endpoint to the first. -/
def isReversed (l : LinkDecl) : Bool := l.flags &&& 1 != 0

/-- Whether the link is declared but inert. -/
def isDisabled (l : LinkDecl) : Bool := l.flags &&& 2 != 0

end LinkDecl

/-- A class. -/
structure Prototype where
  name : Text
  vars : List VarDecl := []
  children : List ChildDecl := []
  links : List LinkDecl := []
  code : Option Code := none
  /-- the drawing of the class, of which only hosts make use -/
  scheme : Text := []
  /-- the directory the class was loaded from -/
  dir : Text := []
  deriving DecidableEq

namespace Prototype

/-- The index of the first variable with a name, upper or lower case. -/
def varIndex? (p : Prototype) (name : Text) : Option Nat :=
  p.vars.findIdx? fun v => Text.equalFold v.name name

/-- Whether the class can be shown in a window. -/
def hasScheme (p : Prototype) : Bool := !p.scheme.isEmpty

/-- The code of the class, empty when it has none. -/
def program (p : Prototype) : Code := p.code.getD Code.empty

end Prototype

end SchemePlayer
