import SchemePlayer.Text.Basic
import Std.Data.HashMap

/-!
# Compiled code

The code of a class is a string of bytes and a pool of literals that its
instructions refer to by index.

- `Pool`: a pool under construction, with an index so that each literal enters once.
- `Code`: finished code.
-/

namespace SchemePlayer

/-- Compiled code: instructions and the literals they refer to. -/
structure Code where
  bytes : Array UInt8
  strings : Array Text
  deriving DecidableEq

namespace Code

/-- Code with nothing in it. -/
def empty : Code := ⟨#[], #[]⟩

/-- Whether there is nothing to run. -/
def isEmpty (c : Code) : Bool := c.bytes.isEmpty

end Code

/-- A pool of literals under construction. -/
structure Pool where
  strings : Array Text := #[]
  index : Std.HashMap Text Nat := ∅

namespace Pool

/-- The position of a literal in the pool, added at the end when it is new. -/
def intern (p : Pool) (s : Text) : Nat × Pool :=
  match p.index[s]? with
  | some i => (i, p)
  | none => (p.strings.size, ⟨p.strings.push s, p.index.insert s p.strings.size⟩)

end Pool

end SchemePlayer
