import SchemePlayer.Class.Basic
import SchemePlayer.Text.Case

/-!
# Tables of classes

Classes are found by name, upper and lower case alike: the key of a class is the
lower-case form of its name.
-/

namespace SchemePlayer

/-- Classes by the lower-case form of their names. -/
structure ClassTable where
  entries : List (Text × Prototype) := []

namespace ClassTable

/-- The class with a name. -/
def find? (t : ClassTable) (name : Text) : Option Prototype := t.entries.lookup (Text.lower name)

/-- Adds a class, in the place of one with the same name. -/
def add (t : ClassTable) (p : Prototype) : ClassTable :=
  let key := Text.lower p.name
  ⟨t.entries.filter (·.1 ≠ key) ++ [(key, p)]⟩

/-- The table of some classes; of two with the same name the later stays. -/
def ofList (ps : List Prototype) : ClassTable := ps.foldl add {}

/-- The number of classes. -/
def size (t : ClassTable) : Nat := t.entries.length

/-- The names of the classes in ascending order. -/
def names (t : ClassTable) : List Text := Text.sort (t.entries.map (·.2.name))

end ClassTable

end SchemePlayer
