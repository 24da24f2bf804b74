import SchemePlayer.Bytecode.Instruction
import SchemePlayer.Class.Table
import SchemePlayer.Memory.Basic

/-!
# Instance trees

The running form of a class and of everything placed inside it: instances with numbers
counted in depth-first order, each with the slots of its variables; the links between
slots; and a report of what could not be resolved.
-/

namespace SchemePlayer

/-- One instance. The root is its own parent. -/
structure Instance where
  parent : Nat
  children : List Nat := []
  proto : Prototype
  handle : Int := 0
  name : Text := []
  /-- one slot for each declared variable -/
  slots : Array Slot
  /-- the slot of the variable that, when positive, keeps the instance from running -/
  disable : Option Slot := none

namespace Instance

/-- The slot of a variable. -/
def slot? (i : Instance) (name : Text) : Option Slot :=
  match i.proto.varIndex? name with
  | some k => i.slots[k]?
  | none => none

end Instance

/-- Values of the source slot go to the destination slot. -/
structure Link where
  kind : Kind
  src : Nat
  dst : Nat
  deriving DecidableEq

/-- Names that could not be resolved, each with the class that refers to it. -/
abbrev Missing := List (Text × Text)

namespace Missing

/-- Records a name once. -/
def record (m : Missing) (name className : Text) : Missing :=
  if (name, className) ∈ m then m else m ++ [(name, className)]

/-- Drops neighbours that are equal. -/
def dropRepeats : List Text → List Text
  | [] => []
  | [a] => [a]
  | a :: b :: rest => if a = b then dropRepeats (b :: rest) else a :: dropRepeats (b :: rest)

/-- The names in ascending order, each with the classes that refer to it, ascending too. -/
def report (m : Missing) : List (Text × List Text) :=
  (dropRepeats (Text.sort (m.map (·.1)))).map fun name =>
    (name, Text.sort ((m.filter (·.1 = name)).map (·.2)))

end Missing

/-- A tree of instances. -/
structure Tree where
  instances : Array Instance := #[]
  links : List Link := []
  missing : Missing := []

namespace Tree

/-- The number of the root. -/
def root : Nat := 0

/-- The instance with a number. -/
def instance? (t : Tree) (id : Nat) : Option Instance := t.instances[id]?

/-- The children of an instance. -/
def childrenOf (t : Tree) (id : Nat) : List Nat := ((t.instance? id).map (·.children)).getD []

/-- The first child of an instance with a handle. -/
def child? (t : Tree) (id : Nat) (handle : Int) : Option Nat :=
  (t.childrenOf id).find? fun c => (t.instance? c).any (·.handle = handle)

/-- Follows a path of handles from an instance. -/
def findFrom? (t : Tree) : Nat → List Int → Option Nat
  | id, [] => some id
  | id, h :: hs =>
    match t.child? id h with
    | some c => t.findFrom? c hs
    | none => none

/-- Follows a path of handles from the root. -/
def find? (t : Tree) (handles : List Int) : Option Nat := t.findFrom? root handles

/-- The instances of a class, in depth-first order. -/
def instancesOf (t : Tree) (className : Text) : List Nat :=
  let key := Text.foldKey className
  (List.range t.instances.size).filter fun id =>
    (t.instance? id).any fun i => Text.foldKey i.proto.name == key

/-- The slot of a variable of an instance. -/
def slot? (t : Tree) (id : Nat) (name : Text) : Option Slot :=
  (t.instance? id).bind (·.slot? name)

/-- Copies along every link once, in the order of the links. -/
def propagate (links : List Link) (m : Memory) : Except MemoryCrash Memory :=
  links.foldlM (fun m l => (m.forward l.kind l.src l.dst).map (·.1)) m

end Tree

end SchemePlayer
