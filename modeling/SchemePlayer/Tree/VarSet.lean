import SchemePlayer.Tree.Basic

/-!
# Variable sets

A variable set holds the texts of variables of an instance and, by handle, of its
children. A tree can be seeded with one, and its committed state can be taken as one.
-/

namespace SchemePlayer

/-- The values of an instance and of its children. -/
inductive VarSet where
  | mk (className : Text) (handle : Int) (values : List (Text × Text)) (children : List VarSet)

namespace VarSet

instance : Inhabited VarSet := ⟨mk [] 0 [] []⟩

def className : VarSet → Text
  | mk c _ _ _ => c

def handle : VarSet → Int
  | mk _ h _ _ => h

def values : VarSet → List (Text × Text)
  | mk _ _ v _ => v

def children : VarSet → List VarSet
  | mk _ _ _ cs => cs

/-- Sets a value by name, in the place of one with the same name. -/
def setValue (values : List (Text × Text)) (name text : Text) : List (Text × Text) :=
  values.filter (·.1 ≠ name) ++ [(name, text)]

end VarSet

namespace Tree

/-- Gives a variable of an instance the value that a text stands for; a name that the
instance does not have and a text that cannot be read are passed over. -/
def seedValue (inst : Instance) (m : Memory) (name text : Text) : Except MemoryCrash Memory :=
  match inst.slot? name with
  | none => .ok m
  | some s =>
    match Value.parse s.kind text with
    | .ok v => m.writeBoth s v
    | .error _ => .ok m

mutual

/-- Seeds an instance and its children, unless the set is of another class. -/
def seed (t : Tree) (id : Nat) (m : Memory) : VarSet → Except MemoryCrash Memory
  | .mk className _ values children =>
    match t.instance? id with
    | none => .ok m
    | some inst =>
      if Text.equalFold className inst.proto.name then
        match values.foldlM (fun m (name, text) => seedValue inst m name text) m with
        | .ok m => t.seedChildren id m children
        | .error e => .error e
      else .ok m

/-- Seeds those children of an instance whose handles the sets name. -/
def seedChildren (t : Tree) (id : Nat) (m : Memory) : List VarSet → Except MemoryCrash Memory
  | [] => .ok m
  | s :: rest =>
    match t.child? id s.handle with
    | none => t.seedChildren id m rest
    | some c =>
      match t.seed c m s with
      | .ok m => t.seedChildren id m rest
      | .error e => .error e

end

/-- The committed values of an instance's own variables. -/
def ownValues (inst : Instance) (m : Memory) : List (Text × Text) :=
  (inst.proto.vars.zip inst.slots.toList).foldl
    (fun values (decl, s) =>
      VarSet.setValue values decl.name (((m.readOld? s).map Value.format).getD [])) []

/-- The committed values of an instance and of what is below it, down to a depth. -/
def snapshotFrom (t : Tree) (m : Memory) : Nat → Nat → VarSet
  | 0, _ => default
  | depth + 1, id =>
    match t.instance? id with
    | none => default
    | some inst =>
      .mk inst.proto.name inst.handle (ownValues inst m)
        (inst.children.map (t.snapshotFrom m depth))

/-- The committed values of a whole tree. No path is longer than the number of instances. -/
def snapshot (t : Tree) (m : Memory) : VarSet := t.snapshotFrom m t.instances.size root

end Tree

end SchemePlayer
