import SchemePlayer.Tree.VarSet

/-!
# Building a tree

From a root class the tree grows depth first: an instance takes its number and its
slots, then its children grow in the order of their declarations, then its links are
attached. No code runs. A missing child class is an error in a strict build and an
entry of the report otherwise.
-/

namespace SchemePlayer.Tree

/-- Why a tree could not be built. -/
inductive BuildError where
  /-- a class that the table does not have -/
  | prototypeNotFound (name : Text)
  /-- classes that contain each other without end -/
  | endless
  /-- an access to memory that no build makes -/
  | crash (cause : MemoryCrash)
  deriving DecidableEq

namespace BuildError

/-- The report of a failed build. -/
def message : BuildError → Text
  | prototypeNotFound name => "class prototype " ++ Text.quote name ++ " not found"
  | endless => "class contains itself"
  | crash cause => cause.message?.getD []

end BuildError

/-- A tree that is growing, and its memory. -/
structure Sapling where
  tree : Tree := {}
  memory : Memory := {}

namespace Sapling

/-- The value of a declared default; empty and unreadable ones leave the neutral value. -/
def defaultOf (decl : VarDecl) : Value :=
  let k := decl.type.kind
  if decl.dflt = [] then Value.zero k
  else match Value.parse k decl.dflt with
    | .ok v => v
    | .error _ => Value.zero k

/-- Allocates the slots of declared variables, in order. -/
def allocate (m : Memory) : List VarDecl → Except MemoryCrash (List Slot × Memory)
  | [] => .ok ([], m)
  | decl :: rest =>
    let k := decl.type.kind
    let (index, m) := m.allocate k 1
    match m.setDefault ⟨k, index⟩ (defaultOf decl) with
    | .error e => .error e
    | .ok m =>
      match allocate m rest with
      | .ok (slots, m) => .ok (⟨k, index⟩ :: slots, m)
      | .error e => .error e

/-- The slot of the last number variable named `_disable`. -/
def disableSlot (vars : List VarDecl) (slots : List Slot) : Option Slot :=
  ((vars.zip slots).filter fun (decl, s) =>
    s.kind = .float && Text.equalFold decl.name "_disable").getLast?.map (·.2)

/-- Records the first byte of a class's code that stands for no operation. -/
def scan (p : Prototype) (m : Missing) : Missing :=
  match (decode p.program.bytes).2 with
  | .unknown offset => m.record (Opcode.nameOfByte (p.program.bytes[offset]?.getD 0)) p.name
  | _ => m

/-- Adds an instance and allocates its variables. -/
def add (s : Sapling) (p : Prototype) (parent : Nat) (handle : Int) (name : Text) :
    Except BuildError (Nat × Sapling) :=
  let id := s.tree.instances.size
  match allocate s.memory p.vars with
  | .error e => .error (.crash e)
  | .ok (slots, memory) =>
    let inst : Instance :=
      { parent := if id = 0 then 0 else parent
        proto := p
        handle
        name
        slots := slots.toArray
        disable := disableSlot p.vars slots }
    .ok (id, { tree := { s.tree with
                  instances := s.tree.instances.push inst
                  missing := scan p s.tree.missing }
               memory })

/-- Adds a child to an instance's list. -/
def adopt (s : Sapling) (id child : Nat) : Sapling :=
  { s with tree := { s.tree with
      instances := s.tree.instances.modify id fun i => { i with children := i.children ++ [child] } } }

/-- Records a name that could not be resolved. -/
def recordMissing (s : Sapling) (name className : Text) : Sapling :=
  { s with tree := { s.tree with missing := s.tree.missing.record name className } }

/-- The instance a link endpoint refers to. -/
def endpoint? (s : Sapling) (id : Nat) (handle : Int) : Option Nat :=
  if handle = 0 then some id else s.tree.child? id handle

/-- The name of the class of an instance. -/
def classNameOf (s : Sapling) (id : Nat) : Text :=
  ((s.tree.instance? id).map (·.proto.name)).getD []

/-- Attaches one pair of variables of a link between two instances. -/
def attachPair (owner : Text) (src dst : Nat) (s : Sapling) (srcName dstName : Text) : Sapling :=
  match s.tree.slot? src srcName, s.tree.slot? dst dstName with
  | none, _ => s.recordMissing (s.classNameOf src ++ 46 :: srcName) owner
  | some _, none => s.recordMissing (s.classNameOf dst ++ 46 :: dstName) owner
  | some a, some b =>
    if a.kind = b.kind then
      { s with tree := { s.tree with links := s.tree.links ++ [⟨a.kind, a.index, b.index⟩] } }
    else s.recordMissing (srcName ++ "->" ++ dstName) owner

/-- Attaches a link declared by the class of an instance. -/
def attachLink (id : Nat) (owner : Text) (s : Sapling) (l : LinkDecl) : Sapling :=
  if l.isDisabled then s
  else match s.endpoint? id l.handle1, s.endpoint? id l.handle2 with
    | some first, some second =>
      l.vars.foldl
        (fun s (name1, name2) =>
          if l.isReversed then attachPair owner second first s name2 name1
          else attachPair owner first second s name1 name2) s
    | _, _ =>
      s.recordMissing ("link " ++ Text.ofInt l.handle1 ++ "-" ++ Text.ofInt l.handle2) owner

/-- Attaches the links of an instance, all of whose children exist. -/
def attachLinks (s : Sapling) (id : Nat) (p : Prototype) : Sapling :=
  p.links.foldl (attachLink id p.name) s

/-- Adds the declared children of an instance one after another, each grown by `grow`
before the next. -/
def sprout (classes : ClassTable) (strict : Bool)
    (grow : Nat → Prototype → Sapling → Except BuildError Sapling) (id : Nat) (owner : Text) :
    List ChildDecl → Sapling → Except BuildError Sapling
  | [], s => .ok s
  | decl :: rest, s =>
    match classes.find? decl.className with
    | none =>
      if strict then .error (.prototypeNotFound decl.className)
      else sprout classes strict grow id owner rest (s.recordMissing decl.className owner)
    | some p =>
      match s.add p id decl.handle decl.name with
      | .error e => .error e
      | .ok (child, s) =>
        match grow child p (s.adopt id child) with
        | .error e => .error e
        | .ok s => sprout classes strict grow id owner rest s

/-- Grows everything below an instance, down to a depth. -/
def grow (classes : ClassTable) (strict : Bool) :
    Nat → Nat → Prototype → Sapling → Except BuildError Sapling
  | 0, _, _, _ => .error .endless
  | depth + 1, id, p, s =>
    match sprout classes strict (grow classes strict depth) id p.name p.children s with
    | .error e => .error e
    | .ok s => .ok (s.attachLinks id p)

end Sapling

/-- Builds the tree of a root class: every variable has its default, or the value that
the variable set has for it. Without a cycle no path is longer than the table. -/
def build (classes : ClassTable) (root : Text) (strict : Bool) (varSet : Option VarSet) :
    Except BuildError (Tree × Memory) :=
  match classes.find? root with
  | none => .error (.prototypeNotFound root)
  | some p =>
    match ({} : Sapling).add p 0 0 [] with
    | .error e => .error e
    | .ok (id, s) =>
      match Sapling.grow classes strict (classes.size + 1) id p s with
      | .error e => .error e
      | .ok s =>
        let m := s.memory.applyDefaults
        match varSet with
        | none => .ok (s.tree, m)
        | some set =>
          match s.tree.seed Tree.root m set with
          | .ok m => .ok (s.tree, m)
          | .error e => .error (.crash e)

end SchemePlayer.Tree
