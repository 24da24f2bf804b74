import SchemePlayer.Value.Basic

/-!
# Variable memory

All variables of a project live in one memory, one bank per kind of value. A cell holds
three values: the committed one (`old`), the one that running code reads and writes
(`new`), and the declared default. Code that runs later in a tick sees what was written
earlier in it; `commit` then makes the new values the old ones.

- `Cell`, `Bank`: the storage of one kind.
- `Slot`: the address of one variable.
- `Memory`: the three banks.
- `Memory.cell?`: the view of memory through addresses, in which every operation is
  described.
-/

namespace SchemePlayer

/-- A variable: its committed value, its working value and its default. -/
structure Cell (α : Type) where
  old : α
  new : α
  dflt : α
  deriving DecidableEq

namespace Cell

/-- The same value three times. -/
def uniform {α : Type} (x : α) : Cell α := ⟨x, x, x⟩

/-- The working value becomes the committed one. -/
def commit {α : Type} (c : Cell α) : Cell α := { c with old := c.new }

/-- The default becomes the committed and the working value. -/
def reset {α : Type} (c : Cell α) : Cell α := ⟨c.dflt, c.dflt, c.dflt⟩

/-- Whether the committed and the working value are equal. -/
def inSync {α : Type} [BEq α] (c : Cell α) : Bool := c.old == c.new

/-- Maps the three values. -/
def map {α β : Type} (f : α → β) (c : Cell α) : Cell β := ⟨f c.old, f c.new, f c.dflt⟩

end Cell

/-- The variables of one kind. -/
abbrev Bank (α : Type) := Array (Cell α)

/-- The address of a variable. -/
structure Slot where
  kind : Kind
  index : Nat
  deriving DecidableEq, Repr

/-- What no access to memory may do. -/
inductive MemoryCrash where
  /-- a slot that was never allocated -/
  | outOfRange
  /-- a value of one kind written to a slot of another, by the named operation -/
  | kindMismatch (operation : String) (value : Kind) (slotKind : UInt8)
  /-- slots of a kind that does not exist -/
  | unknownKind (code : UInt8)
  deriving DecidableEq

namespace MemoryCrash

/-- The report of a crash, if it has one. -/
def message? : MemoryCrash → Option Text
  | outOfRange => none
  | kindMismatch operation value slotKind =>
    some ("Memory." ++ Text.ofString operation ++ ": " ++ value.name ++ " value into "
      ++ Kind.nameOfCode slotKind ++ " slot")
  | unknownKind code => some ("Memory.Allocate: unknown kind " ++ Text.ofNat code.toNat)

end MemoryCrash

namespace Bank

/-- Adds `count` cells that hold `zero`. -/
def allocate {α : Type} (zero : α) (count : Nat) (b : Bank α) : Bank α :=
  b ++ Array.replicate count (Cell.uniform zero)

/-- Changes one cell. -/
def modify {α : Type} (b : Bank α) (i : Nat) (f : Cell α → Cell α) : Except MemoryCrash (Bank α) :=
  if h : i < b.size then .ok (b.set i (f b[i])) else .error .outOfRange

/-- Copies the working value of `src` to `dst` unless they are equal; the flag tells
whether anything changed. -/
def forward {α : Type} [BEq α] (b : Bank α) (src dst : Nat) : Except MemoryCrash (Bank α × Bool) :=
  if hd : dst < b.size then
    if hs : src < b.size then
      if b[dst].new == b[src].new then .ok (b, false)
      else .ok (b.set dst { b[dst] with new := b[src].new }, true)
    else .error .outOfRange
  else .error .outOfRange

end Bank

/-- The variables of a project. -/
structure Memory where
  floats : Bank Float := #[]
  handles : Bank Int32 := #[]
  strings : Bank Text := #[]
  deriving DecidableEq

namespace Memory

/-- The number of slots of a kind. -/
def size (m : Memory) : Kind → Nat
  | .float => m.floats.size
  | .handle => m.handles.size
  | .string => m.strings.size

/-- Reserves slots of a kind; the number is the index of the first. -/
def allocate (m : Memory) (k : Kind) (count : Nat) : Nat × Memory :=
  (m.size k,
    match k with
    | .float => { m with floats := m.floats.allocate 0 count }
    | .handle => { m with handles := m.handles.allocate 0 count }
    | .string => { m with strings := m.strings.allocate [] count })

/-- The three values of a slot. -/
def cell? (m : Memory) (s : Slot) : Option (Cell Value) :=
  match s.kind with
  | .float => m.floats[s.index]?.map (Cell.map .float)
  | .handle => m.handles[s.index]?.map (Cell.map .handle)
  | .string => m.strings[s.index]?.map (Cell.map .string)

/-- The working value of a slot. -/
def read? (m : Memory) (s : Slot) : Option Value := (m.cell? s).map (·.new)

/-- The committed value of a slot. -/
def readOld? (m : Memory) (s : Slot) : Option Value := (m.cell? s).map (·.old)

/-- The default of a slot. -/
def readDefault? (m : Memory) (s : Slot) : Option Value := (m.cell? s).map (·.dflt)

/-- Which of the values of a cell an assignment sets. -/
structure Target where
  old : Bool := false
  new : Bool := false
  dflt : Bool := false

/-- Sets the chosen values of a cell. -/
def Target.apply {α : Type} (t : Target) (x : α) (c : Cell α) : Cell α :=
  ⟨if t.old then x else c.old, if t.new then x else c.new, if t.dflt then x else c.dflt⟩

/-- Assigns to a slot; the value must be of the slot's kind. -/
def assign (operation : String) (t : Target) (m : Memory) (s : Slot) (v : Value) :
    Except MemoryCrash Memory :=
  match s.kind, v with
  | .float, .float x => (m.floats.modify s.index (t.apply x)).map fun b => { m with floats := b }
  | .handle, .handle x => (m.handles.modify s.index (t.apply x)).map fun b => { m with handles := b }
  | .string, .string x => (m.strings.modify s.index (t.apply x)).map fun b => { m with strings := b }
  | k, v => .error (.kindMismatch operation v.kind k.code)

/-- Sets the working value of a slot. -/
def write (m : Memory) (s : Slot) (v : Value) : Except MemoryCrash Memory :=
  assign "Write" { new := true } m s v

/-- Sets the committed and the working value of a slot, before a project starts. -/
def writeBoth (m : Memory) (s : Slot) (v : Value) : Except MemoryCrash Memory :=
  assign "Write" { old := true, new := true } m s v

/-- Sets the default of a slot. -/
def setDefault (m : Memory) (s : Slot) (v : Value) : Except MemoryCrash Memory :=
  assign "SetDefault" { dflt := true } m s v

/-- Every variable takes its default. -/
def applyDefaults (m : Memory) : Memory :=
  ⟨m.floats.map Cell.reset, m.handles.map Cell.reset, m.strings.map Cell.reset⟩

/-- Every working value is committed. -/
def commit (m : Memory) : Memory :=
  ⟨m.floats.map Cell.commit, m.handles.map Cell.commit, m.strings.map Cell.commit⟩

/-- Whether every working value is committed. Numbers are compared as numbers. -/
def inSync (m : Memory) : Bool :=
  m.floats.all Cell.inSync && m.handles.all Cell.inSync && m.strings.all Cell.inSync

/-- Copies the working value of one slot to another of the same kind unless they are
equal; the flag tells whether anything changed. -/
def forward (m : Memory) (k : Kind) (src dst : Nat) : Except MemoryCrash (Memory × Bool) :=
  match k with
  | .float => (Bank.forward m.floats src dst).map fun (b, c) => ({ m with floats := b }, c)
  | .handle => (Bank.forward m.handles src dst).map fun (b, c) => ({ m with handles := b }, c)
  | .string => (Bank.forward m.strings src dst).map fun (b, c) => ({ m with strings := b }, c)

/-- The cells of one kind, as values. -/
def cells (m : Memory) : Kind → List (Cell Value)
  | .float => m.floats.toList.map (Cell.map .float)
  | .handle => m.handles.toList.map (Cell.map .handle)
  | .string => m.strings.toList.map (Cell.map .string)

end Memory

end SchemePlayer
