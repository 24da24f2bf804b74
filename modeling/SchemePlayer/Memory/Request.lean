import SchemePlayer.Memory.Basic

/-!
# Memory served by number

A caller outside names kinds by their numbers and slots by integers. A number that names
no kind has no slots to allocate, but reads and copies made with it go to the strings.
-/

namespace SchemePlayer.Memory

/-- One access to memory from outside. -/
inductive Request where
  | allocate (kind : UInt8) (count : Int)
  | size (kind : UInt8)
  | read (kind : UInt8) (index : Int)
  | readOld (kind : UInt8) (index : Int)
  | readDefault (kind : UInt8) (index : Int)
  | write (kind : UInt8) (index : Int) (value : Value)
  | writeBoth (kind : UInt8) (index : Int) (value : Value)
  | setDefault (kind : UInt8) (index : Int) (value : Value)
  | applyDefaults
  | commit
  | forward (kind : UInt8) (src dst : Int)
  | inSync

/-- What an access answers. -/
inductive Answer where
  | done
  | base (index : Nat)
  | count (n : Nat)
  | value (v : Value)
  | changed (b : Bool)
  | synced (b : Bool)

/-- The kind whose bank serves a number. -/
def bankKind (code : UInt8) : Kind := (Kind.ofCode? code).getD .string

/-- The address of a slot named from outside; a negative index is none. -/
def slotOf (code : UInt8) (index : Int) : Except MemoryCrash Slot :=
  if index < 0 then .error .outOfRange else .ok ⟨bankKind code, index.toNat⟩

/-- Reads through one of the three views. -/
def readBy (view : Memory → Slot → Option Value) (m : Memory) (code : UInt8) (index : Int) :
    Except MemoryCrash Answer :=
  match slotOf code index with
  | .error e => .error e
  | .ok s =>
    match view m s with
    | some v => .ok (.value v)
    | none => .error .outOfRange

/-- Assigns through one of the three operations, the kind being checked first. -/
def assignBy (operation : String) (assign : Memory → Slot → Value → Except MemoryCrash Memory)
    (m : Memory) (code : UInt8) (index : Int) (v : Value) : Except MemoryCrash (Answer × Memory) :=
  if v.kind.code ≠ code then .error (.kindMismatch operation v.kind code)
  else match slotOf code index with
    | .error e => .error e
    | .ok s => (assign m s v).map fun m => (.done, m)

/-- Serves an access. -/
def serve (m : Memory) : Request → Except MemoryCrash (Answer × Memory)
  | .allocate code count =>
    match Kind.ofCode? code with
    | none => .error (.unknownKind code)
    | some k =>
      let (base, m) := m.allocate k count.toNat
      .ok (.base base, m)
  | .size code => .ok (.count (match Kind.ofCode? code with | some k => m.size k | none => 0), m)
  | .read code index => (readBy read? m code index).map (·, m)
  | .readOld code index => (readBy readOld? m code index).map (·, m)
  | .readDefault code index => (readBy readDefault? m code index).map (·, m)
  | .write code index v => assignBy "Write" write m code index v
  | .writeBoth code index v => assignBy "Write" writeBoth m code index v
  | .setDefault code index v => assignBy "SetDefault" setDefault m code index v
  | .applyDefaults => .ok (.done, m.applyDefaults)
  | .commit => .ok (.done, m.commit)
  | .forward code src dst =>
    match slotOf code src, slotOf code dst with
    | .ok s, .ok d =>
      (m.forward (bankKind code) s.index d.index).map fun (m, b) => (.changed b, m)
    | _, _ => .error .outOfRange
  | .inSync => .ok (.synced m.inSync, m)

end SchemePlayer.Memory
