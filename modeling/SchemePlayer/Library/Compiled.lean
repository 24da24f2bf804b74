import SchemePlayer.Cbor.Field
import SchemePlayer.Cbor.Parser
import SchemePlayer.Class.Basic

/-!
# Compiled libraries

Any number of classes in one CBOR item: records with numbers for keys, in which fields
that are empty are left out.

- `Compiled.encode`: the bytes of some classes. The same classes give the same bytes.
- `Compiled.decode`: the classes of some bytes.
-/

namespace SchemePlayer.Compiled

open Cbor

/-- The version of the format. -/
def version : Nat := 1

/-! ### Writing -/

/-- A field, left out when its value is empty. -/
def optional (number : Nat) (isEmpty : Bool) (value : Cbor) : List (Cbor × Cbor) :=
  if isEmpty then [] else [(unsigned number, value)]

/-- A field that is always there. -/
def required (number : Nat) (value : Cbor) : List (Cbor × Cbor) := [(unsigned number, value)]

/-- The record of a variable. -/
def ofVar (v : VarDecl) : Cbor :=
  map (required 1 (ofText v.name) ++ required 2 (unsigned v.type.code.toNat)
    ++ optional 3 v.dflt.isEmpty (ofText v.dflt)
    ++ optional 4 (v.flags == 0) (unsigned v.flags.toNat))

/-- The record of a child. -/
def ofChild (c : ChildDecl) : Cbor :=
  map (required 1 (ofText c.className) ++ required 2 (Cbor.ofInt c.handle)
    ++ optional 3 c.name.isEmpty (ofText c.name)
    ++ optional 4 (c.x == 0) (float c.x)
    ++ optional 5 (c.y == 0) (float c.y)
    ++ optional 6 (c.flags == 0) (unsigned c.flags.toNat))

/-- The record of a link. -/
def ofLink (l : LinkDecl) : Cbor :=
  map (required 1 (Cbor.ofInt l.handle1) ++ required 2 (Cbor.ofInt l.handle2)
    ++ optional 3 l.vars.isEmpty (array (l.vars.map fun (a, b) => array [ofText a, ofText b]))
    ++ optional 4 (l.flags == 0) (unsigned l.flags.toNat))

/-- The record of a class. The directory it came from is not written, nor are the
literals of code that is empty. -/
def ofClass (p : Prototype) : Cbor :=
  let code := p.program
  map (required 1 (ofText p.name)
    ++ optional 2 p.vars.isEmpty (array (p.vars.map ofVar))
    ++ optional 3 p.children.isEmpty (array (p.children.map ofChild))
    ++ optional 4 p.links.isEmpty (array (p.links.map ofLink))
    ++ optional 5 code.isEmpty (bytes code.bytes.toList)
    ++ optional 6 (code.isEmpty || code.strings.isEmpty) (array (code.strings.toList.map ofText))
    ++ optional 7 p.scheme.isEmpty (bytes p.scheme))

/-- The item of a library. -/
def ofClasses (ps : List Prototype) : Cbor :=
  map (required 1 (unsigned version) ++ required 2 (array (ps.map ofClass)))

/-- The bytes of a library. -/
def encode (ps : List Prototype) : Text := (ofClasses ps).encode

/-! ### Reading -/

/-- Why some bytes are no library. -/
inductive Error where
  /-- there are no bytes -/
  | empty
  /-- the bytes are no CBOR item of the right shape -/
  | malformed
  | badVersion (found : Int)
  | noName
  | badType (className varName : Text) (code : UInt8)
  deriving DecidableEq

namespace Error

/-- The report. -/
def message : Error → Text
  | empty | malformed => "library: unmarshal compiled library"
  | badVersion found => "library: unsupported compiled library version " ++ Text.ofInt found
  | noName => "library: compiled class without a name"
  | badType className varName code =>
    "library: " ++ className ++ "." ++ varName ++ ": bad variable type " ++ Text.ofNat code.toNat

end Error

/-- Reads a variable. -/
def var? (c : Cbor) : Option VarDecl := do
  let r ← c.asRecord?
  let name ← r.field? 1 [] asText?
  let type ← r.field? 2 0 (asNat? 255)
  let dflt ← r.field? 3 [] asText?
  let flags ← r.field? 4 0 (asNat? (twoTo 32 - 1))
  return { name, type := ⟨type.toUInt8⟩, dflt, flags := flags.toUInt32 }

/-- Reads a child. -/
def child? (c : Cbor) : Option ChildDecl := do
  let r ← c.asRecord?
  let className ← r.field? 1 [] asText?
  let handle ← r.field? 2 0 asInt?
  let name ← r.field? 3 [] asText?
  let x ← r.field? 4 0 asFloat?
  let y ← r.field? 5 0 asFloat?
  let flags ← r.field? 6 0 (asNat? (twoTo 32 - 1))
  return { className, handle, name, x, y, flags := flags.toUInt32 }

/-- Reads a link. -/
def link? (c : Cbor) : Option LinkDecl := do
  let r ← c.asRecord?
  let handle1 ← r.field? 1 0 asInt?
  let handle2 ← r.field? 2 0 asInt?
  let vars ← r.field? 3 [] (asList? asPair?)
  let flags ← r.field? 4 0 (asNat? (twoTo 32 - 1))
  return { handle1, handle2, vars, flags := flags.toUInt32 }

/-- Reads a class. Code without bytes is no code. -/
def class? (c : Cbor) : Option Prototype := do
  let r ← c.asRecord?
  let name ← r.field? 1 [] asText?
  let vars ← r.field? 2 [] (asList? var?)
  let children ← r.field? 3 [] (asList? child?)
  let links ← r.field? 4 [] (asList? link?)
  let code ← r.field? 5 [] asBytes?
  let strings ← r.field? 6 [] (asList? asText?)
  let scheme ← r.field? 7 [] asBytes?
  return { name, vars, children, links, scheme
           code := if code.isEmpty then none else some ⟨code.toArray, strings.toArray⟩ }

/-- Reads a library: its version and its classes. -/
def library? (c : Cbor) : Option (Int × List Prototype) := do
  let r ← c.asRecord?
  let found ← r.field? 1 0 asInt?
  let classes ← r.field? 2 [] (asList? class?)
  return (found, classes)

/-- Refuses a class without a name and variables of unknown types. -/
def check (p : Prototype) : Except Error Prototype :=
  if p.name.isEmpty then .error .noName
  else match p.vars.find? fun v => !v.type.isKnown with
    | some v => .error (.badType p.name v.name v.type.code)
    | none => .ok p

/-- The classes of a library. -/
def decode (t : Text) : Except Error (List Prototype) :=
  match (Cbor.parse? t).bind library? with
  | none => .error (if t.isEmpty then .empty else .malformed)
  | some (found, classes) =>
    if found ≠ version then .error (.badVersion found) else classes.mapM check

end SchemePlayer.Compiled
