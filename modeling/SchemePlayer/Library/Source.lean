import SchemePlayer.Assembly.Program
import SchemePlayer.Class.Basic
import SchemePlayer.Yaml.Field
import SchemePlayer.Yaml.Parser

/-!
# Class sources

A class is written down as a YAML record whose code is in assembly language.

- `ClassDraft`: the record, as it stands in the text.
- `ClassDraft.prototype`: the class of a record, if the record makes sense.
- `ClassSource.parse`: both together.
-/

namespace SchemePlayer

/-- A variable as it is written down. -/
structure VarDraft where
  name : Text
  type : Text
  dflt : Text
  flags : UInt32

/-- A class as it is written down. -/
structure ClassDraft where
  name : Text := []
  vars : List VarDraft := []
  children : List ChildDecl := []
  links : List LinkDecl := []
  scheme : Text := []
  code : Text := []

/-- Why a text is no class. -/
inductive SourceError where
  /-- there is nothing in it -/
  | empty
  /-- it is no YAML record of the right shape -/
  | malformed
  | noName
  | badType (className varName type : Text)
  | badDefault (className varName : Text) (cause : Value.ParseError)
  | badHandle (className child : Text) (handle : Int)
  | handleTwice (className : Text) (handle : Int)
  | badCode (className : Text) (cause : Assembly.Error)

namespace SourceError

/-- The report. -/
def message : SourceError → Text
  | empty => "empty class source"
  | malformed => "malformed class source"
  | noName => "class has no name"
  | badType className varName type =>
    className ++ "." ++ varName ++ ": " ++ VarType.unknownMessage type
  | badDefault className varName cause =>
    className ++ "." ++ varName ++ ": default: " ++ cause.message
  | badHandle className child handle =>
    className ++ ": child " ++ child ++ " has handle " ++ Text.ofInt handle ++ ", want > 0"
  | handleTwice className handle =>
    className ++ ": duplicate child handle " ++ Text.ofInt handle
  | badCode className cause => className ++ ": " ++ cause.message

end SourceError

namespace ClassDraft

open Yaml

/-! ### From the text -/

/-- Reads a variable. -/
def var? (y : Yaml) : Option (Option VarDraft) :=
  match y.asRecord? ["name", "type", "default", "flags"] with
  | none => none
  | some none => some none
  | some (some r) => do
    let name ← r.field? "name" [] asText?
    let type ← r.field? "type" [] asText?
    let dflt ← r.field? "default" [] asText?
    let flags ← r.field? "flags" 0 asWord?
    return some { name, type, dflt, flags }

/-- Reads a child. -/
def child? (y : Yaml) : Option (Option ChildDecl) :=
  match y.asRecord? ["class", "handle", "name", "x", "y", "flags"] with
  | none => none
  | some none => some none
  | some (some r) => do
    let className ← r.field? "class" [] asText?
    let handle ← r.field? "handle" 0 asInt?
    let name ← r.field? "name" [] asText?
    let x ← r.field? "x" 0 asFloat?
    let y ← r.field? "y" 0 asFloat?
    let flags ← r.field? "flags" 0 asWord?
    return some { className, handle, name, x, y, flags }

/-- Reads a link. -/
def link? (y : Yaml) : Option (Option LinkDecl) :=
  match y.asRecord? ["from", "to", "vars", "reverse", "disabled"] with
  | none => none
  | some none => some none
  | some (some r) => do
    let handle1 ← r.field? "from" 0 asInt?
    let handle2 ← r.field? "to" 0 asInt?
    let vars ← r.field? "vars" [] (asList? asPair?)
    let reverse ← r.field? "reverse" false asBool?
    let disabled ← r.field? "disabled" false asBool?
    let flags : UInt32 := (if reverse then 1 else 0) + (if disabled then 2 else 0)
    return some { handle1, handle2, vars, flags }

/-- Reads a class. -/
def ofYaml? (y : Yaml) : Option ClassDraft :=
  match y.asRecord? ["name", "vars", "children", "links", "scheme", "code"] with
  | none => none
  | some none => some {}
  | some (some r) => do
    let name ← r.field? "name" [] asText?
    let vars ← r.field? "vars" [] (asList? var?)
    let children ← r.field? "children" [] (asList? child?)
    let links ← r.field? "links" [] (asList? link?)
    let scheme ← r.field? "scheme" [] asText?
    let code ← r.field? "code" [] asText?
    return { name, vars, children, links, scheme, code }

/-! ### To the class -/

/-- The declaration of a variable. Without a type it is a number; a default must be a
value of the type. -/
def varDecl (className : Text) (v : VarDraft) : Except SourceError VarDecl :=
  match VarType.parse? (if v.type = [] then "float" else v.type) with
  | none => .error (.badType className v.name v.type)
  | some type =>
    let decl : VarDecl := { name := v.name, type, dflt := v.dflt, flags := v.flags }
    if v.dflt = [] then .ok decl
    else match Value.parse type.kind v.dflt with
      | .ok _ => .ok decl
      | .error cause => .error (.badDefault className v.name cause)

/-- Refuses handles that are not positive and those that are given twice; `taken` holds
the ones before. -/
def checkHandles (className : Text) : List Int → List ChildDecl → Except SourceError Unit
  | _, [] => .ok ()
  | taken, c :: rest =>
    if c.handle ≤ 0 then .error (.badHandle className c.className c.handle)
    else if c.handle ∈ taken then .error (.handleTwice className c.handle)
    else checkHandles className (c.handle :: taken) rest

/-- Assembles the code of a class; where nothing is written there is no code. -/
def assembled (className : Text) (vars : List VarDecl) (code : Text) :
    Except SourceError (Option Code) :=
  if code = [] then .ok none
  else match Assembly.assemble (vars.map (·.name)) code with
    | .ok code => .ok (some code)
    | .error cause => .error (.badCode className cause)

/-- The class of a draft. -/
def prototype (d : ClassDraft) : Except SourceError Prototype := do
  if d.name = [] then throw .noName
  let vars ← d.vars.mapM (varDecl d.name)
  checkHandles d.name [] d.children
  let code ← assembled d.name vars d.code
  return { name := d.name, vars, children := d.children, links := d.links, code
           scheme := d.scheme }

end ClassDraft

namespace ClassSource

/-- The class that a text describes. -/
def parse (t : Text) : Except SourceError Prototype :=
  match Yaml.parse t with
  | .nothing => .error .empty
  | .malformed => .error .malformed
  | .node root =>
    match ClassDraft.ofYaml? root with
    | some draft => draft.prototype
    | none => .error .malformed

end ClassSource

end SchemePlayer
