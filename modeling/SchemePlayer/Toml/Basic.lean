import SchemePlayer.Text.Basic

/-!
# TOML documents

Tables of values under names, and the rules by which statements add to them. A statement
may create tables on its way to a name; those are *implicit* until a header names them,
and being named once is allowed. Everything else may be defined once, except that a list
and any value may follow each other under one name, the later one staying.

- `Toml`: values.
- `TomlDocument`: a document under construction.
- `TomlDocument.assign?`, `enter?`, `enterItem?`: what statements do.
-/

namespace SchemePlayer

/-- A value. Numbers that are not whole, dates and times keep their written form. -/
inductive Toml where
  | string (s : Text)
  | integer (n : Int)
  | float (literal : Text)
  | bool (b : Bool)
  | date (literal : Text)
  | array (items : List Toml)
  | table (entries : List (Text × Toml))
  /-- tables added one after another under one name -/
  | tables (items : List (List (Text × Toml)))

/-- The values of a table, by name. -/
abbrev TomlTable := List (Text × Toml)

namespace TomlTable

/-- Sets a value, in the place of one that was there. -/
def set (t : TomlTable) (name : Text) (value : Toml) : TomlTable :=
  if t.any (·.1 = name) then t.map fun e => if e.1 = name then (name, value) else e
  else t ++ [(name, value)]

/-- The table that names lead to; of tables under one name, the last. -/
def at? : TomlTable → List Text → Option TomlTable
  | t, [] => some t
  | t, name :: rest =>
    match t.lookup name with
    | some (.table u) => at? u rest
    | some (.tables us) =>
      match us.getLast? with
      | some u => at? u rest
      | none => none
    | _ => none

/-- Changes the table that names lead to. -/
def modifyAt (f : TomlTable → TomlTable) : List Text → TomlTable → TomlTable
  | [], t => f t
  | name :: rest, t =>
    match t.lookup name with
    | some (.table u) => set t name (.table (modifyAt f rest u))
    | some (.tables us) =>
      match us.getLast? with
      | some u => set t name (.tables (us.dropLast ++ [modifyAt f rest u]))
      | none => t
    | _ => t

end TomlTable

/-- A document under construction. -/
structure TomlDocument where
  root : TomlTable := []
  /-- tables that were created on the way to others and not yet named -/
  implicit : List (List Text) := []
  /-- names under which a list was last written -/
  lists : List (List Text) := []

namespace TomlDocument

/-- What stands under a name of the table at `context`; `none` when there is no such
table. -/
def find? (d : TomlDocument) (context : List Text) (name : Text) : Option (Option Toml) :=
  match d.root.at? context with
  | none => none
  | some t => some (t.lookup name)

/-- Marks a table as implicit. -/
def mark (d : TomlDocument) (path : List Text) : TomlDocument :=
  { d with implicit := path :: d.implicit }

/-- A table is implicit no more. -/
def unmark (d : TomlDocument) (path : List Text) : TomlDocument :=
  { d with implicit := d.implicit.filter (· ≠ path) }

/-- Records whether the value under a name is a list. -/
def record (d : TomlDocument) (path : List Text) (isList : Bool) : TomlDocument :=
  { d with lists := if isList then path :: d.lists else d.lists.filter (· ≠ path) }

/-- Writes a value under a name of the table at `context`. -/
def put (d : TomlDocument) (context : List Text) (name : Text) (value : Toml) : TomlDocument :=
  { d with root := d.root.modifyAt (·.set name value) context }

/-- Defines a value under a name of the table at `context`. A table that was only implicit
stays as it is. -/
def assign? (d : TomlDocument) (context : List Text) (name : Text) (value : Toml) :
    Option TomlDocument :=
  let path := context ++ [name]
  match d.find? context name with
  | none => none
  | some none => some (d.put context name value)
  | some (some _) =>
    if path ∈ d.lists then some ((d.unmark path).put context name value)
    else if path ∈ d.implicit then some (d.unmark path)
    else none

/-- Makes sure that there are tables on the way, creating implicit ones. -/
def openWay? (d : TomlDocument) (done : List Text) : List Text → Option TomlDocument
  | [] => some d
  | name :: rest =>
    match d.find? done name with
    | none => none
    | some none =>
      ((d.put done name (.table [])).mark (done ++ [name])).openWay? (done ++ [name]) rest
    | some (some (.table _)) | some (some (.tables _)) => d.openWay? (done ++ [name]) rest
    | some (some _) => none

/-- Defines the table at a path. -/
def enter? (d : TomlDocument) (path : List Text) : Option TomlDocument :=
  match path.getLast? with
  | none => none
  | some name =>
    match d.openWay? [] path.dropLast with
    | none => none
    | some d => d.assign? path.dropLast name (.table [])

/-- Defines one more of the tables at a path. -/
def enterItem? (d : TomlDocument) (path : List Text) : Option TomlDocument :=
  match path.getLast? with
  | none => none
  | some name =>
    match d.openWay? [] path.dropLast with
    | none => none
    | some d =>
      match d.find? path.dropLast name with
      | some none => some (d.put path.dropLast name (.tables [[]]))
      | some (some (.tables us)) => some (d.put path.dropLast name (.tables (us ++ [[]])))
      | _ => none

/-- Makes the tables that a name with dots leads through. -/
def through? (d : TomlDocument) (context : List Text) : List Text → Option TomlDocument
  | [] => some d
  | name :: rest =>
    let path := context ++ [name]
    match (d.mark path).enter? path with
    | none => none
    | some d => d.through? path rest

/-- Defines the value of a statement `key = value` in the table at `context`. An inline
table never adds to one that is there. -/
def define? (d : TomlDocument) (context key : List Text) (value : Toml) : Option TomlDocument :=
  match key.getLast? with
  | none => none
  | some name =>
    match d.through? context key.dropLast with
    | none => none
    | some d =>
      let context := context ++ key.dropLast
      let path := context ++ [name]
      match value with
      | .table _ =>
        if (d.find? context name).any (·.isSome) && !(path ∈ d.lists) then none
        else (d.assign? context name value).map (·.record path false)
      | .array _ => ((d.record path true).assign? context name value)
      | _ => (d.assign? context name value).map (·.record path false)

end TomlDocument

end SchemePlayer
