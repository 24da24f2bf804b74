import SchemePlayer.Json.Field
import SchemePlayer.Json.Parser
import SchemePlayer.Tree.VarSet

/-!
# Variable sets as text

A snapshot of a project is kept as the JSON text of its variable set. Empty lists are left
out.

- `VarSet.toJson`, `VarSet.ofJson?`: a variable set and its record.
- `VarSet.encode`, `VarSet.decode?`: the same with the text.
-/

namespace SchemePlayer.VarSet

/-! ### Writing -/

mutual

/-- The record of a variable set. -/
def toJson : VarSet → Json
  | mk className handle values children =>
    .record ([("class", .str className), ("handle", .int handle)]
      ++ Json.optional values.isEmpty "values"
        (.obj (values.map fun (name, text) => (name, .str text)))
      ++ Json.optional children.isEmpty "children" (.arr (toJsonList children)))

/-- The records of several variable sets. -/
def toJsonList : List VarSet → List Json
  | [] => []
  | v :: rest => v.toJson :: toJsonList rest

end

/-- The text of a variable set. -/
def encode (v : VarSet) : Text := v.toJson.render

/-! ### Reading -/

/-- Takes values into a set, those with the same name in the place of earlier ones. -/
def takeValues (found : List (Text × Text)) :
    List (Text × Json) → Option (List (Text × Text))
  | [] => some found
  | (name, value) :: rest =>
    match value.asText? with
    | some text => takeValues (setValue found name (text.getD [])) rest
    | none => none

/-- Reads the values of a record. -/
def valuesIn? (j : Json) : Option (List (Text × Text)) :=
  (j.named "values").foldlM
    (fun found value =>
      match value with
      | .obj members => takeValues found members
      | .null => some found
      | _ => none)
    []

mutual

/-- Reads a variable set. -/
def ofJson? : Json → Option VarSet
  | .obj members =>
    let j := Json.obj members
    match j.field? "class" [] Json.asText?, j.field? "handle" 0 Json.asInt?, valuesIn? j,
        childrenIn? members with
    | some className, some handle, some values, some children =>
      some (mk className handle values (children.getD []))
    | _, _, _, _ => none
  | .null => some default
  | _ => none

/-- Reads the children among the members of a record. -/
def childrenIn? : List (Text × Json) → Option (Option (List VarSet))
  | [] => some none
  | (name, value) :: rest =>
    match childrenIn? rest with
    | none => none
    | some later =>
      if Text.equalFold name "children" then
        match listOf? value with
        | none => none
        | some found => some (later.or found)
      else some later

/-- Reads a list of variable sets. -/
def listOf? : Json → Option (Option (List VarSet))
  | .arr items => (itemsOf? items).map some
  | .null => some none
  | _ => none

/-- Reads variable sets one after another. -/
def itemsOf? : List Json → Option (List VarSet)
  | [] => some []
  | item :: rest =>
    match ofJson? item, itemsOf? rest with
    | some first, some more => some (first :: more)
    | _, _ => none

end

/-- The variable set of a text. -/
def decode? (t : Text) : Option VarSet := (Json.parse? t).bind ofJson?

end SchemePlayer.VarSet
