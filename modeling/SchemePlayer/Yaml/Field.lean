import SchemePlayer.Number.Reading
import SchemePlayer.Text.Base64
import SchemePlayer.Yaml.Basic

/-!
# Reading fields of a YAML record

What a scalar says is told by its text, unless it is quoted or tagged. A record is a
mapping with texts for keys; another mapping may be merged into it under the key `<<`, and
then gives the fields that the record itself does not have.

Every reader has three outcomes: the node is not of the wanted kind (`none`), it says
nothing (`some none`), or it says something.

- `Yaml.meaning?`: what a scalar says.
- `Yaml.asText?`, `asInt?`, `asFloat?`, …: the readers.
- `Yaml.asRecord?`, `Record.field?`: records and their fields.
-/

namespace SchemePlayer.Yaml

/-- What a scalar says. -/
inductive Meaning where
  | null
  | bool (b : Bool)
  | int (n : Int)
  | float (x : Float)
  | text (t : Text)

/-- The words with a meaning of their own. -/
def words : List (Text × Meaning) :=
  let all (m : Meaning) (ws : List String) : List (Text × Meaning) :=
    ws.map fun w => (Text.ofString w, m)
  all .null ["", "~", "null", "Null", "NULL"]
    ++ all (.bool true) ["true", "True", "TRUE"]
    ++ all (.bool false) ["false", "False", "FALSE"]
    ++ all (.float Binary64.nan) [".nan", ".NaN", ".NAN"]
    ++ all (.float Binary64.infinity) [".inf", ".Inf", ".INF", "+.inf", "+.Inf", "+.INF"]
    ++ all (.float (-Binary64.infinity)) ["-.inf", "-.Inf", "-.INF"]

/-- Whether a text has nothing but what decimal numbers are written with. -/
def isDecimal (t : Text) : Bool :=
  t.all fun b => Text.isDigit b || b == 46 || b == 43 || b == 45 || Text.asciiLower b == 101

/-- The number of a text that begins with a digit or a sign; underscores do not count. -/
def number? (t : Text) : Option Meaning :=
  let plain := t.filter (· ≠ 95)
  match Reading.integer? 64 plain with
  | some n => some (.int n)
  | none =>
    match (Reading.markedNatural? plain).filter (· < twoTo 64) with
    | some n => some (.int n)
    | none => if isDecimal plain then (Reading.float plain).toOption.map .float else none

/-- What a text says that is neither quoted nor tagged. -/
def plainMeaning (t : Text) : Meaning :=
  match words.lookup t with
  | some m => m
  | none =>
    match t with
    | [] => .null
    | b :: _ =>
      let number : Option Meaning :=
        if b = 46 then (Reading.float t).toOption.map .float
        else if b = 43 ∨ b = 45 ∨ Text.isDigit b then number? t
        else none
      number.getD (.text t)

/-- What a text says under a tag, if the tag allows that. -/
def taggedMeaning? (tag t : Text) : Option Meaning :=
  if tag = "!!str" then some (.text t)
  else if tag = "!!binary" then (Base64.decode? t).map .text
  else match plainMeaning t with
    | .null => if tag = "!!null" then some .null else none
    | .bool b => if tag = "!!bool" then some (.bool b) else none
    | .int n =>
      if tag = "!!int" then some (.int n)
      else if tag = "!!float" ∧ n < twoTo 63 then some (.float (Binary64.ofInt n))
      else none
    | .float x => if tag = "!!float" then some (.float x) else none
    | .text _ => none

/-- What a scalar says; `none` for other nodes, and where a tag does not fit. -/
def meaning? : Yaml → Option Meaning
  | scalar t quoted tag =>
    if tag = [] ∨ tag = "!" then some (if quoted then .text t else plainMeaning t)
    else taggedMeaning? tag t
  | _ => none

/-! ### Scalars -/

/-- A text. Any scalar is one: what it says if that is a text, and else what is written. -/
def asText? (y : Yaml) : Option (Option Text) :=
  match y, y.meaning? with
  | _, some .null => some none
  | _, some (.text t) => some (some t)
  | scalar t _ _, some _ => some (some t)
  | _, _ => none

/-- An integer of 64 bits; the whole part of a number will do. -/
def asInt? (y : Yaml) : Option (Option Int) :=
  match y.meaning? with
  | some .null => some none
  | some (.int n) => if n < twoTo 63 then some (some n) else none
  | some (.float x) =>
    if x ≤ Binary64.ofInt (twoTo 63) then some (some (Binary64.toWord 64 x)) else none
  | _ => none

/-- A natural number of 32 bits; the whole part of a number will do. -/
def asWord? (y : Yaml) : Option (Option UInt32) :=
  let fits (n : Int) : Option (Option UInt32) :=
    if 0 ≤ n ∧ n < twoTo 32 then some (some n.toNat.toUInt32) else none
  match y.meaning? with
  | some .null => some none
  | some (.int n) => fits n
  | some (.float x) => (Binary64.truncate? x).bind fits
  | _ => none

/-- A number. -/
def asFloat? (y : Yaml) : Option (Option Float) :=
  match y.meaning? with
  | some .null => some none
  | some (.int n) => some (some (Binary64.ofInt n))
  | some (.float x) => some (some x)
  | _ => none

/-- A truth value; some short words will do. -/
def asBool? (y : Yaml) : Option (Option Bool) :=
  match y.meaning? with
  | some .null => some none
  | some (.bool b) => some (some b)
  | some (.text t) =>
    let isOne (ws : List String) : Bool := ws.any fun w => Text.ofString w == t
    if isOne ["y", "Y", "yes", "on"] then some (some true)
    else if isOne ["n", "N", "no", "off"] then some (some false)
    else none
  | _ => none

/-! ### Lists -/

/-- A list; items that say nothing are left out. -/
def asList? {α : Type} (read : Yaml → Option (Option α)) (y : Yaml) : Option (Option (List α)) :=
  match y, y.meaning? with
  | sequence items, _ => (items.mapM read).map fun found => some (found.filterMap id)
  | _, some .null => some none
  | _, _ => none

/-- Two texts: a list of two; items that say nothing leave their place to the next. -/
def asPair? (y : Yaml) : Option (Option (Text × Text)) :=
  match y, y.meaning? with
  | sequence [a, b], _ =>
    match a.asText?, b.asText? with
    | some a, some b =>
      match [a, b].filterMap id with
      | [a, b] => some (some (a, b))
      | [a] => some (some (a, []))
      | _ => some (some ([], []))
    | _, _ => none
  | _, some .null => some none
  | _, _ => none

/-! ### Records -/

/-- The fields of a record, those merged into it last. -/
abbrev Record := List (Text × Yaml)

/-- Whether a key asks for a mapping to be merged. -/
def isMerge : Yaml → Bool
  | scalar t quoted tag =>
    t == Text.ofString "<<" && ((!quoted && tag.isEmpty) || tag == Text.ofString "!!merge")
  | _ => false

/-- The text of a key. -/
def keyText? : Yaml → Option Text
  | scalar t _ _ => some t
  | _ => none

/-- Whether no two keys have the same text. -/
def keysDiffer (pairs : List (Yaml × Yaml)) : Bool :=
  decide (pairs.filterMap fun p => p.1.keyText?).Nodup

mutual

/-- The fields of a mapping: its own, then those merged into it. -/
def fields? : Yaml → Option Record
  | mapping pairs =>
    if keysDiffer pairs then (pairFields? pairs).map fun (own, merged) => own ++ merged else none
  | _ => none

/-- The fields of some pairs, and those merged into them. A key that says nothing has no
field. -/
def pairFields? : List (Yaml × Yaml) → Option (Record × Record)
  | [] => some ([], [])
  | (key, value) :: rest =>
    match pairFields? rest with
    | none => none
    | some (own, merged) =>
      if key.isMerge then (merged? value).map fun more => (own, more ++ merged)
      else match key.asText? with
        | none => none
        | some none => some (own, merged)
        | some (some name) => some ((name, value) :: own, merged)

/-- The fields of what stands under the key of a merge: one mapping, or several of which
the earlier ones count more. -/
def merged? : Yaml → Option Record
  | mapping pairs =>
    if keysDiffer pairs then (pairFields? pairs).map fun (own, merged) => own ++ merged else none
  | sequence items => mergedItems? items
  | _ => none

/-- The fields of several mappings. -/
def mergedItems? : List Yaml → Option Record
  | [] => some []
  | item :: rest =>
    match fields? item, mergedItems? rest with
    | some first, some more => some (first ++ more)
    | _, _ => none

end

/-- A record with no other fields than the known ones. -/
def asRecord? (known : List Text) (y : Yaml) : Option (Option Record) :=
  match y, y.meaning? with
  | mapping _, _ =>
    match y.fields? with
    | some fields => if fields.all fun f => known.contains f.1 then some (some fields) else none
    | none => none
  | _, some .null => some none
  | _, _ => none

/-- Reads a field, which has the value `missing` when nothing is said. -/
def Record.field? {α : Type} (r : Record) (name : Text) (missing : α)
    (read : Yaml → Option (Option α)) : Option α :=
  match r.lookup name with
  | some value => (read value).map (·.getD missing)
  | none => some missing

end SchemePlayer.Yaml
