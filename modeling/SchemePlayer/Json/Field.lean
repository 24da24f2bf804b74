import SchemePlayer.Json.Basic
import SchemePlayer.Number.Reading
import SchemePlayer.Text.Case

/-!
# Reading fields of a JSON record

A record is an object; null stands for one that says nothing. The name of a field may be
written in upper or lower case, and a field that is written more than once has the last
value that says anything.

Every reader has three outcomes: the value is not of the wanted kind (`none`), it is null
(`some none`), or it says something.
-/

namespace SchemePlayer.Json

/-- Whether a value can be read as a record. -/
def isRecord : Json → Bool
  | obj _ | null => true
  | _ => false

/-- The values of the members with a name, upper or lower case. -/
def named (name : Text) : Json → List Json
  | obj members => (members.filter fun m => Text.equalFold m.1 name).map (·.2)
  | _ => []

/-- A text. -/
def asText? : Json → Option (Option Text)
  | str s => some (some s)
  | null => some none
  | _ => none

/-- A truth value. -/
def asBool? : Json → Option (Option Bool)
  | bool b => some (some b)
  | null => some none
  | _ => none

/-- An integer of 64 bits, written without a point and without an exponent. -/
def asInt? : Json → Option (Option Int)
  | num literal =>
    let (negative, digits) := Reading.sign literal
    match Reading.natural? 10 digits with
    | some n =>
      let value : Int := if negative then -(n : Int) else n
      if -(twoTo 63) ≤ value ∧ value < twoTo 63 then some (some value) else none
    | none => none
  | null => some none
  | _ => none

/-- A list of integers, in which null stands for zero. -/
def asInts? : Json → Option (Option (List Int))
  | arr items => (items.mapM asInt?).map fun found => some (found.map (·.getD 0))
  | null => some none
  | _ => none

/-- Reads a field, which has the value `missing` when nothing is said. -/
def field? {α : Type} (j : Json) (name : Text) (missing : α) (read : Json → Option (Option α)) :
    Option α :=
  (j.named name).foldlM (fun found value => (read value).map (·.getD found)) missing

end SchemePlayer.Json
