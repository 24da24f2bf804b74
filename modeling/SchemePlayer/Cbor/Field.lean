import SchemePlayer.Cbor.Basic

/-!
# Reading fields of a CBOR record

A record is a map with small numbers for keys. A field of any type may be null, which
stands for nothing said. Tags are looked through, as far as their content is what the tag
asks for; the two for long integers are integers.
-/

namespace SchemePlayer.Cbor

/-- Whether an item is a number. -/
def isNumber : Cbor → Bool
  | unsigned _ | negative _ | float _ => true
  | _ => false

/-- Whether an item is a text. -/
def isText : Cbor → Bool
  | text _ => true
  | _ => false

/-- Looks through tags: dates are texts or numbers, and the tags of long integers stay
when they are on bytes. -/
def untag : Cbor → Option Cbor
  | tag 0 content => if content.isText then untag content else none
  | tag 1 content => if content.isNumber then untag content else none
  | tag 2 (bytes b) => some (tag 2 (bytes b))
  | tag 3 (bytes b) => some (tag 3 (bytes b))
  | tag 2 _ | tag 3 _ => none
  | tag _ content => untag content
  | item => some item

/-- Whether an item, tags looked through, says nothing. -/
def isNull (n : Nat) : Bool := n == 22 || n == 23

/-- Whether a simple value counts as the integer of its number. -/
def isCount (n : Nat) : Bool := n != 20 && n != 21

/-- The integer of an item, null being zero; it must fit a signed 64-bit word, and an
unsigned one if it was given as such. -/
def asInt? (c : Cbor) : Option Int :=
  let fits (n : Int) : Option Int := if -(twoTo 63) ≤ n ∧ n < twoTo 63 then some n else none
  match c.untag with
  | some (unsigned n) => fits n
  | some (negative n) => fits (-1 - n)
  | some (tag 2 (bytes b)) => fits (ofBigEndian b)
  | some (tag 3 (bytes b)) => fits (-1 - ofBigEndian b)
  | some (simple n) => if isNull n then some 0 else if isCount n then some n else none
  | _ => none

/-- The natural number of an item, null being zero, up to a limit. -/
def asNat? (limit : Nat) (c : Cbor) : Option Nat :=
  let fits (n : Nat) : Option Nat := if n ≤ limit then some n else none
  match c.untag with
  | some (unsigned n) => fits n
  | some (tag 2 (bytes b)) => fits (ofBigEndian b)
  | some (simple n) => if isNull n then some 0 else if isCount n then fits n else none
  | _ => none

/-- The number of an item, null being zero. -/
def asFloat? (c : Cbor) : Option Float :=
  match c.untag with
  | some (float x) => some x
  | some (unsigned n) => some (Binary64.nearest n 1)
  | some (negative n) => if n < twoTo 63 then some (Binary64.ofInt (-1 - n)) else none
  | some (tag 2 (bytes b)) =>
    if ofBigEndian b < twoTo 64 then some (Binary64.nearest (ofBigEndian b) 1) else none
  | some (tag 3 (bytes b)) =>
    if ofBigEndian b < twoTo 63 then some (Binary64.ofInt (-1 - ofBigEndian b)) else none
  | some (simple n) =>
    if isNull n then some 0 else if isCount n then some (Binary64.nearest n 1) else none
  | _ => none

/-- The text of an item, null being empty; every chunk must be UTF-8. -/
def asText? (c : Cbor) : Option Text :=
  match c.untag with
  | some (text chunks) => if chunks.all Text.isUtf8 then some chunks.flatten else none
  | some (simple n) => if isNull n then some [] else none
  | _ => none

/-- The items of a list, null being empty, each read by `read`. -/
def asList? {α : Type} (read : Cbor → Option α) (c : Cbor) : Option (List α) :=
  match c.untag with
  | some (array items) => items.mapM read
  | some (simple n) => if isNull n then some [] else none
  | _ => none

/-- The bytes of an item, null being empty; a list of small numbers will do. -/
def asBytes? (c : Cbor) : Option Text :=
  match c.untag with
  | some (bytes b) => some b
  | some (tag _ (bytes b)) => some b
  | some (array items) => items.mapM fun i => (i.asNat? 255).map Nat.toUInt8
  | some (simple n) => if isNull n then some [] else none
  | _ => none

/-- Two texts: a list of which the first two count, filled up with empty ones. -/
def asPair? (c : Cbor) : Option (Text × Text) :=
  match c.untag with
  | some (array items) =>
    match (items.take 2).mapM asText? with
    | some [a, b] => some (a, b)
    | some [a] => some (a, [])
    | some _ => some ([], [])
    | none => none
  | some (simple n) => if isNull n then some ([], []) else none
  | _ => none

/-- The fields of a record. -/
abbrev Record := List (Cbor × Cbor)

/-- Whether an item can be a key: a text in UTF-8, or an integer that is not below those of
a signed 64-bit word. -/
def isKey : Cbor → Bool
  | text chunks => chunks.all Text.isUtf8
  | unsigned _ => true
  | negative n => n < twoTo 63
  | _ => false

/-- The fields of an item, null having none. -/
def asRecord? (c : Cbor) : Option Record :=
  match c.untag with
  | some (map pairs) => if pairs.all fun p => isKey p.1 then some pairs else none
  | some (simple n) => if isNull n then some [] else none
  | _ => none

/-- Whether a key is a number, written as such or as a text. -/
def isKeyOf (number : Nat) : Cbor → Bool
  | unsigned n => n == number
  | text chunks => chunks.flatten == Text.ofNat number
  | _ => false

/-- Reads a field, `none` being the failure of `read`; the first of several with one key
counts, and a field that is missing has the value `missing`. -/
def Record.field? {α : Type} (r : Record) (number : Nat) (missing : α)
    (read : Cbor → Option α) : Option α :=
  match r.find? fun p => isKeyOf number p.1 with
  | some (_, value) => read value
  | none => some missing

end SchemePlayer.Cbor
