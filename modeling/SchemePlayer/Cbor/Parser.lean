import SchemePlayer.Cbor.Basic

/-!
# Reading CBOR

Reads one data item that takes up the whole input. Open lengths and integers in more
bytes than needed are accepted; nesting and the sizes of arrays and maps are limited.
-/

namespace SchemePlayer.Cbor

/-- How deep arrays and maps may be nested. -/
def maxDepth : Nat := 32

/-- How many items an array, and how many pairs a map may have. -/
def maxCount : Nat := 131072

/-- The head of an item. -/
structure Head where
  major : Nat
  /-- the five low bits of the first byte -/
  low : Nat
  /-- the number that belongs to the item -/
  argument : Nat
  deriving DecidableEq

namespace Head

/-- Whether the length is open. -/
def isOpen (h : Head) : Bool := h.low == 31

end Head

/-- The number of bytes that hold the argument, by the low bits of the first byte. -/
def argumentSize (low : Nat) : Nat :=
  if low = 24 then 1 else if low = 25 then 2 else if low = 26 then 4 else if low = 27 then 8 else 0

/-- Reads a head. Only strings, arrays and maps can have open length, and the values 28 to
30 of the low bits are reserved, as are two-byte forms of the first simple values. -/
def readHead? : Text → Option (Head × Text)
  | [] => none
  | b :: rest =>
    let major := b.toNat / 32
    let low := b.toNat % 32
    if low < 24 then some (⟨major, low, low⟩, rest)
    else if low = 31 then
      if 2 ≤ major ∧ major ≤ 5 then some (⟨major, low, 0⟩, rest) else none
    else if 28 ≤ low then none
    else
      let size := argumentSize low
      if rest.length < size then none
      else
        let argument := ofBigEndian (rest.take size)
        if major = 7 ∧ low = 24 ∧ argument < 32 then none
        else some (⟨major, low, argument⟩, rest.drop size)

/-- Takes so many bytes. -/
def take? (count : Nat) (t : Text) : Option (Text × Text) :=
  if t.length < count then none else some (t.take count, t.drop count)

/-- Reads the chunks of a string of open length, up to the break. -/
def chunks? (major : Nat) : Nat → Text → Option (List Text × Text)
  | 0, _ => none
  | _ + 1, [] => none
  | fuel + 1, b :: rest =>
    if b = 0xFF then some ([], rest)
    else match readHead? (b :: rest) with
      | none => none
      | some (h, rest) =>
        if h.major ≠ major ∨ h.isOpen then none
        else match take? h.argument rest with
          | none => none
          | some (chunk, rest) =>
            match chunks? major fuel rest with
            | none => none
            | some (chunks, rest) => some (chunk :: chunks, rest)

/-- The value of a simple item or number. -/
def ofSimple (h : Head) : Cbor :=
  if h.low = 25 then float (NarrowFormat.half.decode h.argument)
  else if h.low = 26 then float (NarrowFormat.single.decode h.argument)
  else if h.low = 27 then float (Float.ofBits h.argument.toUInt64)
  else simple h.argument

/-- Pairs up neighbours; `none` for an odd number of items. -/
def pairs? : List Cbor → Option (List (Cbor × Cbor))
  | [] => some []
  | [_] => none
  | key :: value :: rest => (pairs? rest).map ((key, value) :: ·)

/-- An array or a map of some items. -/
def container? (major : Nat) (items : List Cbor) : Option Cbor :=
  if major = 4 then if items.length ≤ maxCount then some (array items) else none
  else match pairs? items with
    | some pairs => if pairs.length ≤ maxCount then some (map pairs) else none
    | none => none

mutual

/-- Reads an item, of which `depth` arrays, maps and tags are around. -/
def item? : Nat → Nat → Text → Option (Cbor × Text)
  | 0, _, _ => none
  | fuel + 1, depth, t =>
    match readHead? t with
    | none => none
    | some (h, rest) =>
      match h.major with
      | 0 => some (unsigned h.argument, rest)
      | 1 => some (negative h.argument, rest)
      | 2 =>
        if h.isOpen then (chunks? 2 fuel rest).map fun (chunks, rest) => (bytes chunks.flatten, rest)
        else (take? h.argument rest).map fun (b, rest) => (bytes b, rest)
      | 3 =>
        if h.isOpen then (chunks? 3 fuel rest).map fun (chunks, rest) => (text chunks, rest)
        else (take? h.argument rest).map fun (b, rest) => (text [b], rest)
      | 6 =>
        -- tags that follow each other directly nest from the second on
        let depth := if (rest.head?).any (fun b => b.toNat / 32 == 6) then depth + 1 else depth
        if depth ≤ maxDepth then
          (item? fuel depth rest).map fun (content, rest) => (tag h.argument content, rest)
        else none
      | 7 => some (ofSimple h, rest)
      | major =>
        if maxDepth ≤ depth then none
        else if h.isOpen then
          match untilBreak? fuel (depth + 1) rest with
          | none => none
          | some (items, rest) => (container? major items).map (·, rest)
        else if maxCount < h.argument then none
        else
          match items? fuel (depth + 1) (if major = 4 then h.argument else 2 * h.argument) rest with
          | none => none
          | some (items, rest) => (container? major items).map (·, rest)

/-- Reads so many items. -/
def items? : Nat → Nat → Nat → Text → Option (List Cbor × Text)
  | _, _, 0, t => some ([], t)
  | 0, _, _ + 1, _ => none
  | fuel + 1, depth, count + 1, t =>
    match item? fuel depth t with
    | none => none
    | some (item, rest) =>
      match items? fuel depth count rest with
      | none => none
      | some (items, rest) => some (item :: items, rest)

/-- Reads items up to the break. -/
def untilBreak? : Nat → Nat → Text → Option (List Cbor × Text)
  | 0, _, _ => none
  | fuel + 1, depth, t =>
    match t with
    | [] => none
    | 0xFF :: rest => some ([], rest)
    | _ =>
      match item? fuel depth t with
      | none => none
      | some (item, rest) =>
        match untilBreak? fuel depth rest with
        | none => none
        | some (items, rest) => some (item :: items, rest)

end

/-- Reads the item that some bytes encode, all of them. Every call reads a byte or comes
back from one that did, so the length bounds their number. -/
def parse? (t : Text) : Option Cbor :=
  match item? (2 * t.length + 2) 0 t with
  | some (item, []) => some item
  | _ => none

end SchemePlayer.Cbor
