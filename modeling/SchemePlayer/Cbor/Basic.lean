import SchemePlayer.Number.Narrow
import SchemePlayer.Text.Basic

/-!
# CBOR

Data items of the concise binary object representation, and their canonical encoding:
lengths and integers in as few bytes as possible, numbers in the narrowest format that
has them, and no item of open length.
-/

namespace SchemePlayer

/-- A data item. -/
inductive Cbor where
  | unsigned (n : Nat)
  /-- the integer `-1 - n` -/
  | negative (n : Nat)
  | bytes (b : Text)
  /-- a text in the chunks it came in, usually one -/
  | text (chunks : List Text)
  | array (items : List Cbor)
  | map (pairs : List (Cbor × Cbor))
  | tag (number : Nat) (content : Cbor)
  | simple (n : Nat)
  | float (x : Float)

namespace Cbor

/-- A text in one chunk. -/
def ofText (t : Text) : Cbor := text [t]

/-- An integer. -/
def ofInt (n : Int) : Cbor := if 0 ≤ n then unsigned n.toNat else negative (-1 - n).toNat

/-- The lowest bytes of a number, highest first. -/
def bigEndian : Nat → Nat → Text
  | 0, _ => []
  | width + 1, n => bigEndian width (n / 256) ++ [(n % 256).toUInt8]

/-- The number stored in some bytes, highest first. -/
def ofBigEndian (bs : Text) : Nat := bs.foldl (fun n b => n * 256 + b.toNat) 0

/-- The head of an item: its major type and the number that belongs to it. -/
def head (major n : Nat) : Text :=
  let lead (low : Nat) : UInt8 := (major * 32 + low).toUInt8
  if n < 24 then [lead n]
  else if n < twoTo 8 then lead 24 :: bigEndian 1 n
  else if n < twoTo 16 then lead 25 :: bigEndian 2 n
  else if n < twoTo 32 then lead 26 :: bigEndian 4 n
  else lead 27 :: bigEndian 8 n

/-- The shortest encoding of a number. -/
def encodeFloat (x : Float) : Text :=
  if x.isNaN then [0xF9, 0x7E, 0x00]
  else if x.isInf then [0xF9, if Binary64.isNegative x then 0xFC else 0x7C, 0x00]
  else match NarrowFormat.half.encode? x with
    | some bits => 0xF9 :: bigEndian 2 bits
    | none =>
      match NarrowFormat.single.encode? x with
      | some bits => 0xFA :: bigEndian 4 bits
      | none => 0xFB :: bigEndian 8 x.toBits.toNat

mutual

/-- The canonical encoding of an item; pairs of a map stay in their order. -/
def encode : Cbor → Text
  | unsigned n => head 0 n
  | negative n => head 1 n
  | bytes b => head 2 b.length ++ b
  | text chunks => head 3 chunks.flatten.length ++ chunks.flatten
  | array items => head 4 items.length ++ encodeItems items
  | map pairs => head 5 pairs.length ++ encodePairs pairs
  | tag number content => head 6 number ++ encode content
  | simple n => head 7 n
  | float x => encodeFloat x

/-- The encodings of some items, one after another. -/
def encodeItems : List Cbor → Text
  | [] => []
  | item :: rest => encode item ++ encodeItems rest

/-- The encodings of some pairs, one after another. -/
def encodePairs : List (Cbor × Cbor) → Text
  | [] => []
  | (key, value) :: rest => encode key ++ encode value ++ encodePairs rest

end

end Cbor

end SchemePlayer
