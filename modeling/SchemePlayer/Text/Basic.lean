/-!
# Byte texts

Names, literals, file contents and messages are strings of *bytes*: by custom
they hold UTF-8, but nothing stops a class name or a literal from holding stray
bytes, and those must survive unchanged.

- `Text`: the type of all such strings.
- `Rune`: one unit of a text read as UTF-8, either a character or a stray byte.
- `Text.runes`, `Text.ofRunes`: the two directions of that reading. Reading
  loses nothing (`ofRunes_runes`), so trimming and case mapping can be defined
  on runes and still speak about bytes.
-/

namespace SchemePlayer

/-- A string of bytes. -/
abbrev Text := List UInt8

namespace Text

/-- The bytes of a character string. -/
def ofString (s : String) : Text := s.toByteArray.data.toList

instance : Coe String Text := ⟨ofString⟩

/-- Decimal digits of a natural number. -/
def ofNat (n : Nat) : Text := ofString (Nat.repr n)

/-- Decimal digits of an integer, with a minus sign when negative. -/
def ofInt (n : Int) : Text :=
  if n < 0 then 45 :: ofNat n.natAbs else ofNat n.natAbs

/-- Pads with zeros on the left up to a width. -/
def padZero (width : Nat) (t : Text) : Text :=
  List.replicate (width - t.length) 48 ++ t

/-- The hexadecimal digit of a number below sixteen. -/
def hexDigit (upper : Bool) (n : Nat) : UInt8 :=
  if n < 10 then (48 + n).toUInt8
  else if upper then (55 + n).toUInt8 else (87 + n).toUInt8

/-- The lowest `width` hexadecimal digits of a number, most significant first. -/
def hex (upper : Bool) : Nat → Nat → Text
  | 0, _ => []
  | width + 1, n => hex upper width (n / 16) ++ [hexDigit upper (n % 16)]

/-- Two lower-case hexadecimal digits for every byte. -/
def hexDump (t : Text) : Text := t.flatMap fun b => hex false 2 b.toNat

/-- The number a hexadecimal digit stands for. -/
def hexValue? (b : UInt8) : Option Nat :=
  if 48 ≤ b ∧ b ≤ 57 then some (b.toNat - 48)
  else if 97 ≤ b ∧ b ≤ 102 then some (b.toNat - 87)
  else if 65 ≤ b ∧ b ≤ 70 then some (b.toNat - 55)
  else none

/-- Whether a byte is an ASCII decimal digit. -/
def isDigit (b : UInt8) : Bool := 48 ≤ b && b ≤ 57

/-- The lower-case form of an ASCII letter, any other byte unchanged. -/
def asciiLower (b : UInt8) : UInt8 := if 65 ≤ b ∧ b ≤ 90 then b + 32 else b

/-- Joins texts with a separator between neighbours. -/
def join (sep : Text) : List Text → Text
  | [] => []
  | [t] => t
  | t :: ts => t ++ sep ++ join sep ts

/-- Splits at the first occurrence of a byte; `none` when it does not occur. -/
def cut? (b : UInt8) : Text → Option (Text × Text)
  | [] => none
  | c :: rest =>
    if c = b then some ([], rest)
    else (cut? b rest).map fun (before, after) => (c :: before, after)

/-- Adds one byte in front of a list of pieces: the separator opens a new piece. -/
def splitStep (b c : UInt8) (pieces : List Text) : List Text :=
  if c = b then [] :: pieces
  else match pieces with
    | [] => [[c]]
    | piece :: pieces => (c :: piece) :: pieces

/-- The pieces between the occurrences of a byte, at least one. -/
def splitOn (b : UInt8) (t : Text) : List Text := t.foldr (splitStep b) [[]]

/-- The text before a given ending, when it has that ending. -/
def dropEnding? (ending t : Text) : Option Text :=
  if ending.isSuffixOf t then some (t.take (t.length - ending.length)) else none

/-- The text after a given beginning, when it has that beginning. -/
def dropBeginning? (beginning t : Text) : Option Text :=
  if beginning.isPrefixOf t then some (t.drop beginning.length) else none

/-- Replaces the first occurrence of a byte. -/
def replaceFirst (old new : UInt8) : Text → Text
  | [] => []
  | c :: rest => if c = old then new :: rest else c :: replaceFirst old new rest

/-- Lexicographic order on bytes. -/
def lt : Text → Text → Bool
  | _, [] => false
  | [], _ :: _ => true
  | a :: s, b :: t => a < b || (a == b && lt s t)

/-- Ascending order of texts, equal texts kept in their order. -/
def sort (ts : List Text) : List Text := ts.mergeSort fun a b => !lt b a

end Text

/-! ### Runes -/

/-- One unit of a text read as UTF-8: a character, or a byte that belongs to none. -/
inductive Rune where
  | char (c : Char)
  | stray (b : UInt8)
  deriving DecidableEq, Repr

namespace Rune

/-- The code point of a rune; a stray byte counts as the replacement character. -/
def code : Rune → Nat
  | char c => c.toNat
  | stray _ => 0xFFFD

/-- The bytes a rune was read from. -/
def bytes : Rune → Text
  | char c => String.utf8EncodeChar c
  | stray b => [b]

end Rune

namespace Text

/-- Whether a byte continues a character begun earlier. -/
def isContinuation (b : UInt8) : Bool := 0x80 ≤ b && b < 0xC0

/-- The character with a code point, refused when the code point is out of the
range that a sequence of this length may encode. -/
def charIn? (least code : Nat) : Option Char :=
  if h : code.isValidChar then if least ≤ code then some (Char.ofNatAux code h) else none
  else none

/-- The six payload bits of a continuation byte. -/
def payload (b : UInt8) : Nat := b.toNat % 64

/-- The character at the head of a text and the number of bytes after the first
that belong to it. Overlong forms and surrogates encode no character. -/
def headChar? : Text → Option (Char × Nat)
  | [] => none
  | a :: rest =>
    if a < 0x80 then (charIn? 0 a.toNat).map (·, 0)
    else if 0xC0 ≤ a ∧ a < 0xE0 then
      match rest with
      | b :: _ =>
        if isContinuation b then
          (charIn? 0x80 (a.toNat % 32 * 64 + payload b)).map (·, 1)
        else none
      | [] => none
    else if 0xE0 ≤ a ∧ a < 0xF0 then
      match rest with
      | b :: c :: _ =>
        if isContinuation b && isContinuation c then
          (charIn? 0x800 ((a.toNat % 16 * 64 + payload b) * 64 + payload c)).map (·, 2)
        else none
      | _ => none
    else if 0xF0 ≤ a ∧ a < 0xF8 then
      match rest with
      | b :: c :: d :: _ =>
        if isContinuation b && isContinuation c && isContinuation d then
          (charIn? 0x10000
            (((a.toNat % 8 * 64 + payload b) * 64 + payload c) * 64 + payload d)).map (·, 3)
        else none
      | _ => none
    else none

/-- Reads runes, the first `skip` bytes being left over from a rune already read. -/
def runesFrom : Nat → Text → List Rune
  | _, [] => []
  | skip + 1, _ :: rest => runesFrom skip rest
  | 0, b :: rest =>
    match headChar? (b :: rest) with
    | some (c, more) => .char c :: runesFrom more rest
    | none => .stray b :: runesFrom 0 rest

/-- A text read as UTF-8. -/
def runes (t : Text) : List Rune := runesFrom 0 t

/-- The bytes of a list of runes. -/
def ofRunes (rs : List Rune) : Text := rs.flatMap Rune.bytes

/-- Whether every byte belongs to a character. -/
def isUtf8 (t : Text) : Bool :=
  (runes t).all fun | .char _ => true | .stray _ => false

/-- The characters of a text, stray bytes read as the replacement character. -/
def chars (t : Text) : List Char :=
  (runes t).map fun | .char c => c | .stray _ => Char.ofNat 0xFFFD

/-- The number of runes of a text. -/
def runeCount (t : Text) : Nat := (runes t).length

/-- The bytes of a list of characters. -/
def ofChars (cs : List Char) : Text := cs.flatMap String.utf8EncodeChar

/-- The character string of a text, stray bytes read as the replacement character. -/
def toString (t : Text) : String := String.ofList (chars t)

/-! ### White space -/

/-- The code points with the white-space property. -/
def isSpaceCode (n : Nat) : Bool :=
  (9 ≤ n && n ≤ 13) || n == 0x20 || n == 0x85 || n == 0xA0 || n == 0x1680
    || (0x2000 ≤ n && n ≤ 0x200A) || n == 0x2028 || n == 0x2029 || n == 0x202F
    || n == 0x205F || n == 0x3000

/-- Whether a rune is white space; a stray byte never is. -/
def isSpaceRune : Rune → Bool
  | .char c => isSpaceCode c.toNat
  | .stray _ => false

/-- Drops from the end of a list what satisfies a test. -/
def dropEndWhile {α : Type} (p : α → Bool) (l : List α) : List α :=
  (l.reverse.dropWhile p).reverse

/-- A text without the white space at its two ends. -/
def trim (t : Text) : Text :=
  ofRunes (dropEndWhile isSpaceRune ((runes t).dropWhile isSpaceRune))

end Text

end SchemePlayer
