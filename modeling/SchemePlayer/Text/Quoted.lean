import SchemePlayer.Text.Basic
import SchemePlayer.Text.Printable

/-!
# Quoted literals

A literal is written between double quotes: printable characters stand for
themselves, quotes and backslashes are escaped, control characters have their
customary letters, and what is left is written in hexadecimal. A stray byte is
written as one byte, so a literal can hold any text.

Reading is more liberal than writing: it also accepts octal escapes, a single
character between apostrophes, and raw literals between grave accents.
-/

namespace SchemePlayer.Text

/-! ### Writing -/

/-- The letter that escapes a control character. -/
def escapeLetter? (code : Nat) : Option UInt8 :=
  match code with
  | 7 => some 97
  | 8 => some 98
  | 12 => some 102
  | 10 => some 110
  | 13 => some 114
  | 9 => some 116
  | 11 => some 118
  | _ => none

/-- The written form of one character of a literal. -/
def quoteChar (c : Char) : Text :=
  let n := c.toNat
  if n = 34 ∨ n = 92 then [92, n.toUInt8]
  else if isPrintable n then String.utf8EncodeChar c
  else match escapeLetter? n with
    | some letter => [92, letter]
    | none =>
      if n < 32 ∨ n = 127 then 92 :: 120 :: hex false 2 n
      else if n < 0x10000 then 92 :: 117 :: hex false 4 n
      else 92 :: 85 :: hex false 8 n

/-- The written form of one rune of a literal. -/
def quoteRune : Rune → Text
  | .char c => quoteChar c
  | .stray b => 92 :: 120 :: hex false 2 b.toNat

/-- The double-quoted form of a text. -/
def quote (t : Text) : Text := 34 :: ((runes t).flatMap quoteRune ++ [34])

/-! ### Reading -/

/-- The number written by `width` hexadecimal digits, and what follows them. -/
def hexNumber? : Nat → Nat → Text → Option (Nat × Text)
  | 0, acc, t => some (acc, t)
  | _ + 1, _, [] => none
  | width + 1, acc, b :: rest =>
    match hexValue? b with
    | some d => hexNumber? width (acc * 16 + d) rest
    | none => none

/-- The control character an escape letter stands for. -/
def escapedControl? (letter : UInt8) : Option UInt8 :=
  match letter with
  | 97 => some 7
  | 98 => some 8
  | 102 => some 12
  | 110 => some 10
  | 114 => some 13
  | 116 => some 9
  | 118 => some 11
  | _ => none

/-- The bytes an escape sequence stands for, given what follows its backslash, and the
rest of the text. Only the quote mark in use may be escaped. -/
def unescape? (mark : UInt8) : Text → Option (Text × Text)
  | [] => none
  | c :: rest =>
    match escapedControl? c with
    | some b => some ([b], rest)
    | none =>
      if c = 120 then
        (hexNumber? 2 0 rest).map fun (n, rest) => ([n.toUInt8], rest)
      else if c = 117 ∨ c = 85 then
        match hexNumber? (if c = 117 then 4 else 8) 0 rest with
        | some (n, rest) => if n.isValidChar then some (String.utf8EncodeChar (Char.ofNat n), rest) else none
        | none => none
      else if 48 ≤ c ∧ c ≤ 55 then
        match rest with
        | d :: e :: rest =>
          if 48 ≤ d ∧ d ≤ 55 ∧ 48 ≤ e ∧ e ≤ 55 then
            let n := (c.toNat - 48) * 64 + (d.toNat - 48) * 8 + (e.toNat - 48)
            if n ≤ 255 then some ([n.toUInt8], rest) else none
          else none
        | _ => none
      else if c = 92 then some ([92], rest)
      else if c = mark then some ([c], rest)
      else none

/-- One character of a literal, as bytes, and the rest of the text. A stray byte reads
as the replacement character. -/
def literalChar? (mark : UInt8) : Text → Option (Text × Text)
  | [] => none
  | c :: rest =>
    if c = 10 then none
    else if c = 92 then unescape? mark rest
    else if c < 0x80 then some ([c], rest)
    else match headChar? (c :: rest) with
      | some (ch, more) => some (String.utf8EncodeChar ch, rest.drop more)
      | none => some (String.utf8EncodeChar (Char.ofNat 0xFFFD), rest)

/-- The characters up to the closing double quote, which must end the text. -/
def literalBody? : Nat → Text → Option Text
  | 0, _ => none
  | _ + 1, [] => none
  | fuel + 1, c :: rest =>
    if c = 34 then if rest.isEmpty then some [] else none
    else match literalChar? 34 (c :: rest) with
      | some (bytes, rest) => (literalBody? fuel rest).map (bytes ++ ·)
      | none => none

/-- The text that a literal stands for: double-quoted, a single character between
apostrophes, or raw between grave accents. -/
def unquote? (t : Text) : Option Text :=
  match t with
  | 34 :: rest => literalBody? (rest.length + 1) rest
  | 39 :: rest =>
    if rest = [39] then some []
    else match rest with
      | 39 :: _ => none
      | _ =>
        match literalChar? 39 rest with
        | some (bytes, [39]) => some bytes
        | _ => none
  | 96 :: rest =>
    match cut? 96 rest with
    | some (body, []) => some (body.filter (· ≠ 13))
    | _ => none
  | _ => none

end SchemePlayer.Text
