import SchemePlayer.Number.Binary64
import SchemePlayer.Text.Basic

/-!
# Reading numbers

Decimal and hexadecimal floating-point literals, the words for infinity and
not-a-number, and integer literals with or without a base mark. Digits may be grouped
by underscores, one between two digits at a time.
-/

namespace SchemePlayer

/-- Why a text is no number. -/
inductive NumberError where
  | syntaxError
  | outOfRange
  deriving DecidableEq, Repr

namespace Reading

open Text (isDigit asciiLower)

/-- Whether an underscore may follow or has to be followed by a digit. -/
inductive Seen where
  | start
  | digit
  | underscore
  | other
  deriving DecidableEq

/-- Splits off a sign. -/
def sign : Text → Bool × Text
  | 45 :: rest => (true, rest)
  | 43 :: rest => (false, rest)
  | t => (false, t)

/-- The letter of a base mark such as `0x`, in lower case, and what follows the mark. -/
def baseMark? : Text → Option (UInt8 × Text)
  | 48 :: c :: rest =>
    let c := asciiLower c
    if c = 98 ∨ c = 111 ∨ c = 120 then some (c, rest) else none
  | _ => none

/-- Whether underscores stand only between digits, a base mark counting as a digit. -/
def groupedFrom (hex : Bool) : Seen → Text → Bool
  | seen, [] => seen ≠ .underscore
  | seen, c :: rest =>
    if isDigit c || (hex && 97 ≤ asciiLower c && asciiLower c ≤ 102) then
      groupedFrom hex .digit rest
    else if c = 95 then seen = .digit && groupedFrom hex .underscore rest
    else seen ≠ .underscore && groupedFrom hex .other rest

/-- Whether the underscores of a literal are well placed. -/
def grouped (t : Text) : Bool :=
  let (_, t) := sign t
  match baseMark? t with
  | some (mark, rest) => groupedFrom (mark = 120) .digit rest
  | none => groupedFrom false .start t

/-! ### Floating point -/

/-- The part of a literal before its exponent: the number written by its digits, how many
there are, how many of them stand after the point, and the rest of the text. -/
structure Mantissa where
  number : Nat := 0
  digits : Nat := 0
  fraction : Nat := 0
  point : Bool := false
  underscores : Bool := false

/-- The value of a digit in a base. -/
def digit? (hex : Bool) (c : UInt8) : Option Nat :=
  if isDigit c then some (c.toNat - 48)
  else if hex then Text.hexValue? c else none

/-- Reads the digits of a mantissa. -/
def mantissa (hex : Bool) : Mantissa → Text → Mantissa × Text
  | m, [] => (m, [])
  | m, c :: rest =>
    if c = 95 then mantissa hex { m with underscores := true } rest
    else if c = 46 then
      if m.point then (m, c :: rest) else mantissa hex { m with point := true } rest
    else match digit? hex c with
      | some d =>
        mantissa hex
          { m with
            number := m.number * (if hex then 16 else 10) + d
            digits := m.digits + 1
            fraction := if m.point then m.fraction + 1 else m.fraction } rest
      | none => (m, c :: rest)

/-- Reads the digits of an exponent, which counts no further than a hundred thousand:
`(exponent, underscores, rest)`. -/
def exponentDigits : Nat → Bool → Text → Nat × Bool × Text
  | e, u, [] => (e, u, [])
  | e, u, c :: rest =>
    if c = 95 then exponentDigits e true rest
    else if isDigit c then
      exponentDigits (if e < 10000 then e * 10 + (c.toNat - 48) else e) u rest
    else (e, u, c :: rest)

/-- Reads an exponent if its letter stands next; `none` when the letter is not followed
by digits. -/
def exponent? (letter : UInt8) (t : Text) : Option (Option (Int × Bool) × Text) :=
  match t with
  | [] => some (none, [])
  | c :: rest =>
    if asciiLower c ≠ letter then some (none, c :: rest)
    else
      let (negative, rest) := sign rest
      match rest with
      | [] => none
      | d :: _ =>
        if isDigit d then
          let (e, u, rest) := exponentDigits 0 false rest
          some (some (if negative then -(e : Int) else e, u), rest)
        else none

/-- The double nearest to `number * base ^ e`, where `number` has `digits` digits. Far
beyond the range of doubles the exact value does not matter. -/
def scaled (base number digits : Nat) (e : Int) : Float :=
  if number = 0 then 0
  else if e > 2000 then Binary64.infinity
  else if (digits : Int) + e < -2000 then 0
  else if 0 ≤ e then Binary64.nearest (number * Nat.pow base e.toNat) 1
  else Binary64.nearest number (Nat.pow base (-e).toNat)

/-- The word for an infinity or for not-a-number. -/
def word? (t : Text) : Option Float :=
  let (negative, body) := sign t
  let lower := body.map asciiLower
  if lower = Text.ofString "inf" ∨ lower = Text.ofString "infinity" then
    some (Binary64.withSign negative Binary64.infinity)
  else if t.map asciiLower = Text.ofString "nan" then some Binary64.nan
  else none

/-- Reads a literal of digits. -/
def literal (t : Text) : Except NumberError Float :=
  let (negative, body) := sign t
  let (hex, body) := match body with
    | 48 :: c :: d :: rest => if asciiLower c = 120 then (true, d :: rest) else (false, body)
    | _ => (false, body)
  let (m, rest) := mantissa hex {} body
  if m.digits = 0 then .error .syntaxError
  else match exponent? (if hex then 112 else 101) rest with
    | none => .error .syntaxError
    | some (e, rest) =>
      if hex ∧ e.isNone ∨ rest ≠ [] then .error .syntaxError
      else
        let underscores := m.underscores || (e.map (·.2)).getD false
        if underscores ∧ ¬ grouped t then .error .syntaxError
        else
          let shift := (e.map (·.1)).getD 0
          let x :=
            if hex then scaled 2 m.number (4 * m.digits) (shift - 4 * m.fraction)
            else scaled 10 m.number m.digits (shift - m.fraction)
          if x.isInf then .error .outOfRange else .ok (Binary64.withSign negative x)

/-- Reads a number. -/
def float (t : Text) : Except NumberError Float :=
  match word? t with
  | some x => .ok x
  | none => literal t

/-! ### Integers -/

/-- The value of a letter or digit as a digit of some base up to thirty-six. -/
def wideDigit? (c : UInt8) : Option Nat :=
  if isDigit c then some (c.toNat - 48)
  else
    let c := asciiLower c
    if 97 ≤ c ∧ c ≤ 122 then some (c.toNat - 87) else none

/-- The number written in a base, underscores skipped when allowed; the flag tells
whether there were any. -/
def digits? (base : Nat) (underscores : Bool) : Nat → Bool → Text → Option (Nat × Bool)
  | n, u, [] => some (n, u)
  | n, u, c :: rest =>
    if underscores ∧ c = 95 then digits? base underscores n true rest
    else match wideDigit? c with
      | some d => if d < base then digits? base underscores (n * base + d) u rest else none
      | none => none

/-- A natural number in a given base. -/
def natural? (base : Nat) (t : Text) : Option Nat :=
  if t = [] then none else (digits? base false 0 false t).map (·.1)

/-- A natural number whose base is told by its mark: `0b`, `0o` or just `0`, `0x`. -/
def markedNatural? (t : Text) : Option Nat :=
  if t = [] then none
  else
    let (base, body) := match t with
      | 48 :: rest =>
        match baseMark? t with
        | some (mark, d :: more) =>
          (if mark = 98 then 2 else if mark = 111 then 8 else 16, d :: more)
        | _ => (8, rest)
      | _ => (10, t)
    match digits? base true 0 false body with
    | some (n, u) => if u ∧ ¬ grouped t then none else some n
    | none => none

/-- A signed integer of the given width, its base told by its mark. -/
def integer? (width : Nat) (t : Text) : Option Int :=
  let (negative, body) := sign t
  match markedNatural? body with
  | none => none
  | some n =>
    if negative then if n ≤ twoTo (width - 1) then some (-(n : Int)) else none
    else if n < twoTo (width - 1) then some n else none

end Reading

end SchemePlayer
