import SchemePlayer.Number.Reading
import SchemePlayer.Toml.Basic

/-!
# TOML literals without quotes

Truth values, whole numbers, other numbers, dates and times: everything that is written
as one word (or two, for a date and a time with a blank between them).
-/

namespace SchemePlayer.Toml

open Text (isDigit)

/-- Whether a byte can be part of a word. -/
def isWordByte (b : UInt8) : Bool :=
  isDigit b || (65 ≤ b && b ≤ 90) || (97 ≤ b && b ≤ 122) || b == 95 || b == 43 || b == 45
    || b == 58 || b == 46

/-- Whether underscores stand only between digits, of which there is at least one. -/
def areDigits (isGood : UInt8 → Bool) (t : Text) : Bool :=
  (Text.splitOn 95 t).all fun group => !group.isEmpty && group.all isGood

/-- A text without its underscores. -/
def plainDigits (t : Text) : Text := t.filter (· ≠ 95)

/-- A whole number in 64 bits. -/
def fits (n : Int) : Option Toml :=
  if -(twoTo 63) ≤ n ∧ n < twoTo 63 then some (.integer n) else none

/-- A whole number with a mark of its base. -/
def based? (base : Nat) (t : Text) : Option Toml :=
  let isGood (b : UInt8) : Bool := (Text.hexValue? b).any (· < base)
  if areDigits isGood t then (Reading.natural? base (plainDigits t)).bind fun n => fits n else none

/-- Splits off a sign; the flag tells whether there is one. -/
def splitSign : Text → Bool × Bool × Text
  | 43 :: rest => (true, false, rest)
  | 45 :: rest => (true, true, rest)
  | t => (false, false, t)

/-- Whether a number starts with a zero that says nothing. -/
def hasLeadingZero (t : Text) : Bool := 1 < t.length && t.head? == some 48

/-- A whole number in base ten, with or without a sign. -/
def decimal? (t : Text) : Option Toml :=
  let (_, negative, digits) := splitSign t
  if areDigits isDigit digits && !hasLeadingZero digits then
    (Reading.natural? 10 (plainDigits digits)).bind fun n => fits (if negative then -n else n)
  else none

/-- The part of a number before its exponent, and the exponent. -/
def splitExponent (t : Text) : Text × Option Text :=
  match t.span fun b => b ≠ 101 && b ≠ 69 with
  | (before, _ :: after) => (before, some after)
  | (before, []) => (before, none)

/-- A number with a point or an exponent, or one of the words for the others. -/
def float? (t : Text) : Option Toml :=
  let (_, _, body) := splitSign t
  if body = "inf" ∨ body = "nan" then some (.float t)
  else
    let (mantissa, exponent) := splitExponent body
    let (whole, fraction) : Text × Option Text := match Text.cut? 46 mantissa with
      | some (a, b) => (a, some b)
      | none => (mantissa, none)
    let isGood (part : Option Text) : Bool := match part with
      | none => true
      | some part => areDigits isDigit part
    let exponentDigits := exponent.map fun e => (splitSign e).2.2
    if exponent.isNone && fraction.isNone then none
    else if areDigits isDigit whole && !hasLeadingZero whole && isGood fraction
        && isGood exponentDigits then
      match Reading.float (plainDigits t) with
      | .ok _ => some (.float t)
      | .error _ => none
    else none

/-! ### Dates and times -/

/-- A number of exactly so many digits at the head of a text. -/
def fixed? (width : Nat) (t : Text) : Option (Nat × Text) :=
  let digits := t.take width
  if digits.length = width ∧ digits.all isDigit then
    (Reading.natural? 10 digits).map (·, t.drop width)
  else none

/-- The number of days of a month. -/
def daysOf (year month : Nat) : Nat :=
  if month = 2 then
    if (year % 4 = 0 ∧ year % 100 ≠ 0) ∨ year % 400 = 0 then 29 else 28
  else if month = 4 ∨ month = 6 ∨ month = 9 ∨ month = 11 then 30 else 31

/-- A date at the head of a text; the result is what follows it. -/
def date? (t : Text) : Option Text := do
  let (year, t) ← fixed? 4 t
  let t ← Text.dropBeginning? [45] t
  let (month, t) ← fixed? 2 t
  let t ← Text.dropBeginning? [45] t
  let (day, t) ← fixed? 2 t
  if 1 ≤ month ∧ month ≤ 12 ∧ 1 ≤ day ∧ day ≤ daysOf year month then some t else none

/-- A fraction of a second at the head of a text, if there is one. -/
def fraction? : Text → Option Text
  | 46 :: rest => if rest.head?.any isDigit then some (rest.dropWhile isDigit) else none
  | t => some t

/-- A time at the head of a text, of which the seconds may be left out. -/
def time? (t : Text) : Option Text := do
  let (hour, t) ← fixed? 2 t
  let t ← Text.dropBeginning? [58] t
  let (minute, t) ← fixed? 2 t
  if 24 ≤ hour ∨ 60 ≤ minute then none
  else match t with
    | 58 :: t => do
      let (second, t) ← fixed? 2 t
      if 60 ≤ second then none else fraction? t
    | t => some t

/-- The distance to universal time at the head of a text, if there is one. -/
def zone? : Text → Option Text
  | [] => some []
  | b :: t =>
    if b = 90 ∨ b = 122 then some t
    else if b = 43 ∨ b = 45 then do
      let (hour, t) ← fixed? 2 t
      let t ← Text.dropBeginning? [58] t
      let (minute, t) ← fixed? 2 t
      if 24 ≤ hour ∨ 60 ≤ minute then none else some t
    else none

/-- Whether a text is a date, a time, or both with or without a zone. -/
def isMoment (t : Text) : Bool :=
  match date? t with
  | some [] => true
  | some (b :: rest) =>
    (b == 84 || b == 116 || b == 32) && ((time? rest).bind zone?) == some []
  | none => time? t == some []

/-! ### Words -/

/-- The value of a word. -/
def word? (t : Text) : Option Toml :=
  if t = "true" then some (.bool true)
  else if t = "false" then some (.bool false)
  else if isMoment t then some (.date t)
  else match t with
    | 48 :: 120 :: digits => based? 16 digits
    | 48 :: 111 :: digits => based? 8 digits
    | 48 :: 98 :: digits => based? 2 digits
    | t => (decimal? t).or (float? t)

/-- The word at the head of a text: a date, a blank and a time are one. -/
def splitWord (t : Text) : Text × Text :=
  let (first, rest) := t.span isWordByte
  match rest with
  | 32 :: more =>
    if date? first == some [] && more.head?.any isDigit then
      let (second, rest) := more.span isWordByte
      (first ++ 32 :: second, rest)
    else (first, rest)
  | _ => (first, rest)

end SchemePlayer.Toml
