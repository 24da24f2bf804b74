import SchemePlayer.Number.Shortest
import SchemePlayer.Text.Basic

/-!
# Writing numbers

Numbers are written with their shortest digits, positionally while the decimal
exponent is between -4 and 5 and otherwise with an exponent of at least two digits.
-/

namespace SchemePlayer

/-- The choices of a number format. -/
structure NumberFormat where
  /-- least decimal exponent written positionally -/
  leastFixed : Int
  /-- least decimal exponent above that written with an exponent -/
  leastScientific : Int
  /-- least number of digits of an exponent -/
  exponentWidth : Nat
  nan : Text
  infinity : Text
  negativeInfinity : Text

/-- The format of every number that the player shows: `100000`, `1e+06`, `1e-05`, `-0`. -/
def NumberFormat.plain : NumberFormat where
  leastFixed := -4
  leastScientific := 6
  exponentWidth := 2
  nan := "NaN"
  infinity := "+Inf"
  negativeInfinity := "-Inf"

namespace NumberFormat

/-- Digits with an exponent: one digit, the point and the others, the exponent. -/
def scientific (f : NumberFormat) (digits : Text) (exponent : Int) : Text :=
  let mantissa := match digits with
    | [] => [48]
    | [d] => [d]
    | d :: ds => d :: 46 :: ds
  let sign : UInt8 := if exponent < 0 then 45 else 43
  mantissa ++ 101 :: sign :: Text.padZero f.exponentWidth (Text.ofNat exponent.natAbs)

/-- Digits in positional notation, the point after `point` of them. -/
def positional (digits : Text) (point : Int) : Text :=
  if point ≤ 0 then 48 :: 46 :: (List.replicate (-point).toNat 48 ++ digits)
  else
    let n := point.toNat
    if digits.length ≤ n then digits ++ List.replicate (n - digits.length) 48
    else digits.take n ++ 46 :: digits.drop n

/-- The text of a number without its sign. -/
def unsigned (f : NumberFormat) (x : Float) : Text :=
  match Binary64.magnitude x with
  | (0, _) => [48]
  | (m, q) =>
    let d := Shortest.ofMagnitude m q
    let digits := Text.ofNat d.digits
    let exponent := d.point - 1
    if exponent < f.leastFixed ∨ f.leastScientific ≤ exponent then f.scientific digits exponent
    else positional digits d.point

/-- The text of a number. -/
def render (f : NumberFormat) (x : Float) : Text :=
  if x.isNaN then f.nan
  else if x.isInf then (if Binary64.isNegative x then f.negativeInfinity else f.infinity)
  else if Binary64.isNegative x then 45 :: f.unsigned x
  else f.unsigned x

end NumberFormat

end SchemePlayer
