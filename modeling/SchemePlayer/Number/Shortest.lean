import SchemePlayer.Number.Binary64

/-!
# Shortest decimal digits

The digits with which a double is written: of all decimals that read back as the
same double, the one with the fewest digits, and of those the nearest. For one, two,
… seventeen digits the two neighbours of the value on that decimal grid are tested
in exact arithmetic; the first grid with a hit wins.
-/

namespace SchemePlayer.Shortest

/-- A positive decimal `0.d₁d₂… * 10 ^ point`, given by the number `d₁d₂…`. -/
structure Decimal where
  digits : Nat
  point : Int
  deriving DecidableEq, Repr

/-- A positive double with the ends of the interval that rounds to it, all three
over the common denominator `den`. -/
structure Span where
  low : Nat
  value : Nat
  high : Nat
  den : Nat
  closed : Bool

/-- The span of `m * 2 ^ q`. Below a power of two the neighbours are twice as close. -/
def Span.of (m : Nat) (q : Int) : Span :=
  let narrow : Bool := m == twoTo 52 && q > Binary64.leastExponent
  let up (n : Nat) : Nat := if 2 ≤ q then n * twoTo (q - 2).toNat else n
  { low := up (if narrow then 4 * m - 1 else 4 * m - 2)
    value := up (4 * m)
    high := up (4 * m + 2)
    den := if 2 ≤ q then 1 else twoTo (2 - q).toNat
    closed := m % 2 == 0 }

/-- Whether `num / den'` lies in the span, the fraction given by its numerator over
`den * scale`. -/
def Span.holds (s : Span) (num scale : Nat) : Bool :=
  let low := s.low * scale
  let high := s.high * scale
  (low < num && num < high) || (s.closed && (num == low || num == high))

/-- The hit of the grid with unit `10 ^ k`, if one of the value's two neighbours on it
lies in the span; of two hits the nearer, and of two as near the even one. -/
def Span.onGrid (s : Span) (k : Int) : Option Nat :=
  let unit := if 0 ≤ k then tenTo k.toNat else 1
  let scale := if 0 ≤ k then 1 else tenTo (-k).toNat
  -- the value in grid units is (value * scale) / (den * unit)
  let num := s.value * scale
  let step := s.den * unit
  let t := num / step
  let below := t * step
  let above := (t + 1) * step
  match decide (0 < t) && s.holds below scale, s.holds above scale with
  | true, true =>
    if num - below < above - num ∨ num - below = above - num ∧ t % 2 = 0 then some t
    else some (t + 1)
  | true, false => some t
  | false, true => some (t + 1)
  | false, false => none

/-- The number of decimal digits before the point, or minus the number of zeros after
it: the least `e` with `num / den < 10 ^ e`. -/
def decimalExponent (num den : Nat) : Int :=
  let guess : Int := ((num.log2 : Int) - den.log2) * 30103 / 100000
  let fits (e : Int) : Bool :=
    if 0 ≤ e then num < den * tenTo e.toNat else num * tenTo (-e).toNat < den
  if fits (guess - 1) then guess - 1
  else if fits guess then guess
  else if fits (guess + 1) then guess + 1
  else guess + 2

/-- Tries grids of ever more digits. -/
def Span.search (s : Span) (e : Int) : Nat → Nat → Decimal
  | 0, n => ⟨s.value / s.den, n⟩
  | fuel + 1, n =>
    match s.onGrid (e - n) with
    | some t => if t = tenTo n then ⟨1, e + 1⟩ else ⟨t, e⟩
    | none => s.search e fuel (n + 1)

/-- Drops zeros at the end. -/
def stripZeros : Nat → Nat → Nat
  | 0, n => n
  | fuel + 1, n => if n % 10 = 0 ∧ n ≠ 0 then stripZeros fuel (n / 10) else n

/-- The shortest decimal that reads back as `m * 2 ^ q`, for `m` positive. -/
def ofMagnitude (m : Nat) (q : Int) : Decimal :=
  let s := Span.of m q
  let d := s.search (decimalExponent s.value s.den) 18 1
  { d with digits := stripZeros 20 d.digits }

end SchemePlayer.Shortest
