import SchemePlayer.Number.Power

/-!
# Binary floating point as integers

A finite double is `m * 2 ^ q` with `m < 2 ^ 53`. Reading numbers, writing them and
taking remainders are done exactly on `m` and `q`; only the last step rounds.

- `Binary64.magnitude`: the pair `(m, q)` of a finite double.
- `Binary64.nearest`: the double nearest to a fraction of natural numbers, a tie
  going to the even neighbour.
-/

namespace SchemePlayer.Binary64

/-- The exponent of the smallest positive double. -/
def leastExponent : Int := -1074

/-- The value of a finite double without its sign, as `(m, q)` meaning `m * 2 ^ q`. -/
def magnitude (x : Float) : Nat × Int :=
  let bits := x.toBits.toNat
  let fraction : Nat := bits % twoTo 52
  let exponent : Nat := bits / twoTo 52 % twoTo 11
  if exponent = 0 then (fraction, leastExponent)
  else (fraction + twoTo 52, (exponent : Int) - 1075)

/-- Whether the sign bit is set. -/
def isNegative (x : Float) : Bool := x.toBits.toNat / twoTo 63 == 1

/-- Negates when asked. -/
def withSign (negative : Bool) (x : Float) : Float := if negative then -x else x

/-- Positive infinity. -/
def infinity : Float := Float.ofBits 0x7FF0000000000000

/-- The one not-a-number value. -/
def nan : Float := Float.ofBits 0x7FF8000000000000

/-- The double `m * 2 ^ q` for `m ≤ 2 ^ 53` and `q` not below the least exponent,
infinity when that is too large. -/
def pack (m : Nat) (q : Int) : Float :=
  let (m, q) := if m = twoTo 53 then (twoTo 52, q + 1) else (m, q)
  if m < twoTo 52 then Float.ofBits m.toUInt64
  else if q > 971 then infinity
  else Float.ofBits ((q + 1075).toNat * twoTo 52 + (m - twoTo 52)).toUInt64

/-- The natural number nearest to `num / den`, a tie going to the even neighbour. -/
def roundDiv (num den : Nat) : Nat :=
  let t := num / den
  let r := num % den
  if 2 * r < den then t
  else if 2 * r > den then t + 1
  else t + t % 2

/-- `num / (den * 2 ^ q)` as a fraction of natural numbers. -/
def scaleDown (num den : Nat) (q : Int) : Nat × Nat :=
  if 0 ≤ q then (num, den * twoTo q.toNat) else (num * twoTo (-q).toNat, den)

/-- The exponent at which a positive fraction has a 53-bit whole part, but no less
than the least exponent. -/
def exponentOf (num den : Nat) : Int :=
  let guess : Int := (num.log2 : Int) - den.log2 - 52
  let (n, d) := scaleDown num den guess
  let q := if n / d < twoTo 52 then guess - 1 else guess
  max q leastExponent

/-- The double nearest to `num / den`, infinity when that is too large. -/
def nearest (num den : Nat) : Float :=
  if num = 0 then Float.ofBits 0
  else
    let q := exponentOf num den
    let (n, d) := scaleDown num den q
    pack (roundDiv n d) q

/-- The double nearest to an integer. -/
def ofInt (n : Int) : Float := withSign (n < 0) (nearest n.natAbs 1)

/-- The bits that stand for a double in code; there a not-a-number value has its
lowest bit set. -/
def codeBits (x : Float) : UInt64 := if x.isNaN then 0x7FF8000000000001 else x.toBits

/-- The whole part of a finite double, toward zero; `none` for the others. -/
def truncate? (x : Float) : Option Int :=
  if x.isNaN || x.isInf then none
  else
    let (m, q) := magnitude x
    let n : Nat := if 0 ≤ q then m * twoTo q.toNat else m / twoTo (-q).toNat
    some (if isNegative x then -(n : Int) else n)

/-- The whole part of a double as a machine word of the given width; out of range, the
least value of that width. -/
def toWord (width : Nat) (x : Float) : Int :=
  match truncate? x with
  | some n =>
    if -(twoTo (width - 1) : Int) ≤ n ∧ n < twoTo (width - 1) then n else -(twoTo (width - 1) : Int)
  | none => -(twoTo (width - 1) : Int)

/-- The whole part of a double as a 32-bit handle. -/
def toHandle (x : Float) : Int32 := Int32.ofInt (toWord 32 x)

/-! ### Remainder -/

/-- The remainder of the division toward zero: exact, with the sign of the dividend. -/
def remainder (x y : Float) : Float :=
  if x.isNaN || y.isNaN || x.isInf || y == 0 then nan
  else if y.isInf then x
  else
    let (m, q) := magnitude x
    let (n, r) := magnitude y
    let low := min q r
    let a := m * twoTo (q - low).toNat
    let b := n * twoTo (r - low).toNat
    let rest := a % b
    let (num, den) := if 0 ≤ low then (rest * twoTo low.toNat, 1) else (rest, twoTo (-low).toNat)
    withSign (isNegative x) (nearest num den)

end SchemePlayer.Binary64
