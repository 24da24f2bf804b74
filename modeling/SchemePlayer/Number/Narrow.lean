import SchemePlayer.Number.Binary64

/-!
# Narrow binary formats

Half and single precision numbers as bit patterns. Every one of them is a double;
`NarrowFormat.encode?` says which doubles are one of them.
-/

namespace SchemePlayer

/-- A binary format with so many bits for the exponent and for the fraction. -/
structure NarrowFormat where
  exponentBits : Nat
  fractionBits : Nat
  deriving DecidableEq

namespace NarrowFormat

/-- Half precision, two bytes. -/
def half : NarrowFormat := ⟨5, 10⟩

/-- Single precision, four bytes. -/
def single : NarrowFormat := ⟨8, 23⟩

/-- The exponent of the smallest positive number. -/
def leastExponent (f : NarrowFormat) : Int :=
  2 - (twoTo (f.exponentBits - 1) : Nat) - (f.fractionBits : Int)

/-- The exponent field of infinities and of what is not a number. -/
def topField (f : NarrowFormat) : Nat := twoTo f.exponentBits - 1

/-- The number of a bit pattern. -/
def decode (f : NarrowFormat) (bits : Nat) : Float :=
  let fraction := bits % twoTo f.fractionBits
  let field := bits / twoTo f.fractionBits % twoTo f.exponentBits
  let negative := bits / twoTo (f.fractionBits + f.exponentBits) % 2 == 1
  if field = f.topField then
    if fraction = 0 then Binary64.withSign negative Binary64.infinity else Binary64.nan
  else
    let (n, q) : Nat × Int :=
      if field = 0 then (fraction, f.leastExponent)
      else (fraction + twoTo f.fractionBits, f.leastExponent + (field - 1 : Nat))
    let (num, den) := if 0 ≤ q then (n * twoTo q.toNat, 1) else (n, twoTo (-q).toNat)
    Binary64.withSign negative (Binary64.nearest num den)

/-- The bit pattern of a finite double, if the format has that number. -/
def encode? (f : NarrowFormat) (x : Float) : Option Nat :=
  let signBit := if Binary64.isNegative x then twoTo (f.fractionBits + f.exponentBits) else 0
  let (m, q) := Binary64.magnitude x
  if m = 0 then some signBit
  else
    let e := max f.leastExponent (q + m.log2 - f.fractionBits)
    let (n, rest) : Nat × Nat :=
      if e ≤ q then (m * twoTo (q - e).toNat, 0)
      else (m / twoTo (e - q).toNat, m % twoTo (e - q).toNat)
    if rest ≠ 0 then none
    else if n < twoTo f.fractionBits then some (signBit + n)
    else
      let field := (e - f.leastExponent).toNat + 1
      if field < f.topField then
        some (signBit + field * twoTo f.fractionBits + (n - twoTo f.fractionBits))
      else none

end NarrowFormat

end SchemePlayer
