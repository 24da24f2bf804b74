/-!
# Powers

Powers of two bound machine words and scale binary fractions; powers of ten scale decimal
ones.
-/

namespace SchemePlayer

/-- The power of two with an exponent. -/
abbrev twoTo (n : Nat) : Nat := Nat.pow 2 n

/-- The power of ten with an exponent. -/
abbrev tenTo (n : Nat) : Nat := Nat.pow 10 n

end SchemePlayer
