import SchemePlayer.Text.Basic

/-!
# Base 64

Bytes written with sixty-four characters, four for every three bytes. The last group may
stand for fewer bytes, and is then filled up with equals signs. Ends of lines do not count.
-/

namespace SchemePlayer.Base64

/-- The six bits that a character stands for. -/
def sextet? (b : UInt8) : Option Nat :=
  if 65 ≤ b ∧ b ≤ 90 then some (b.toNat - 65)
  else if 97 ≤ b ∧ b ≤ 122 then some (b.toNat - 71)
  else if Text.isDigit b then some (b.toNat + 4)
  else if b = 43 then some 62
  else if b = 47 then some 63
  else none

/-- The number that some characters stand for together. -/
def number? (bs : List UInt8) : Option Nat :=
  bs.foldlM (fun n b => (sextet? b).map (n * 64 + ·)) 0

/-- Whether a byte belongs to the end of a line. -/
def isBreak (b : UInt8) : Bool := b = 10 || b = 13

/-- The bytes of groups of four characters, one after another. -/
def groups? : Text → Option Text
  | [] => some []
  | [a, b, 61, 61] => (number? [a, b]).map fun n => [(n / 16).toUInt8]
  | [a, b, c, 61] => (number? [a, b, c]).map fun n => [(n / 1024).toUInt8, (n / 4).toUInt8]
  | a :: b :: c :: d :: rest =>
    match number? [a, b, c, d], groups? rest with
    | some n, some more => some ((n / 65536).toUInt8 :: (n / 256).toUInt8 :: n.toUInt8 :: more)
    | _, _ => none
  | _ => none

/-- The bytes that a text stands for. -/
def decode? (t : Text) : Option Text := groups? (t.filter (!isBreak ·))

end SchemePlayer.Base64
