import SchemePlayer.Text.Basic
import SchemePlayer.Text.CaseTable

/-!
# Letter case

Class tables look names up by their lower-case form, while the instance tree and
the variable lists compare names up to case. The two relations are *not* the same:
`lower` keeps `ſ` (long s) apart from `s`, `equalFold` does not.
-/

namespace SchemePlayer.Text

/-- The lower-case form of a code point. -/
def lowerCode (n : Nat) : Nat :=
  if n < 128 then (if 65 ≤ n ∧ n ≤ 90 then n + 32 else n)
  else CaseTable.apply CaseTable.lowerRuns n

/-- The upper-case form of a code point. -/
def upperCode (n : Nat) : Nat :=
  if n < 128 then (if 97 ≤ n ∧ n ≤ 122 then n - 32 else n)
  else CaseTable.apply CaseTable.upperRuns n

/-- The representative of a code point up to case. -/
def foldCode (n : Nat) : Nat :=
  if n < 128 then (if 65 ≤ n ∧ n ≤ 90 then n + 32 else n)
  else CaseTable.apply CaseTable.foldRuns n

/-- Maps every rune by its code point; a stray byte becomes the replacement character. -/
def mapCodes (f : Nat → Nat) (t : Text) : Text :=
  (runes t).flatMap fun r => String.utf8EncodeChar (Char.ofNat (f r.code))

/-- The lower-case form of a text. -/
def lower (t : Text) : Text := mapCodes lowerCode t

/-- The upper-case form of a text. -/
def upper (t : Text) : Text := mapCodes upperCode t

/-- A text up to case. -/
def foldKey (t : Text) : List Nat := (runes t).map fun r => foldCode r.code

/-- Whether two texts are equal up to case. -/
def equalFold (s t : Text) : Bool := foldKey s == foldKey t

theorem equalFold_refl (t : Text) : equalFold t t = true := by
  simp [equalFold]

end SchemePlayer.Text
