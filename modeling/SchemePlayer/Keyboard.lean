/-!
# Keyboard

The state of each of 256 keys, set by front ends and read by code.
-/

namespace SchemePlayer

/-- The states of the keys, zero for one that is up. -/
structure Keyboard where
  states : Array UInt8 := Array.replicate 256 0
  deriving DecidableEq

namespace Keyboard

/-- Sets the state of a key; a code outside the table is ignored. -/
def set (k : Keyboard) (code : Int) (state : UInt8) : Keyboard :=
  if code < 0 then k else ⟨k.states.setIfInBounds code.toNat state⟩

/-- Marks a key as held down. -/
def press (k : Keyboard) (code : Int) : Keyboard := k.set code 1

/-- Marks a key as up. -/
def release (k : Keyboard) (code : Int) : Keyboard := k.set code 0

/-- The state of a key, zero for a code outside the table. -/
def state (k : Keyboard) (code : Int) : UInt8 :=
  if code < 0 then 0 else k.states[code.toNat]?.getD 0

end Keyboard

end SchemePlayer
