import SchemePlayer.Text.Basic

/-!
# Paces

How fast an executor calls back: as fast as it can, or once per frame.
-/

namespace SchemePlayer

/-- The pace of an executor. -/
inductive Pace where
  /-- one call after the other -/
  | fastest
  /-- one call per interval, in nanoseconds -/
  | smooth (interval : Nat)
  deriving DecidableEq, Repr

namespace Pace

/-- The usual number of frames per second. -/
def usualRate : Nat := 60

/-- A frame pace. A rate that is not positive stands for the usual one. -/
def ofRate (rate : Int) : Pace :=
  .smooth (1000000000 / (if rate ≤ 0 then usualRate else rate.toNat))

/-- The pace with a name: `fastest`, or else a frame pace. -/
def ofName (name : Text) (rate : Int) : Pace := if name = "fastest" then .fastest else ofRate rate

end Pace

end SchemePlayer
