/-!
# Little-endian words

Operands are stored with their lowest byte first.
-/

namespace SchemePlayer.Word

/-- The lowest `width` bytes of a number, lowest first. -/
def bytes : Nat → Nat → List UInt8
  | 0, _ => []
  | width + 1, n => (n % 256).toUInt8 :: bytes width (n / 256)

/-- The number stored in some bytes, lowest first. -/
def ofBytes : List UInt8 → Nat
  | [] => 0
  | b :: bs => b.toNat + 256 * ofBytes bs

/-- The lowest `width` bytes of an integer in two's complement, lowest first. -/
def signedBytes (width : Nat) (n : Int) : List UInt8 :=
  bytes width (n % (Nat.pow 256 width : Nat)).toNat

/-- The integer stored in some bytes in two's complement, lowest first. -/
def signedOfBytes (bs : List UInt8) : Int := Int.bmod (ofBytes bs) (Nat.pow 256 bs.length)

@[simp] theorem length_bytes (width n : Nat) : (bytes width n).length = width := by
  induction width generalizing n with
  | zero => rfl
  | succ width ih => simp [bytes, ih]

theorem ofBytes_bytes (width n : Nat) : ofBytes (bytes width n) = n % Nat.pow 256 width := by
  induction width generalizing n with
  | zero => simp [bytes, ofBytes, Nat.mod_one]
  | succ width ih =>
    have byte : (n % 256).toUInt8.toNat = n % 256 :=
      UInt8.toNat_ofNat_of_lt' (Nat.mod_lt _ (by decide))
    have next : Nat.pow 256 (width + 1) = 256 * Nat.pow 256 width := Nat.mul_comm _ _
    rw [bytes, ofBytes, byte, ih, next, Nat.mod_mul]

end SchemePlayer.Word
