import Mathlib
import SchemePlayer.Number.Binary64

/-!
# Doubles as bits

A double is its bit pattern, and there is one pattern for not-a-number. What the rest of the
theory of numbers needs to know of it is said here once, so that later proofs speak of the
natural numbers in `magnitude` and never of words:

- `toBits_ofBits`, `toBits_neg`: which pattern a construction gives.
- `isNaN_iff`, `isInf_iff`: which patterns are not finite.
- `Canonical`: the pairs `m * 2 ^ q` that stand for one double each.
- `withSign_pack_magnitude`: **a finite double is its sign and its magnitude, packed again.**
- `withSign_infinity`, `eq_nan_of_isNaN`: what the other doubles are.
-/

namespace SchemePlayer.Binary64

open Float.Model
open Float.Model.UnpackedFloat (Sign packComponents unpackMantissa unpackExponent isNaNBits)

/-! ### Patterns -/

theorem toNat_unpackMantissa (b : UInt64) :
    (@unpackMantissa Format.binary64 b.toBitVec).toNat = b.toNat % twoTo 52 := by
  rw [UnpackedFloat.unpackMantissa_def]
  simp [BitVec.extractLsb'_toNat]

theorem toNat_unpackExponent (b : UInt64) :
    (@unpackExponent Format.binary64 b.toBitVec).toNat =
      b.toNat / twoTo 52 % twoTo 11 := by
  rw [UnpackedFloat.unpackExponent_def]
  simp [BitVec.extractLsb'_toNat, Nat.shiftRight_eq_div_pow]

/-- The exponent field of a pattern is full. -/
theorem unpackExponent_eq_top (b : UInt64) :
    @unpackExponent Format.binary64 b.toBitVec = -1#11 ↔
      b.toNat / twoTo 52 % twoTo 11 = 2047 := by
  rw [← toNat_unpackExponent, ← BitVec.toNat_inj]
  rfl

/-- The fraction field of a pattern is empty. -/
theorem unpackMantissa_eq_zero (b : UInt64) :
    @unpackMantissa Format.binary64 b.toBitVec = 0#52 ↔ b.toNat % twoTo 52 = 0 := by
  rw [← toNat_unpackMantissa, ← BitVec.toNat_inj]
  rfl

/-- **A pattern that is not one of not-a-number stands for itself.** -/
theorem toBits_ofBits {b : UInt64}
    (h : b.toNat / twoTo 52 % twoTo 11 = 2047 → b.toNat % twoTo 52 = 0) :
    (Float.ofBits b).toBits = b := by
  have hnumber : @isNaNBits Format.binary64 b.toBitVec = false := by
    simp only [isNaNBits, decide_eq_false_iff_not, not_and, not_not]
    intro htop
    exact (unpackMantissa_eq_zero b).mpr (h ((unpackExponent_eq_top b).mp htop))
  show UInt64.ofBitVec (UnpackedFloat.pack Format.binary64
    (UnpackedFloat.unpack Format.binary64 b.toBitVec)) = b
  rw [UnpackedFloat.pack_unpack, hnumber]
  rfl

theorem isInf_iff (x : Float) :
    x.isInf = true ↔
      x.toBits.toNat / twoTo 52 % twoTo 11 = 2047 ∧ x.toBits.toNat % twoTo 52 = 0 := by
  rw [← unpackExponent_eq_top, ← unpackMantissa_eq_zero]
  show (UnpackedFloat.unpack Format.binary64 x.toBits.toBitVec).isInf = true ↔ _
  unfold UnpackedFloat.unpack
  dsimp only
  split
  · split <;> simp_all [UnpackedFloat.isInf]
  · split
    · split <;> simp_all [UnpackedFloat.isInf]
    · simp_all [UnpackedFloat.isInf]

theorem isNaN_iff (x : Float) :
    x.isNaN = true ↔
      x.toBits.toNat / twoTo 52 % twoTo 11 = 2047 ∧ x.toBits.toNat % twoTo 52 ≠ 0 := by
  rw [← unpackExponent_eq_top, ne_eq, ← unpackMantissa_eq_zero]
  show (UnpackedFloat.unpack Format.binary64 x.toBits.toBitVec).isNaN = true ↔ _
  unfold UnpackedFloat.unpack
  dsimp only
  split
  · split <;> simp_all [UnpackedFloat.isNaN]
  · split
    · split <;> simp_all [UnpackedFloat.isNaN]
    · simp_all [UnpackedFloat.isNaN]

/-- There is one value that is not a number. -/
theorem eq_nan_of_isNaN {x : Float} (h : x.isNaN = true) : x = nan := by
  rw [Float.isNaN_eq_decide_eq_nan, decide_eq_true_eq] at h
  rw [h]
  decide

/-- Negation changes the sign and nothing else. -/
theorem neg_unpack (s : Sign) (e : BitVec 11) (m : BitVec 52) :
    (UnpackedFloat.unpack Format.binary64 (packComponents Format.binary64 s e m)).neg =
      UnpackedFloat.unpack Format.binary64 (packComponents Format.binary64 (-s) e m) := by
  unfold UnpackedFloat.unpack
  simp only [UnpackedFloat.unpackMantissa_packComponents,
    UnpackedFloat.unpackExponent_packComponents, UnpackedFloat.unpackSign_packComponents,
    Sign.ofBitVec_toBitVec]
  split
  · split <;> simp [UnpackedFloat.neg]
  · split
    · split <;> simp [UnpackedFloat.neg]
    · simp [UnpackedFloat.neg]

theorem toNat_packComponents (s : Sign) (e : BitVec 11) (m : BitVec 52) :
    (packComponents Format.binary64 s e m).toNat =
      s.toBitVec.toNat * twoTo 63 + e.toNat * twoTo 52 + m.toNat := by
  unfold packComponents
  rw [BitVec.toNat_append, ← Nat.shiftLeft_add_eq_or_of_lt m.isLt, BitVec.toNat_append,
    ← Nat.shiftLeft_add_eq_or_of_lt e.isLt]
  simp only [Nat.shiftLeft_eq, twoTo, Nat.pow_eq]
  ring

/-- **The negation of a double without sign has the same pattern with the sign bit set.** -/
theorem toBits_neg {x : Float} (hnumber : x.isNaN = false) (hsign : x.toBits.toNat < twoTo 63) :
    (-x).toBits.toNat = x.toBits.toNat + twoTo 63 := by
  set b := x.toBits with hb
  have hparts := @UnpackedFloat.packComponents_unpackSign_unpackExponent_unpackMantissa
    Format.binary64 b.toBitVec
  set s := Sign.ofBitVec (@UnpackedFloat.unpackSign Format.binary64 b.toBitVec)
  set e := @unpackExponent Format.binary64 b.toBitVec with he
  set m := @unpackMantissa Format.binary64 b.toBitVec with hm
  have hvalue : b.toNat = s.toBitVec.toNat * twoTo 63 + e.toNat * twoTo 52 + m.toNat := by
    rw [← toNat_packComponents, hparts]
    rfl
  have hs : s = .positive := by
    cases hs : s with
    | positive => rfl
    | negative =>
      rw [hs] at hvalue
      have hone : Sign.negative.toBitVec.toNat = 1 := rfl
      rw [hone] at hvalue
      omega
  -- not a number would have a full exponent and a fraction
  have hpattern : isNaNBits (packComponents Format.binary64 (-s) e m) = false := by
    simp only [isNaNBits, UnpackedFloat.unpackExponent_packComponents,
      UnpackedFloat.unpackMantissa_packComponents, decide_eq_false_iff_not, not_and, not_not]
    intro htop
    by_contra hzero
    have hnan := (isNaN_iff x).mpr ⟨(unpackExponent_eq_top b).mp htop,
      fun hfraction => hzero ((unpackMantissa_eq_zero b).mpr hfraction)⟩
    rw [hnumber] at hnan
    cases hnan
  have hneg : (-x).toBits.toBitVec = packComponents Format.binary64 (-s) e m := by
    show UnpackedFloat.pack Format.binary64
      (UnpackedFloat.unpack Format.binary64 b.toBitVec).neg = _
    rw [← hparts, neg_unpack, UnpackedFloat.pack_unpack, hpattern]
    rfl
  have hone : (-Sign.positive).toBitVec.toNat = 1 := rfl
  have hzero : Sign.positive.toBitVec.toNat = 0 := rfl
  have hnat : (-x).toBits.toNat = (packComponents Format.binary64 (-s) e m).toNat :=
    congrArg BitVec.toNat hneg
  rw [hnat, toNat_packComponents, hvalue, hs, hone, hzero]
  omega

/-! ### Magnitudes -/

/-- A pair `(m, q)` that stands for the double `m * 2 ^ q`, and is the only one that does: the
exponent is as small as it can be. -/
structure Canonical (m : Nat) (q : Int) : Prop where
  lt : m < twoTo 53
  least : leastExponent ≤ q
  most : q ≤ 971
  full : twoTo 52 ≤ m ∨ q = leastExponent

/-- A double that is neither not-a-number nor an infinity. -/
structure Finite (x : Float) : Prop where
  number : x.isNaN = false
  bounded : x.isInf = false

theorem Finite.exponent {x : Float} (h : Finite x) :
    x.toBits.toNat / twoTo 52 % twoTo 11 < 2047 := by
  have hlt : x.toBits.toNat / twoTo 52 % twoTo 11 < twoTo 11 := Nat.mod_lt _ (by decide)
  have hne : x.toBits.toNat / twoTo 52 % twoTo 11 ≠ 2047 := by
    intro htop
    by_cases hzero : x.toBits.toNat % twoTo 52 = 0
    · have := (isInf_iff x).mpr ⟨htop, hzero⟩
      rw [h.bounded] at this
      cases this
    · have := (isNaN_iff x).mpr ⟨htop, hzero⟩
      rw [h.number] at this
      cases this
  have hpow : twoTo 11 = 2048 := rfl
  omega

theorem Finite.canonical {x : Float} (h : Finite x) :
    Canonical (magnitude x).1 (magnitude x).2 := by
  have hexponent := h.exponent
  have hfraction : x.toBits.toNat % twoTo 52 < twoTo 52 := Nat.mod_lt _ (by decide)
  have hpow : twoTo 53 = 2 * twoTo 52 := rfl
  unfold magnitude
  dsimp only
  split
  · refine ⟨by dsimp only; omega, Int.le_refl _, ?_, .inr rfl⟩
    show leastExponent ≤ 971
    decide
  · refine ⟨by dsimp only; omega, ?_, ?_, .inl (by dsimp only; omega)⟩
    · unfold leastExponent
      dsimp only
      omega
    · dsimp only
      omega

/-- The pattern of a canonical pair. -/
theorem toBits_pack {m : Nat} {q : Int} (h : Canonical m q) :
    (pack m q).toBits.toNat =
      if m < twoTo 52 then m else (q + 1075).toNat * twoTo 52 + (m - twoTo 52) := by
  obtain ⟨hm, hleast, hmost, -⟩ := h
  simp only [leastExponent, twoTo, Nat.pow_eq, Nat.reducePow] at hm hleast hmost
  -- a number below the size of a word is its own word, and its exponent field is not full
  have hstands : ∀ n : Nat, n < 2047 * twoTo 52 → (Float.ofBits n.toUInt64).toBits.toNat = n := by
    intro n hn
    simp only [twoTo, Nat.pow_eq, Nat.reducePow, Nat.reduceMul] at hn
    have hnat : n.toUInt64.toNat = n := UInt64.toNat_ofNat_of_lt' (by
      show n < 18446744073709551616
      omega)
    rw [toBits_ofBits, hnat]
    rw [hnat]
    simp only [twoTo, Nat.pow_eq, Nat.reducePow]
    omega
  unfold pack
  simp only [twoTo, Nat.pow_eq, Nat.reducePow, Nat.reduceMul] at hstands ⊢
  rw [if_neg (show ¬m = 9007199254740992 by omega)]
  dsimp only
  split
  · exact hstands m (by omega)
  · rw [if_neg (by omega)]
    exact hstands _ (by omega)

/-- A packed pair is a number without sign. -/
theorem pack_finite {m : Nat} {q : Int} (h : Canonical m q) :
    Finite (pack m q) ∧ (pack m q).toBits.toNat < twoTo 63 := by
  have hlt : (pack m q).toBits.toNat < 2047 * twoTo 52 := by
    rw [toBits_pack h]
    obtain ⟨hm, hleast, hmost, -⟩ := h
    simp only [leastExponent, twoTo, Nat.pow_eq, Nat.reducePow, Nat.reduceMul] at hm hleast hmost ⊢
    split <;> omega
  have htop : (pack m q).toBits.toNat / twoTo 52 % twoTo 11 ≠ 2047 := by
    simp only [twoTo, Nat.pow_eq, Nat.reducePow, Nat.reduceMul] at hlt ⊢
    omega
  refine ⟨⟨Bool.eq_false_iff.mpr fun hnan => ?_, Bool.eq_false_iff.mpr fun hinf => ?_⟩, ?_⟩
  · exact htop ((isNaN_iff _).mp hnan).1
  · exact htop ((isInf_iff _).mp hinf).1
  · exact hlt.trans (by decide)

/-- Doubles with the same pattern are the same. -/
theorem eq_of_toNat_toBits {x y : Float} (h : x.toBits.toNat = y.toBits.toNat) : x = y :=
  Float.toBits_inj.mp (UInt64.toNat_inj.mp h)

/-- **A finite double is its sign and its magnitude, packed again.** -/
theorem withSign_pack_magnitude {x : Float} (h : Finite x) :
    withSign (isNegative x) (pack (magnitude x).1 (magnitude x).2) = x := by
  obtain ⟨hfinite, hlt⟩ := pack_finite h.canonical
  have hword : x.toBits.toNat < 18446744073709551616 := x.toBits.toNat_lt_size
  -- without its sign bit, the pattern is that of the magnitude
  have hunsigned : (pack (magnitude x).1 (magnitude x).2).toBits.toNat =
      x.toBits.toNat % twoTo 63 := by
    have hexponent := h.exponent
    rw [toBits_pack h.canonical]
    unfold magnitude
    simp only [twoTo, Nat.pow_eq, Nat.reducePow] at hexponent ⊢
    split <;> dsimp only <;> split <;> omega
  apply eq_of_toNat_toBits
  unfold withSign isNegative
  split
  · rename_i hneg
    have hone : x.toBits.toNat / twoTo 63 = 1 := by simpa using hneg
    rw [toBits_neg hfinite.number hlt, hunsigned]
    simp only [twoTo, Nat.pow_eq, Nat.reducePow] at hone ⊢
    omega
  · rename_i hpos
    have hone : x.toBits.toNat / twoTo 63 ≠ 1 := by simpa using hpos
    rw [hunsigned]
    simp only [twoTo, Nat.pow_eq, Nat.reducePow] at hone ⊢
    omega

/-- **An infinity is its sign and nothing else.** -/
theorem withSign_infinity {x : Float} (h : x.isInf = true) :
    withSign (isNegative x) infinity = x := by
  obtain ⟨hexponent, hfraction⟩ := (isInf_iff x).mp h
  have hword : x.toBits.toNat < 18446744073709551616 := x.toBits.toNat_lt_size
  have hbits : infinity.toBits.toNat = 2047 * twoTo 52 := by decide
  apply eq_of_toNat_toBits
  unfold withSign isNegative
  split
  · rename_i hneg
    have hone : x.toBits.toNat / twoTo 63 = 1 := by simpa using hneg
    rw [toBits_neg (by decide) (by decide), hbits]
    simp only [twoTo, Nat.pow_eq, Nat.reducePow] at hone hexponent hfraction ⊢
    omega
  · rename_i hpos
    have hone : x.toBits.toNat / twoTo 63 ≠ 1 := by simpa using hpos
    rw [hbits]
    simp only [twoTo, Nat.pow_eq, Nat.reducePow] at hone hexponent hfraction ⊢
    omega

/-- The bits that stand for a double in code read back as that double. -/
theorem ofBits_codeBits (x : Float) : Float.ofBits (codeBits x) = x := by
  unfold codeBits
  split
  · rename_i hnan
    rw [eq_nan_of_isNaN hnan]
    decide
  · exact Float.ofBits_toBits x

end SchemePlayer.Binary64
