import SchemePlayer.Number.Narrow
import SchemePlayer.Proofs.Number.Nearest

/-!
# Narrow formats lose nothing

A double that a narrow format has (`encode?` finds a pattern for it) is written as a whole
number times a power of two that fits the format's fields. Reading the pattern gives that number
again, and rounding it changes nothing, because it was a double all along:

- `Pattern`: the fields of a pattern, and `decode_pattern`: the number they stand for.
- `decode_of_encode?`: **what is written in a narrow format is read back as the same double.**
-/

namespace SchemePlayer.NarrowFormat

open Binary64

/-- The pattern with a sign, an exponent field and a fraction field. -/
def pattern (f : NarrowFormat) (negative : Bool) (field fraction : Nat) : Nat :=
  (if negative then twoTo (f.fractionBits + f.exponentBits) else 0)
    + field * twoTo f.fractionBits + fraction

/-- The whole number and the exponent that two fields stand for. -/
def scaledBy (f : NarrowFormat) (field fraction : Nat) : Nat × Int :=
  if field = 0 then (fraction, f.leastExponent)
  else (fraction + twoTo f.fractionBits, f.leastExponent + (field - 1 : Nat))

/-- `n * 2 ^ q` as a fraction of natural numbers. -/
def fractionOf (n : Nat) (q : Int) : Nat × Nat :=
  if 0 ≤ q then (n * twoTo q.toNat, 1) else (n, twoTo (-q).toNat)

theorem fractionOf_eq (n : Nat) (q : Int) :
    0 < (fractionOf n q).2 ∧ ((fractionOf n q).1 : ℚ) / (fractionOf n q).2 = n * 2 ^ q := by
  unfold fractionOf
  split
  · rename_i hq
    obtain ⟨k, rfl⟩ := Int.eq_ofNat_of_zero_le hq
    refine ⟨Nat.one_pos, ?_⟩
    simp [twoTo, zpow_natCast]
  · rename_i hq
    obtain ⟨k, hk⟩ := Int.eq_ofNat_of_zero_le (show 0 ≤ -q by omega)
    obtain rfl : q = -(k : Int) := by omega
    refine ⟨Nat.pow_pos (by norm_num), ?_⟩
    simp only [neg_neg, Int.toNat_natCast, twoTo, Nat.pow_eq, Nat.cast_pow, Nat.cast_ofNat,
      zpow_neg, zpow_natCast]
    rfl

theorem pattern_lt {f : NarrowFormat} {field fraction : Nat} (hfield : field < twoTo f.exponentBits)
    (hfraction : fraction < twoTo f.fractionBits) (negative : Bool) :
    f.pattern negative field fraction < twoTo (1 + f.exponentBits + f.fractionBits) := by
  have hsum : field * twoTo f.fractionBits + fraction < twoTo (f.fractionBits + f.exponentBits) := by
    have hpow : twoTo (f.fractionBits + f.exponentBits) =
        twoTo f.exponentBits * twoTo f.fractionBits := by
      simp only [twoTo, Nat.pow_eq, pow_add, mul_comm]
    rw [hpow]
    nlinarith
  have htop : twoTo (1 + f.exponentBits + f.fractionBits) =
      2 * twoTo (f.fractionBits + f.exponentBits) := by
    simp only [twoTo, Nat.pow_eq, pow_add, pow_one]
    ring
  unfold pattern
  rw [htop]
  split <;> omega

/-- **A pattern stands for the number that its fields stand for, with its sign**, unless the
exponent field is full. -/
theorem decode_pattern {f : NarrowFormat} {field fraction : Nat} (hfield : field < f.topField)
    (hfraction : fraction < twoTo f.fractionBits) (negative : Bool) :
    f.decode (f.pattern negative field fraction) =
      withSign negative (nearest (fractionOf (f.scaledBy field fraction).1
        (f.scaledBy field fraction).2).1 (fractionOf (f.scaledBy field fraction).1
        (f.scaledBy field fraction).2).2) := by
  have hF : 0 < twoTo f.fractionBits := Nat.pow_pos (by norm_num)
  have hE : 0 < twoTo f.exponentBits := Nat.pow_pos (by norm_num)
  have hfield' : field < twoTo f.exponentBits := by
    unfold topField at hfield
    omega
  have hpow : twoTo (f.fractionBits + f.exponentBits) =
      twoTo f.exponentBits * twoTo f.fractionBits := by
    simp only [twoTo, Nat.pow_eq, pow_add, mul_comm]
  -- the fields of the pattern, one above the other
  set sign : Nat := if negative then 1 else 0 with hsign
  have hpattern : f.pattern negative field fraction =
      fraction + twoTo f.fractionBits * (field + twoTo f.exponentBits * sign) := by
    unfold pattern
    rw [hpow, hsign]
    split <;> ring
  have hlow : f.pattern negative field fraction % twoTo f.fractionBits = fraction := by
    rw [hpattern, Nat.add_mul_mod_self_left, Nat.mod_eq_of_lt hfraction]
  have hupper : f.pattern negative field fraction / twoTo f.fractionBits =
      field + twoTo f.exponentBits * sign := by
    rw [hpattern, Nat.add_mul_div_left _ _ hF, Nat.div_eq_of_lt hfraction, Nat.zero_add]
  have hmiddle : f.pattern negative field fraction / twoTo f.fractionBits % twoTo f.exponentBits =
      field := by
    rw [hupper, Nat.add_mul_mod_self_left, Nat.mod_eq_of_lt hfield']
  have hhigh : (f.pattern negative field fraction / twoTo (f.fractionBits + f.exponentBits) % 2 ==
      1) = negative := by
    rw [hpow, Nat.mul_comm, ← Nat.div_div_eq_div_mul, hupper, Nat.add_mul_div_left _ _ hE,
      Nat.div_eq_of_lt hfield', hsign]
    cases negative <;> rfl
  unfold decode
  dsimp only
  rw [hlow, hmiddle, hhigh, if_neg (Nat.ne_of_lt hfield)]
  rfl

/-- The whole number and the remainder of `m * 2 ^ q` in units of `2 ^ e`. -/
def inUnits (m : Nat) (q e : Int) : Nat × Nat :=
  if e ≤ q then (m * twoTo (q - e).toNat, 0)
  else (m / twoTo (e - q).toNat, m % twoTo (e - q).toNat)

theorem inUnits_exact {m : Nat} {q e : Int} (h : (inUnits m q e).2 = 0) :
    ((inUnits m q e).1 : ℚ) * 2 ^ e = m * 2 ^ q := by
  have htwo : (2 : ℚ) ≠ 0 := by norm_num
  unfold inUnits at h ⊢
  by_cases hle : e ≤ q
  · rw [if_pos hle]
    obtain ⟨k, hk⟩ := Int.eq_ofNat_of_zero_le (show 0 ≤ q - e by omega)
    obtain rfl : q = e + (k : Int) := by omega
    simp only [add_sub_cancel_left, Int.toNat_natCast, twoTo, Nat.pow_eq, Nat.cast_mul,
      Nat.cast_pow, Nat.cast_ofNat, zpow_add₀ htwo, zpow_natCast]
    ring
  · rw [if_neg hle] at h ⊢
    obtain ⟨k, hk⟩ := Int.eq_ofNat_of_zero_le (show 0 ≤ e - q by omega)
    obtain rfl : e = q + (k : Int) := by omega
    simp only [add_sub_cancel_left, Int.toNat_natCast] at h ⊢
    have hmul : m / twoTo k * twoTo k = m := Nat.div_mul_cancel (Nat.dvd_of_mod_eq_zero h)
    have hmul' : ((m / twoTo k : Nat) : ℚ) * 2 ^ k = m := by exact_mod_cast hmul
    rw [zpow_add₀ htwo, zpow_natCast, ← hmul']
    ring

theorem cast_twoTo (n : Nat) : ((twoTo n : Nat) : ℚ) = 2 ^ (n : Int) := by
  simp [twoTo]

/-- In units of the exponent that `encode?` chooses, a number has at most one bit more than a
fraction, and exactly one more unless the exponent is the least one. -/
theorem size_in_units {f : NarrowFormat} {m n : Nat} {q e : Int} (hm : 0 < m)
    (he : e = max f.leastExponent (q + m.log2 - f.fractionBits))
    (hvalue : (n : ℚ) * 2 ^ e = m * 2 ^ q) :
    n < 2 * twoTo f.fractionBits ∧ (n < twoTo f.fractionBits → e = f.leastExponent) := by
  have htwo : (2 : ℚ) ≠ 0 := by norm_num
  have hpow : ∀ e : Int, (0 : ℚ) < 2 ^ e := fun e => zpow_pos (by norm_num) e
  obtain ⟨hlow, hhigh⟩ := log2_bounds hm
  constructor
  · have hlt : (n : ℚ) < 2 * (twoTo f.fractionBits : Nat) := by
      have hsplit : (2 : ℚ) * 2 ^ (f.fractionBits : Int) * 2 ^ e =
          2 ^ (f.fractionBits + 1 + e : Int) := by
        rw [zpow_add₀ htwo, zpow_add_one₀ htwo]
        ring
      rw [cast_twoTo, ← mul_lt_mul_iff_left₀ (hpow e), hvalue, hsplit]
      calc (m : ℚ) * 2 ^ q < 2 ^ ((m.log2 : Int) + 1) * 2 ^ q :=
            mul_lt_mul_of_pos_right hhigh (hpow q)
        _ = 2 ^ ((m.log2 : Int) + 1 + q) := by rw [← zpow_add₀ htwo]
        _ ≤ 2 ^ (f.fractionBits + 1 + e : Int) := zpow_le_zpow_right₀ (by norm_num) (by omega)
    exact_mod_cast hlt
  · intro hsmall
    by_contra hne
    have hge : ((twoTo f.fractionBits : Nat) : ℚ) ≤ n := by
      have hsplit : (2 : ℚ) ^ (f.fractionBits : Int) * 2 ^ e = 2 ^ (m.log2 : Int) * 2 ^ q := by
        rw [← zpow_add₀ htwo, ← zpow_add₀ htwo]
        congr 1
        omega
      rw [cast_twoTo, ← mul_le_mul_iff_left₀ (hpow e), hsplit, hvalue]
      exact mul_le_mul_of_nonneg_right hlow (hpow q).le
    have : twoTo f.fractionBits ≤ n := by exact_mod_cast hge
    omega

/-- What a successful encoding found: fields of the format that stand for the number. -/
theorem encode?_eq_some {f : NarrowFormat} {x : Float} {bits : Nat}
    (hexponent : 0 < f.exponentBits) (h : f.encode? x = some bits) :
    ∃ field fraction, field < f.topField ∧ fraction < twoTo f.fractionBits ∧
      bits = f.pattern (isNegative x) field fraction ∧
      ((f.scaledBy field fraction).1 : ℚ) * 2 ^ (f.scaledBy field fraction).2 =
        (magnitude x).1 * 2 ^ (magnitude x).2 := by
  have hF : 0 < twoTo f.fractionBits := Nat.pow_pos (by norm_num)
  have htop : 0 < f.topField := by
    have : 2 ≤ twoTo f.exponentBits := by
      calc 2 = 2 ^ 1 := rfl
        _ ≤ 2 ^ f.exponentBits := Nat.pow_le_pow_right (by norm_num) hexponent
    unfold topField
    omega
  unfold encode? at h
  generalize hmagnitude : magnitude x = p at h ⊢
  obtain ⟨m, q⟩ := p
  dsimp only at h ⊢
  split at h
  · -- zero
    rename_i hm
    obtain rfl := Option.some.inj h
    refine ⟨0, 0, htop, hF, ?_, ?_⟩
    · simp [pattern]
    · simp [scaledBy, hm]
  · rename_i hm
    generalize he : max f.leastExponent (q + m.log2 - f.fractionBits) = e at h
    rw [← inUnits] at h
    split at h
    · cases h
    · rename_i hexact
      have hvalue := inUnits_exact (not_not.mp hexact)
      obtain ⟨hlt, hleast⟩ := size_in_units (Nat.pos_of_ne_zero hm) he.symm hvalue
      generalize (inUnits m q e).1 = n at h hvalue hlt hleast
      split at h
      · -- a small number has the least exponent
        rename_i hsmall
        obtain rfl := Option.some.inj h
        refine ⟨0, n, htop, hsmall, by simp [pattern], ?_⟩
        rw [← hvalue, hleast hsmall]
        simp [scaledBy]
      · -- a larger one has one bit more than a fraction
        rename_i hlarge
        split at h
        · rename_i hfield
          obtain rfl := Option.some.inj h
          refine ⟨(e - f.leastExponent).toNat + 1, n - twoTo f.fractionBits, hfield, by omega,
            rfl, ?_⟩
          have hsum : n - twoTo f.fractionBits + twoTo f.fractionBits = n := by omega
          have hexp : f.leastExponent + ((e - f.leastExponent).toNat + 1 - 1 : Nat) = e := by
            omega
          unfold scaledBy
          rw [if_neg (Nat.succ_ne_zero _)]
          dsimp only
          rw [hsum, hexp, hvalue]
        · cases h

/-- **What is written in a narrow format is read back as the same double.** -/
theorem decode_of_encode? {f : NarrowFormat} {x : Float} {bits : Nat} (hfinite : Finite x)
    (hexponent : 0 < f.exponentBits) (h : f.encode? x = some bits) :
    f.decode bits = x ∧ bits < twoTo (1 + f.exponentBits + f.fractionBits) := by
  obtain ⟨field, fraction, hfield, hfraction, rfl, hvalue⟩ := encode?_eq_some hexponent h
  have hfield' : field < twoTo f.exponentBits := by
    unfold topField at hfield
    omega
  refine ⟨?_, pattern_lt hfield' hfraction _⟩
  rw [decode_pattern hfield hfraction]
  obtain ⟨hden, hfractionOf⟩ :=
    fractionOf_eq (f.scaledBy field fraction).1 (f.scaledBy field fraction).2
  set num := (fractionOf (f.scaledBy field fraction).1 (f.scaledBy field fraction).2).1
  set den := (fractionOf (f.scaledBy field fraction).1 (f.scaledBy field fraction).2).2
  have hsame : nearest num den = pack (magnitude x).1 (magnitude x).2 := by
    rcases Nat.eq_zero_or_pos (magnitude x).1 with hzero | hpos
    · -- zero has no interval of its own in `nearest_eq_pack`
      have hnum : num = 0 := by
        rw [hvalue, hzero] at hfractionOf
        have hden' : (den : ℚ) ≠ 0 := by exact_mod_cast hden.ne'
        simp only [Nat.cast_zero, zero_mul, div_eq_zero_iff, hden', or_false] at hfractionOf
        exact_mod_cast hfractionOf
      rw [nearest, if_pos hnum, hzero]
      rfl
    · refine nearest_eq_pack hfinite.canonical hpos hden ?_
      rw [hfractionOf, hvalue]
      exact .self _ _
  rw [hsame, withSign_pack_magnitude hfinite]

end SchemePlayer.NarrowFormat
