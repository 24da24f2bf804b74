import SchemePlayer.Number.Shortest
import SchemePlayer.Proofs.Number.Nearest

/-!
# Shortest digits read back

The digits with which a double is written stand for a number in the interval of those that round
to it. The search goes through grids of ever more digits and takes the first that has such a
number, so what is to be shown is that a hit lies in the interval, that its digits are as many as
the grid has, and that there is a hit at all:

- `two_le_ten`, `ten_le_two`: powers of two and of ten compared by their exponents.
- `decimalExponent_spec`: the decimal exponent of a fraction.
- `Spans`: what the ends of a span are; `hits_roundsTo`: a hit rounds to the double.
- `onGrid_ne_none`: eighteen digits are enough.
- `ofMagnitude_roundsTo`: **the shortest decimal of a double rounds to it.**
-/

namespace SchemePlayer.Shortest

open Binary64

/-! ### Powers of two and of ten -/

/-- Powers of two bases are compared by one pair of them. -/
theorem zpow_le_zpow_of_pow_le {a b : ℚ} (ha : 1 < a) (hb : 1 < b) {m n : Nat} (hm : m ≠ 0)
    (h : a ^ m ≤ b ^ n) {x y : Int} (hx : 0 ≤ x) (hxy : n * x ≤ m * y) : a ^ x ≤ b ^ y := by
  have hapos : 0 < a := by linarith
  have hbpos : 0 < b := by linarith
  rw [← pow_le_pow_iff_left₀ (zpow_pos hapos x).le (zpow_pos hbpos y).le hm]
  calc (a ^ x) ^ m = (a ^ m) ^ x := by
        rw [← zpow_natCast, ← zpow_natCast, ← zpow_mul, ← zpow_mul, mul_comm]
    _ ≤ (b ^ n) ^ x := zpow_le_zpow_left₀ hx (pow_pos hapos m).le h
    _ = b ^ (n * x) := by rw [← zpow_natCast, ← zpow_mul]
    _ ≤ b ^ (m * y) := zpow_le_zpow_right₀ hb.le hxy
    _ = (b ^ y) ^ m := by rw [← zpow_natCast, ← zpow_mul, mul_comm]

/-- Ten to the twenty-eighth is just above, and ten to the fifty-ninth just below a power of
two. -/
theorem two_le_ten {x y : Int} (h : 28 * x ≤ 93 * y) (h' : 59 * x ≤ 196 * y) :
    (2 : ℚ) ^ x ≤ 10 ^ y := by
  rcases le_total 0 x with hx | hx
  · exact @zpow_le_zpow_of_pow_le 2 10 (by norm_num) (by norm_num) 93 28 (by norm_num)
      (by norm_num) x y hx h
  rcases le_total 0 y with hy | hy
  · calc (2 : ℚ) ^ x ≤ 2 ^ (0 : Int) := zpow_le_zpow_right₀ (by norm_num) hx
      _ = 10 ^ (0 : Int) := by norm_num
      _ ≤ 10 ^ y := zpow_le_zpow_right₀ (by norm_num) hy
  · have hinv := @zpow_le_zpow_of_pow_le 10 2 (by norm_num) (by norm_num) 59 196 (by norm_num)
      (by norm_num) (-y) (-x) (by omega) (by push_cast; omega)
    rwa [zpow_neg, zpow_neg, inv_le_inv₀ (by positivity) (by positivity)] at hinv

theorem ten_le_two {x y : Int} (h : 93 * y ≤ 28 * x) (h' : 196 * y ≤ 59 * x) :
    (10 : ℚ) ^ y ≤ 2 ^ x := by
  have hinv : (2 : ℚ) ^ (-x) ≤ 10 ^ (-y) := two_le_ten (by omega) (by omega)
  rwa [zpow_neg, zpow_neg, inv_le_inv₀ (by positivity) (by positivity)] at hinv

theorem cast_tenTo (n : Nat) : ((tenTo n : Nat) : ℚ) = 10 ^ (n : Int) := by
  simp [tenTo]

/-! ### The decimal exponent -/

/-- The test of a decimal exponent. -/
theorem fits_iff {num den : Nat} (hden : 0 < den) (e : Int) :
    (if 0 ≤ e then decide (num < den * tenTo e.toNat) else decide (num * tenTo (-e).toNat < den)) =
      true ↔ (num : ℚ) / den < 10 ^ e := by
  have hden' : (0 : ℚ) < den := by exact_mod_cast hden
  have hten : (10 : ℚ) ≠ 0 := by norm_num
  rw [div_lt_iff₀ hden']
  split
  · rename_i he
    obtain ⟨k, rfl⟩ := Int.eq_ofNat_of_zero_le he
    rw [decide_eq_true_eq, Int.toNat_natCast, ← cast_tenTo, mul_comm]
    exact_mod_cast Iff.rfl
  · rename_i he
    obtain ⟨k, hk⟩ := Int.eq_ofNat_of_zero_le (show 0 ≤ -e by omega)
    obtain rfl : e = -(k : Int) := by omega
    rw [decide_eq_true_eq, neg_neg, Int.toNat_natCast, zpow_neg, ← div_eq_inv_mul,
      lt_div_iff₀ (by positivity), ← cast_tenTo]
    exact_mod_cast Iff.rfl

/-- **A fraction in the range of doubles lies below the power of ten of its decimal exponent, and
not below the one before.** -/
theorem decimalExponent_spec {num den : Nat} (hnum : 0 < num) (hden : 0 < den)
    {r : Int} (hr : r ≤ 1100)
    (hlow : (2 : ℚ) ^ (-r) ≤ num / den) (hhigh : (num : ℚ) / den ≤ 2 ^ r) :
    (10 : ℚ) ^ (decimalExponent num den - 1) ≤ num / den ∧
      (num : ℚ) / den < 10 ^ decimalExponent num den := by
  have hfits := @fits_iff num den hden
  obtain ⟨habove, hbelow⟩ := fraction_bounds hnum hden rfl
  set v : ℚ := num / den with hv
  set l : Int := (num.log2 : Int) - den.log2 with hl
  -- 1. the difference of the logarithms is bounded as the fraction is
  have hlmost : l - 1 < r :=
    (zpow_lt_zpow_iff_right₀ (by norm_num)).mp (habove.trans_le hhigh)
  have hlleast : -r < l + 1 :=
    (zpow_lt_zpow_iff_right₀ (by norm_num)).mp (hlow.trans_lt hbelow)
  -- 2. the guess is at most two off
  set g : Int := l * 30103 / 100000 with hg
  have hg1 : 100000 * g ≤ 30103 * l := by omega
  have hg2 : 30103 * l < 100000 * (g + 1) := by omega
  have hmost : v < 10 ^ (g + 2) := hbelow.trans_le (two_le_ten (by omega) (by omega))
  have hleast : (10 : ℚ) ^ (g - 2) ≤ v := (ten_le_two (by omega) (by omega)).trans habove.le
  -- 3. the first exponent that fits
  unfold decimalExponent
  simp only [← hl, ← hg, hfits]
  split
  · rename_i hfit
    exact ⟨by rwa [show g - 1 - 1 = g - 2 by omega], hfit⟩
  · rename_i hno
    split
    · rename_i hfit
      exact ⟨not_lt.mp hno, hfit⟩
    · rename_i hno
      split
      · rename_i hfit
        exact ⟨by rw [show g + 1 - 1 = g by omega]; exact not_lt.mp hno, hfit⟩
      · rename_i hno
        exact ⟨by rw [show g + 2 - 1 = g + 1 by omega]; exact not_lt.mp hno, hmost⟩

/-! ### Spans -/

/-- How far down the interval of a double reaches, in units of its last place: it is narrow below a
power of two. -/
def gap (m : Nat) (q : Int) : ℚ := if m = twoTo 52 ∧ leastExponent < q then 1 / 4 else 1 / 2

theorem gap_pos (m : Nat) (q : Int) : 0 < gap m q := by
  unfold gap
  split <;> norm_num

theorem gap_le (m : Nat) (q : Int) : gap m q ≤ 1 / 2 := by
  unfold gap
  split <;> norm_num

/-- The three numbers of a span, as rational numbers: the double `m * 2 ^ q` and the ends of its
interval. -/
structure Span.Spans (s : Span) (m : Nat) (q : Int) : Prop where
  den : 0 < s.den
  value : (s.value : ℚ) = m * 2 ^ q * s.den
  high : (s.high : ℚ) = (m + 1 / 2) * 2 ^ q * s.den
  low : (s.low : ℚ) = (m - gap m q) * 2 ^ q * s.den
  closed : s.closed = true → m % 2 = 0

theorem Span.spans_of {m : Nat} (hm : 0 < m) (q : Int) : (Span.of m q).Spans m q := by
  have htwo : (2 : ℚ) ≠ 0 := by norm_num
  have hden : (Span.of m q).den = if 2 ≤ q then 1 else twoTo (2 - q).toNat := rfl
  have hquarter : (2 : ℚ) ^ q = 4 * 2 ^ (q - 2) := by
    rw [zpow_sub₀ htwo]
    norm_num
    ring
  -- a number of quarters over the denominator
  have hup : ∀ n : Nat, ((if 2 ≤ q then n * twoTo (q - 2).toNat else n : Nat) : ℚ) =
      n * 2 ^ (q - 2) * (Span.of m q).den := by
    intro n
    by_cases hq : 2 ≤ q
    · obtain ⟨k, hk⟩ := Int.eq_ofNat_of_zero_le (show 0 ≤ q - 2 by omega)
      rw [hden, if_pos hq, if_pos hq, hk]
      simp [twoTo]
    · obtain ⟨k, hk⟩ := Int.eq_ofNat_of_zero_le (show 0 ≤ 2 - q by omega)
      rw [hden, if_neg hq, if_neg hq, hk, show q - 2 = -(k : Int) by omega]
      simp [twoTo]
  refine ⟨?_, ?_, ?_, ?_, ?_⟩
  · rw [hden]
    split
    · exact Nat.one_pos
    · exact Nat.pow_pos (by norm_num)
  · refine (hup (4 * m)).trans ?_
    rw [hquarter]
    push_cast
    ring
  · refine (hup (4 * m + 2)).trans ?_
    rw [hquarter]
    push_cast
    ring
  · refine (hup _).trans ?_
    rw [hquarter, gap]
    simp only [Bool.and_eq_true, beq_iff_eq, decide_eq_true_eq, gt_iff_lt]
    split
    · rw [Nat.cast_sub (by omega)]
      push_cast
      ring
    · rw [Nat.cast_sub (by omega)]
      push_cast
      ring
  · intro hclosed
    exact beq_iff_eq.mp hclosed

/-- What a span holds lies in the interval, at an end only if the double is even. -/
theorem Span.Spans.inside {s : Span} {m : Nat} {q : Int} (hs : s.Spans m q) {num scale : Nat}
    (hscale : 0 < scale) (h : s.holds num scale = true) {v : ℚ}
    (hv : (num : ℚ) = v * (s.den * scale)) :
    (m - gap m q) * 2 ^ q ≤ v ∧ v ≤ (m + 1 / 2) * 2 ^ q ∧
      (v = (m - gap m q) * 2 ^ q ∨ v = (m + 1 / 2) * 2 ^ q → m % 2 = 0) := by
  have hpow : (0 : ℚ) < 2 ^ q := zpow_pos (by norm_num) q
  have hunit : (0 : ℚ) < s.den * scale :=
    mul_pos (by exact_mod_cast hs.den) (by exact_mod_cast hscale)
  have hends : (m - gap m q) * 2 ^ q ≤ (m + 1 / 2) * 2 ^ q :=
    mul_le_mul_of_nonneg_right (by linarith [gap_pos m q]) hpow.le
  -- the ends of the interval in terms of numerators
  have hlow : ((s.low * scale : Nat) : ℚ) = (m - gap m q) * 2 ^ q * (s.den * scale) := by
    push_cast
    rw [hs.low]
    ring
  have hhigh : ((s.high * scale : Nat) : ℚ) = (m + 1 / 2) * 2 ^ q * (s.den * scale) := by
    push_cast
    rw [hs.high]
    ring
  unfold holds at h
  simp only [Bool.or_eq_true, Bool.and_eq_true, decide_eq_true_eq, beq_iff_eq] at h
  rcases h with ⟨hgt, hlt⟩ | ⟨hclosed, heq | heq⟩
  · have hgt' : ((s.low * scale : Nat) : ℚ) < num := by exact_mod_cast hgt
    have hlt' : (num : ℚ) < (s.high * scale : Nat) := by exact_mod_cast hlt
    rw [hlow, hv, mul_lt_mul_iff_left₀ hunit] at hgt'
    rw [hhigh, hv, mul_lt_mul_iff_left₀ hunit] at hlt'
    exact ⟨hgt'.le, hlt'.le, fun htie => htie.elim (fun h => absurd h hgt'.ne')
      fun h => absurd h hlt'.ne⟩
  · have heq' : (num : ℚ) = (s.low * scale : Nat) := by exact_mod_cast heq
    rw [hlow, hv, mul_left_inj' hunit.ne'] at heq'
    exact ⟨heq'.ge, heq'.trans_le hends, fun _ => hs.closed hclosed⟩
  · have heq' : (num : ℚ) = (s.high * scale : Nat) := by exact_mod_cast heq
    rw [hhigh, hv, mul_left_inj' hunit.ne'] at heq'
    exact ⟨hends.trans_eq heq'.symm, heq'.le, fun _ => hs.closed hclosed⟩

/-- **What a span holds rounds to its double.** -/
theorem Span.Spans.roundsTo {s : Span} {m : Nat} {q : Int} (hs : s.Spans m q) {num scale : Nat}
    (hscale : 0 < scale) (h : s.holds num scale = true) :
    RoundsTo m q (num / (s.den * scale)) := by
  have hpow : (0 : ℚ) < 2 ^ q := zpow_pos (by norm_num) q
  have hunit : (0 : ℚ) < s.den * scale :=
    mul_pos (by exact_mod_cast hs.den) (by exact_mod_cast hscale)
  obtain ⟨hge, hle, htie⟩ := hs.inside hscale h (div_mul_cancel₀ (num : ℚ) hunit.ne').symm
  have hwide : ((m : ℚ) - 1 / 2) * 2 ^ q ≤ (m - gap m q) * 2 ^ q :=
    mul_le_mul_of_nonneg_right (by linarith [gap_le m q]) hpow.le
  refine ⟨hle, hwide.trans hge, fun hm hq => ?_, ?_⟩
  · rw [gap, if_pos ⟨hm, hq⟩] at hge
    exact hge
  · rintro (heq | heq)
    · exact htie (.inr heq)
    · -- only where the interval is not narrow can there be a tie below
      rw [heq] at hge
      exact htie (.inl (heq.trans (le_antisymm hwide hge)))

/-! ### Grids -/

/-- The numerator of a grid's unit. -/
def unitOf (k : Int) : Nat := if 0 ≤ k then tenTo k.toNat else 1

/-- The denominator of a grid's unit. -/
def scaleOf (k : Int) : Nat := if 0 ≤ k then 1 else tenTo (-k).toNat

theorem unitOf_pos (k : Int) : 0 < unitOf k := by
  unfold unitOf
  split
  · exact Nat.pow_pos (by norm_num)
  · exact Nat.one_pos

theorem scaleOf_pos (k : Int) : 0 < scaleOf k := by
  unfold scaleOf
  split
  · exact Nat.one_pos
  · exact Nat.pow_pos (by norm_num)

theorem unitOf_eq (k : Int) : (unitOf k : ℚ) = 10 ^ k * scaleOf k := by
  unfold unitOf scaleOf
  split
  · rename_i hk
    obtain ⟨n, rfl⟩ := Int.eq_ofNat_of_zero_le hk
    rw [Int.toNat_natCast, cast_tenTo, Nat.cast_one, mul_one]
  · rename_i hk
    obtain ⟨n, hn⟩ := Int.eq_ofNat_of_zero_le (show 0 ≤ -k by omega)
    obtain rfl : k = -(n : Int) := by omega
    rw [neg_neg, Int.toNat_natCast, cast_tenTo, ← zpow_add₀ (by norm_num), neg_add_cancel]
    norm_num

/-- The whole number of units of a grid that a span's value has. -/
def Span.below (s : Span) (k : Int) : Nat := s.value * scaleOf k / (s.den * unitOf k)

/-- Whether a number of units of a grid is in a span. -/
def Span.hits (s : Span) (k : Int) (u : Nat) : Bool :=
  s.holds (u * (s.den * unitOf k)) (scaleOf k)

theorem Span.onGrid_eq (s : Span) (k : Int) :
    s.onGrid k =
      match decide (0 < s.below k) && s.hits k (s.below k), s.hits k (s.below k + 1) with
      | true, true =>
        if s.value * scaleOf k - s.below k * (s.den * unitOf k) <
            (s.below k + 1) * (s.den * unitOf k) - s.value * scaleOf k ∨
          s.value * scaleOf k - s.below k * (s.den * unitOf k) =
            (s.below k + 1) * (s.den * unitOf k) - s.value * scaleOf k ∧ s.below k % 2 = 0 then
          some (s.below k)
        else some (s.below k + 1)
      | true, false => some (s.below k)
      | false, true => some (s.below k + 1)
      | false, false => none := rfl

/-- **A hit is one of the value's two neighbours on the grid, and in the span.** -/
theorem Span.onGrid_eq_some {s : Span} {k : Int} {u : Nat} (h : s.onGrid k = some u) :
    (u = s.below k ∧ 0 < u ∨ u = s.below k + 1) ∧ s.hits k u = true := by
  rw [onGrid_eq] at h
  have hlower : (decide (0 < s.below k) && s.hits k (s.below k)) = true → u = s.below k →
      (u = s.below k ∧ 0 < u ∨ u = s.below k + 1) ∧ s.hits k u = true := by
    rintro hboth rfl
    obtain ⟨hpos, hhits⟩ := Bool.and_eq_true_iff.mp hboth
    exact ⟨.inl ⟨rfl, of_decide_eq_true hpos⟩, hhits⟩
  split at h
  · rename_i hbelow habove
    split at h
    · exact hlower hbelow (Option.some.inj h).symm
    · obtain rfl := Option.some.inj h
      exact ⟨.inr rfl, habove⟩
  · rename_i hbelow _
    exact hlower hbelow (Option.some.inj h).symm
  · rename_i _ habove
    obtain rfl := Option.some.inj h
    exact ⟨.inr rfl, habove⟩
  · cases h

/-- A grid has a hit if the upper neighbour is in the span. -/
theorem Span.onGrid_ne_none {s : Span} {k : Int} (h : s.hits k (s.below k + 1) = true) :
    s.onGrid k ≠ none := by
  rw [onGrid_eq, h]
  split
  · split <;> exact Option.some_ne_none _
  · exact Option.some_ne_none _
  · exact Option.some_ne_none _
  · rename_i hnot
    cases hnot

section

variable {s : Span} {m : Nat} {q : Int}

theorem Span.Spans.value_div (hs : s.Spans m q) : (s.value : ℚ) / s.den = m * 2 ^ q := by
  have hden : (s.den : ℚ) ≠ 0 := by exact_mod_cast hs.den.ne'
  rw [hs.value, mul_div_cancel_right₀ _ hden]

/-- A number of units in the span rounds to the double. -/
theorem Span.Spans.hits_roundsTo (hs : s.Spans m q) {k : Int} {u : Nat} (h : s.hits k u = true) :
    RoundsTo m q (u * 10 ^ k) := by
  have hden : (s.den : ℚ) ≠ 0 := by exact_mod_cast hs.den.ne'
  have hscale : (scaleOf k : ℚ) ≠ 0 := by exact_mod_cast (scaleOf_pos k).ne'
  have hvalue : ((u * (s.den * unitOf k) : Nat) : ℚ) / (s.den * scaleOf k) = u * 10 ^ k := by
    push_cast
    rw [unitOf_eq]
    field_simp
  rw [← hvalue]
  exact hs.roundsTo (scaleOf_pos k) h

/-- The value lies between its two neighbours on a grid. -/
theorem Span.Spans.below_bounds (hs : s.Spans m q) (k : Int) :
    (s.below k : ℚ) * 10 ^ k ≤ m * 2 ^ q ∧ m * 2 ^ q < ((s.below k : ℚ) + 1) * 10 ^ k := by
  have hpos : 0 < s.den * unitOf k := Nat.mul_pos hs.den (unitOf_pos k)
  have hden : (0 : ℚ) < s.den := by exact_mod_cast hs.den
  have hscale : (0 : ℚ) < scaleOf k := by exact_mod_cast scaleOf_pos k
  have hunit : (0 : ℚ) < s.den * scaleOf k := mul_pos hden hscale
  have hle : (s.below k : ℚ) * (s.den * unitOf k) ≤ s.value * scaleOf k := by
    exact_mod_cast Nat.div_mul_le_self (s.value * scaleOf k) (s.den * unitOf k)
  have hlt : (s.value * scaleOf k : ℚ) < (s.below k + 1) * (s.den * unitOf k) := by
    have hnext : s.value * scaleOf k < (s.below k + 1) * (s.den * unitOf k) :=
      Nat.lt_of_lt_of_eq (Nat.lt_mul_div_succ _ hpos) (Nat.mul_comm ..)
    exact_mod_cast hnext
  rw [hs.value, unitOf_eq] at hle hlt
  constructor
  · rw [← mul_le_mul_iff_left₀ hunit]
    linarith
  · rw [← mul_lt_mul_iff_left₀ hunit]
    linarith

/-- **A grid with eighteen digits has a hit**: its unit is less than half a unit in the last place
of any double. -/
theorem Span.Spans.onGrid_ne_none (hs : s.Spans m q) (hm : m < twoTo 53) {e : Int}
    (he : (10 : ℚ) ^ (e - 1) ≤ m * 2 ^ q) : s.onGrid (e - 18) ≠ none := by
  have hpow : (0 : ℚ) < 2 ^ q := zpow_pos (by norm_num) q
  have hden : (0 : ℚ) < s.den := by exact_mod_cast hs.den
  have hscale : (0 : ℚ) < scaleOf (e - 18) := by exact_mod_cast scaleOf_pos (e - 18)
  have hunit : (0 : ℚ) < s.den * scaleOf (e - 18) := mul_pos hden hscale
  obtain ⟨hbelow, habove⟩ := hs.below_bounds (e - 18)
  -- 1. the unit of the grid
  have hsmall : (10 : ℚ) ^ (e - 18) < 1 / 2 * 2 ^ q := by
    have hsplit : (10 : ℚ) ^ (e - 1) = 10 ^ (e - 18) * 10 ^ 17 := by
      rw [show e - 1 = e - 18 + (17 : Nat) by omega, zpow_add₀ (by norm_num), zpow_natCast]
    have hm' : (m : ℚ) < 2 ^ 53 := by exact_mod_cast hm
    rw [hsplit] at he
    have hlt : (10 : ℚ) ^ (e - 18) * 10 ^ 17 < 2 ^ 53 * 2 ^ q :=
      he.trans_lt (mul_lt_mul_of_pos_right hm' hpow)
    linarith
  -- 2. the upper neighbour lies above the value and below the end of the span
  refine Span.onGrid_ne_none ?_
  set u := s.below (e - 18) with hu
  have hnum : ((((u + 1) * (s.den * unitOf (e - 18)) : Nat)) : ℚ) =
      (u + 1) * 10 ^ (e - 18) * (s.den * scaleOf (e - 18)) := by
    push_cast
    rw [unitOf_eq]
    ring
  have hlow : s.low * scaleOf (e - 18) < (u + 1) * (s.den * unitOf (e - 18)) := by
    have : ((s.low * scaleOf (e - 18) : Nat) : ℚ) <
        (((u + 1) * (s.den * unitOf (e - 18)) : Nat) : ℚ) := by
      rw [hnum]
      push_cast
      rw [hs.low, mul_assoc _ (s.den : ℚ), mul_lt_mul_iff_left₀ hunit]
      exact (mul_lt_mul_of_pos_right (by linarith [gap_pos m q]) hpow).trans habove
    exact_mod_cast this
  have hhigh : (u + 1) * (s.den * unitOf (e - 18)) < s.high * scaleOf (e - 18) := by
    have : (((u + 1) * (s.den * unitOf (e - 18)) : Nat) : ℚ) <
        ((s.high * scaleOf (e - 18) : Nat) : ℚ) := by
      rw [hnum]
      push_cast
      rw [hs.high, mul_assoc _ (s.den : ℚ), mul_lt_mul_iff_left₀ hunit]
      linarith
    exact_mod_cast this
  unfold hits holds
  simp only [Bool.or_eq_true, Bool.and_eq_true, decide_eq_true_eq]
  exact .inl ⟨hlow, hhigh⟩

/-- A hit has as many digits as its grid, or is the next power of ten. -/
theorem Span.Spans.onGrid_digits (hs : s.Spans m q) {e : Int}
    (he : (10 : ℚ) ^ (e - 1) ≤ m * 2 ^ q) (he' : m * 2 ^ q < (10 : ℚ) ^ e) {n u : Nat} (hn : 0 < n)
    (h : s.onGrid (e - n) = some u) : 10 ^ (n - 1) ≤ u ∧ u ≤ 10 ^ n := by
  obtain ⟨hbelow, habove⟩ := hs.below_bounds (e - n)
  have hpow : (0 : ℚ) < 10 ^ (e - n) := zpow_pos (by norm_num) _
  have hleast : 10 ^ (n - 1) ≤ s.below (e - n) := by
    have hsplit : (10 : ℚ) ^ (e - 1) = 10 ^ (n - 1) * 10 ^ (e - n) := by
      rw [← zpow_natCast, ← zpow_add₀ (by norm_num)]
      congr 1
      omega
    have hlt : (10 : ℚ) ^ (n - 1) < s.below (e - n) + 1 := by
      rw [← mul_lt_mul_iff_left₀ hpow, ← hsplit]
      exact he.trans_lt habove
    have : 10 ^ (n - 1) < s.below (e - n) + 1 := by exact_mod_cast hlt
    omega
  have hmost : s.below (e - n) < 10 ^ n := by
    have hsplit : (10 : ℚ) ^ e = 10 ^ n * 10 ^ (e - n) := by
      rw [← zpow_natCast, ← zpow_add₀ (by norm_num)]
      congr 1
      omega
    have hlt : (s.below (e - n) : ℚ) < 10 ^ n := by
      rw [← mul_lt_mul_iff_left₀ hpow, ← hsplit]
      exact hbelow.trans_lt he'
    exact_mod_cast hlt
  obtain ⟨⟨rfl, -⟩ | rfl, -⟩ := Span.onGrid_eq_some h
  · exact ⟨hleast, hmost.le⟩
  · exact ⟨hleast.trans (Nat.le_succ _), hmost⟩

end

/-! ### Digits -/

/-- The number of decimal digits. -/
def size (n : Nat) : Nat := Nat.log 10 n + 1

theorem size_eq {n u : Nat} (hn : 0 < n) (hlow : 10 ^ (n - 1) ≤ u) (hhigh : u < 10 ^ n) :
    size u = n := by
  obtain ⟨k, rfl⟩ : ∃ k, n = k + 1 := ⟨n - 1, by omega⟩
  rw [size, Nat.log_eq_of_pow_le_of_lt_pow hlow hhigh, Nat.add_sub_cancel]

/-- The number that a decimal stands for. -/
def Decimal.value (d : Decimal) : ℚ := d.digits * 10 ^ (d.point - size d.digits)

/-- Zeros at the end of the digits do not count. -/
theorem value_stripZeros (fuel : Nat) {n : Nat} (hn : 0 < n) (point : Int) :
    0 < stripZeros fuel n ∧
      Decimal.value ⟨stripZeros fuel n, point⟩ = Decimal.value ⟨n, point⟩ := by
  induction fuel generalizing n with
  | zero => exact ⟨hn, rfl⟩
  | succ fuel ih =>
    unfold stripZeros
    split
    · rename_i hzero
      obtain ⟨k, rfl⟩ : 10 ∣ n := Nat.dvd_of_mod_eq_zero hzero.1
      have hk : 0 < k := by omega
      rw [Nat.mul_div_cancel_left k (by norm_num)]
      obtain ⟨hpos, hvalue⟩ := ih hk
      refine ⟨hpos, hvalue.trans ?_⟩
      have hsize : size (10 * k) = size k + 1 := by
        unfold size
        rw [mul_comm, Nat.log_mul_base (by norm_num) hk.ne']
      simp only [Decimal.value, hsize]
      push_cast
      rw [show point - size k = point - (size k + 1) + 1 by omega, zpow_add_one₀ (by norm_num)]
      ring
    · exact ⟨hn, rfl⟩

/-- **The search finds a decimal that rounds to the double.** -/
theorem Span.Spans.search_spec {s : Span} {m : Nat} {q e : Int} (hs : s.Spans m q)
    (hm : m < twoTo 53) (he : (10 : ℚ) ^ (e - 1) ≤ m * 2 ^ q) (he' : m * 2 ^ q < (10 : ℚ) ^ e) {fuel n : Nat}
    (hn : 0 < n) (hfuel : n + fuel = 19) (hleft : 0 < fuel) :
    0 < (s.search e fuel n).digits ∧ RoundsTo m q (s.search e fuel n).value ∧
      e ≤ (s.search e fuel n).point ∧ (s.search e fuel n).point ≤ e + 1 := by
  induction fuel generalizing n with
  | zero => omega
  | succ fuel ih =>
    unfold search
    cases hgrid : s.onGrid (e - n) with
    | none =>
      -- the last grid has a hit
      have hlast : n ≠ 18 := by
        rintro rfl
        exact hs.onGrid_ne_none hm he hgrid
      exact ih (by omega) (by omega) (by omega)
    | some u =>
      obtain ⟨hlow, hhigh⟩ := hs.onGrid_digits he he' hn hgrid
      have hround := hs.hits_roundsTo (Span.onGrid_eq_some hgrid).2
      dsimp only
      split
      · -- a power of ten is a one, one place further
        rename_i hpower
        refine ⟨Nat.one_pos, ?_, by dsimp only; omega, by dsimp only; omega⟩
        have hvalue : Decimal.value ⟨1, e + 1⟩ = u * 10 ^ (e - n) := by
          simp only [Decimal.value, size, Nat.log_one_right]
          rw [hpower, cast_tenTo, ← zpow_add₀ (by norm_num)]
          simp
        rwa [hvalue]
      · rename_i hpower
        have hlt : u < 10 ^ n := lt_of_le_of_ne hhigh hpower
        refine ⟨lt_of_lt_of_le (Nat.pow_pos (by norm_num)) hlow, ?_, le_refl _, by dsimp only; omega⟩
        have hvalue : Decimal.value ⟨u, e⟩ = u * 10 ^ (e - n) := by
          simp only [Decimal.value, size_eq hn hlow hlt]
        rwa [hvalue]

/-- **The shortest decimal of a double rounds to it.** -/
theorem ofMagnitude_roundsTo {m : Nat} {q : Int} (h : Canonical m q) (hm : 0 < m) :
    0 < (ofMagnitude m q).digits ∧ RoundsTo m q (ofMagnitude m q).value ∧
      -400 ≤ (ofMagnitude m q).point ∧ (ofMagnitude m q).point ≤ 400 := by
  have hs := Span.spans_of hm q
  have hpow : (0 : ℚ) < 2 ^ q := zpow_pos (by norm_num) q
  obtain ⟨hlt, hleast, hmost, -⟩ := h
  unfold leastExponent at hleast
  have hone : (1 : ℚ) ≤ m := by exact_mod_cast hm
  -- 1. the double lies between two powers of two, and so between two powers of ten
  obtain ⟨r, hr⟩ : ∃ r : Int, r = 1100 := ⟨1100, rfl⟩
  obtain ⟨t, ht⟩ : ∃ t : Int, t = 332 := ⟨332, rfl⟩
  have hlow : (2 : ℚ) ^ (-r) ≤ m * 2 ^ q := by
    calc (2 : ℚ) ^ (-r) ≤ 2 ^ q := zpow_le_zpow_right₀ (by norm_num) (by omega)
      _ ≤ m * 2 ^ q := le_mul_of_one_le_left hpow.le hone
  have hhigh : m * 2 ^ q ≤ (2 : ℚ) ^ r := by
    have hm' : (m : ℚ) ≤ 2 ^ (53 : Int) := by exact_mod_cast hlt.le
    calc m * (2 : ℚ) ^ q ≤ 2 ^ (53 : Int) * 2 ^ q := mul_le_mul_of_nonneg_right hm' hpow.le
      _ = 2 ^ (53 + q) := by rw [zpow_add₀ (by norm_num)]
      _ ≤ 2 ^ r := zpow_le_zpow_right₀ (by norm_num) (by omega)
  have hleast' : (10 : ℚ) ^ (-t) ≤ m * 2 ^ q := (ten_le_two (by omega) (by omega)).trans hlow
  have hmost' : m * 2 ^ q ≤ (10 : ℚ) ^ t := hhigh.trans (two_le_ten (by omega) (by omega))
  -- 2. its decimal exponent
  have hvalue : 0 < (Span.of m q).value := by
    have hden : (0 : ℚ) < (Span.of m q).den := by exact_mod_cast hs.den
    have : (0 : ℚ) < (Span.of m q).value := by
      rw [hs.value]
      positivity
    exact_mod_cast this
  have hspec := @decimalExponent_spec _ _ hvalue hs.den r (by omega)
  rw [hs.value_div] at hspec
  obtain ⟨he, he'⟩ := hspec hlow hhigh
  unfold ofMagnitude
  dsimp only
  set e := decimalExponent (Span.of m q).value (Span.of m q).den
  have hemost : e - 1 ≤ t := (zpow_le_zpow_iff_right₀ (by norm_num)).mp (he.trans hmost')
  have heleast : -t < e := (zpow_lt_zpow_iff_right₀ (by norm_num)).mp (hleast'.trans_lt he')
  -- 3. the search and what is stripped afterwards
  obtain ⟨hpos, hround, hpoint, hpoint'⟩ :=
    @Span.Spans.search_spec _ _ _ e hs hlt he he' 18 1 (by omega) (by omega) (by omega)
  obtain ⟨hpos', hsame⟩ := value_stripZeros 20 hpos ((Span.of m q).search e 18 1).point
  refine ⟨hpos', ?_, by omega, by omega⟩
  rw [hsame]
  exact hround

end SchemePlayer.Shortest
