import SchemePlayer.Proofs.Number.Bits

/-!
# Rounding to the nearest double

`nearest` takes a fraction to the double that it rounds to. Fractions are compared as rational
numbers here:

- `RoundsTo m q v`: the number `v` lies in the interval of those that round to `m * 2 ^ q`; its
  ends belong to it if `m` is even.
- `exponentOf_spec`: the exponent at which a fraction has a whole part of 53 bits.
- `nearest_eq_pack`: **a fraction in the interval of a double is rounded to that double.**
-/

namespace SchemePlayer.Binary64

/-! ### Intervals -/

/-- The numbers that round to `m * 2 ^ q`. Below a power of two the neighbours are twice as
close. -/
structure RoundsTo (m : Nat) (q : Int) (v : ℚ) : Prop where
  high : v ≤ (m + 1 / 2) * 2 ^ q
  low : (m - 1 / 2) * 2 ^ q ≤ v
  narrow : m = twoTo 52 → leastExponent < q → (m - 1 / 4) * 2 ^ q ≤ v
  tie : v = (m + 1 / 2) * 2 ^ q ∨ v = (m - 1 / 2) * 2 ^ q → m % 2 = 0

/-- A double rounds to itself. -/
theorem RoundsTo.self (m : Nat) (q : Int) : RoundsTo m q (m * 2 ^ q) := by
  have hpos : (0 : ℚ) < 2 ^ q := zpow_pos (by norm_num) q
  refine ⟨?_, ?_, fun _ _ => ?_, ?_⟩
  · exact mul_le_mul_of_nonneg_right (by linarith) hpos.le
  · exact mul_le_mul_of_nonneg_right (by linarith) hpos.le
  · exact mul_le_mul_of_nonneg_right (by linarith) hpos.le
  · rintro (htie | htie)
    · linarith [mul_right_cancel₀ hpos.ne' htie]
    · linarith [mul_right_cancel₀ hpos.ne' htie]

theorem RoundsTo.pos {m : Nat} {q : Int} {v : ℚ} (h : RoundsTo m q v) (hm : 0 < m) : 0 < v := by
  have hpos : (0 : ℚ) < 2 ^ q := zpow_pos (by norm_num) q
  have hone : (1 : ℚ) ≤ m := by exact_mod_cast hm
  exact (mul_pos (by linarith) hpos).trans_le h.low

/-! ### Fractions of natural numbers -/

theorem scaleDown_den_pos {num den : Nat} (hden : 0 < den) (q : Int) :
    0 < (scaleDown num den q).2 := by
  unfold scaleDown
  split
  · exact Nat.mul_pos hden (Nat.pow_pos (by norm_num))
  · exact hden

/-- Scaling a fraction divides it by the power of two. -/
theorem scaleDown_eq {num den : Nat} (hden : 0 < den) (q : Int) :
    ((scaleDown num den q).1 : ℚ) / (scaleDown num den q).2 = num / den / 2 ^ q := by
  have hden' : (den : ℚ) ≠ 0 := by exact_mod_cast hden.ne'
  unfold scaleDown
  split
  · rename_i hq
    obtain ⟨k, rfl⟩ := Int.eq_ofNat_of_zero_le hq
    simp only [Int.toNat_natCast, twoTo, Nat.pow_eq, Nat.cast_mul, Nat.cast_pow, Nat.cast_ofNat,
      zpow_natCast]
    field_simp
  · rename_i hq
    obtain ⟨k, hk⟩ := Int.eq_ofNat_of_zero_le (show 0 ≤ -q by omega)
    obtain rfl : q = -(k : Int) := by omega
    simp only [neg_neg, Int.toNat_natCast, twoTo, Nat.pow_eq, Nat.cast_mul, Nat.cast_pow,
      Nat.cast_ofNat, zpow_neg, zpow_natCast]
    field_simp

/-- A fraction within half a unit of a number is rounded to it, if a tie is at an even one. -/
theorem roundDiv_eq {n d m : Nat} (hd : 0 < d) (hlow : (m : ℚ) - 1 / 2 ≤ n / d)
    (hhigh : (n : ℚ) / d ≤ m + 1 / 2)
    (htie : (n : ℚ) / d = m + 1 / 2 ∨ (n : ℚ) / d = m - 1 / 2 → m % 2 = 0) :
    roundDiv n d = m := by
  have hd' : (0 : ℚ) < d := by exact_mod_cast hd
  have hlow' : 2 * (m * d) ≤ 2 * n + d := by
    rw [le_div_iff₀ hd'] at hlow
    have : (2 * (m * d) : ℚ) ≤ 2 * n + d := by linarith
    exact_mod_cast this
  have hhigh' : 2 * n ≤ 2 * (m * d) + d := by
    rw [div_le_iff₀ hd'] at hhigh
    have : (2 * n : ℚ) ≤ 2 * (m * d) + d := by linarith
    exact_mod_cast this
  have htie' : 2 * n = 2 * (m * d) + d ∨ 2 * (m * d) = 2 * n + d → m % 2 = 0 := by
    intro heq
    refine htie (heq.imp (fun heq => ?_) fun heq => ?_)
    · have : (2 * n : ℚ) = 2 * (m * d) + d := by exact_mod_cast heq
      rw [div_eq_iff hd'.ne']
      linarith
    · have : (2 * (m * d) : ℚ) = 2 * n + d := by exact_mod_cast heq
      rw [div_eq_iff hd'.ne']
      linarith
  -- the whole part is the number itself or the one below it
  have hdiv := Nat.div_add_mod' n d
  have hmod := Nat.mod_lt n hd
  have hwhole : n / d = m ∨ n / d + 1 = m := by
    have hle : n / d ≤ m := by
      by_contra hgt
      have hmore : (m + 1) * d ≤ n := (Nat.le_div_iff_mul_le hd).mp (by omega)
      rw [Nat.succ_mul] at hmore
      omega
    have hge : m ≤ n / d + 1 := by
      by_contra hlt
      have hless : (n / d + 2) * d ≤ m * d := Nat.mul_le_mul_right d (by omega)
      rw [Nat.add_mul] at hless
      omega
    omega
  unfold roundDiv
  dsimp only
  rcases hwhole with hwhole | hwhole
  · rw [hwhole] at hdiv ⊢
    split
    · rfl
    · rw [if_neg (by omega)]
      have : m % 2 = 0 := htie' (.inl (by omega))
      omega
  · have hnext : m * d = n / d * d + d := by rw [← hwhole, Nat.succ_mul]
    rw [if_neg (by omega)]
    split
    · omega
    · have : m % 2 = 0 := htie' (.inr (by omega))
      omega

/-! ### The exponent -/

theorem log2_bounds {n : Nat} (hn : 0 < n) :
    (2 : ℚ) ^ (n.log2 : Int) ≤ n ∧ (n : ℚ) < 2 ^ ((n.log2 : Int) + 1) := by
  constructor
  · rw [zpow_natCast]
    exact_mod_cast Nat.log2_self_le hn.ne'
  · have hlt : n < 2 ^ (n.log2 + 1) := Nat.lt_log2_self
    have hcast : ((n.log2 : Int) + 1) = ((n.log2 + 1 : Nat) : Int) := by push_cast; rfl
    rw [hcast, zpow_natCast]
    exact_mod_cast hlt

/-- A fraction lies between the powers of two around the difference of the logarithms. -/
theorem fraction_bounds {num den : Nat} (hnum : 0 < num) (hden : 0 < den) {l : Int}
    (hl : l = (num.log2 : Int) - den.log2) :
    (2 : ℚ) ^ (l - 1) < num / den ∧ (num : ℚ) / den < 2 ^ (l + 1) := by
  obtain ⟨hnumlow, hnumhigh⟩ := log2_bounds hnum
  obtain ⟨hdenlow, hdenhigh⟩ := log2_bounds hden
  have hden' : (0 : ℚ) < den := by exact_mod_cast hden
  have htwo : (2 : ℚ) ≠ 0 := by norm_num
  constructor
  · rw [lt_div_iff₀ hden']
    calc (2 : ℚ) ^ (l - 1) * den < 2 ^ (l - 1) * 2 ^ ((den.log2 : Int) + 1) :=
          mul_lt_mul_of_pos_left hdenhigh (by positivity)
      _ = 2 ^ (num.log2 : Int) := by
          rw [← zpow_add₀ htwo]
          congr 1
          omega
      _ ≤ num := hnumlow
  · rw [div_lt_iff₀ hden']
    calc (num : ℚ) < 2 ^ ((num.log2 : Int) + 1) := hnumhigh
      _ = 2 ^ (l + 1) * 2 ^ (den.log2 : Int) := by
          rw [← zpow_add₀ htwo]
          congr 1
          omega
      _ ≤ 2 ^ (l + 1) * den := mul_le_mul_of_nonneg_left hdenlow (by positivity)

/-- The exponent before it is cut off at the least one. -/
def freeExponent (num den : Nat) : Int :=
  let guess : Int := (num.log2 : Int) - den.log2 - 52
  let (n, d) := scaleDown num den guess
  if n / d < twoTo 52 then guess - 1 else guess

theorem exponentOf_eq (num den : Nat) :
    exponentOf num den = max (freeExponent num den) leastExponent := rfl

/-- The guess from the logarithms is right or one too large. -/
theorem freeExponent_spec {num den : Nat} (hnum : 0 < num) (hden : 0 < den) :
    (num : ℚ) / den / 2 ^ freeExponent num den < 2 ^ 53 ∧
      2 ^ 52 ≤ (num : ℚ) / den / 2 ^ freeExponent num den := by
  have htwo : (2 : ℚ) ≠ 0 := by norm_num
  obtain ⟨hlow, hhigh⟩ := fraction_bounds hnum hden rfl
  unfold freeExponent
  dsimp only
  set v : ℚ := num / den with hv
  set guess : Int := (num.log2 : Int) - den.log2 - 52 with hguess
  have hpow : (0 : ℚ) < 2 ^ guess := zpow_pos (by norm_num) guess
  have hvlow : (2 : ℚ) ^ 51 < v / 2 ^ guess := by
    rw [lt_div_iff₀ hpow, ← zpow_natCast, ← zpow_add₀ htwo]
    exact (congrArg _ (by push_cast; omega)).trans_lt hlow
  have hvhigh : v / 2 ^ guess < (2 : ℚ) ^ 53 := by
    rw [div_lt_iff₀ hpow, ← zpow_natCast, ← zpow_add₀ htwo]
    exact hhigh.trans_eq (congrArg _ (by push_cast; omega))
  have hscaled := @scaleDown_eq num den hden guess
  have hdpos := @scaleDown_den_pos num den hden guess
  have hd' : (0 : ℚ) < (scaleDown num den guess).2 := by exact_mod_cast hdpos
  split
  · rename_i hsmall
    have hlt : v / 2 ^ guess < 2 ^ 52 := by
      rw [← hscaled, div_lt_iff₀ hd']
      exact_mod_cast (Nat.div_lt_iff_lt_mul hdpos).mp hsmall
    have hdouble : v / 2 ^ (guess - 1) = v / 2 ^ guess * 2 := by
      rw [zpow_sub₀ htwo]
      field_simp
    rw [hdouble]
    constructor
    · linarith
    · linarith
  · rename_i hlarge
    refine ⟨hvhigh, ?_⟩
    rw [← hscaled, le_div_iff₀ hd']
    exact_mod_cast (Nat.le_div_iff_mul_le hdpos).mp (Nat.not_lt.mp hlarge)

/-- **At its exponent a fraction has a whole part of 53 bits**, or fewer if the exponent is the
least one. -/
theorem exponentOf_spec {num den : Nat} (hnum : 0 < num) (hden : 0 < den) :
    leastExponent ≤ exponentOf num den ∧
      (num : ℚ) / den / 2 ^ exponentOf num den < 2 ^ 53 ∧
      (exponentOf num den = leastExponent ∨
        2 ^ 52 ≤ (num : ℚ) / den / 2 ^ exponentOf num den) := by
  obtain ⟨hhigh, hlow⟩ := freeExponent_spec hnum hden
  rw [exponentOf_eq]
  rcases le_total leastExponent (freeExponent num den) with hle | hle
  · rw [max_eq_left hle]
    exact ⟨hle, hhigh, .inr hlow⟩
  · -- with a greater exponent the whole part only gets smaller
    rw [max_eq_right hle]
    refine ⟨le_refl _, lt_of_le_of_lt ?_ hhigh, .inl rfl⟩
    exact div_le_div_of_nonneg_left (by positivity) (by positivity)
      (zpow_le_zpow_right₀ (by norm_num) hle)

/-! ### The nearest double -/

/-- The two ways to write a power of two. -/
theorem pack_full (q : Int) : pack (twoTo 53) q = pack (twoTo 52) (q + 1) := by
  unfold pack
  simp [twoTo]

section

variable {m num den : Nat} {q : Int}

/-- The exponent of a fraction in the interval of a double is not greater than the double's. -/
theorem RoundsTo.exponentOf_le (h : RoundsTo m q (num / den)) (hcanonical : Canonical m q)
    (hnum : 0 < num) (hden : 0 < den) : exponentOf num den ≤ q := by
  obtain ⟨-, -, hlow⟩ := exponentOf_spec hnum hden
  by_contra hnot
  have hfull := hlow.resolve_left (by
    have := hcanonical.least
    omega)
  rw [le_div_iff₀ (zpow_pos (by norm_num) _)] at hfull
  have hpow : (0 : ℚ) < 2 ^ q := zpow_pos (by norm_num) q
  have hdouble : (2 : ℚ) ^ q * 2 ≤ 2 ^ exponentOf num den := by
    rw [← zpow_add_one₀ (by norm_num)]
    exact zpow_le_zpow_right₀ (by norm_num) (by omega)
  have hm : (m : ℚ) + 1 ≤ 2 ^ 53 := by
    have : m + 1 ≤ 2 ^ 53 := hcanonical.lt
    exact_mod_cast this
  have hless : ((m : ℚ) + 1 / 2) * 2 ^ q < 2 ^ 53 * 2 ^ q :=
    mul_lt_mul_of_pos_right (by linarith) hpow
  linarith [h.high]

/-- If it is less, the double is a power of two and the fraction just below it. -/
theorem RoundsTo.of_exponentOf_lt (h : RoundsTo m q (num / den)) (hcanonical : Canonical m q)
    (hnum : 0 < num) (hden : 0 < den) (hlt : exponentOf num den < q) :
    m = twoTo 52 ∧ exponentOf num den + 1 = q := by
  obtain ⟨hleast, hhigh, -⟩ := exponentOf_spec hnum hden
  set e := exponentOf num den with he
  have hpow : (0 : ℚ) < 2 ^ q := zpow_pos (by norm_num) q
  rw [div_lt_iff₀ (zpow_pos (by norm_num) e)] at hhigh
  have hhalf : (2 : ℚ) ^ e * 2 ≤ 2 ^ q := by
    rw [← zpow_add_one₀ (by norm_num)]
    exact zpow_le_zpow_right₀ (by norm_num) (by omega)
  have hmeq : m = twoTo 52 := by
    have hfull : twoTo 52 ≤ m := hcanonical.full.resolve_right (by omega)
    by_contra hne
    have hmore : (2 : ℚ) ^ 52 + 1 ≤ m := by
      have : twoTo 52 + 1 ≤ m := by omega
      exact_mod_cast this
    have habove : (2 : ℚ) ^ 52 * 2 ^ q ≤ (m - 1 / 2) * 2 ^ q :=
      mul_le_mul_of_nonneg_right (by linarith) hpow.le
    linarith [h.low]
  refine ⟨hmeq, ?_⟩
  by_contra hne
  have hquarter : (2 : ℚ) ^ e * 2 * 2 ≤ 2 ^ q := by
    rw [← zpow_add_one₀ (by norm_num), ← zpow_add_one₀ (by norm_num)]
    exact zpow_le_zpow_right₀ (by norm_num) (by omega)
  have hm : (m : ℚ) = 2 ^ 52 := by exact_mod_cast hmeq
  have habove : (2 : ℚ) ^ 51 * 2 ^ q ≤ (m - 1 / 4) * 2 ^ q :=
    mul_le_mul_of_nonneg_right (by rw [hm]; norm_num) hpow.le
  linarith [h.narrow hmeq (by omega)]

/-- **A fraction in the interval of a double is rounded to that double.** -/
theorem nearest_eq_pack (hcanonical : Canonical m q) (hm : 0 < m) (hden : 0 < den)
    (h : RoundsTo m q (num / den)) : nearest num den = pack m q := by
  have hnum : 0 < num := by
    rcases Nat.eq_zero_or_pos num with rfl | hpos
    · simpa using h.pos hm
    · exact hpos
  have hscaled := @scaleDown_eq num den hden (exponentOf num den)
  have hdpos := @scaleDown_den_pos num den hden (exponentOf num den)
  have hpow : (0 : ℚ) < 2 ^ exponentOf num den := zpow_pos (by norm_num) _
  have hunfold : nearest num den = pack (roundDiv (scaleDown num den (exponentOf num den)).1
      (scaleDown num den (exponentOf num den)).2) (exponentOf num den) := by
    unfold nearest
    rw [if_neg hnum.ne']
  rw [hunfold]
  rcases (h.exponentOf_le hcanonical hnum hden).eq_or_lt with hsame | hlt
  · -- 1. the fraction has the exponent of the double
    rw [hsame] at hscaled hdpos hpow ⊢
    congr 1
    refine roundDiv_eq hdpos ?_ ?_ ?_
    · rw [hscaled, le_div_iff₀ hpow]
      exact h.low
    · rw [hscaled, div_le_iff₀ hpow]
      exact h.high
    · rw [hscaled, div_eq_iff hpow.ne', div_eq_iff hpow.ne']
      exact h.tie
  · -- 2. it lies just below a power of two, and is rounded up to it
    obtain ⟨rfl, hnext⟩ := h.of_exponentOf_lt hcanonical hnum hden hlt
    obtain ⟨hleast, hhigh, -⟩ := exponentOf_spec hnum hden
    have hnarrow := h.narrow rfl (by omega)
    have hq : (2 : ℚ) ^ q = 2 ^ exponentOf num den * 2 := by
      rw [← hnext, zpow_add_one₀ (by norm_num)]
    have hcast : ((twoTo 52 : Nat) : ℚ) = 2 ^ 52 := by norm_num [twoTo]
    have hcast' : ((twoTo 53 : Nat) : ℚ) = 2 ^ 53 := by norm_num [twoTo]
    rw [hq, hcast] at hnarrow
    rw [← hnext, ← pack_full]
    congr 1
    refine roundDiv_eq hdpos ?_ ?_ (fun _ => by decide)
    · rw [hscaled, hcast', le_div_iff₀ hpow]
      linarith
    · rw [hscaled, hcast']
      linarith

end

end SchemePlayer.Binary64
