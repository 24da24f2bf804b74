import SchemePlayer.Proofs.Number.Digits
import SchemePlayer.Proofs.Number.Shortest
import SchemePlayer.Value.Basic

/-!
# Values survive being written

A value is written as a text and read again when a variable set is applied. Nothing is lost: a
double is written with digits that round to it, in one of four layouts, and the reader finds the
same digits and the same exponent in each of them.

- `mantissa_digits`, `exponent?_digits`: what the reader makes of a run of digits.
- `Reads`: a text whose digits and exponent make a positive number; `reads_scientific` and
  `reads_positional`: every layout is such a text.
- `float_render`: **every double is read back as itself**, signed zeros, infinities and
  not-a-number among them.
- `parse_format`: **every value is read back as itself.**
-/

namespace SchemePlayer.Reading

open Text (isDigit decimal Plain)
open Binary64

/-! ### Runs of digits -/

theorem digit?_of_isDigit {c : UInt8} (h : isDigit c = true) :
    c ≠ 95 ∧ c ≠ 46 ∧ digit? false c = some (c.toNat - 48) := by
  refine ⟨?_, ?_, by rw [digit?, if_pos h]⟩
  · rintro rfl
    cases h
  · rintro rfl
    cases h

/-- A run of digits of a mantissa. -/
theorem mantissa_digits {ds : Text} (h : ∀ c ∈ ds, isDigit c = true) (m : Mantissa) (rest : Text) :
    mantissa false m (ds ++ rest) =
      mantissa false
        { m with
          number := decimal m.number ds
          digits := m.digits + ds.length
          fraction := if m.point then m.fraction + ds.length else m.fraction } rest := by
  induction ds generalizing m with
  | nil => simp [decimal]
  | cons c ds ih =>
    obtain ⟨hunderscore, hpoint, hdigit⟩ := digit?_of_isDigit (h c List.mem_cons_self)
    rw [List.cons_append, mantissa, if_neg hunderscore, if_neg hpoint, hdigit]
    dsimp only
    rw [ih fun d hd => h d (List.mem_cons_of_mem _ hd)]
    cases m.point <;> simp [decimal, Nat.add_assoc, Nat.add_comm 1]

theorem mantissa_point {m : Mantissa} (h : m.point = false) (rest : Text) :
    mantissa false m (46 :: rest) = mantissa false { m with point := true } rest := by
  rw [mantissa, if_neg (by decide), if_pos rfl, h]
  rfl

/-- The letter of an exponent ends a mantissa. -/
theorem mantissa_letter (m : Mantissa) (rest : Text) :
    mantissa false m (101 :: rest) = (m, 101 :: rest) := by
  rw [mantissa, if_neg (by decide), if_neg (by decide)]
  rfl

theorem le_decimal (start : Nat) (ds : Text) : start ≤ decimal start ds := by
  induction ds generalizing start with
  | nil => exact Nat.le_refl _
  | cons c ds ih => exact Nat.le_trans (by omega) (ih (start * 10 + (c.toNat - 48)))

/-- A run of digits of an exponent that is not too large. -/
theorem exponentDigits_digits {ds : Text} (h : ∀ c ∈ ds, isDigit c = true) {e : Nat}
    (hsmall : decimal e ds < 10000) (u : Bool) :
    exponentDigits e u ds = (decimal e ds, u, []) := by
  induction ds generalizing e with
  | nil => rfl
  | cons c ds ih =>
    have hc := h c List.mem_cons_self
    have hstep : decimal e (c :: ds) = decimal (e * 10 + (c.toNat - 48)) ds := rfl
    have hlt : e < 10000 := Nat.lt_of_le_of_lt (le_decimal e _) hsmall
    rw [hstep] at hsmall ⊢
    rw [exponentDigits, if_neg (digit?_of_isDigit hc).1, if_pos hc, if_pos hlt,
      ih (fun d hd => h d (List.mem_cons_of_mem _ hd)) hsmall]

/-- The exponent of a number, with its sign. -/
theorem exponent?_digits {ds : Text} (h : ∀ c ∈ ds, isDigit c = true) (hne : ds ≠ [])
    (hsmall : decimal 0 ds < 10000) (negative : Bool) :
    exponent? 101 (101 :: (if negative then 45 else 43) :: ds) =
      some (some (if negative then -(decimal 0 ds : Int) else decimal 0 ds, false), []) := by
  obtain ⟨d, ds, rfl⟩ := List.exists_cons_of_ne_nil hne
  have hd := h d List.mem_cons_self
  have hexponent := exponentDigits_digits h hsmall false
  cases negative <;> simp [exponent?, sign, hd, hexponent, Text.asciiLower]

/-! ### Texts that make a number -/

/-- A text whose digits and exponent make the positive number `v`, and are not so far beyond the
range of doubles that the reader gives up. -/
def Reads (t : Text) (v : ℚ) : Prop :=
  ∃ (m : Mantissa) (rest : Text) (e : Option Int), mantissa false {} t = (m, rest) ∧
    exponent? 101 rest = some (e.map (·, false), []) ∧ m.underscores = false ∧ 0 < m.digits ∧
    0 < m.number ∧ (m.number : ℚ) * 10 ^ (e.getD 0 - m.fraction) = v ∧
    e.getD 0 - m.fraction ≤ 2000 ∧ -2000 ≤ m.digits + (e.getD 0 - m.fraction)

theorem scaled_eq_pack {m number digits : Nat} {q e : Int} (hcanonical : Canonical m q)
    (hm : 0 < m) (hnumber : 0 < number) (hround : RoundsTo m q (number * 10 ^ e))
    (hmost : e ≤ 2000) (hleast : -2000 ≤ digits + e) : scaled 10 number digits e = pack m q := by
  unfold scaled
  rw [if_neg hnumber.ne', if_neg (by omega), if_neg (by omega)]
  split
  · rename_i he
    obtain ⟨k, rfl⟩ := Int.eq_ofNat_of_zero_le he
    refine nearest_eq_pack hcanonical hm Nat.one_pos ?_
    simpa [zpow_natCast] using hround
  · rename_i he
    obtain ⟨k, hk⟩ := Int.eq_ofNat_of_zero_le (show 0 ≤ -e by omega)
    obtain rfl : e = -(k : Int) := by omega
    refine nearest_eq_pack hcanonical hm (Nat.pow_pos (by norm_num)) ?_
    simpa [zpow_natCast, div_eq_mul_inv] using hround

/-- Whether a text without sign is in the other base, and what follows its mark. -/
def baseOf (body : Text) : Bool × Text :=
  match body with
  | 48 :: c :: d :: rest => if Text.asciiLower c = 120 then (true, d :: rest) else (false, body)
  | _ => (false, body)

/-- The number of a literal after its sign and the mark of its base. -/
def bodyLiteral (t : Text) (negative hex : Bool) (body : Text) : Except NumberError Float :=
  if (mantissa hex {} body).1.digits = 0 then .error .syntaxError
  else match exponent? (if hex then 112 else 101) (mantissa hex {} body).2 with
    | none => .error .syntaxError
    | some (e, rest) =>
      if hex ∧ e.isNone ∨ rest ≠ [] then .error .syntaxError
      else if ((mantissa hex {} body).1.underscores || (e.map (·.2)).getD false) ∧ ¬grouped t then
        .error .syntaxError
      else
        let m := (mantissa hex {} body).1
        let shift := (e.map (·.1)).getD 0
        let x :=
          if hex then scaled 2 m.number (4 * m.digits) (shift - 4 * m.fraction)
          else scaled 10 m.number m.digits (shift - m.fraction)
        if x.isInf then .error .outOfRange else .ok (withSign negative x)

theorem literal_def (t : Text) :
    literal t = bodyLiteral t (sign t).1 (baseOf (sign t).2).1 (baseOf (sign t).2).2 := rfl

/-- A plain text has no mark of another base. -/
theorem baseOf_of_plain {body : Text} (h : Plain body) : baseOf body = (false, body) := by
  unfold baseOf
  split
  · rename_i c d rest
    rw [if_neg (Text.isPlain_spec (h c (by simp))).2.2.2]
  · rfl

/-- **A plain text that makes a number which rounds to a double is read as that double.** -/
theorem literal_eq {t body : Text} {negative : Bool} (hsign : sign t = (negative, body))
    (hplain : Plain body) {v : ℚ} (hreads : Reads body v) {m : Nat} {q : Int}
    (hcanonical : Canonical m q) (hm : 0 < m) (hround : RoundsTo m q v) :
    literal t = .ok (withSign negative (pack m q)) := by
  obtain ⟨M, rest, e, hmantissa, hexponent, hunderscores, hdigits, hnumber, hv, hmost, hleast⟩ :=
    hreads
  rw [← hv] at hround
  have hscaled := scaled_eq_pack hcanonical hm hnumber hround hmost hleast
  have hbounded : (pack m q).isInf = false := (pack_finite hcanonical).1.bounded
  have hshift : (Option.map Prod.fst (e.map (·, false))).getD 0 = e.getD 0 := by
    cases e <;> rfl
  have hplaced : (Option.map Prod.snd (e.map (·, false))).getD false = false := by
    cases e <;> rfl
  rw [literal_def, hsign, baseOf_of_plain hplain]
  simp only [bodyLiteral, hmantissa, if_neg hdigits.ne', Bool.false_eq_true, if_false, hexponent,
    false_and, ne_eq, not_true_eq_false, or_self, hunderscores, Bool.false_or, hplaced, hshift,
    hscaled, hbounded]

/-! ### The layouts -/

open Shortest (size)

/-- The end of a number: nothing, or an exponent of a moderate size. -/
structure Ending (rest : Text) (e : Option Int) : Prop where
  stops : ∀ m, mantissa false m rest = (m, rest)
  exponent : exponent? 101 rest = some (e.map (·, false), [])
  least : -2000 ≤ e.getD 0
  most : e.getD 0 ≤ 2000

theorem ending_nil : Ending [] none := ⟨fun _ => rfl, rfl, by decide, by decide⟩

/-- Digits without a point. -/
theorem reads_whole {xs rest : Text} {e : Option Int} (hxs : ∀ c ∈ xs, isDigit c = true)
    (hrest : Ending rest e) (hpos : 0 < decimal 0 xs) :
    Reads (xs ++ rest) (decimal 0 xs * 10 ^ e.getD 0) := by
  have hlen : 0 < xs.length := by
    cases xs with
    | nil => cases hpos
    | cons => exact Nat.succ_pos _
  obtain ⟨hstops, hexponent, hleast, hmost⟩ := hrest
  refine ⟨{ number := decimal 0 xs, digits := xs.length }, rest, e, ?_, hexponent, rfl, hlen, hpos,
    by simp, by simpa using hmost, by dsimp only; omega⟩
  rw [mantissa_digits hxs, hstops]
  simp

/-- Digits with a point among them. -/
theorem reads_pointed {xs ys rest : Text} {e : Option Int} (hxs : ∀ c ∈ xs, isDigit c = true)
    (hys : ∀ c ∈ ys, isDigit c = true) (hrest : Ending rest e) (hpos : 0 < decimal 0 (xs ++ ys)) :
    Reads (xs ++ 46 :: (ys ++ rest)) (decimal 0 (xs ++ ys) * 10 ^ (e.getD 0 - ys.length)) := by
  have hlen : 0 < xs.length + ys.length := by
    rw [← List.length_append]
    cases hzs : xs ++ ys with
    | nil =>
      rw [hzs] at hpos
      cases hpos
    | cons => exact Nat.succ_pos _
  obtain ⟨hstops, hexponent, hleast, hmost⟩ := hrest
  refine ⟨{ number := decimal 0 (xs ++ ys), digits := xs.length + ys.length,
            fraction := ys.length, point := true }, rest, e, ?_, hexponent, rfl, hlen, hpos, rfl,
    by dsimp only; omega, by dsimp only; omega⟩
  rw [mantissa_digits hxs, mantissa_point rfl, mantissa_digits hys, hstops]
  simp

/-- The exponent of at least so many digits. -/
theorem decimal_padZero (width n : Nat) :
    decimal 0 (Text.padZero width (Text.ofNat n)) = n ∧
      ∀ c ∈ Text.padZero width (Text.ofNat n), isDigit c = true := by
  unfold Text.padZero
  refine ⟨?_, fun c hc => ?_⟩
  · rw [Text.decimal_append, Text.decimal_zeros, Text.decimal_ofNat]
    omega
  · rcases List.mem_append.mp hc with hc | hc
    · obtain rfl := List.eq_of_mem_replicate hc
      rfl
    · exact Text.isDigit_ofNat c hc

theorem ending_exponent (width : Nat) {exponent : Int} (hleast : -1000 ≤ exponent)
    (hmost : exponent ≤ 1000) :
    Ending (101 :: (if exponent < 0 then 45 else 43) ::
      Text.padZero width (Text.ofNat exponent.natAbs)) (some exponent) := by
  obtain ⟨hdecimal, hdigits⟩ := decimal_padZero width exponent.natAbs
  have hne : Text.padZero width (Text.ofNat exponent.natAbs) ≠ [] :=
    List.append_ne_nil_of_right_ne_nil _ (Text.ofNat_ne_nil _)
  have hread := exponent?_digits hdigits hne
    (by rw [hdecimal]; exact Nat.lt_of_le_of_lt (show exponent.natAbs ≤ 1000 by omega) (by norm_num))
    (decide (exponent < 0))
  refine ⟨fun m => mantissa_letter m _, ?_, by simp; omega, by simp; omega⟩
  rw [hdecimal] at hread
  simp only [decide_eq_true_eq] at hread
  rw [hread]
  have hvalue : (if exponent < 0 then -(exponent.natAbs : Int) else (exponent.natAbs : Int)) =
      exponent := by
    split <;> omega
  rw [hvalue]
  rfl

theorem decimal_zero_ofNat (n : Nat) : decimal 0 (Text.ofNat n) = n := by
  rw [Text.decimal_ofNat, Nat.zero_mul, Nat.zero_add]

/-- **Digits with an exponent make their number.** -/
theorem reads_scientific {f : NumberFormat} {n : Nat} (hn : 0 < n) {exponent : Int}
    (hleast : -1000 ≤ exponent) (hmost : exponent ≤ 1000) :
    Reads (f.scientific (Text.ofNat n) exponent) (n * 10 ^ (exponent + 1 - size n)) := by
  have hending := ending_exponent f.exponentWidth hleast hmost
  have hall := @Text.isDigit_ofNat n
  have hlength : (Text.ofNat n).length = size n := Text.length_ofNat n
  have hnumber := decimal_zero_ofNat n
  unfold NumberFormat.scientific
  dsimp only
  generalize Text.ofNat n = digits at hall hlength hnumber
  match digits with
  | [] => exact absurd hlength (Nat.succ_ne_zero _).symm
  | [d] =>
    have hreads := reads_whole hall hending (by rw [hnumber]; exact hn)
    have hone : exponent + 1 - size n = exponent := by
      rw [← hlength]
      simp
    rw [hnumber] at hreads
    rw [hone]
    exact hreads
  | d :: d' :: ds =>
    have hreads := @reads_pointed [d] (d' :: ds) _ _
      (fun c hc => hall c (List.mem_cons.mpr (.inl (List.mem_singleton.mp hc))))
      (fun c hc => hall c (List.mem_cons_of_mem _ hc)) hending (by
        rw [List.singleton_append, hnumber]
        exact hn)
    have hshift : exponent + 1 - size n = exponent - ((d' :: ds).length : Nat) := by
      rw [← hlength, List.length_cons]
      push_cast
      ring
    have hmade : decimal 0 ([d] ++ d' :: ds) = n := hnumber
    rw [hmade] at hreads
    rw [hshift]
    exact hreads

/-- **Digits in positional notation make their number.** -/
theorem reads_positional {n : Nat} (hn : 0 < n) (point : Int) :
    Reads (NumberFormat.positional (Text.ofNat n) point) (n * 10 ^ (point - size n)) := by
  have hall := @Text.isDigit_ofNat n
  have hlength : (Text.ofNat n).length = size n := Text.length_ofNat n
  have hnumber := decimal_zero_ofNat n
  have hzeros : ∀ count, ∀ c ∈ List.replicate count (48 : UInt8), isDigit c = true := by
    intro count c hc
    obtain rfl := List.eq_of_mem_replicate hc
    rfl
  unfold NumberFormat.positional
  split
  · -- all digits after the point
    rename_i hpoint
    have hfraction : ∀ c ∈ List.replicate (-point).toNat 48 ++ Text.ofNat n, isDigit c = true :=
      fun c hc => (List.mem_append.mp hc).elim (hzeros _ c) (hall c)
    have hmade : decimal 0 ([48] ++ (List.replicate (-point).toNat 48 ++ Text.ofNat n)) = n := by
      rw [Text.decimal_append, Text.decimal_append, Text.decimal_zeros]
      show decimal (0 * 10 ^ _) (Text.ofNat n) = n
      rw [Nat.zero_mul, hnumber]
    have hreads := @reads_pointed [48] _ [] none (by simp [isDigit]) hfraction ending_nil
      (by rw [hmade]; exact hn)
    have hshift : point - size n =
        (none : Option Int).getD 0 - (List.replicate (-point).toNat 48 ++ Text.ofNat n).length := by
      rw [List.length_append, List.length_replicate, hlength, Option.getD_none]
      push_cast
      omega
    rw [hmade, List.append_nil] at hreads
    rw [hshift]
    exact hreads
  · rename_i hpoint
    dsimp only
    split
    · -- zeros up to the point
      rename_i hshort
      have hwhole : ∀ c ∈ Text.ofNat n ++ List.replicate (point.toNat - (Text.ofNat n).length) 48,
          isDigit c = true :=
        fun c hc => (List.mem_append.mp hc).elim (hall c) (hzeros _ c)
      have hmade : decimal 0 (Text.ofNat n ++
          List.replicate (point.toNat - (Text.ofNat n).length) 48) =
          n * 10 ^ (point.toNat - (Text.ofNat n).length) := by
        rw [Text.decimal_append, Text.decimal_zeros, hnumber]
      have hreads := reads_whole hwhole ending_nil
        (by rw [hmade]; exact Nat.mul_pos hn (Nat.pow_pos (by norm_num)))
      have hshift : point - size n = ((point.toNat - (Text.ofNat n).length : Nat) : Int) := by
        rw [hlength] at hshort ⊢
        omega
      rw [hmade, List.append_nil] at hreads
      rw [hshift, zpow_natCast]
      simpa using hreads
    · -- digits on both sides
      rename_i hlong
      have hreads := @reads_pointed ((Text.ofNat n).take point.toNat)
        ((Text.ofNat n).drop point.toNat) [] none
        (fun c hc => hall c (List.mem_of_mem_take hc)) (fun c hc => hall c (List.mem_of_mem_drop hc))
        ending_nil (by rw [List.take_append_drop, hnumber]; exact hn)
      have hshift : point - size n =
          (none : Option Int).getD 0 - ((Text.ofNat n).drop point.toNat).length := by
        rw [List.length_drop, Option.getD_none, hlength]
        rw [hlength] at hlong
        omega
      rw [List.take_append_drop, hnumber, List.append_nil] at hreads
      rw [hshift]
      exact hreads

/-! ### Texts of numbers -/

/-- A text that numbers without sign are written as. -/
structure Numeral (t : Text) : Prop where
  plain : Plain t
  first : ∃ d ds, t = d :: ds ∧ isDigit d = true

/-- What begins with a numeral and goes on plainly is one. -/
theorem Numeral.append {s t : Text} (hs : Numeral s) (ht : Plain t) : Numeral (s ++ t) := by
  obtain ⟨hplain, d, ds, rfl, hd⟩ := hs
  exact ⟨hplain.append ht, d, ds ++ t, rfl, hd⟩

theorem numeral_of_digits {ds : Text} (h : ∀ c ∈ ds, isDigit c = true) (hne : ds ≠ []) :
    Numeral ds := by
  obtain ⟨d, ds, rfl⟩ := List.exists_cons_of_ne_nil hne
  exact ⟨fun c hc => Text.isPlain_of_isDigit (h c hc), d, ds, rfl, h d List.mem_cons_self⟩

theorem numeral_scientific (f : NumberFormat) (n : Nat) (exponent : Int) :
    Numeral (f.scientific (Text.ofNat n) exponent) := by
  have hall := @Text.isDigit_ofNat n
  have hne := Text.ofNat_ne_nil n
  have htail : Plain (101 :: (if exponent < 0 then 45 else 43) ::
      Text.padZero f.exponentWidth (Text.ofNat exponent.natAbs)) := by
    refine .cons rfl (.cons (by split <;> rfl) ?_)
    exact fun c hc => Text.isPlain_of_isDigit ((decimal_padZero _ _).2 c hc)
  unfold NumberFormat.scientific
  dsimp only
  generalize Text.ofNat n = digits at hall hne
  match digits with
  | [] => exact absurd rfl hne
  | [d] => exact (numeral_of_digits hall hne).append htail
  | d :: d' :: ds =>
    have hmore : Plain (d' :: ds) := fun c hc =>
      Text.isPlain_of_isDigit (hall c (List.mem_cons_of_mem _ hc))
    have hfirst : Numeral [d] := numeral_of_digits (fun c hc => hall c (by simp_all)) (by simp)
    exact hfirst.append (.append (.cons rfl hmore) htail)

theorem numeral_positional (n : Nat) (point : Int) :
    Numeral (NumberFormat.positional (Text.ofNat n) point) := by
  have hall := @Text.isDigit_ofNat n
  have hplain := Text.plain_ofNat n
  have hnumeral := numeral_of_digits hall (Text.ofNat_ne_nil n)
  unfold NumberFormat.positional
  split
  · have hzero : Numeral [48] := numeral_of_digits (by simp [isDigit]) (by simp)
    exact hzero.append (.cons rfl ((Text.plain_zeros _).append hplain))
  · rename_i hpoint
    dsimp only
    split
    · exact hnumeral.append (Text.plain_zeros _)
    · rename_i hlong
      have htake : (Text.ofNat n).take point.toNat ≠ [] := by
        rw [ne_eq, List.take_eq_nil_iff]
        rintro (hzero | hnil)
        · omega
        · exact Text.ofNat_ne_nil n hnil
      have hfront : Numeral ((Text.ofNat n).take point.toNat) :=
        numeral_of_digits (fun c hc => hall c (List.mem_of_mem_take hc)) htake
      exact hfront.append (.cons rfl fun c hc => hplain c (List.mem_of_mem_drop hc))

/-- The sign of a number in front of its numeral. -/
def signed (negative : Bool) (body : Text) : Text := if negative then 45 :: body else body

theorem sign_signed {body : Text} (h : Numeral body) (negative : Bool) :
    sign (signed negative body) = (negative, body) := by
  obtain ⟨-, d, ds, rfl, hd⟩ := h
  cases negative with
  | true => rfl
  | false =>
    show sign (d :: ds) = (false, d :: ds)
    unfold sign
    split
    · rename_i heq
      cases heq
      cases hd
    · rename_i heq
      cases heq
      cases hd
    · rfl

/-- A digit is not the first letter of a word. -/
theorem asciiLower_of_isDigit {d : UInt8} (h : isDigit d = true) :
    Text.asciiLower d ≠ 105 ∧ Text.asciiLower d ≠ 110 := by
  revert d
  decide +kernel

/-- A numeral is no word. -/
theorem word?_signed {body : Text} (h : Numeral body) (negative : Bool) :
    word? (signed negative body) = none := by
  have hsign := sign_signed h negative
  obtain ⟨-, d, ds, rfl, hd⟩ := h
  obtain ⟨hi, hn⟩ := asciiLower_of_isDigit hd
  have hinf : Text.ofString "inf" = [105, 110, 102] := by decide +kernel
  have hinfinity : Text.ofString "infinity" = [105, 110, 102, 105, 110, 105, 116, 121] := by
    decide +kernel
  have hnan : Text.ofString "nan" = [110, 97, 110] := by decide +kernel
  have hnot : (signed negative (d :: ds)).map Text.asciiLower ≠ Text.ofString "nan" := by
    rw [hnan]
    cases negative with
    | true => exact fun heq => absurd (List.cons.inj heq).1 (by decide)
    | false => exact fun heq => hn (List.cons.inj heq).1
  unfold word?
  rw [hsign]
  dsimp only
  rw [if_neg, if_neg hnot]
  rw [hinf, hinfinity, List.map_cons]
  rintro (heq | heq)
  · exact hi (List.cons.inj heq).1
  · exact hi (List.cons.inj heq).1

/-! ### Doubles -/

/-- **What is written for a magnitude is a numeral that is read as it.** -/
theorem unsigned_spec {f : NumberFormat} {x : Float} (hfinite : Finite x) :
    Numeral (f.unsigned x) ∧ ∀ negative, literal (signed negative (f.unsigned x)) =
      .ok (withSign negative (pack (magnitude x).1 (magnitude x).2)) := by
  have hcanonical := hfinite.canonical
  unfold NumberFormat.unsigned
  generalize magnitude x = p at hcanonical ⊢
  split
  · -- zero
    refine ⟨numeral_of_digits (by simp [isDigit]) (by simp), fun negative => ?_⟩
    have hzero : ∀ negative, literal (signed negative [48]) =
        .ok (withSign negative (Float.ofBits 0)) := by
      decide +kernel
    exact hzero negative
  · rename_i m q hpos
    have hm : 0 < m := Nat.pos_of_ne_zero hpos
    obtain ⟨hdigits, hround, hleast, hmost⟩ := Shortest.ofMagnitude_roundsTo hcanonical hm
    dsimp only at hdigits hround hleast hmost ⊢
    generalize Shortest.ofMagnitude m q = d at hdigits hround hleast hmost ⊢
    split
    · have hnumeral := numeral_scientific f d.digits (d.point - 1)
      have hreads := @reads_scientific f _ hdigits (d.point - 1) (by omega) (by omega)
      rw [sub_add_cancel] at hreads
      exact ⟨hnumeral, fun negative => literal_eq (sign_signed hnumeral negative) hnumeral.plain
        hreads hcanonical hm hround⟩
    · have hnumeral := numeral_positional d.digits d.point
      exact ⟨hnumeral, fun negative => literal_eq (sign_signed hnumeral negative) hnumeral.plain
        (reads_positional hdigits d.point) hcanonical hm hround⟩

/-- The text of a finite double is its sign and its numeral. -/
theorem render_of_finite {f : NumberFormat} {x : Float} (h : Finite x) :
    f.render x = signed (isNegative x) (f.unsigned x) := by
  unfold NumberFormat.render signed
  rw [h.number, h.bounded]
  rfl

/-- **Every double is read back as itself.** -/
theorem float_render (x : Float) : float (NumberFormat.plain.render x) = .ok x := by
  by_cases hnan : x.isNaN = true
  · rw [eq_nan_of_isNaN hnan]
    decide +kernel
  by_cases hinf : x.isInf = true
  · rw [← withSign_infinity hinf]
    cases isNegative x <;> decide +kernel
  have hfinite : Finite x := ⟨by simpa using hnan, by simpa using hinf⟩
  obtain ⟨hnumeral, hliteral⟩ := @unsigned_spec NumberFormat.plain x hfinite
  rw [render_of_finite hfinite, float, word?_signed hnumeral]
  dsimp only
  rw [hliteral, withSign_pack_magnitude hfinite]

/-! ### Handles -/

theorem wideDigit?_of_isDigit {c : UInt8} (h : isDigit c = true) :
    wideDigit? c = some (c.toNat - 48) ∧ c.toNat - 48 < 10 ∧ c ≠ 95 := by
  have hbounds := (Text.isDigit_iff c).mp h
  exact ⟨by rw [wideDigit?, if_pos h], by omega, (digit?_of_isDigit h).1⟩

theorem digits?_digits {ds : Text} (h : ∀ c ∈ ds, isDigit c = true) (marks : Bool) (start : Nat)
    (u : Bool) : digits? 10 marks start u ds = some (decimal start ds, u) := by
  induction ds generalizing start with
  | nil => rfl
  | cons c ds ih =>
    obtain ⟨hdigit, hlt, hunderscore⟩ := wideDigit?_of_isDigit (h c List.mem_cons_self)
    rw [digits?, if_neg (fun hboth => hunderscore hboth.2), hdigit]
    dsimp only
    rw [if_pos hlt, ih fun d hd => h d (List.mem_cons_of_mem _ hd)]
    rfl

/-- The digits of a number are read as that number, and not in another base. -/
theorem markedNatural?_ofNat (n : Nat) : markedNatural? (Text.ofNat n) = some n := by
  rcases Nat.eq_zero_or_pos n with rfl | hn
  · decide +kernel
  · have hfirst := Text.head?_ofNat hn
    have hread := digits?_digits (@Text.isDigit_ofNat n) true 0 false
    rw [decimal_zero_ofNat] at hread
    have hne := Text.ofNat_ne_nil n
    generalize Text.ofNat n = t at hfirst hread hne ⊢
    unfold markedNatural?
    rw [if_neg hne]
    split
    rename_i base body hbase
    split at hbase
    · exact absurd rfl hfirst
    · cases hbase
      rw [hread]
      rfl

theorem ofInt_eq_signed (n : Int) :
    Text.ofInt n = signed (decide (n < 0)) (Text.ofNat n.natAbs) := by
  unfold Text.ofInt signed
  split <;> simp_all

/-- **An integer is read back as itself**, if it fits the width. -/
theorem integer?_ofInt {n : Int} (hlow : -(twoTo 63) ≤ n) (hhigh : n < twoTo 63) :
    integer? 64 (Text.ofInt n) = some n := by
  have hnumeral : Numeral (Text.ofNat n.natAbs) :=
    numeral_of_digits Text.isDigit_ofNat (Text.ofNat_ne_nil _)
  rw [ofInt_eq_signed, integer?, sign_signed hnumeral]
  dsimp only
  rw [markedNatural?_ofNat]
  simp only [twoTo, Nat.pow_eq, Nat.reducePow, Nat.reduceSub, decide_eq_true_eq] at hlow hhigh ⊢
  split
  · rw [if_pos (by omega)]
    congr 1
    omega
  · rw [if_pos (by omega)]
    congr 1
    omega

end SchemePlayer.Reading

namespace SchemePlayer.Value

open Reading Binary64

/-- A plain text that is read as a double is read as that value. -/
theorem parseFloat_of_plain {t : Text} {x : Float} (hplain : t.Plain) (hne : t ≠ [])
    (h : Reading.float t = .ok x) : parseFloat t = .ok (.float x) := by
  unfold parseFloat
  rw [Text.trim_of_plain hplain, if_neg hne, Text.replaceFirst_of_plain hplain]
  dsimp only
  rw [h]

theorem plain_signed {body : Text} (h : Numeral body) (negative : Bool) :
    (signed negative body).Plain ∧ signed negative body ≠ [] := by
  obtain ⟨hplain, d, ds, rfl, hd⟩ := h
  cases negative with
  | true => exact ⟨.cons rfl hplain, List.cons_ne_nil _ _⟩
  | false => exact ⟨hplain, List.cons_ne_nil _ _⟩

theorem parse_float (x : Float) : parseFloat (NumberFormat.plain.render x) = .ok (.float x) := by
  by_cases hnan : x.isNaN = true
  · rw [eq_nan_of_isNaN hnan]
    decide +kernel
  by_cases hinf : x.isInf = true
  · rw [← withSign_infinity hinf]
    cases isNegative x <;> decide +kernel
  have hfinite : Finite x := ⟨by simpa using hnan, by simpa using hinf⟩
  obtain ⟨hnumeral, -⟩ := @unsigned_spec NumberFormat.plain x hfinite
  obtain ⟨hplain, hne⟩ := plain_signed hnumeral (isNegative x)
  rw [← render_of_finite hfinite] at hplain hne
  exact parseFloat_of_plain hplain hne (float_render x)

theorem parse_handle (n : Int32) : parseHandle (Text.ofInt n.toInt) = .ok (.handle n) := by
  have hnumeral : Numeral (Text.ofNat n.toInt.natAbs) :=
    numeral_of_digits Text.isDigit_ofNat (Text.ofNat_ne_nil _)
  obtain ⟨hplain, hne⟩ := plain_signed hnumeral (decide (n.toInt < 0))
  rw [← ofInt_eq_signed] at hplain hne
  have hlow : -(twoTo 63) ≤ n.toInt := le_trans (by decide) n.minValue_le_toInt
  have hhigh : n.toInt < twoTo 63 := lt_of_le_of_lt n.toInt_le (by decide)
  unfold parseHandle
  rw [Text.trim_of_plain hplain, if_neg hne, integer?_ofInt hlow hhigh]
  dsimp only
  rw [Int32.ofInt_toInt]

/-- **Every value is read back as itself.** -/
theorem parse_format (v : Value) : parse v.kind v.format = .ok v := by
  cases v with
  | float x => exact parse_float x
  | handle n => exact parse_handle n
  | string s => rfl

end SchemePlayer.Value
