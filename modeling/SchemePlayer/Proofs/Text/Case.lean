import SchemePlayer.Proofs.Text.Utf8
import SchemePlayer.Text.Case

/-!
# Two ways to leave letter case out

Two names can be compared by their lower-case forms or up to case, and neither way is finer than the
other: a final sigma and a sigma differ in lower case only, a dotted capital I and an i up to case
only. Both go letter by letter, so that it is a matter of single letters where they part:

- `CaseTable.near`, `CaseTable.apply_near`: the runs of a table that matter in a range.
- `absorbs`, `absorbs_fold`, `absorbs_lower`: for which letters a mapping does not notice the other.
- `isRegular_iff`: **the letters in which the two ways part.**
- `lower_eq_iff`, `equalFold_iff`: texts are compared letter by letter.
- `equalFold_iff_lower_eq`: **without such letters the two ways are one.**
-/

namespace SchemePlayer.Text

namespace CaseTable

/-- Where a run sends a code point. -/
def Run.send (r : Run) (n : Nat) : Nat := (n + r.delta).toNat

/-- The code points of a run. -/
def Run.codes (r : Run) : List Nat :=
  (List.range ((r.hi - r.lo) / r.stride + 1)).map fun k => r.lo + k * r.stride

/-- The runs that come to lie within a range or across its ends. -/
def near (runs : List Run) (lo hi : Nat) : List Run :=
  runs.filter fun r => Nat.ble r.lo hi && Nat.ble lo r.hi

theorem Run.covers_iff {r : Run} {n : Nat} :
    r.covers n = true ↔ r.lo ≤ n ∧ n ≤ r.hi ∧ (n - r.lo) % r.stride = 0 := by
  simp [Run.covers, and_assoc]

theorem Run.mem_codes {r : Run} {n : Nat} (h : r.covers n = true) : n ∈ r.codes := by
  obtain ⟨hlo, hhi, hstride⟩ := Run.covers_iff.mp h
  refine List.mem_map.mpr ⟨(n - r.lo) / r.stride, List.mem_range.mpr ?_, ?_⟩
  · exact Nat.lt_succ_of_le (Nat.div_le_div_right (by omega))
  · rw [Nat.div_mul_cancel (Nat.dvd_of_mod_eq_zero hstride)]
    omega

/-- A code point stays, or one of the runs sends it on. -/
theorem apply_cases (runs : List Run) (n : Nat) :
    apply runs n = n ∨ ∃ r ∈ runs, r.covers n = true ∧ apply runs n = r.send n := by
  unfold apply
  cases hfind : runs.find? (·.covers n) with
  | none => exact .inl rfl
  | some r =>
    have hcovers : r.covers n = true := by simpa using List.find?_some hfind
    exact .inr ⟨r, List.mem_of_find?_eq_some hfind, hcovers, rfl⟩

/-- Runs outside a range do not send its code points. -/
theorem apply_near (runs : List Run) {lo hi n : Nat} (hlo : lo ≤ n) (hhi : n ≤ hi) :
    apply (near runs lo hi) n = apply runs n := by
  have hsame : ∀ r : Run, decide ((Nat.ble r.lo hi && Nat.ble lo r.hi) = true ∧
      r.covers n = true) = r.covers n := by
    intro r
    rw [Bool.eq_iff_iff, decide_eq_true_iff, and_iff_right_iff_imp, Run.covers_iff,
      Bool.and_eq_true, Nat.ble_eq, Nat.ble_eq]
    omega
  simp only [apply, near, List.find?_filter, hsame]

end CaseTable

open CaseTable

/-! ### Letters -/

/-- The letters in which the two ways part, by their code points: the micro sign, the dotted capital
I, the long s, the Greek iota below, forms of Greek letters, of Cyrillic ones, the long s with a dot
and the Greek iota beside. -/
def irregular : List Nat :=
  [0xB5, 0x130, 0x17F, 0x345, 0x3C2, 0x3D0, 0x3D1, 0x3D5, 0x3D6, 0x3F0, 0x3F1, 0x3F5,
    0x1C80, 0x1C81, 0x1C82, 0x1C83, 0x1C84, 0x1C85, 0x1C86, 0x1C87, 0x1C88, 0x1E9B, 0x1FBE]

/-- A table sends a run of another one where it sends what the run stands for. Only the runs around
the two ranges are looked at. -/
def absorbs (runs : List Run) (r : Run) : Bool :=
  let here := near runs r.lo r.hi
  let there := near runs (r.send r.lo) (r.send r.hi)
  r.codes.all fun n => Nat.beq (apply here n) (apply there (r.send n)) || irregular.contains n

theorem apply_apply {runs others : List Run} (h : others.all (absorbs runs) = true) {n : Nat}
    (hn : n ∉ irregular) : apply runs (apply others n) = apply runs n := by
  rcases apply_cases others n with hstays | ⟨r, hr, hcovers, hsent⟩
  · rw [hstays]
  · obtain ⟨hlo, hhi, -⟩ := Run.covers_iff.mp hcovers
    have hcode := List.all_eq_true.mp (List.all_eq_true.mp h r hr) n (Run.mem_codes hcovers)
    rw [Bool.or_eq_true, Nat.beq_eq, List.contains_iff_mem] at hcode
    have hagree := hcode.resolve_right hn
    rw [apply_near runs hlo hhi, apply_near runs (by unfold Run.send; omega)
      (by unfold Run.send; omega)] at hagree
    rw [hsent, hagree]

/-- Folding does not notice the lower-case mapping. -/
theorem absorbs_fold : lowerRuns.all (absorbs foldRuns) = true := by
  decide +kernel

/-- The lower-case mapping does not notice folding. -/
theorem absorbs_lower : foldRuns.all (absorbs lowerRuns) = true := by
  decide +kernel

/-- Below 128 the table says the same as the range of capital letters. -/
theorem lowerCode_eq_apply (n : Nat) : lowerCode n = apply lowerRuns n := by
  have hlow : ∀ k < 128, lowerCode k = apply (near lowerRuns 0 127) k := by
    decide +kernel
  by_cases hn : n < 128
  · rw [hlow n hn, apply_near lowerRuns (Nat.zero_le n) (by omega)]
  · rw [lowerCode, if_neg hn]

theorem foldCode_eq_apply (n : Nat) : foldCode n = apply foldRuns n := by
  have hlow : ∀ k < 128, foldCode k = apply (near foldRuns 0 127) k := by
    decide +kernel
  by_cases hn : n < 128
  · rw [hlow n hn, apply_near foldRuns (Nat.zero_le n) (by omega)]
  · rw [foldCode, if_neg hn]

/-- Each of the two forms of a letter has the same other form as the letter. -/
def IsRegular (n : Nat) : Prop :=
  lowerCode (foldCode n) = lowerCode n ∧ foldCode (lowerCode n) = foldCode n

instance (n : Nat) : Decidable (IsRegular n) := inferInstanceAs (Decidable (_ ∧ _))

/-- **The letters that are not regular.** -/
theorem isRegular_iff (n : Nat) : IsRegular n ↔ n ∉ irregular := by
  constructor
  · intro hregular hmem
    have hnone : ∀ k ∈ irregular, ¬IsRegular k := by
      decide +kernel
    exact hnone n hmem hregular
  · intro hn
    simp only [IsRegular, lowerCode_eq_apply, foldCode_eq_apply]
    exact ⟨apply_apply absorbs_lower hn, apply_apply absorbs_fold hn⟩

/-- Regular letters are equal up to case if their lower-case forms are equal. -/
theorem foldCode_eq_iff {a b : Nat} (ha : IsRegular a) (hb : IsRegular b) :
    foldCode a = foldCode b ↔ lowerCode a = lowerCode b := by
  constructor
  · intro h
    rw [← ha.1, ← hb.1, h]
  · intro h
    rw [← ha.2, ← hb.2, h]

/-! ### Texts -/

/-- The lower-case form of a character is a character. -/
theorem isValidChar_lowerCode {n : Nat} (h : n.isValidChar) : (lowerCode n).isValidChar := by
  have hruns : ∀ r ∈ lowerRuns, r.send r.hi < 0xD800 ∨
      0xDFFF < r.send r.lo ∧ r.send r.hi < 0x110000 := by
    decide +kernel
  rw [lowerCode_eq_apply]
  rcases apply_cases lowerRuns n with hstays | ⟨r, hr, hcovers, hsent⟩
  · rwa [hstays]
  · obtain ⟨hlo, hhi, -⟩ := Run.covers_iff.mp hcovers
    have hrange := hruns r hr
    rw [hsent]
    unfold Run.send at hrange ⊢
    unfold Nat.isValidChar
    omega

theorem isValidChar_code (r : Rune) : r.code.isValidChar := by
  cases r with
  | char c => exact c.valid
  | stray b => exact .inr ⟨by simp [Rune.code], by simp [Rune.code]⟩

/-- The characters of a text that was made of characters. -/
theorem chars_ofChars (cs : List Char) : chars (ofChars cs) = cs := by
  induction cs with
  | nil => rfl
  | cons c cs ih =>
    show chars (String.utf8EncodeChar c ++ ofChars cs) = _
    rw [chars, runes_char_append, List.map_cons]
    exact congrArg (c :: ·) ih

theorem ofChars_injective : Function.Injective ofChars :=
  Function.LeftInverse.injective chars_ofChars

/-- **Lower-case forms are compared letter by letter.** -/
theorem lower_eq_iff (s t : Text) : lower s = lower t ↔
    (runes s).map (fun r => lowerCode r.code) = (runes t).map fun r => lowerCode r.code := by
  have hlower : ∀ u, lower u =
      ofChars (((runes u).map fun r => lowerCode r.code).map Char.ofNat) := by
    intro u
    rw [lower, mapCodes, ofChars, List.flatMap_map, List.flatMap_map]
  have hchars : ∀ u : Text, (((runes u).map fun r => lowerCode r.code).map Char.ofNat).map
      Char.toNat = (runes u).map fun r => lowerCode r.code := by
    intro u
    rw [List.map_map, List.map_map]
    refine List.map_congr_left fun r _ => ?_
    show (Char.ofNat (lowerCode r.code)).toNat = _
    rw [Char.ofNat, dif_pos (isValidChar_lowerCode (isValidChar_code r))]
    rfl
  rw [hlower, hlower, ofChars_injective.eq_iff]
  constructor
  · intro h
    rw [← hchars s, ← hchars t, h]
  · intro h
    rw [h]

theorem equalFold_iff (s t : Text) : equalFold s t = true ↔
    (runes s).map (fun r => foldCode r.code) = (runes t).map fun r => foldCode r.code :=
  beq_iff_eq

/-- A text all of whose letters are regular. -/
def Regular (t : Text) : Prop := ∀ r ∈ runes t, IsRegular r.code

/-- **Without irregular letters the two ways are one.** -/
theorem equalFold_iff_lower_eq {s t : Text} (hs : Regular s) (ht : Regular t) :
    equalFold s t = true ↔ lower s = lower t := by
  rw [equalFold_iff, lower_eq_iff]
  unfold Regular at hs ht
  generalize runes s = rs at hs
  generalize runes t = rt at ht
  induction rs generalizing rt with
  | nil => simp
  | cons a rs ih =>
    cases rt with
    | nil => simp
    | cons b rt =>
      rw [List.forall_mem_cons] at hs ht
      simp only [List.map_cons, List.cons.injEq]
      exact and_congr (foldCode_eq_iff hs.1 ht.1) (ih hs.2 rt ht.2)

theorem isRegular_of_ascii {n : Nat} (h : n < 128) : IsRegular n := by
  rw [isRegular_iff]
  intro hmem
  have hlarge : ∀ k ∈ irregular, 128 ≤ k := by
    decide
  exact Nat.not_lt.mpr (hlarge n hmem) h

/-- A text of single-byte characters is regular. -/
theorem regular_of_ascii {t : Text} (h : ∀ b ∈ t, b.toNat < 128) : Regular t := by
  match t with
  | [] => exact fun r hr => absurd hr List.not_mem_nil
  | a :: rest =>
    have hsmall := h a List.mem_cons_self
    have hrest := fun b hb => h b (List.mem_cons_of_mem a hb)
    rcases runes_cons a rest with ⟨c, more, htext, hrunes⟩ | hrunes
    · have hshort : (rest.drop more).length ≤ rest.length := by simp
      have ih : Regular (rest.drop more) :=
        regular_of_ascii fun b hb => hrest b (List.mem_of_mem_drop hb)
      obtain ⟨a', tail, hbytes, -, hlarge⟩ := exists_utf8EncodeChar_eq_cons c
      rw [hbytes, List.cons_append] at htext
      obtain ⟨rfl, -⟩ := List.cons.inj htext
      have hcode : c.toNat < 128 := by
        by_contra hc
        have := hlarge (by omega)
        omega
      rw [Regular, hrunes, List.forall_mem_cons]
      exact ⟨isRegular_of_ascii hcode, ih⟩
    · have ih := regular_of_ascii hrest
      rw [Regular, hrunes, List.forall_mem_cons]
      exact ⟨(isRegular_iff 0xFFFD).mpr (by decide), ih⟩
termination_by t.length
decreasing_by all_goals simp only [List.length_cons]; omega

end SchemePlayer.Text
