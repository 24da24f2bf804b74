import Mathlib
import SchemePlayer.Number.Reading
import SchemePlayer.Text.Case

/-!
# Texts of digits

Numbers are written with bytes that stand for themselves: digits, signs, the point and the letter
of an exponent. Such texts hold no white space and nothing that would be read as another base, and
their digits make the number again:

- `Text.ofNat_eq`: the last digit of a number and the digits before it.
- `decimal`: the number that some digits make; `decimal_ofNat`: the digits of a number make it.
- `Plain`: the texts that numbers are written as; `trim_of_plain`: nothing is trimmed from them.
-/

namespace SchemePlayer

namespace Text

/-! ### Digits of a number -/

theorem toList_utf8Encode_digitChar {d : Nat} (hd : d < 10) :
    [d.digitChar].utf8Encode.data.toList = [(48 + d).toUInt8] := by
  revert d
  decide

/-- **The digits of a number are those of its tenth and one more.** -/
theorem ofNat_eq (n : Nat) :
    ofNat n = (if n < 10 then [] else ofNat (n / 10)) ++ [(48 + n % 10).toUInt8] := by
  have hdigit := toList_utf8Encode_digitChar (Nat.mod_lt n (show 0 < 10 by omega))
  unfold ofNat Nat.repr
  rw [Nat.toDigits_eq_if (by omega)]
  split
  · rename_i hlt
    rw [Nat.mod_eq_of_lt hlt] at hdigit ⊢
    simpa only [ofString, String.toByteArray_ofList, List.nil_append] using hdigit
  · simp [ofString, hdigit]

theorem toNat_digit {d : Nat} (hd : d < 10) : (48 + d).toUInt8.toNat = 48 + d :=
  UInt8.toNat_ofNat_of_lt' (show 48 + d < 256 by omega)

theorem isDigit_iff (c : UInt8) : isDigit c = true ↔ 48 ≤ c.toNat ∧ c.toNat ≤ 57 := by
  simp only [isDigit, Bool.and_eq_true, decide_eq_true_eq, UInt8.le_iff_toNat_le]
  rfl

theorem isDigit_ofNat {n : Nat} : ∀ c ∈ ofNat n, isDigit c = true := by
  induction n using Nat.strongRecOn with
  | _ n ih =>
    intro c hc
    rw [ofNat_eq, List.mem_append] at hc
    rcases hc with hc | hc
    · split at hc
      · cases hc
      · exact ih (n / 10) (by omega) c hc
    · obtain rfl := List.mem_singleton.mp hc
      have hlt := Nat.mod_lt n (show 0 < 10 by omega)
      rw [isDigit_iff, toNat_digit hlt]
      omega

theorem length_ofNat (n : Nat) : (ofNat n).length = Nat.log 10 n + 1 := by
  induction n using Nat.strongRecOn with
  | _ n ih =>
    rw [ofNat_eq, List.length_append]
    split
    · rename_i hlt
      rw [Nat.log_of_lt hlt]
      rfl
    · rename_i hge
      rw [ih (n / 10) (by omega), Nat.log_of_one_lt_of_le (show 1 < 10 by omega)
        (show 10 ≤ n by omega)]
      rfl

theorem ofNat_ne_nil (n : Nat) : ofNat n ≠ [] := by
  rw [ofNat_eq]
  exact List.append_ne_nil_of_right_ne_nil _ (List.cons_ne_nil _ _)

/-- A positive number does not begin with a zero. -/
theorem head?_ofNat {n : Nat} (hn : 0 < n) : (ofNat n).head? ≠ some 48 := by
  induction n using Nat.strongRecOn with
  | _ n ih =>
    rw [ofNat_eq]
    split
    · rename_i hlt
      simp only [List.nil_append, List.head?_cons, ne_eq, Option.some.injEq]
      intro heq
      have hnat : (48 + n % 10).toUInt8.toNat = 48 := congrArg UInt8.toNat heq
      rw [Nat.mod_eq_of_lt hlt, toNat_digit hlt] at hnat
      omega
    · rename_i hge
      rw [List.head?_append_of_ne_nil _ (ofNat_ne_nil _)]
      exact ih (n / 10) (by omega) (by omega)

/-- The number that some digits make, after those that have made `start`. -/
def decimal (start : Nat) (digits : Text) : Nat :=
  digits.foldl (fun n c => n * 10 + (c.toNat - 48)) start

@[simp] theorem decimal_append (start : Nat) (xs ys : Text) :
    decimal start (xs ++ ys) = decimal (decimal start xs) ys := by
  simp only [decimal, List.foldl_append]

theorem decimal_zeros (start count : Nat) :
    decimal start (List.replicate count 48) = start * 10 ^ count := by
  induction count generalizing start with
  | zero => simp [decimal]
  | succ count ih =>
    have hstep : decimal start (List.replicate (count + 1) 48) =
        decimal (start * 10) (List.replicate count 48) := rfl
    rw [hstep, ih]
    ring

/-- **The digits of a number make it.** -/
theorem decimal_ofNat (start n : Nat) :
    decimal start (ofNat n) = start * 10 ^ (ofNat n).length + n := by
  induction n using Nat.strongRecOn generalizing start with
  | _ n ih =>
    have hlt := Nat.mod_lt n (show 0 < 10 by omega)
    have hlast : ∀ s, decimal s [(48 + n % 10).toUInt8] = s * 10 + n % 10 := by
      intro s
      simp only [decimal, List.foldl_cons, List.foldl_nil, toNat_digit hlt]
      omega
    rw [ofNat_eq, decimal_append, hlast, List.length_append]
    split
    · simp only [decimal, List.foldl_nil, List.length_nil, List.length_cons]
      omega
    · rw [ih (n / 10) (by omega), List.length_singleton, pow_succ]
      have hsplit := Nat.div_add_mod n 10
      calc (start * 10 ^ (ofNat (n / 10)).length + n / 10) * 10 + n % 10
          = start * (10 ^ (ofNat (n / 10)).length * 10) + (10 * (n / 10) + n % 10) := by ring
        _ = start * (10 ^ (ofNat (n / 10)).length * 10) + n := by rw [hsplit]

/-! ### Plain texts -/

/-- A byte that numbers are written with: a digit, the point, a sign, the letter of an exponent. -/
def isPlain (c : UInt8) : Bool := isDigit c || c == 46 || c == 43 || c == 45 || c == 101

/-- A text that a number can be written as. -/
def Plain (t : Text) : Prop := ∀ c ∈ t, isPlain c = true

theorem isPlain_of_isDigit {c : UInt8} (h : isDigit c = true) : isPlain c = true := by
  simp [isPlain, h]

theorem plain_ofNat (n : Nat) : Plain (ofNat n) :=
  fun c hc => isPlain_of_isDigit (isDigit_ofNat c hc)

theorem Plain.append {s t : Text} (hs : Plain s) (ht : Plain t) : Plain (s ++ t) := fun c hc =>
  (List.mem_append.mp hc).elim (hs c) (ht c)

theorem Plain.cons {c : UInt8} {t : Text} (hc : isPlain c = true) (ht : Plain t) : Plain (c :: t) :=
  fun d hd => (List.mem_cons.mp hd).elim (fun h => h ▸ hc) (ht d)

theorem plain_zeros (count : Nat) : Plain (List.replicate count 48) := fun c hc => by
  obtain rfl := List.eq_of_mem_replicate hc
  rfl

/-- What a plain byte is not: white space, a comma, the letter of another base, or not ASCII. -/
theorem isPlain_spec {c : UInt8} (h : isPlain c = true) :
    c < 0x80 ∧ isSpaceCode c.toNat = false ∧ c ≠ 44 ∧ asciiLower c ≠ 120 := by
  revert c
  decide +kernel

/-- A plain byte is a character by itself, and no white space. -/
theorem headChar?_of_plain {c : UInt8} (h : isPlain c = true) (rest : Text) :
    ∃ ch, headChar? (c :: rest) = some (ch, 0) ∧ String.utf8EncodeChar ch = [c] ∧
      isSpaceCode ch.toNat = false := by
  have hchar : (charIn? 0 c.toNat).any (fun ch =>
      String.utf8EncodeChar ch = [c] && !isSpaceCode ch.toNat) = true := by
    revert c
    decide +kernel
  obtain ⟨ch, hch, hspec⟩ := Option.any_eq_true _ _ |>.mp hchar
  simp only [Bool.and_eq_true, decide_eq_true_eq, Bool.not_eq_true'] at hspec
  refine ⟨ch, ?_, hspec.1, hspec.2⟩
  unfold headChar?
  dsimp only
  rw [if_pos (isPlain_spec h).1, hch]
  rfl

theorem runes_of_plain {t : Text} (h : Plain t) :
    ofRunes (runes t) = t ∧ ∀ r ∈ runes t, isSpaceRune r = false := by
  induction t with
  | nil => exact ⟨rfl, fun r hr => nomatch hr⟩
  | cons c t ih =>
    obtain ⟨ch, hhead, hbytes, hspace⟩ := headChar?_of_plain (h c List.mem_cons_self) t
    obtain ⟨ihbytes, ihspace⟩ := ih fun d hd => h d (List.mem_cons_of_mem _ hd)
    have hrunes : runes (c :: t) = .char ch :: runes t := by
      unfold runes
      rw [runesFrom, hhead]
    rw [hrunes]
    refine ⟨?_, fun r hr => ?_⟩
    · show String.utf8EncodeChar ch ++ ofRunes (runes t) = c :: t
      rw [hbytes, ihbytes]
      rfl
    · rcases List.mem_cons.mp hr with rfl | hr
      · exact hspace
      · exact ihspace r hr

/-- **Nothing is trimmed from a plain text.** -/
theorem trim_of_plain {t : Text} (h : Plain t) : trim t = t := by
  obtain ⟨hbytes, hspace⟩ := runes_of_plain h
  have hkeep : ∀ rs : List Rune, (∀ r ∈ rs, isSpaceRune r = false) →
      rs.dropWhile isSpaceRune = rs := by
    intro rs hrs
    cases rs with
    | nil => rfl
    | cons r rs => rw [List.dropWhile_cons_of_neg (by simp [hrs r List.mem_cons_self])]
  unfold trim dropEndWhile
  rw [hkeep _ hspace, hkeep _ (fun r hr => hspace r (List.mem_reverse.mp hr)),
    List.reverse_reverse, hbytes]

theorem replaceFirst_of_plain {t : Text} (h : Plain t) : replaceFirst 44 46 t = t := by
  induction t with
  | nil => rfl
  | cons c t ih =>
    obtain ⟨-, -, hcomma, -⟩ := isPlain_spec (h c List.mem_cons_self)
    rw [replaceFirst, if_neg hcomma, ih fun d hd => h d (List.mem_cons_of_mem _ hd)]

end Text

end SchemePlayer
