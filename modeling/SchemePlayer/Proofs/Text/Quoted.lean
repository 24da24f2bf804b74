import Mathlib
import SchemePlayer.Proofs.Text.Words
import SchemePlayer.Text.Quoted

/-!
# Reading literals that were written

A literal is written rune by rune, and each rune in one of six ways. Whichever it is, one step of
the reader takes exactly its bytes and gives the rune back, stray bytes included, so that no text is
lost between quotes. Nor can a text end its quotes before their time: where a double quote is among
the bytes in between, a backslash stands before it.

- `QuotedBody`: what can stand between double quotes; `quotedBody_flatMap`: what is written does.
- `newline_notMem_quote`: a literal stands on one line.
- `literalChar?_quoteRune`: **one rune is read back by one step.**
- `unquote?_quote`: **a literal that was written is read back as itself**, whatever bytes it has.
-/

namespace SchemePlayer.Text

/-! ### Hexadecimal digits -/

theorem hexValue?_hexDigit : ∀ n < 16, hexValue? (hexDigit false n) = some n := by
  decide

/-- Digits are read one after another, behind what was read before. -/
theorem hexNumber?_hex_append {width n : Nat} (h : n < 16 ^ width) (more acc : Nat) (rest : Text) :
    hexNumber? (width + more) acc (hex false width n ++ rest) =
      hexNumber? more (acc * 16 ^ width + n) rest := by
  induction width generalizing n more rest with
  | zero =>
    obtain rfl : n = 0 := by simpa using h
    simp [hex]
  | succ width ih =>
    have hhigh : n / 16 < 16 ^ width := by
      rw [Nat.div_lt_iff_lt_mul (by decide), ← Nat.pow_succ]
      exact h
    have hcount : width + 1 + more = width + (more + 1) := by omega
    rw [hex, List.append_assoc, hcount, ih hhigh, List.singleton_append, hexNumber?,
      hexValue?_hexDigit _ (Nat.mod_lt _ (by decide))]
    dsimp only
    congr 1
    rw [Nat.pow_succ, Nat.add_mul, Nat.mul_assoc, Nat.add_assoc, Nat.div_add_mod']

/-- **A number that was written in so many digits is read back.** -/
theorem hexNumber?_hex {width n : Nat} (h : n < 16 ^ width) (rest : Text) :
    hexNumber? width 0 (hex false width n ++ rest) = some (n, rest) := by
  have hread := hexNumber?_hex_append h 0 0 rest
  rwa [Nat.zero_mul, Nat.zero_add] at hread

/-- What holds of every hexadecimal digit holds of every byte of a number. -/
theorem forall_mem_hex {p : UInt8 → Prop} (h : ∀ n < 16, p (hexDigit false n)) (width n : Nat) :
    ∀ b ∈ hex false width n, p b := by
  induction width generalizing n with
  | zero => exact fun b hb => nomatch hb
  | succ width ih =>
    intro b hb
    rcases List.mem_append.mp hb with hb | hb
    · exact ih _ b hb
    · obtain rfl := List.mem_singleton.mp hb
      exact h _ (Nat.mod_lt _ (by decide))

theorem hex_plain (width n : Nat) : ∀ b ∈ hex false width n, b ≠ 34 ∧ b ≠ 92 :=
  forall_mem_hex (by decide) width n

/-! ### Between double quotes -/

/-- What can stand between double quotes: a backslash keeps the byte after it from ending them. -/
inductive QuotedBody : Text → Prop where
  | nil : QuotedBody []
  | byte {b : UInt8} {rest : Text} :
    b ≠ 34 → b ≠ 92 → QuotedBody rest → QuotedBody (b :: rest)
  | escaped (b : UInt8) {rest : Text} : QuotedBody rest → QuotedBody (92 :: b :: rest)

theorem QuotedBody.plain_append {s t : Text} (hs : ∀ b ∈ s, b ≠ 34 ∧ b ≠ 92) (ht : QuotedBody t) :
    QuotedBody (s ++ t) := by
  induction s with
  | nil => exact ht
  | cons b s ih =>
    rw [List.forall_mem_cons] at hs
    exact .byte hs.1.1 hs.1.2 (ih hs.2)

/-- The bytes of a character other than a quote or a backslash are other ones too. -/
theorem plain_utf8EncodeChar {c : Char} (hquote : c.toNat ≠ 34) (hslash : c.toNat ≠ 92) :
    ∀ b ∈ String.utf8EncodeChar c, b ≠ 34 ∧ b ≠ 92 := by
  intro b hb
  have hcode : b.toNat ≠ 34 ∧ b.toNat ≠ 92 := by
    rcases utf8EncodeChar_cases c with ⟨-, a, hone, ha⟩ | ⟨hhigh, -⟩
    · rw [hone, List.mem_singleton] at hb
      rw [hb]
      omega
    · have := utf8EncodeChar_high hhigh b hb
      omega
  exact ⟨fun h => hcode.1 (by rw [h]; rfl), fun h => hcode.2 (by rw [h]; rfl)⟩

/-- What is written for a rune stays between the quotes. -/
theorem QuotedBody.quoteRune_append (r : Rune) {t : Text} (h : QuotedBody t) :
    QuotedBody (quoteRune r ++ t) := by
  cases r with
  | stray b => exact .escaped 120 (.plain_append (hex_plain 2 _) h)
  | char c =>
    rw [quoteRune]
    fun_cases quoteChar c with
    | case1 => exact .escaped _ h
    | case2 n hmark =>
      rw [not_or] at hmark
      exact .plain_append (plain_utf8EncodeChar hmark.1 hmark.2) h
    | case3 => exact .escaped _ h
    | case4 => exact .escaped 120 (.plain_append (hex_plain 2 _) h)
    | case5 => exact .escaped 117 (.plain_append (hex_plain 4 _) h)
    | case6 => exact .escaped 85 (.plain_append (hex_plain 8 _) h)

theorem quotedBody_flatMap (rs : List Rune) : QuotedBody (rs.flatMap quoteRune) := by
  induction rs with
  | nil => exact .nil
  | cons r rs ih => exact ih.quoteRune_append r

/-! ### Line breaks -/

theorem not_isPrintable_newline : isPrintable 10 = false := by
  decide +kernel

theorem ne_newline_of_escapeLetter? {n : Nat} {letter : UInt8}
    (h : escapeLetter? n = some letter) : letter ≠ 10 := by
  unfold escapeLetter? at h
  split at h <;> cases h <;> decide

/-- No line break is written for a rune. -/
theorem newline_notMem_quoteRune (r : Rune) : 10 ∉ quoteRune r := by
  have hhex : ∀ width n, 10 ∉ hex false width n := by
    intro width n hmem
    exact forall_mem_hex (p := (· ≠ 10)) (by decide) width n 10 hmem rfl
  have hescaped : ∀ (letter : UInt8) (t : Text), letter ≠ 10 → 10 ∉ t → 10 ∉ 92 :: letter :: t := by
    intro letter t hletter ht hmem
    simp only [List.mem_cons, ht, or_false] at hmem
    rcases hmem with hmem | hmem
    · exact absurd hmem (by decide)
    · exact hletter hmem.symm
  cases r with
  | stray b => exact hescaped 120 _ (by decide) (hhex 2 _)
  | char c =>
    rw [quoteRune]
    fun_cases quoteChar c with
    | case1 n hmark =>
      have hmark : c.toNat = 34 ∨ c.toNat = 92 := hmark
      show 10 ∉ [92, c.toNat.toUInt8]
      rcases hmark with hmark | hmark <;> rw [hmark] <;> decide
    | case2 n hmark hprint =>
      -- the only character with this byte is the line break itself, which is not printable
      intro hmem
      rcases utf8EncodeChar_cases c with ⟨-, a, hone, ha⟩ | ⟨hhigh, -⟩
      · rw [hone, List.mem_singleton] at hmem
        have hbreak : c.toNat = 10 := by rw [← ha, ← hmem]; rfl
        have hprint : isPrintable c.toNat = true := hprint
        rw [hbreak, not_isPrintable_newline] at hprint
        cases hprint
      · exact absurd (utf8EncodeChar_high hhigh 10 hmem) (by decide)
    | case3 n hmark hprint letter hletter =>
      exact hescaped letter [] (ne_newline_of_escapeLetter? hletter) List.not_mem_nil
    | case4 => exact hescaped 120 _ (by decide) (hhex 2 _)
    | case5 => exact hescaped 117 _ (by decide) (hhex 4 _)
    | case6 => exact hescaped 85 _ (by decide) (hhex 8 _)

/-- **A literal stands on one line.** -/
theorem newline_notMem_quote (t : Text) : 10 ∉ quote t := by
  intro hmem
  simp only [quote, List.mem_cons, List.mem_append, List.mem_flatMap] at hmem
  rcases hmem with hmem | ⟨r, -, hmem⟩ | hmem
  · exact absurd hmem (by decide)
  · exact newline_notMem_quoteRune r hmem
  · exact absurd hmem (by decide)

/-! ### Reading -/

theorem escapedControl?_escapeLetter {n : Nat} {letter : UInt8}
    (h : escapeLetter? n = some letter) : escapedControl? letter = some n.toUInt8 ∧ n < 128 := by
  unfold escapeLetter? at h
  split at h <;> cases h <;> exact ⟨rfl, by decide⟩

/-- The byte of an ASCII character. -/
theorem utf8EncodeChar_ascii {c : Char} (h : c.toNat < 128) :
    String.utf8EncodeChar c = [c.toNat.toUInt8] := by
  rcases utf8EncodeChar_cases c with ⟨-, a, hone, ha⟩ | ⟨hhigh, -⟩
  · rw [hone, ← ha]
    exact congrArg (fun b => [b]) UInt8.ofNat_toNat.symm
  · omega

/-- A number of two digits is one byte. -/
theorem literalChar?_byte {n : Nat} (h : n < 256) (rest : Text) :
    literalChar? 34 (92 :: 120 :: (hex false 2 n ++ rest)) = some ([n.toUInt8], rest) := by
  show (hexNumber? 2 0 (hex false 2 n ++ rest)).map _ = _
  rw [hexNumber?_hex h]
  rfl

/-- The character that a number of several digits is. -/
theorem code_of_hex {c : Char} {width : Nat} (h : c.toNat < 16 ^ width) (rest : Text) :
    (match hexNumber? width 0 (hex false width c.toNat ++ rest) with
      | some (n, rest) =>
        if n.isValidChar then some (String.utf8EncodeChar (Char.ofNat n), rest) else none
      | none => none) = some (String.utf8EncodeChar c, rest) := by
  have hvalid : c.toNat.isValidChar := c.valid
  rw [hexNumber?_hex h]
  dsimp only
  rw [if_pos hvalid, Char.ofNat_toNat]

/-- **One rune is read back by one step.** -/
theorem literalChar?_quoteRune (r : Rune) (rest : Text) :
    literalChar? 34 (quoteRune r ++ rest) = some (r.bytes, rest) := by
  cases r with
  | stray b =>
    have hread := literalChar?_byte (n := b.toNat) b.toNat_lt rest
    rwa [show b.toNat.toUInt8 = b from UInt8.ofNat_toNat] at hread
  | char c =>
    rw [Rune.bytes, quoteRune]
    fun_cases quoteChar c with
    | case1 n hmark =>
      -- a quote or a backslash
      have hmark : c.toNat = 34 ∨ c.toNat = 92 := hmark
      rw [utf8EncodeChar_ascii (by omega)]
      show literalChar? 34 ([92, c.toNat.toUInt8] ++ rest) = _
      rcases hmark with hmark | hmark <;> rw [hmark] <;> rfl
    | case2 n hmark hprint =>
      -- a printable character stands for itself
      rw [not_or] at hmark
      rcases utf8EncodeChar_cases c with ⟨hlow, a, hone, ha⟩ | ⟨hhigh, -⟩
      · have hbreak : c.toNat ≠ 10 := by
          intro hbreak
          have hprint : isPrintable c.toNat = true := hprint
          rw [hbreak, not_isPrintable_newline] at hprint
          cases hprint
        have ha10 : a ≠ 10 := fun h => hbreak (ha.symm.trans (congrArg UInt8.toNat h))
        have ha92 : a ≠ 92 := fun h => hmark.2 (ha.symm.trans (congrArg UInt8.toNat h))
        have hascii : a < 0x80 := UInt8.lt_iff_toNat_lt.mpr (by rw [ha]; exact hlow)
        rw [hone, List.singleton_append, literalChar?, if_neg ha10, if_neg ha92, if_pos hascii]
      · obtain ⟨a, tail, hcons, -⟩ := exists_utf8EncodeChar_eq_cons c
        have hhead := headChar?_utf8EncodeChar c rest
        have ha := utf8EncodeChar_high hhigh a (by rw [hcons]; exact List.mem_cons_self)
        have ha10 : a ≠ 10 := by
          rintro rfl
          exact absurd ha (by decide)
        have ha92 : a ≠ 92 := by
          rintro rfl
          exact absurd ha (by decide)
        have hascii : ¬a < 0x80 := by
          rw [UInt8.lt_iff_toNat_lt]
          exact Nat.not_lt.mpr ha
        rw [hcons, List.cons_append] at hhead ⊢
        rw [literalChar?, if_neg ha10, if_neg ha92, if_neg hascii, hhead]
        dsimp only
        rw [hcons, List.length_cons, Nat.add_sub_cancel, List.drop_left]
    | case3 n hmark hprint letter hletter =>
      -- a control character with a letter
      obtain ⟨hcontrol, hlow⟩ := escapedControl?_escapeLetter hletter
      rw [utf8EncodeChar_ascii hlow]
      show unescape? 34 (letter :: rest) = _
      unfold unescape?
      dsimp only
      rw [hcontrol]
    | case4 n hmark hprint hletter hcontrol =>
      rw [utf8EncodeChar_ascii (by omega)]
      exact literalChar?_byte (by omega) rest
    | case5 n hmark hprint hletter hcontrol hshort => exact @code_of_hex c 4 hshort rest
    | case6 n hmark hprint hletter hcontrol hlong =>
      exact @code_of_hex c 8 (Nat.lt_trans (toNat_lt_of_char c) (by decide)) rest

/-- What is written for a rune does not begin with a double quote. -/
theorem exists_quoteRune_eq_cons (r : Rune) : ∃ b w, quoteRune r = b :: w ∧ b ≠ 34 := by
  have hbody := QuotedBody.nil.quoteRune_append r
  rw [List.append_nil] at hbody
  have hread := literalChar?_quoteRune r []
  rw [List.append_nil] at hread
  cases hrune : quoteRune r with
  | nil =>
    rw [hrune] at hread
    cases hread
  | cons b w =>
    rw [hrune] at hbody
    cases hbody with
    | byte hquote => exact ⟨b, w, rfl, hquote⟩
    | escaped => exact ⟨_, _, rfl, by decide⟩

theorem literalBody?_quoted (rs : List Rune) {fuel : Nat} (h : rs.length < fuel) :
    literalBody? fuel (rs.flatMap quoteRune ++ [34]) = some (ofRunes rs) := by
  induction rs generalizing fuel with
  | nil =>
    obtain ⟨fuel, rfl⟩ := Nat.exists_eq_succ_of_ne_zero (Nat.ne_of_gt h)
    rfl
  | cons r rs ih =>
    obtain ⟨fuel, rfl⟩ := Nat.exists_eq_succ_of_ne_zero (Nat.ne_of_gt (Nat.zero_lt_of_lt h))
    have hread := literalChar?_quoteRune r (rs.flatMap quoteRune ++ [34])
    obtain ⟨b, w, hcons, hquote⟩ := exists_quoteRune_eq_cons r
    rw [List.flatMap_cons, List.append_assoc]
    rw [hcons, List.cons_append] at hread ⊢
    rw [literalBody?, if_neg hquote, hread]
    dsimp only
    rw [ih (Nat.lt_of_succ_lt_succ h)]
    rfl

theorem length_le_quoted (rs : List Rune) : rs.length ≤ (rs.flatMap quoteRune).length := by
  induction rs with
  | nil => exact Nat.le_refl _
  | cons r rs ih =>
    obtain ⟨b, w, hcons, -⟩ := exists_quoteRune_eq_cons r
    rw [List.flatMap_cons, hcons, List.length_append, List.length_cons, List.length_cons]
    omega

/-- **A literal that was written is read back as itself.** -/
theorem unquote?_quote (t : Text) : unquote? (quote t) = some t := by
  have hfuel : (runes t).length < ((runes t).flatMap quoteRune ++ [34]).length + 1 := by
    have := length_le_quoted (runes t)
    rw [List.length_append]
    omega
  show literalBody? _ _ = _
  rw [literalBody?_quoted _ hfuel, ofRunes_runes]

end SchemePlayer.Text
