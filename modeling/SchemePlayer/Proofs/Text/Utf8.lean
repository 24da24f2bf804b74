import Mathlib
import SchemePlayer.Text.Basic

/-!
# Characters and their bytes

A text is read as UTF-8 one character at a time, and a character is written as one to four bytes.
The two agree in both directions, so nothing is lost by reading a text as runes:

- `headChar?_utf8EncodeChar`: a character is read from its bytes, whatever follows them.
- `utf8EncodeChar_cases`: what kinds of bytes a character has.
- `utf8EncodeChar_of_headChar?`: what is read as a character are its bytes, and no longer form of
  them.
- `ofRunes_runes`: **the runes of a text make it again.**
- `ofChars_chars`: so do its characters, if there are no stray bytes.
-/

namespace SchemePlayer.Text

/-! ### One character -/

theorem charIn?_eq_some_iff {least code : Nat} {c : Char} :
    charIn? least code = some c ↔ c.toNat = code ∧ least ≤ code := by
  unfold charIn?
  constructor
  · intro h
    split_ifs at h with hvalid hleast
    cases h
    exact ⟨rfl, hleast⟩
  · rintro ⟨rfl, hleast⟩
    rw [dif_pos (show c.toNat.isValidChar from c.valid), if_pos hleast]
    rfl

theorem map_charIn? {least code : Nat} {c : Char} (hcode : code = c.toNat) (hleast : least ≤ code)
    (more : Nat) : (charIn? least code).map (·, more) = some (c, more) := by
  rw [charIn?_eq_some_iff.mpr ⟨hcode.symm, hleast⟩]
  rfl

theorem toNat_lt_of_char (c : Char) : c.toNat < 0x110000 := by
  have hvalid : c.toNat.isValidChar := c.valid
  unfold Nat.isValidChar at hvalid
  omega

theorem toNat_byte {n : Nat} (h : n < 256) : (UInt8.ofNat n).toNat = n :=
  UInt8.toNat_ofNat_of_lt' h

theorem ofNat_of_toNat {b : UInt8} {n : Nat} (h : n = b.toNat) : UInt8.ofNat n = b := by
  rw [h, UInt8.ofNat_toNat]

theorem isContinuation_iff (b : UInt8) :
    isContinuation b = true ↔ 128 ≤ b.toNat ∧ b.toNat < 192 := by
  simp [isContinuation, UInt8.le_iff_toNat_le, UInt8.lt_iff_toNat_lt]

/-- Six bits are written as a byte that continues a character. -/
theorem isContinuation_byte (n : Nat) : isContinuation (UInt8.ofNat (n % 64 + 128)) = true := by
  rw [isContinuation_iff, toNat_byte (by omega)]
  omega

theorem payload_byte (n : Nat) : payload (UInt8.ofNat (n % 64 + 128)) = n % 64 := by
  rw [payload, toNat_byte (by omega)]
  omega

/-- **A character is read from its bytes.** -/
theorem headChar?_utf8EncodeChar (c : Char) (rest : Text) :
    headChar? (String.utf8EncodeChar c ++ rest) =
      some (c, (String.utf8EncodeChar c).length - 1) := by
  have hbound := toNat_lt_of_char c
  simp only [String.utf8EncodeChar, Char.toNat_val]
  generalize hn : c.toNat = n at hbound ⊢
  -- one case for each number of bytes; the first byte tells it
  split_ifs with hone htwo hthree
  · have hlead : (UInt8.ofNat n).toNat = n := toNat_byte (by omega)
    have hrange : n < 128 := by omega
    simp only [List.cons_append, headChar?, UInt8.lt_iff_toNat_lt, hlead, UInt8.reduceToNat, hrange]
    exact map_charIn? hn.symm (by omega) 0
  · have hlead : (UInt8.ofNat (n / 64 % 32 + 192)).toNat = n / 64 % 32 + 192 :=
      toNat_byte (by omega)
    have hrange : ¬n / 64 % 32 + 192 < 128 ∧ 192 ≤ n / 64 % 32 + 192 ∧
        n / 64 % 32 + 192 < 224 := by omega
    simp only [List.cons_append, headChar?, UInt8.lt_iff_toNat_lt, UInt8.le_iff_toNat_le, hlead,
      UInt8.reduceToNat, hrange, isContinuation_byte, payload_byte]
    exact map_charIn? (by omega) (by omega) 1
  · have hlead : (UInt8.ofNat (n / 4096 % 16 + 224)).toNat = n / 4096 % 16 + 224 :=
      toNat_byte (by omega)
    have hrange : ¬n / 4096 % 16 + 224 < 128 ∧ ¬n / 4096 % 16 + 224 < 224 ∧
        224 ≤ n / 4096 % 16 + 224 ∧ n / 4096 % 16 + 224 < 240 := by omega
    simp only [List.cons_append, headChar?, UInt8.lt_iff_toNat_lt, UInt8.le_iff_toNat_le, hlead,
      UInt8.reduceToNat, hrange, isContinuation_byte, payload_byte]
    exact map_charIn? (by omega) (by omega) 2
  · have hlead : (UInt8.ofNat (n / 262144 % 8 + 240)).toNat = n / 262144 % 8 + 240 :=
      toNat_byte (by omega)
    have hrange : ¬n / 262144 % 8 + 240 < 128 ∧ ¬n / 262144 % 8 + 240 < 224 ∧
        ¬n / 262144 % 8 + 240 < 240 ∧ 240 ≤ n / 262144 % 8 + 240 ∧
        n / 262144 % 8 + 240 < 248 := by omega
    simp only [List.cons_append, headChar?, UInt8.lt_iff_toNat_lt, UInt8.le_iff_toNat_le, hlead,
      UInt8.reduceToNat, hrange, isContinuation_byte, payload_byte]
    exact map_charIn? (by omega) (by omega) 3

/-- **What is read as a character are its bytes.** Forms that are longer than needed are refused by
the least code of each length, which is why the number of bytes is the same. -/
theorem utf8EncodeChar_of_headChar? {a : UInt8} {rest : Text} {c : Char} {more : Nat}
    (h : headChar? (a :: rest) = some (c, more)) :
    String.utf8EncodeChar c = a :: rest.take more := by
  unfold headChar? at h
  simp only [UInt8.lt_iff_toNat_lt, UInt8.le_iff_toNat_le, UInt8.reduceToNat] at h
  simp only [String.utf8EncodeChar, Char.toNat_val]
  split_ifs at h with hone htwo hthree hfour
  · obtain ⟨c, hc, heq⟩ := Option.map_eq_some_iff.mp h
    cases heq
    obtain ⟨hcode, -⟩ := charIn?_eq_some_iff.mp hc
    rw [if_pos (by omega), ofNat_of_toNat hcode, List.take_zero]
  · split at h
    · rename_i b rest
      split_ifs at h with hb
      obtain ⟨c, hc, heq⟩ := Option.map_eq_some_iff.mp h
      cases heq
      obtain ⟨hcode, hleast⟩ := charIn?_eq_some_iff.mp hc
      rw [isContinuation_iff] at hb
      unfold payload at hcode hleast
      rw [if_neg (by omega), if_pos (by omega), ofNat_of_toNat (b := a) (by omega),
        ofNat_of_toNat (b := b) (by omega)]
      rfl
    · cases h
  · split at h
    · rename_i b b' rest
      split_ifs at h with hb
      obtain ⟨c, hc, heq⟩ := Option.map_eq_some_iff.mp h
      cases heq
      obtain ⟨hcode, hleast⟩ := charIn?_eq_some_iff.mp hc
      simp only [Bool.and_eq_true, isContinuation_iff] at hb
      unfold payload at hcode hleast
      rw [if_neg (by omega), if_neg (by omega), if_pos (by omega),
        ofNat_of_toNat (b := a) (by omega), ofNat_of_toNat (b := b) (by omega),
        ofNat_of_toNat (b := b') (by omega)]
      rfl
    · cases h
  · split at h
    · rename_i b b' b'' rest
      split_ifs at h with hb
      obtain ⟨c, hc, heq⟩ := Option.map_eq_some_iff.mp h
      cases heq
      obtain ⟨hcode, hleast⟩ := charIn?_eq_some_iff.mp hc
      simp only [Bool.and_eq_true, isContinuation_iff] at hb
      unfold payload at hcode hleast
      rw [if_neg (by omega), if_neg (by omega), if_neg (by omega),
        ofNat_of_toNat (b := a) (by omega), ofNat_of_toNat (b := b) (by omega),
        ofNat_of_toNat (b := b') (by omega), ofNat_of_toNat (b := b'') (by omega)]
      rfl
    · cases h

/-- A character is one ASCII byte, or begins with a byte that neither is one nor continues a
character, and goes on with bytes that do. -/
theorem utf8EncodeChar_cases (c : Char) :
    (c.toNat < 128 ∧ ∃ a, String.utf8EncodeChar c = [a] ∧ a.toNat = c.toNat) ∨
      (128 ≤ c.toNat ∧ ∃ a tail, String.utf8EncodeChar c = a :: tail ∧ 192 ≤ a.toNat ∧
        ∀ b ∈ tail, isContinuation b = true) := by
  have hbound := toNat_lt_of_char c
  simp only [String.utf8EncodeChar, Char.toNat_val]
  split_ifs with hone htwo hthree
  · exact .inl ⟨by omega, _, rfl, toNat_byte (by omega)⟩
  all_goals
    refine .inr ⟨by omega, _, _, rfl, ?_, ?_⟩
    · rw [toNat_byte (by omega)]
      omega
    · simp only [List.forall_mem_cons, isContinuation_byte, List.not_mem_nil, false_implies,
        implies_true, and_self]

/-- The first byte of a character: itself below 128, and a byte from 128 on otherwise. -/
theorem exists_utf8EncodeChar_eq_cons (c : Char) :
    ∃ a tail, String.utf8EncodeChar c = a :: tail ∧
      (c.toNat < 128 → a.toNat = c.toNat ∧ tail = []) ∧ (128 ≤ c.toNat → 128 ≤ a.toNat) := by
  rcases utf8EncodeChar_cases c with ⟨hlow, a, hone, ha⟩ | ⟨hhigh, a, tail, hbytes, ha, -⟩
  · exact ⟨a, [], hone, fun _ => ⟨ha, rfl⟩, fun h => by omega⟩
  · exact ⟨a, tail, hbytes, fun h => by omega, fun _ => by omega⟩

/-! ### Whole texts -/

theorem runesFrom_eq (skip : Nat) (t : Text) : runesFrom skip t = runes (t.drop skip) := by
  induction skip generalizing t with
  | zero => rfl
  | succ skip ih =>
    cases t with
    | nil => rfl
    | cons b rest => exact ih rest

/-- A character is read before whatever follows it. -/
theorem runes_char_append (c : Char) (t : Text) :
    runes (String.utf8EncodeChar c ++ t) = .char c :: runes t := by
  obtain ⟨a, tail, hbytes, -⟩ := exists_utf8EncodeChar_eq_cons c
  have hhead := headChar?_utf8EncodeChar c t
  rw [hbytes] at hhead ⊢
  rw [List.cons_append] at hhead ⊢
  show runesFrom 0 _ = _
  rw [runesFrom, hhead]
  dsimp only
  rw [runesFrom_eq, List.length_cons, Nat.add_sub_cancel, List.drop_left]

/-- How a text begins: with a character or with a stray byte. -/
theorem runes_cons (a : UInt8) (rest : Text) :
    (∃ c more, a :: rest = String.utf8EncodeChar c ++ rest.drop more ∧
        runes (a :: rest) = .char c :: runes (rest.drop more)) ∨
      runes (a :: rest) = .stray a :: runes rest := by
  cases hhead : headChar? (a :: rest) with
  | none =>
    right
    simp only [runes, runesFrom, hhead]
  | some read =>
    obtain ⟨c, more⟩ := read
    left
    refine ⟨c, more, ?_, ?_⟩
    · rw [utf8EncodeChar_of_headChar? hhead, List.cons_append, List.take_append_drop]
    · rw [← runesFrom_eq]
      simp only [runes, runesFrom, hhead]

/-- **The runes of a text make it again.** -/
theorem ofRunes_runes (t : Text) : ofRunes (runes t) = t := by
  match t with
  | [] => rfl
  | a :: rest =>
    rcases runes_cons a rest with ⟨c, more, htext, hrunes⟩ | hrunes
    · have hshort : (rest.drop more).length ≤ rest.length := by simp
      have ih := ofRunes_runes (rest.drop more)
      rw [hrunes, htext]
      show String.utf8EncodeChar c ++ ofRunes (runes (rest.drop more)) = _
      rw [ih]
    · have ih := ofRunes_runes rest
      rw [hrunes]
      show a :: ofRunes (runes rest) = _
      rw [ih]
termination_by t.length
decreasing_by all_goals simp only [List.length_cons]; omega

/-- **The characters of a text make it again**, unless it has stray bytes. -/
theorem ofChars_chars {t : Text} (h : isUtf8 t = true) : ofChars (chars t) = t := by
  calc ofChars (chars t) = ofRunes (runes t) := by
        unfold ofChars chars ofRunes
        rw [List.flatMap_map]
        refine List.flatMap_congr fun r hr => ?_
        have hchar := List.all_eq_true.mp h r hr
        cases r with
        | char c => rfl
        | stray b => cases hchar
    _ = t := ofRunes_runes t

end SchemePlayer.Text
