import Mathlib
import SchemePlayer.Proofs.Text.Utf8
import SchemePlayer.Text.Case

/-!
# Words, blanks and letter case

The bytes behind the first of a character are of a kind of their own. So a text can be cut before
any other byte, whatever stands around, and the blanks at its ends and the case of its ASCII letters
are matters of single runes:

- `runes_append`: **a text is read in two parts that are cut before a byte that continues nothing.**
- `trim_blank_append`, `trim_append_blank`: blanks around a text do not count when it is trimmed.
- `trim_eq_self`: nothing is trimmed from a text that begins and ends with something else.
- `runes_map_asciiLower`: ASCII letters are put into lower case rune by rune.
- `SameLetters.upper_eq`: **texts that differ in the case of ASCII letters have the same upper-case
  form**, even where their other bytes are not those of any character.
-/

namespace SchemePlayer.Text

/-! ### Cutting a text -/

theorem isContinuation_ascii {a : UInt8} (h : a.toNat < 128) : isContinuation a = false := by
  rw [Bool.eq_false_iff, ne_eq, isContinuation_iff]
  omega

/-- A character begins with a byte that continues nothing. -/
theorem exists_utf8EncodeChar_head (c : Char) :
    ∃ a tail, String.utf8EncodeChar c = a :: tail ∧ isContinuation a = false ∧
      ∀ b ∈ tail, isContinuation b = true := by
  rcases utf8EncodeChar_cases c with ⟨hlow, a, hone, ha⟩ | ⟨-, a, tail, hbytes, ha, htail⟩
  · exact ⟨a, [], hone, isContinuation_ascii (by omega), fun b hb => nomatch hb⟩
  · refine ⟨a, tail, hbytes, ?_, htail⟩
    rw [Bool.eq_false_iff, ne_eq, isContinuation_iff]
    omega

/-- The bytes of a character beyond ASCII are beyond ASCII. -/
theorem utf8EncodeChar_high {c : Char} (h : 128 ≤ c.toNat) :
    ∀ b ∈ String.utf8EncodeChar c, 128 ≤ b.toNat := by
  rcases utf8EncodeChar_cases c with ⟨hlow, -⟩ | ⟨-, a, tail, hbytes, ha, htail⟩
  · omega
  · rw [hbytes, List.forall_mem_cons]
    exact ⟨by omega, fun b hb => ((isContinuation_iff b).mp (htail b hb)).1⟩

/-- A text of characters, without stray bytes, is read before whatever follows. -/
theorem runes_ofChars_append (cs : List Char) (t : Text) :
    runes (ofChars cs ++ t) = cs.map .char ++ runes t := by
  induction cs with
  | nil => rfl
  | cons c cs ih =>
    show runes ((String.utf8EncodeChar c ++ ofChars cs) ++ t) = _
    rw [List.append_assoc, runes_char_append, ih]
    rfl

theorem toNat_ascii {n : Nat} (h : n < 128) : (Char.ofNat n).toNat = n := by
  rw [Char.ofNat, dif_pos (show n.isValidChar from .inl (by omega))]
  rfl

/-- An ASCII byte is a character by itself. -/
theorem runes_ascii_cons {a : UInt8} (ha : a.toNat < 128) (t : Text) :
    runes (a :: t) = .char (Char.ofNat a.toNat) :: runes t := by
  have hcode := toNat_ascii ha
  rcases utf8EncodeChar_cases (Char.ofNat a.toNat) with ⟨-, b, hbytes, hb⟩ | ⟨hhigh, -⟩
  · have hsame : b = a := UInt8.toNat_inj.mp (by omega)
    have hread := runes_char_append (Char.ofNat a.toNat) t
    rwa [hbytes, hsame] at hread
  · omega

/-- **A text is read in two parts that are cut before a byte that continues nothing.** -/
theorem runes_append {a : UInt8} (ha : isContinuation a = false) (s t : Text) :
    runes (s ++ a :: t) = runes s ++ runes (a :: t) := by
  match s with
  | [] => rfl
  | x :: s =>
    rcases runes_cons x s with ⟨c, more, hbytes, hrunes⟩ | hrunes
    · have hshort : (s.drop more).length ≤ s.length := by simp
      have ih := runes_append ha (s.drop more) t
      rw [hrunes, hbytes, List.append_assoc, runes_char_append, ih]
      rfl
    · have ih := runes_append ha s t
      rw [hrunes, List.cons_append, List.cons_append, ← ih]
      rcases runes_cons x (s ++ a :: t) with ⟨c, more, hbytes, -⟩ | hstray
      · -- a character that begins here ends before the byte, so that it was there already
        exfalso
        rw [← List.cons_append] at hbytes
        obtain ⟨b, tail, hcons, -, htail⟩ := exists_utf8EncodeChar_head c
        rcases List.append_eq_append_iff.mp hbytes with ⟨w, hc, hrest⟩ | ⟨w, hs, -⟩
        · cases w with
          | nil =>
            rw [List.append_nil] at hc
            have hread := runes_char_append c []
            rw [List.append_nil, hc, hrunes] at hread
            cases hread
          | cons b' w =>
            obtain rfl : a = b' := (List.cons.inj hrest).1
            rw [hcons] at hc
            have hmem : a ∈ tail := by
              rw [(List.cons.inj hc).2]
              exact List.mem_append_cons_self
            rw [htail a hmem] at ha
            cases ha
        · rw [hs, runes_char_append] at hrunes
          cases hrunes
      · exact hstray
termination_by s.length
decreasing_by all_goals simp only [List.length_cons]; omega

/-- An ASCII byte of a text is one of its characters. -/
theorem char_mem_runes {a : UInt8} (ha : a.toNat < 128) {t : Text} (h : a ∈ t) :
    .char (Char.ofNat a.toNat) ∈ runes t := by
  obtain ⟨before, after, rfl⟩ := List.append_of_mem h
  rw [runes_append (isContinuation_ascii ha), runes_ascii_cons ha]
  exact List.mem_append_cons_self

/-! ### Blanks -/

/-- Nothing but white space. -/
def IsBlank (t : Text) : Prop := ∀ r ∈ runes t, isSpaceRune r = true

/-- Blanks are characters. -/
theorem IsBlank.exists_ofChars {t : Text} (h : IsBlank t) :
    ∃ cs : List Char, t = ofChars cs ∧ ∀ c ∈ cs, isSpaceCode c.toNat = true := by
  refine ⟨chars t, (ofChars_chars (List.all_eq_true.mpr fun r hr => ?_)).symm, fun c hc => ?_⟩
  · have hspace := h r hr
    cases r with
    | char c => rfl
    | stray b => cases hspace
  · obtain ⟨r, hr, rfl⟩ := List.mem_map.mp hc
    have hspace := h r hr
    cases r with
    | char c => exact hspace
    | stray b => cases hspace

theorem isSpaceCode_ascii {n : Nat} (h : isSpaceCode n = true) (hn : n < 128) :
    (9 ≤ n ∧ n ≤ 13) ∨ n = 32 := by
  simp only [isSpaceCode, Bool.or_eq_true, Bool.and_eq_true, decide_eq_true_eq, beq_iff_eq] at h
  omega

/-- A byte of blanks is an ASCII blank or no ASCII byte. -/
theorem IsBlank.byte {t : Text} (h : IsBlank t) {b : UInt8} (hb : b ∈ t) :
    (9 ≤ b.toNat ∧ b.toNat ≤ 13) ∨ b.toNat = 32 ∨ 128 ≤ b.toNat := by
  obtain ⟨cs, rfl, hcs⟩ := h.exists_ofChars
  obtain ⟨c, hc, hbc⟩ := List.mem_flatMap.mp hb
  rcases utf8EncodeChar_cases c with ⟨hlow, a, hbytes, ha⟩ | ⟨hhigh, -⟩
  · rw [hbytes, List.mem_singleton] at hbc
    have := isSpaceCode_ascii (hcs c hc) hlow
    rw [hbc]
    omega
  · exact .inr (.inr (utf8EncodeChar_high hhigh b hbc))

/-- An ASCII blank in front of blanks. -/
theorem IsBlank.ascii_cons {a : UInt8} (ha : a.toNat < 128) (hspace : isSpaceCode a.toNat = true)
    {t : Text} (h : IsBlank t) : IsBlank (a :: t) := by
  intro r hr
  rw [runes_ascii_cons ha] at hr
  rcases List.mem_cons.mp hr with rfl | hr
  · rw [isSpaceRune, toNat_ascii ha, hspace]
  · exact h r hr

theorem isBlank_ascii {a : UInt8} (ha : a.toNat < 128) (hspace : isSpaceCode a.toNat = true) :
    IsBlank [a] :=
  IsBlank.ascii_cons ha hspace fun _ hr => nomatch hr

/-- Runes of white space are read again. -/
theorem runes_ofRunes_space {rs : List Rune} (h : ∀ r ∈ rs, isSpaceRune r = true) :
    runes (ofRunes rs) = rs := by
  induction rs with
  | nil => rfl
  | cons r rs ih =>
    obtain ⟨hr, hrs⟩ := List.forall_mem_cons.mp h
    cases r with
    | stray b => cases hr
    | char c =>
      show runes (String.utf8EncodeChar c ++ ofRunes rs) = _
      rw [runes_char_append, ih hrs]

theorem isBlank_ofRunes {rs : List Rune} (h : ∀ r ∈ rs, isSpaceRune r = true) :
    IsBlank (ofRunes rs) := by
  rwa [IsBlank, runes_ofRunes_space h]

theorem runes_blank_append {b : Text} (h : IsBlank b) (t : Text) :
    runes (b ++ t) = runes b ++ runes t := by
  obtain ⟨cs, rfl, -⟩ := h.exists_ofChars
  have halone := runes_ofChars_append cs []
  rw [List.append_nil] at halone
  rw [runes_ofChars_append, halone, List.append_assoc]
  rfl

theorem runes_append_blank (t : Text) {b : Text} (h : IsBlank b) :
    runes (t ++ b) = runes t ++ runes b := by
  obtain ⟨cs, rfl, -⟩ := h.exists_ofChars
  cases cs with
  | nil =>
    show runes (t ++ []) = runes t ++ []
    rw [List.append_nil, List.append_nil]
  | cons c cs =>
    obtain ⟨a, tail, hbytes, ha, -⟩ := exists_utf8EncodeChar_head c
    show runes (t ++ (String.utf8EncodeChar c ++ ofChars cs)) =
      runes t ++ runes (String.utf8EncodeChar c ++ ofChars cs)
    rw [hbytes, List.cons_append, runes_append ha]

/-! ### Trimming -/

section Ends

variable {α : Type} {p : α → Bool} {l : List α}

theorem dropWhile_eq_self (h : ∀ x ∈ l.head?, p x = false) : l.dropWhile p = l := by
  cases l with
  | nil => rfl
  | cons x l => rw [List.dropWhile_cons_of_neg (by simp [h x rfl])]

theorem dropEndWhile_eq_self (h : ∀ x ∈ l.getLast?, p x = false) : dropEndWhile p l = l := by
  rw [dropEndWhile, dropWhile_eq_self (by rwa [List.head?_reverse]), List.reverse_reverse]

theorem dropEndWhile_append {b : List α} (h : ∀ x ∈ b, p x = true) :
    dropEndWhile p (l ++ b) = dropEndWhile p l := by
  rw [dropEndWhile, List.reverse_append,
    List.dropWhile_append_of_pos fun x hx => h x (List.mem_reverse.mp hx)]
  rfl

theorem exists_dropEndWhile (p : α → Bool) (l : List α) :
    ∃ e, (∀ x ∈ e, p x = true) ∧ l = dropEndWhile p l ++ e := by
  refine ⟨(l.reverse.takeWhile p).reverse, fun x hx => ?_, ?_⟩
  · exact List.mem_takeWhile_imp (List.mem_reverse.mp hx)
  · rw [dropEndWhile, ← List.reverse_append, List.takeWhile_append_dropWhile, List.reverse_reverse]

end Ends

/-- **Blanks before a text do not count.** -/
theorem trim_blank_append {b : Text} (h : IsBlank b) (t : Text) : trim (b ++ t) = trim t := by
  rw [trim, runes_blank_append h, List.dropWhile_append_of_pos h, ← trim]

/-- **Nor do blanks behind it.** -/
theorem trim_append_blank (t : Text) {b : Text} (h : IsBlank b) : trim (t ++ b) = trim t := by
  rw [trim, runes_append_blank t h, List.dropWhile_append]
  split
  · rename_i hnone
    rw [trim, List.isEmpty_iff.mp hnone, List.dropWhile_eq_nil_iff.mpr h]
  · rw [dropEndWhile_append h, trim]

/-- **Nothing is trimmed from a text that begins and ends with something else than blanks.** -/
theorem trim_eq_self {t : Text} (hfirst : ∀ r ∈ (runes t).head?, isSpaceRune r = false)
    (hlast : ∀ r ∈ (runes t).getLast?, isSpaceRune r = false) : trim t = t := by
  rw [trim, dropWhile_eq_self hfirst, dropEndWhile_eq_self hlast, ofRunes_runes]

/-- **A text is what it is trimmed to, with blanks around**, and is read accordingly. -/
theorem exists_blanks (t : Text) :
    ∃ b b', IsBlank b ∧ IsBlank b' ∧ t = b ++ trim t ++ b' ∧
      runes (trim t) = dropEndWhile isSpaceRune ((runes t).dropWhile isSpaceRune) := by
  have hbefore : ∀ r ∈ (runes t).takeWhile isSpaceRune, isSpaceRune r = true :=
    fun r hr => List.mem_takeWhile_imp hr
  obtain ⟨after, hafter, hend⟩ :=
    exists_dropEndWhile isSpaceRune ((runes t).dropWhile isSpaceRune)
  have hrunes : runes t = (runes t).takeWhile isSpaceRune ++
      (dropEndWhile isSpaceRune ((runes t).dropWhile isSpaceRune) ++ after) := by
    rw [← hend, List.takeWhile_append_dropWhile]
  generalize (runes t).takeWhile isSpaceRune = before at hbefore hrunes
  have hsplit : t = ofRunes before ++ (trim t ++ ofRunes after) := by
    have hbytes := congrArg ofRunes hrunes
    rwa [ofRunes_runes, ofRunes, List.flatMap_append, List.flatMap_append] at hbytes
  refine ⟨ofRunes before, ofRunes after, isBlank_ofRunes hbefore, isBlank_ofRunes hafter, ?_, ?_⟩
  · rw [List.append_assoc]
    exact hsplit
  · -- the blanks on both sides are read by themselves
    have hread := congrArg runes hsplit
    rw [runes_blank_append (isBlank_ofRunes hbefore), runes_append_blank _ (isBlank_ofRunes hafter),
      runes_ofRunes_space hbefore, runes_ofRunes_space hafter] at hread
    exact List.append_cancel_right (List.append_cancel_left (hread.symm.trans hrunes))

/-- What is left when a text is trimmed does not begin or end with a blank. -/
theorem runes_trim_ends (t : Text) :
    (∀ r ∈ (runes (trim t)).head?, isSpaceRune r = false) ∧
      ∀ r ∈ (runes (trim t)).getLast?, isSpaceRune r = false := by
  obtain ⟨b, b', -, -, -, hrunes⟩ := exists_blanks t
  have hhead : ∀ l : List Rune, ∀ r ∈ (l.dropWhile isSpaceRune).head?, isSpaceRune r = false := by
    intro l r hr
    have hnot := List.head?_dropWhile_not isSpaceRune l
    rw [Option.mem_def.mp hr] at hnot
    exact hnot
  rw [hrunes]
  constructor
  · intro r hr
    obtain ⟨e, -, he⟩ := exists_dropEndWhile isSpaceRune ((runes t).dropWhile isSpaceRune)
    refine hhead (runes t) r ?_
    rw [he, List.head?_append, Option.mem_def.mp hr]
    rfl
  · intro r hr
    rw [dropEndWhile, List.getLast?_reverse] at hr
    exact hhead _ r hr

@[simp] theorem trim_trim (t : Text) : trim (trim t) = trim t :=
  trim_eq_self (runes_trim_ends t).1 (runes_trim_ends t).2

/-- A word that is not trimmed, with a space and more behind it, is trimmed at the other end. -/
theorem trim_word_append {word : Text} (hword : trim word = word) (hne : word ≠ []) (t : Text) :
    (trim t = [] ∧ trim (word ++ 32 :: t) = word) ∨
      ∃ b, IsBlank b ∧ trim (word ++ 32 :: t) = word ++ 32 :: (b ++ trim t) := by
  obtain ⟨b, b', hb, hb', hsplit, -⟩ := exists_blanks t
  have hspace : ∀ {s : Text}, IsBlank s → IsBlank (32 :: s) :=
    fun hs => hs.ascii_cons (by decide) (by decide)
  by_cases hempty : trim t = []
  · refine .inl ⟨hempty, ?_⟩
    have hblank : IsBlank (b ++ b') := by
      intro r hr
      rw [runes_blank_append hb] at hr
      exact (List.mem_append.mp hr).elim (hb r) (hb' r)
    rw [hempty, List.append_nil] at hsplit
    rw [hsplit, trim_append_blank _ (hspace hblank), hword]
  · refine .inr ⟨b, hb, ?_⟩
    have hreassoc : word ++ 32 :: t = word ++ 32 :: (b ++ trim t) ++ b' := by
      conv_lhs => rw [hsplit]
      rw [List.append_assoc b, List.append_assoc word, List.cons_append, List.append_assoc b]
    rw [hreassoc, trim_append_blank _ hb']
    have hread : runes (word ++ 32 :: (b ++ trim t)) =
        runes word ++ (runes (32 :: b) ++ runes (trim t)) := by
      rw [runes_append (by decide), ← List.cons_append, runes_blank_append (hspace hb)]
    have hrunes : ∀ {s : Text}, s ≠ [] → runes s ≠ [] := by
      intro s hs hnone
      rw [← ofRunes_runes s, hnone] at hs
      exact hs rfl
    have hends := runes_trim_ends word
    rw [hword] at hends
    refine trim_eq_self (fun r hr => hends.1 r ?_) (fun r hr => (runes_trim_ends t).2 r ?_)
    · rwa [hread, List.head?_append_of_ne_nil _ (hrunes hne)] at hr
    · rwa [hread, ← List.append_assoc, List.getLast?_append_of_ne_nil _ (hrunes hempty)] at hr

/-! ### The case of ASCII letters -/

theorem toNat_asciiLower (a : UInt8) :
    (asciiLower a).toNat = if 65 ≤ a.toNat ∧ a.toNat ≤ 90 then a.toNat + 32 else a.toNat := by
  unfold asciiLower
  simp only [UInt8.le_iff_toNat_le, UInt8.reduceToNat]
  split
  · have hadd : (a + 32).toNat = (a.toNat + 32) % 256 := UInt8.toNat_add a 32
    omega
  · rfl

theorem asciiLower_ascii {b : UInt8} : (asciiLower b).toNat < 128 ↔ b.toNat < 128 := by
  rw [toNat_asciiLower]
  split <;> omega

/-- Only ASCII letters are changed. -/
theorem asciiLower_high {b : UInt8} (h : 128 ≤ b.toNat) : asciiLower b = b := by
  rw [← UInt8.toNat_inj, toNat_asciiLower, if_neg (by omega)]

theorem map_asciiLower_high {t : Text} (h : ∀ b ∈ t, 128 ≤ b.toNat) : t.map asciiLower = t :=
  (List.map_congr_left fun b hb => asciiLower_high (h b hb)).trans (List.map_id t)

/-- The lower-case form of an ASCII letter, any other rune unchanged. -/
def lowerRune : Rune → Rune
  | .char c =>
    if 65 ≤ c.toNat ∧ c.toNat ≤ 90 then .char (Char.ofNat (c.toNat + 32)) else .char c
  | .stray b => .stray b

/-- **ASCII letters are put into lower case rune by rune.** -/
theorem runes_map_asciiLower (t : Text) :
    runes (t.map asciiLower) = (runes t).map lowerRune := by
  match t with
  | [] => rfl
  | x :: t =>
    rcases runes_cons x t with ⟨c, more, hbytes, hrunes⟩ | hrunes
    · have hshort : (t.drop more).length ≤ t.length := by simp
      have ih := runes_map_asciiLower (t.drop more)
      rw [hrunes, hbytes, List.map_append, List.map_cons]
      rcases utf8EncodeChar_cases c with ⟨hlow, a, hone, ha⟩ | ⟨hhigh, -⟩
      · have hascii : (asciiLower a).toNat < 128 := asciiLower_ascii.mpr (by omega)
        rw [hone, List.map_singleton, List.singleton_append, runes_ascii_cons hascii, ih,
          toNat_asciiLower, ha, lowerRune]
        split
        · rfl
        · rw [Char.ofNat_toNat]
      · rw [map_asciiLower_high (utf8EncodeChar_high hhigh), runes_char_append, ih, lowerRune,
          if_neg (by omega)]
    · have ih := runes_map_asciiLower t
      -- a byte that begins no character is no ASCII byte
      have hx : 128 ≤ x.toNat := by
        by_contra hx
        rw [runes_ascii_cons (by omega)] at hrunes
        cases hrunes
      rw [hrunes, List.map_cons, List.map_cons, ← ih, asciiLower_high hx]
      rcases runes_cons x (t.map asciiLower) with ⟨c, more, hbytes, -⟩ | hstray
      · -- the bytes of a character that is not ASCII were there before
        exfalso
        rw [← asciiLower_high hx, ← List.map_cons] at hbytes
        obtain ⟨own, rest, hsplit, hown, -⟩ := List.map_eq_append_iff.mp hbytes
        rcases utf8EncodeChar_cases c with ⟨hlow, a, hone, ha⟩ | ⟨hhigh, -⟩
        · rw [hone, List.map_eq_singleton_iff] at hown
          obtain ⟨b, rfl, hb⟩ := hown
          obtain rfl : x = b := (List.cons.inj hsplit).1
          rw [asciiLower_high hx] at hb
          rw [hb] at hx
          omega
        · have hsame : own.map asciiLower = own := by
            refine map_asciiLower_high fun b hb => ?_
            have hbyte := utf8EncodeChar_high hhigh (asciiLower b) (hown ▸ List.mem_map_of_mem hb)
            have hiff := @asciiLower_ascii b
            omega
          rw [hsplit, ← hsame, hown, runes_char_append] at hrunes
          cases hrunes
      · exact hstray
termination_by t.length
decreasing_by all_goals simp only [List.length_cons]; omega

theorem upperCode_lowerRune (r : Rune) : upperCode (lowerRune r).code = upperCode r.code := by
  cases r with
  | stray b => rfl
  | char c =>
    rw [lowerRune]
    split
    · rename_i h
      rw [Rune.code, Rune.code, toNat_ascii (by omega), upperCode, upperCode, if_pos (by omega),
        if_pos (by omega), if_pos (by omega), if_neg (by omega)]
      omega
    · rfl

theorem isSpaceRune_lowerRune (r : Rune) : isSpaceRune (lowerRune r) = isSpaceRune r := by
  cases r with
  | stray b => rfl
  | char c =>
    rw [lowerRune]
    split
    · rename_i h
      have hletter : ∀ n, 65 ≤ n → n ≤ 122 → isSpaceCode n = false := by
        intro n hlow hhigh
        rw [Bool.eq_false_iff]
        intro hspace
        have := isSpaceCode_ascii hspace (by omega)
        omega
      rw [isSpaceRune, isSpaceRune, toNat_ascii (by omega), hletter _ (by omega) (by omega),
        hletter _ h.1 (by omega)]
    · rfl

theorem upper_map_asciiLower (t : Text) : upper (t.map asciiLower) = upper t := by
  rw [upper, upper, mapCodes, mapCodes, runes_map_asciiLower, List.flatMap_map]
  exact List.flatMap_congr fun r _ => by rw [upperCode_lowerRune]

/-- Texts that differ at most in the case of ASCII letters. -/
def SameLetters (s t : Text) : Prop := s.map asciiLower = t.map asciiLower

instance (s t : Text) : Decidable (SameLetters s t) :=
  inferInstanceAs (Decidable (s.map asciiLower = t.map asciiLower))

/-- **They have the same upper-case form.** -/
theorem SameLetters.upper_eq {s t : Text} (h : SameLetters s t) : upper s = upper t := by
  rw [← upper_map_asciiLower s, ← upper_map_asciiLower t, h]

end SchemePlayer.Text
