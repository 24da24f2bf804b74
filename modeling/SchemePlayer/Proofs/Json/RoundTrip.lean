import SchemePlayer.Json.Parser
import SchemePlayer.Proofs.Number.Digits
import SchemePlayer.Proofs.Text.Quoted

/-!
# Reading JSON that was written

The reader takes all of the grammar, the writer uses a part of it: no blanks, and of several escapes
for a character always the same one. On that part the reader is an inverse. A value stands in front
of other bytes, and only a comma or a closing bracket can follow it (`Ends`); without that a number
would not end where it was written to.

- `stringBody?_escapeChar`: one character, escaped or not, is read back by one step.
- `stringBody?_quoted`: so is a whole string, up to its closing quote.
- `Readable`: the values within the limits, by the number of arrays and objects around them.
- `parse?_render`: **a readable value is read back as itself.**
-/

namespace SchemePlayer.Json

open Text (isDigit)

/-! ### Strings -/

theorem unit16?_hex {n : Nat} (h : n < 65536) (rest : Text) :
    unit16? (Text.hex false 4 n ++ rest) = some (n, rest) := by
  simp only [Text.hex, List.nil_append, List.cons_append, unit16?]
  rw [Text.hexValue?_hexDigit _ (by omega), Text.hexValue?_hexDigit _ (by omega),
    Text.hexValue?_hexDigit _ (by omega), Text.hexValue?_hexDigit _ (by omega)]
  simp only [Option.some.injEq, Prod.mk.injEq, and_true]
  omega

theorem eq_ofNat {c : Char} {n : Nat} (h : c.toNat = n) : c = Char.ofNat n := by
  rw [← h, Char.ofNat_toNat]

theorem isMasked_spec {n : Nat} (h : isMasked n = true) : n < 0xD800 := by
  simp only [isMasked, Bool.or_eq_true, decide_eq_true_eq, beq_iff_eq] at h
  omega

/-- A character that was escaped by its number is read in one step. -/
theorem stringBody?_unit {t rest : Text} {u : Nat} (h : unit16? t = some (u, rest)) (fuel : Nat)
    (acc : Text) :
    stringBody? (fuel + 1) acc (92 :: 117 :: t) =
      stringBody? fuel ((escapedUnit u rest).1.reverse ++ acc) (escapedUnit u rest).2 := by
  conv_lhs => unfold stringBody?
  simp only [show ¬(92 : UInt8) = 34 by decide, show ¬(92 : UInt8) < 32 by decide, if_false, if_true,
    h, List.reverseAux_eq]

/-- **One character is read back by one step**, whether it was escaped or not. -/
theorem stringBody?_escapeChar (c : Char) (fuel : Nat) (acc rest : Text) :
    stringBody? (fuel + 1) acc (escapeChar c ++ rest) =
      stringBody? fuel ((String.utf8EncodeChar c).reverse ++ acc) rest := by
  unfold escapeChar
  dsimp only
  split_ifs with hquote hslash htab hline hreturn hmasked
  -- five characters have a letter of their own
  · rw [eq_ofNat hquote]
    rfl
  · rw [eq_ofNat hslash]
    rfl
  · rw [eq_ofNat htab]
    rfl
  · rw [eq_ofNat hline]
    rfl
  · rw [eq_ofNat hreturn]
    rfl
  -- a number of four digits, which is never half of a pair
  · have hlow := isMasked_spec hmasked
    have hunit := unit16?_hex (show c.toNat < 65536 by omega) rest
    have hescaped : escapedUnit c.toNat rest = (String.utf8EncodeChar c, rest) := by
      unfold escapedUnit
      rw [if_neg (by omega), Char.ofNat_toNat]
    rw [List.cons_append, List.cons_append, stringBody?_unit hunit, hescaped]
  -- the bytes of the character: one that stands for itself, or as many as its first one tells
  · obtain ⟨a, tail, hbytes, hone, hmany⟩ := Text.exists_utf8EncodeChar_eq_cons c
    have hplain : ¬c.toNat < 32 := by
      intro hlt
      exact hmasked (by simp [isMasked, hlt])
    have hbyte : ¬a = 34 ∧ ¬a < 32 ∧ ¬a = 92 := by
      simp only [← UInt8.toNat_inj, UInt8.lt_iff_toNat_lt, UInt8.reduceToNat]
      by_cases hascii : c.toNat < 128
      · rw [(hone hascii).1]
        exact ⟨hquote, hplain, hslash⟩
      · have := hmany (by omega)
        omega
    have hhead := Text.headChar?_utf8EncodeChar c rest
    rw [hbytes, List.cons_append] at hhead
    rw [hbytes, List.cons_append]
    conv_lhs => unfold stringBody?
    simp only [if_neg hbyte.1, if_neg hbyte.2.1, if_neg hbyte.2.2]
    by_cases hascii : c.toNat < 128
    · obtain ⟨hcode, rfl⟩ := hone hascii
      rw [if_pos (UInt8.lt_iff_toNat_lt.mpr (by rw [hcode]; exact hascii))]
      rfl
    · have hlong := hmany (by omega)
      rw [if_neg (fun hlt => by have := UInt8.lt_iff_toNat_lt.mp hlt; simp at this; omega), hhead]
      dsimp only
      rw [hbytes, List.reverseAux_eq, List.length_cons, Nat.add_sub_cancel, List.drop_left]

/-- The characters of a string, and the quote after them. -/
theorem stringBody?_escaped (cs : List Char) {fuel : Nat} (hfuel : cs.length < fuel)
    (acc rest : Text) :
    stringBody? fuel acc (cs.flatMap escapeChar ++ 34 :: rest) =
      some (acc.reverse ++ Text.ofChars cs, rest) := by
  induction cs generalizing fuel acc with
  | nil =>
    obtain ⟨fuel, rfl⟩ := Nat.exists_eq_succ_of_ne_zero (show fuel ≠ 0 by omega)
    simp [stringBody?, Text.ofChars]
  | cons c cs ih =>
    obtain ⟨fuel, rfl⟩ := Nat.exists_eq_succ_of_ne_zero (show fuel ≠ 0 by omega)
    rw [List.flatMap_cons, List.append_assoc, stringBody?_escapeChar,
      ih (by simpa using hfuel)]
    simp [Text.ofChars]

theorem quoted_append (s rest : Text) :
    quoted s ++ rest = 34 :: ((Text.chars s).flatMap escapeChar ++ 34 :: rest) := by
  simp [quoted]

theorem one_le_length_escapeChar (c : Char) : 1 ≤ (escapeChar c).length := by
  obtain ⟨a, tail, hbytes, -⟩ := Text.exists_utf8EncodeChar_eq_cons c
  unfold escapeChar
  dsimp only
  split_ifs <;> simp [hbytes]

theorem length_le_length_flatMap (cs : List Char) :
    cs.length ≤ (cs.flatMap escapeChar).length := by
  induction cs with
  | nil => exact Nat.le_refl _
  | cons c cs ih =>
    have := one_le_length_escapeChar c
    rw [List.flatMap_cons, List.length_append, List.length_cons]
    omega

/-- **A string is read back**, if it is well-formed text. -/
theorem stringBody?_quoted {s : Text} (h : Text.isUtf8 s = true) (rest : Text) :
    stringBody? (((Text.chars s).flatMap escapeChar ++ 34 :: rest).length + 1) []
      ((Text.chars s).flatMap escapeChar ++ 34 :: rest) = some (s, rest) := by
  have hfuel := length_le_length_flatMap (Text.chars s)
  rw [stringBody?_escaped _ (by rw [List.length_append]; omega), Text.ofChars_chars h]
  rfl

/-! ### Numbers -/

/-- What can follow a value: nothing, or a mark that ends it. -/
def Ends (rest : Text) : Prop := ∀ c ∈ rest.head?, c = 44 ∨ c = 93 ∨ c = 125

theorem spanDigits_append {ds rest : Text} (hds : ∀ c ∈ ds, isDigit c = true) (h : Ends rest) :
    spanDigits (ds ++ rest) = (ds, rest) := by
  have hrest : rest.takeWhile isDigit = [] ∧ rest.dropWhile isDigit = rest := by
    cases rest with
    | nil => exact ⟨rfl, rfl⟩
    | cons c rest =>
      have hc : isDigit c = false := by
        rcases h c rfl with rfl | rfl | rfl <;> rfl
      simp [hc]
  unfold spanDigits
  rw [List.takeWhile_append_of_pos hds, List.dropWhile_append_of_pos hds, hrest.1, hrest.2,
    List.append_nil]

/-- The digits of a number are read up to their end: no zero is in front, no fraction and no
exponent behind. -/
theorem number?_signed {minus : Text} (hminus : minus = [] ∨ minus = [45]) (m : Nat) {rest : Text}
    (h : Ends rest) :
    number? (minus ++ Text.ofNat m ++ rest) = some (minus ++ Text.ofNat m, rest) := by
  have hdigits := @Text.isDigit_ofNat m
  have hspan := spanDigits_append hdigits h
  have hne := Text.ofNat_ne_nil m
  have hzero : ¬((Text.ofNat m).length > 1 ∧ (Text.ofNat m).head? = some 48) := by
    rintro ⟨hlong, hhead⟩
    rcases Nat.eq_zero_or_pos m with rfl | hm
    · revert hlong
      decide
    · exact Text.head?_ofNat hm hhead
  generalize Text.ofNat m = ds at hdigits hspan hne hzero ⊢
  unfold number?
  split
  rename_i minus' t hsplit
  obtain ⟨rfl, rfl⟩ : minus = minus' ∧ ds ++ rest = t := by
    rcases hminus with rfl | rfl
    · obtain ⟨d, ds, rfl⟩ := List.exists_cons_of_ne_nil hne
      have hd := hdigits d List.mem_cons_self
      split at hsplit
      · rename_i heq
        cases heq
        cases hd
      · cases hsplit
        exact ⟨rfl, rfl⟩
    · cases hsplit
      exact ⟨rfl, rfl⟩
  rw [hspan]
  dsimp only
  rw [if_neg (by rintro (hnil | hlead); exacts [hne hnil, hzero hlead])]
  cases rest with
  | nil => simp
  | cons c rest =>
    rcases h c rfl with rfl | rfl | rfl <;> simp

/-! ### Values -/

/-- A value that the reader takes with `depth` arrays and objects around it: texts are well-formed,
numbers are integers, arrays and objects are not too deep. -/
inductive Readable : Nat → Json → Prop
  | null {depth : Nat} : Readable depth null
  | bool {depth : Nat} (b : Bool) : Readable depth (bool b)
  | int {depth : Nat} (n : Int) : Readable depth (int n)
  | str {depth : Nat} {s : Text} (h : Text.isUtf8 s = true) : Readable depth (str s)
  | arr {depth : Nat} {items : List Json} (hdepth : depth < maxDepth)
      (hitems : ∀ j ∈ items, Readable (depth + 1) j) : Readable depth (arr items)
  | obj {depth : Nat} {members : List (Text × Json)} (hdepth : depth < maxDepth)
      (hnames : ∀ m ∈ members, Text.isUtf8 m.1 = true)
      (hvalues : ∀ m ∈ members, Readable (depth + 1) m.2) : Readable depth (obj members)

/-- A value comes back from the reader as it is, when there is fuel for every byte. -/
def ReadBack (depth : Nat) (j : Json) : Prop :=
  ∀ fuel rest, j.render.length ≤ fuel → Ends rest →
    value? fuel depth (j.render ++ rest) = some (j, rest)

/-- Whether a value can begin with a byte, which is no blank and no mark that follows a value. -/
def begins (b : UInt8) : Bool := b ∉ [32, 9, 10, 13, 44, 93, 125]

theorem skipBlanks_of_begins {b : UInt8} (h : begins b = true) (rest : Text) :
    skipBlanks (b :: rest) = b :: rest := by
  rw [skipBlanks, if_neg]
  rintro (rfl | rfl | rfl | rfl) <;> cases h

/-- Whether an integer can begin with a byte. -/
def isNumeric (b : UInt8) : Bool := isDigit b || b == 45

theorem begins_of_isNumeric {b : UInt8} (h : isNumeric b = true) : begins b = true := by
  revert b
  decide +kernel

theorem ofInt_eq_cons (n : Int) : ∃ b t, Text.ofInt n = b :: t ∧ isNumeric b = true := by
  unfold Text.ofInt
  split
  · exact ⟨45, _, rfl, rfl⟩
  · obtain ⟨d, ds, hds⟩ := List.exists_cons_of_ne_nil (Text.ofNat_ne_nil n.natAbs)
    have hd : isDigit d = true := @Text.isDigit_ofNat n.natAbs d (hds ▸ List.mem_cons_self)
    exact ⟨d, ds, hds, by simp [isNumeric, hd]⟩

/-- A value begins with a byte of its own, so that an array or object is not taken for an empty
one. -/
theorem Readable.render_eq_cons {depth : Nat} {j : Json} (h : Readable depth j) :
    ∃ b t, j.render = b :: t ∧ begins b = true := by
  cases h with
  | null => exact ⟨110, _, rfl, rfl⟩
  | bool b => cases b <;> exact ⟨_, _, rfl, rfl⟩
  | int n =>
    obtain ⟨b, t, ht, hb⟩ := ofInt_eq_cons n
    exact ⟨b, t, by rw [Json.int, render, ht], begins_of_isNumeric hb⟩
  | str _ => exact ⟨34, _, by rw [render, quoted], rfl⟩
  | arr _ _ => exact ⟨91, _, by rw [render], rfl⟩
  | obj _ _ _ => exact ⟨123, _, by rw [render], rfl⟩

/-- The first byte of an integer tells that it is a number. -/
theorem value?_of_isNumeric {b : UInt8} (hb : isNumeric b = true) (fuel depth : Nat) (t : Text) :
    value? (fuel + 1) depth (b :: t) = (number? (b :: t)).map fun (n, rest) => (num n, rest) := by
  rw [value?, skipBlanks_of_begins (begins_of_isNumeric hb)]
  split
  case h_7 => rfl
  all_goals
    rename_i heq
    cases heq
    cases hb

theorem value?_int (n : Int) (fuel depth : Nat) {rest : Text} (h : Ends rest) :
    value? (fuel + 1) depth (Text.ofInt n ++ rest) = some (int n, rest) := by
  have hnumber : number? (Text.ofInt n ++ rest) = some (Text.ofInt n, rest) := by
    unfold Text.ofInt
    split
    · exact number?_signed (.inr rfl) n.natAbs h
    · exact number?_signed (.inl rfl) n.natAbs h
  obtain ⟨b, t, ht, hb⟩ := ofInt_eq_cons n
  rw [ht, List.cons_append] at hnumber ⊢
  rw [value?_of_isNumeric hb, hnumber, ← ht]
  rfl

theorem value?_str {s : Text} (hs : Text.isUtf8 s = true) (fuel depth : Nat) (rest : Text) :
    value? (fuel + 1) depth (quoted s ++ rest) = some (str s, rest) := by
  rw [quoted_append, value?, skipBlanks_of_begins rfl]
  show (stringBody? _ [] _).map _ = _
  rw [stringBody?_quoted hs]
  rfl

theorem join_cons_cons (t t' : Text) (ts : List Text) :
    Text.join [44] (t :: t' :: ts) = t ++ 44 :: Text.join [44] (t' :: ts) := by
  simp [Text.join]

/-- The items of an array. Each takes one step of its own and has a byte at least, so fuel for every
byte is enough. -/
theorem items?_render {depth : Nat} {j : Json} {js : List Json}
    (h : ∀ i ∈ j :: js, ReadBack depth i) {fuel : Nat}
    (hfuel : (Text.join [44] (renderItems (j :: js))).length ≤ fuel) (acc : List Json)
    (rest : Text) :
    items? (fuel + 1) depth acc (Text.join [44] (renderItems (j :: js)) ++ 93 :: rest) =
      some (acc.reverse ++ j :: js, rest) := by
  induction js generalizing fuel j acc with
  | nil =>
    have hj := h j List.mem_cons_self fuel (93 :: rest) hfuel (by simp [Ends])
    rw [show Text.join [44] (renderItems [j]) = j.render from rfl, items?, hj]
    simp [skipBlanks]
  | cons j' js ih =>
    have hjoin : Text.join [44] (renderItems (j :: j' :: js)) =
        j.render ++ 44 :: Text.join [44] (renderItems (j' :: js)) := join_cons_cons ..
    rw [hjoin, List.length_append, List.length_cons] at hfuel
    have hj := h j List.mem_cons_self fuel
      (44 :: (Text.join [44] (renderItems (j' :: js)) ++ 93 :: rest)) (by omega) (by simp [Ends])
    rw [hjoin, List.append_assoc, List.cons_append, items?, hj]
    show items? fuel depth (j :: acc) _ = _
    obtain ⟨fuel, rfl⟩ := Nat.exists_eq_succ_of_ne_zero (show fuel ≠ 0 by omega)
    rw [Nat.succ_eq_add_one, ih (fun i hi => h i (List.mem_cons_of_mem _ hi)) (by omega)]
    simp

/-- One member is read, and what follows it decides how to go on. -/
theorem members?_member {depth : Nat} {m : Text × Json} (hname : Text.isUtf8 m.1 = true)
    (h : ReadBack depth m.2) {fuel : Nat} (hfuel : m.2.render.length ≤ fuel)
    (acc : List (Text × Json)) (rest : Text) :
    members? (fuel + 1) depth acc (quoted m.1 ++ 58 :: m.2.render ++ 44 :: rest) =
        members? fuel depth (m :: acc) rest ∧
      members? (fuel + 1) depth acc (quoted m.1 ++ 58 :: m.2.render ++ 125 :: rest) =
        some ((m :: acc).reverse, rest) := by
  have hcomma := h fuel (44 :: rest) hfuel (by simp [Ends])
  have hbrace := h fuel (125 :: rest) hfuel (by simp [Ends])
  have hread := fun rest => stringBody?_quoted hname rest
  simp only [List.append_assoc, List.cons_append, quoted_append] at hcomma hbrace ⊢
  have hquote := skipBlanks_of_begins (show begins 34 = true from rfl)
  constructor
  · simp only [members?, hquote, hread]
    simp [skipBlanks, hcomma]
  · simp only [members?, hquote, hread]
    simp [skipBlanks, hbrace]

/-- The members of an object. -/
theorem members?_render {depth : Nat} {m : Text × Json} {ms : List (Text × Json)}
    (hnames : ∀ p ∈ m :: ms, Text.isUtf8 p.1 = true) (h : ∀ p ∈ m :: ms, ReadBack depth p.2)
    {fuel : Nat} (hfuel : (Text.join [44] (renderMembers (m :: ms))).length ≤ fuel)
    (acc : List (Text × Json)) (rest : Text) :
    members? (fuel + 1) depth acc (Text.join [44] (renderMembers (m :: ms)) ++ 125 :: rest) =
      some (acc.reverse ++ m :: ms, rest) := by
  induction ms generalizing fuel m acc with
  | nil =>
    have hjoin : Text.join [44] (renderMembers [m]) = quoted m.1 ++ 58 :: m.2.render := rfl
    rw [hjoin, List.length_append, List.length_cons] at hfuel
    have hone := members?_member (hnames m List.mem_cons_self) (h m List.mem_cons_self)
      (show m.2.render.length ≤ fuel by omega) acc rest
    rw [hjoin, hone.2, List.reverse_cons]
  | cons m' ms ih =>
    have hjoin : Text.join [44] (renderMembers (m :: m' :: ms)) =
        quoted m.1 ++ 58 :: m.2.render ++ 44 :: Text.join [44] (renderMembers (m' :: ms)) :=
      join_cons_cons ..
    rw [hjoin, List.length_append, List.length_append, List.length_cons, List.length_cons] at hfuel
    have hone := members?_member (hnames m List.mem_cons_self) (h m List.mem_cons_self)
      (show m.2.render.length ≤ fuel by omega) acc
      (Text.join [44] (renderMembers (m' :: ms)) ++ 125 :: rest)
    rw [hjoin, List.append_assoc, List.cons_append, hone.1]
    obtain ⟨fuel, rfl⟩ := Nat.exists_eq_succ_of_ne_zero (show fuel ≠ 0 by omega)
    rw [Nat.succ_eq_add_one, ih (fun i hi => hnames i (List.mem_cons_of_mem _ hi))
      (fun i hi => h i (List.mem_cons_of_mem _ hi)) (by omega)]
    simp

theorem join_eq_cons (b : UInt8) (t : Text) (ts : List Text) :
    ∃ t', Text.join [44] ((b :: t) :: ts) = b :: t' := by
  cases ts with
  | nil => exact ⟨t, rfl⟩
  | cons t' ts => exact ⟨_, rfl⟩

theorem value?_arr {depth : Nat} {items : List Json} (hdepth : depth < maxDepth)
    (hbegins : ∀ j ∈ items, ∃ b t, j.render = b :: t ∧ begins b = true)
    (h : ∀ j ∈ items, ReadBack (depth + 1) j) {fuel : Nat}
    (hfuel : (Text.join [44] (renderItems items)).length ≤ fuel) (rest : Text) :
    value? (fuel + 2) depth (91 :: (Text.join [44] (renderItems items) ++ 93 :: rest)) =
      some (arr items, rest) := by
  rw [value?, skipBlanks_of_begins rfl]
  show (if _ then _ else _) = _
  rw [if_neg (Nat.not_le.mpr hdepth)]
  cases items with
  | nil => rfl
  | cons j js =>
    have hread := items?_render h hfuel [] rest
    obtain ⟨b, t, ht, hb⟩ := hbegins j List.mem_cons_self
    obtain ⟨t', ht'⟩ := join_eq_cons b t (renderItems js)
    rw [renderItems, ht, ht', List.cons_append] at hread ⊢
    rw [skipBlanks_of_begins hb]
    split
    · rename_i heq
      cases heq
      cases hb
    · rw [hread]
      rfl

theorem value?_obj {depth : Nat} {members : List (Text × Json)} (hdepth : depth < maxDepth)
    (hnames : ∀ m ∈ members, Text.isUtf8 m.1 = true)
    (h : ∀ m ∈ members, ReadBack (depth + 1) m.2) {fuel : Nat}
    (hfuel : (Text.join [44] (renderMembers members)).length ≤ fuel) (rest : Text) :
    value? (fuel + 2) depth (123 :: (Text.join [44] (renderMembers members) ++ 125 :: rest)) =
      some (obj members, rest) := by
  rw [value?, skipBlanks_of_begins rfl]
  show (if _ then _ else _) = _
  rw [if_neg (Nat.not_le.mpr hdepth)]
  cases members with
  | nil => rfl
  | cons m ms =>
    have hread := members?_render hnames h hfuel [] rest
    obtain ⟨t', ht'⟩ := join_eq_cons 34 _ (renderMembers ms)
    rw [renderMembers, quoted, List.cons_append, ht', List.cons_append] at hread ⊢
    rw [skipBlanks_of_begins rfl]
    split
    · rename_i heq
      cases heq
    · rw [hread]
      rfl

/-- The reader is called at least once. -/
theorem Readable.exists_fuel {depth : Nat} {j : Json} (h : Readable depth j) {fuel : Nat}
    (hfuel : j.render.length ≤ fuel) : ∃ k, fuel = k + 1 := by
  obtain ⟨b, t, ht, -⟩ := h.render_eq_cons
  rw [ht, List.length_cons] at hfuel
  exact ⟨fuel - 1, by omega⟩

/-- **A readable value is read back**, in front of whatever can follow it. -/
theorem Readable.readBack {depth : Nat} {j : Json} (h : Readable depth j) : ReadBack depth j := by
  induction h with
  | @null depth =>
    intro fuel rest hfuel _
    obtain ⟨fuel, rfl⟩ := (@Readable.null depth).exists_fuel hfuel
    rfl
  | @bool depth b =>
    intro fuel rest hfuel _
    obtain ⟨fuel, rfl⟩ := (@Readable.bool depth b).exists_fuel hfuel
    cases b <;> rfl
  | @int depth n =>
    intro fuel rest hfuel hends
    obtain ⟨fuel, rfl⟩ := (@Readable.int depth n).exists_fuel hfuel
    exact value?_int n fuel depth hends
  | @str depth _ hs =>
    intro fuel rest hfuel _
    obtain ⟨fuel, rfl⟩ := (@Readable.str depth _ hs).exists_fuel hfuel
    exact value?_str hs fuel depth rest
  | arr hdepth hitems ih =>
    intro fuel rest hfuel _
    rw [render, List.length_cons, List.length_append, List.length_singleton] at hfuel
    obtain ⟨fuel, rfl⟩ : ∃ k, fuel = k + 2 := ⟨fuel - 2, by omega⟩
    rw [render, List.cons_append, List.append_assoc]
    exact value?_arr hdepth (fun j hj => (hitems j hj).render_eq_cons) ih (by omega) rest
  | obj hdepth hnames hvalues ih =>
    intro fuel rest hfuel _
    rw [render, List.length_cons, List.length_append, List.length_singleton] at hfuel
    obtain ⟨fuel, rfl⟩ : ∃ k, fuel = k + 2 := ⟨fuel - 2, by omega⟩
    rw [render, List.cons_append, List.append_assoc]
    exact value?_obj hdepth hnames ih (by omega) rest

/-- **A readable value is read back as itself** from its text. -/
theorem parse?_render {j : Json} (h : Readable 0 j) : parse? j.render = some j := by
  have hread := h.readBack (j.render.length + 1) [] (by omega) (by simp [Ends])
  rw [List.append_nil] at hread
  simp only [parse?, hread, skipBlanks, if_true]

end SchemePlayer.Json
