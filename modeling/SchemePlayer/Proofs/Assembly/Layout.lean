import Mathlib
import SchemePlayer.Assembly.Program
import SchemePlayer.Proofs.Text.Quoted

/-!
# The layout of a line

A line is understood by its gist: what is left of it without its comment and without the blanks
around. How a line is laid out does not show there. Nor does the case of a mnemonic matter, which
is looked up in upper case.

- `gist`, `statementOf_congr`: lines with the same gist say the same.
- `Silent`, `Silent.gist_eq`: blanks and comments say nothing.
- `gist_blank_append`, `gist_append_blank`: blanks around a line do not count, nor the carriage
  return before its break.
- `Closed`, `Closed.gist_append_comment`: **a comment can be put behind a line whose double quotes
  are closed.**
- `IsWord`, `statementOf_word`: **a line that begins with a word says what the word and the gist of
  the rest say together**, whether a comment, blanks or an operand follow.
- `statementOf_recased`: **it says the same when ASCII letters of the word change their case.**
-/

namespace SchemePlayer

/-- A text has an ending exactly if it is some text with that ending behind it. -/
theorem Text.dropEnding?_eq_some_iff {ending t s : Text} :
    Text.dropEnding? ending t = some s ↔ t = s ++ ending := by
  rw [Text.dropEnding?]
  split
  · rename_i h
    obtain ⟨before, rfl⟩ := List.isSuffixOf_iff_suffix.mp h
    rw [List.length_append, Nat.add_sub_cancel, List.take_left, Option.some_inj]
    exact ⟨fun h => by rw [h], List.append_cancel_right⟩
  · rename_i h
    refine ⟨fun hnone => (nomatch hnone), fun heq => absurd ?_ h⟩
    exact List.isSuffixOf_iff_suffix.mpr ⟨s, heq.symm⟩

/-- A text is cut behind a word that does not have the byte. -/
theorem Text.cut?_append {b : UInt8} {word : Text} (h : b ∉ word) (t : Text) :
    Text.cut? b (word ++ b :: t) = some (word, t) := by
  induction word with
  | nil => exact if_pos rfl
  | cons c word ih =>
    obtain ⟨hc, hword⟩ := not_or.mp (mt List.mem_cons.mpr h)
    rw [List.cons_append, Text.cut?, if_neg (Ne.symm hc), ih hword]
    rfl

theorem Text.cut?_eq_none {b : UInt8} {word : Text} (h : b ∉ word) : Text.cut? b word = none := by
  induction word with
  | nil => rfl
  | cons c word ih =>
    obtain ⟨hc, hword⟩ := not_or.mp (mt List.mem_cons.mpr h)
    rw [Text.cut?, if_neg (Ne.symm hc), ih hword]
    rfl

namespace Assembly

/-! ### Comments -/

theorem stripComment_comment (t : Text) : stripComment false (59 :: t) = [] := by
  rw [stripComment.eq_def]
  rfl

theorem stripComment_quote (quoted : Bool) (t : Text) :
    stripComment quoted (34 :: t) = 34 :: stripComment (!quoted) t := by
  rw [stripComment.eq_def]
  rfl

theorem stripComment_outside {b : UInt8} (hquote : b ≠ 34) (hcomment : b ≠ 59) (t : Text) :
    stripComment false (b :: t) = b :: stripComment false t := by
  rw [stripComment.eq_def]
  dsimp only
  rw [if_neg (by simp [hcomment]), if_neg hquote, if_neg (by simp)]

theorem stripComment_inside {b : UInt8} (hquote : b ≠ 34) (hslash : b ≠ 92) (t : Text) :
    stripComment true (b :: t) = b :: stripComment true t := by
  rw [stripComment.eq_def]
  dsimp only
  rw [if_neg (by simp), if_neg hquote, if_neg (by simp [hslash])]

theorem stripComment_escaped (b : UInt8) (t : Text) :
    stripComment true (92 :: b :: t) = 92 :: b :: stripComment true t := by
  rw [stripComment.eq_def]
  rfl

/-- Outside double quotes, a text without quotes and semicolons stays as it is. -/
theorem stripComment_plain_append {s : Text} (h : ∀ b ∈ s, b ≠ 34 ∧ b ≠ 59) (t : Text) :
    stripComment false (s ++ t) = s ++ stripComment false t := by
  induction s with
  | nil => rfl
  | cons b s ih =>
    obtain ⟨⟨hquote, hcomment⟩, hs⟩ := List.forall_mem_cons.mp h
    rw [List.cons_append, stripComment_outside hquote hcomment, ih hs, List.cons_append]

/-- Between double quotes no comment starts. -/
theorem stripComment_quoted {body : Text} (h : Text.QuotedBody body) (t : Text) :
    stripComment true (body ++ 34 :: t) = body ++ 34 :: stripComment false t := by
  induction h with
  | nil => exact stripComment_quote true t
  | byte hquote hslash _ ih =>
    rw [List.cons_append, stripComment_inside hquote hslash, ih, List.cons_append]
  | escaped b _ ih =>
    rw [List.cons_append, List.cons_append, stripComment_escaped, ih, List.cons_append,
      List.cons_append]

/-- Lines whose double quotes are closed where they end, or where their comment starts. -/
inductive Closed : Text → Prop where
  | nil : Closed []
  | comment (rest : Text) : Closed (59 :: rest)
  | byte {b : UInt8} {rest : Text} : b ≠ 34 → b ≠ 59 → Closed rest → Closed (b :: rest)
  | quotes {body rest : Text} :
    Text.QuotedBody body → Closed rest → Closed (34 :: (body ++ 34 :: rest))

theorem Closed.plain_append {s line : Text} (hs : ∀ b ∈ s, b ≠ 34 ∧ b ≠ 59) (h : Closed line) :
    Closed (s ++ line) := by
  induction s with
  | nil => exact h
  | cons b s ih =>
    obtain ⟨⟨hquote, hcomment⟩, hs⟩ := List.forall_mem_cons.mp hs
    exact .byte hquote hcomment (ih hs)

theorem Closed.stripComment_append {line : Text} (h : Closed line) (comment : Text) :
    stripComment false (line ++ 59 :: comment) = stripComment false line := by
  induction h with
  | nil => exact stripComment_comment comment
  | comment rest => rw [List.cons_append, stripComment_comment, stripComment_comment]
  | byte hquote hcomment _ ih =>
    rw [List.cons_append, stripComment_outside hquote hcomment, ih,
      stripComment_outside hquote hcomment]
  | quotes hbody _ ih =>
    rw [List.cons_append, List.append_assoc, List.cons_append, stripComment_quote,
      stripComment_quote, Bool.not_false, stripComment_quoted hbody, ih, stripComment_quoted hbody]

/-- Blanks hold no quotes, no semicolons and no backslashes. -/
theorem bytes_of_isBlank {blank : Text} (h : Text.IsBlank blank) :
    ∀ b ∈ blank, b ≠ 34 ∧ b ≠ 59 ∧ b ≠ 92 := by
  intro b hb
  have hbyte := h.byte hb
  refine ⟨?_, ?_, ?_⟩ <;>
  · rintro rfl
    revert hbyte
    decide

theorem stripComment_blank_append {blank : Text} (h : Text.IsBlank blank) (t : Text) :
    stripComment false (blank ++ t) = blank ++ stripComment false t :=
  stripComment_plain_append (fun b hb => (bytes_of_isBlank h b hb).imp_right And.left) t

theorem stripComment_blank (quoted : Bool) {blank : Text}
    (h : ∀ b ∈ blank, b ≠ 34 ∧ b ≠ 59 ∧ b ≠ 92) : stripComment quoted blank = blank := by
  induction blank with
  | nil => rw [stripComment]
  | cons b blank ih =>
    obtain ⟨⟨hquote, hcomment, hslash⟩, hblank⟩ := List.forall_mem_cons.mp h
    cases quoted with
    | false => rw [stripComment_outside hquote hcomment, ih hblank]
    | true => rw [stripComment_inside hquote hslash, ih hblank]

/-- Blanks at the end are part of a comment or stay at the end. -/
theorem stripComment_append_blank (quoted : Bool) (t : Text) {blank : Text}
    (h : Text.IsBlank blank) :
    stripComment quoted (t ++ blank) = stripComment quoted t ∨
      stripComment quoted (t ++ blank) = stripComment quoted t ++ blank := by
  have hbytes := bytes_of_isBlank h
  fun_induction stripComment quoted t with
  | case1 quoted => exact .inr (stripComment_blank quoted hbytes)
  | case2 quoted c rest hcomment =>
    obtain ⟨rfl, rfl⟩ := hcomment
    exact .inl (stripComment_comment _)
  | case3 quoted rest hcomment ih =>
    rw [List.cons_append, stripComment_quote]
    exact ih.imp (congrArg _) (congrArg _)
  | case4 quoted c hcomment hquote hslash =>
    obtain ⟨rfl, rfl⟩ := hslash
    refine .inr ?_
    cases blank with
    | nil => exact stripComment.eq_2 true 92
    | cons b blank =>
      rw [List.singleton_append, stripComment_escaped,
        stripComment_blank true (List.forall_mem_cons.mp hbytes).2]
  | case5 quoted c hcomment hquote hslash d rest ih =>
    obtain ⟨rfl, rfl⟩ := hslash
    rw [List.cons_append, List.cons_append, stripComment_escaped]
    exact ih.imp (congrArg (92 :: d :: ·)) (congrArg (92 :: d :: ·))
  | case6 quoted c rest hcomment hquote hslash ih =>
    rw [List.cons_append, stripComment.eq_def]
    dsimp only
    rw [if_neg hcomment, if_neg hquote, if_neg hslash]
    exact ih.imp (congrArg _) (congrArg _)

/-! ### The gist of a line -/

/-- What is left of a line without its comment and the blanks around. -/
def gist (line : Text) : Text := Text.trim (stripComment false line)

/-- **A line is understood by its gist.** -/
theorem statementOf_congr (names : List Text) {line line' : Text} (h : gist line = gist line') :
    statementOf names line = statementOf names line' := by
  have h : Text.trim (stripComment false line) = Text.trim (stripComment false line') := h
  rw [statementOf, statementOf, h]

theorem statementOf_of_gist_nil (names : List Text) {line : Text} (h : gist line = []) :
    statementOf names line = .ok none := by
  have h : Text.trim (stripComment false line) = [] := h
  rw [statementOf, h]
  rfl

/-- **Blanks before a line do not count.** -/
theorem gist_blank_append {blank : Text} (h : Text.IsBlank blank) (line : Text) :
    gist (blank ++ line) = gist line := by
  rw [gist, stripComment_blank_append h, Text.trim_blank_append h, gist]

/-- **Nor do blanks behind it.** -/
theorem gist_append_blank (line : Text) {blank : Text} (h : Text.IsBlank blank) :
    gist (line ++ blank) = gist line := by
  rw [gist, gist]
  rcases stripComment_append_blank false line h with heq | heq
  · rw [heq]
  · rw [heq, Text.trim_append_blank _ h]

/-- **Nor does a comment that is put behind it**, where its double quotes are closed. -/
theorem Closed.gist_append_comment {line : Text} (h : Closed line) (comment : Text) :
    gist (line ++ 59 :: comment) = gist line := by
  rw [gist, h.stripComment_append, gist]

/-- A carriage return before the break of a line is a blank behind it. -/
theorem gist_withoutReturn (line : Text) : gist (withoutReturn line) = gist line := by
  rw [withoutReturn]
  cases hend : Text.dropEnding? [13] line with
  | none => rfl
  | some t =>
    obtain rfl := Text.dropEnding?_eq_some_iff.mp hend
    exact (gist_append_blank t (Text.isBlank_ascii (by decide) (by decide))).symm

theorem statementOf_withoutReturn (names : List Text) (line : Text) :
    statementOf names (withoutReturn line) = statementOf names line :=
  statementOf_congr names (gist_withoutReturn line)

/-- Lines that are blank, or hold a comment and blanks before it. -/
def Silent (line : Text) : Prop :=
  ∃ blank, Text.IsBlank blank ∧ (line = blank ∨ ∃ comment, line = blank ++ 59 :: comment)

theorem silent_nil : Silent [] := ⟨[], fun _ hr => (nomatch hr), .inl rfl⟩

/-- **They have nothing to say.** -/
theorem Silent.gist_eq {line : Text} (h : Silent line) : gist line = [] := by
  obtain ⟨blank, hblank, rfl | ⟨comment, rfl⟩⟩ := h
  · have hall := gist_blank_append hblank []
    rwa [List.append_nil] at hall
  · rw [gist_blank_append hblank, gist, stripComment_comment]
    rfl

theorem Silent.statementOf {line : Text} (h : Silent line) (names : List Text) :
    statementOf names line = .ok none :=
  statementOf_of_gist_nil names h.gist_eq

/-! ### Words -/

/-- What can stand first on a line that places no label: no blanks, quotes or semicolons, and no
colon at its end. Mnemonics are such words. -/
structure IsWord (word : Text) : Prop where
  nonempty : word ≠ []
  solid : ∀ r ∈ Text.runes word, Text.isSpaceRune r = false
  plain : ∀ b ∈ word, b ≠ 34 ∧ b ≠ 59
  last : word.getLast? ≠ some 58

namespace IsWord

variable {word : Text}

theorem trim_eq (h : IsWord word) : Text.trim word = word :=
  Text.trim_eq_self (fun r hr => h.solid r (List.mem_of_mem_head? hr))
    fun r hr => h.solid r (List.mem_of_mem_getLast? hr)

theorem stripComment_eq (h : IsWord word) : stripComment false word = word := by
  have hstrip := stripComment_plain_append h.plain []
  rwa [List.append_nil, stripComment, List.append_nil] at hstrip

theorem space_notMem (h : IsWord word) : 32 ∉ word := by
  intro hmem
  have hsolid := h.solid _ (Text.char_mem_runes (by decide) hmem)
  revert hsolid
  decide

/-- What is before the colon of a label has no space. -/
theorem labelOf?_append_space (word t : Text) : labelOf? (word ++ 32 :: t) = none := by
  rw [labelOf?]
  cases hend : Text.dropEnding? [58] (word ++ 32 :: t) with
  | none => rfl
  | some name =>
    have hname : 32 ∈ name := by
      have hsplit := Text.dropEnding?_eq_some_iff.mp hend
      have hmem : (32 : UInt8) ∈ name ++ [58] := by
        rw [← hsplit]
        exact List.mem_append_cons_self
      simpa using hmem
    exact if_pos (List.any_eq_true.mpr ⟨32, hname, by decide⟩)

theorem labelOf?_eq_none (h : IsWord word) : labelOf? word = none := by
  rw [labelOf?]
  cases hend : Text.dropEnding? [58] word with
  | none => rfl
  | some name =>
    have hlast := h.last
    rw [Text.dropEnding?_eq_some_iff.mp hend, List.getLast?_concat] at hlast
    exact absurd rfl hlast

/-- It stays one when letters change their case. -/
theorem recased (h : IsWord word) {word' : Text} (hletters : Text.SameLetters word word') :
    IsWord word' := by
  have hbyte : ∀ (b c : UInt8), Text.asciiLower b = Text.asciiLower c → c.toNat < 65 → b = c := by
    intro b c hsame hc
    have htoNat := congrArg UInt8.toNat hsame
    rw [Text.toNat_asciiLower, Text.toNat_asciiLower] at htoNat
    refine UInt8.toNat_inj.mp ?_
    split at htoNat <;> split at htoNat <;> omega
  have hletters : word.map Text.asciiLower = word'.map Text.asciiLower := hletters
  refine ⟨?_, ?_, ?_, ?_⟩
  · rintro rfl
    exact h.nonempty (List.map_eq_nil_iff.mp hletters)
  · intro r hr
    have hmem : Text.lowerRune r ∈ (Text.runes word).map Text.lowerRune := by
      rw [← Text.runes_map_asciiLower, hletters, Text.runes_map_asciiLower]
      exact List.mem_map_of_mem hr
    obtain ⟨r', hr', hsame⟩ := List.mem_map.mp hmem
    rw [← Text.isSpaceRune_lowerRune, ← hsame, Text.isSpaceRune_lowerRune]
    exact h.solid r' hr'
  · intro b hb
    have hmem : Text.asciiLower b ∈ word.map Text.asciiLower := by
      rw [hletters]
      exact List.mem_map_of_mem hb
    obtain ⟨c, hc, hsame⟩ := List.mem_map.mp hmem
    constructor
    · rintro rfl
      exact (h.plain c hc).1 (hbyte c 34 hsame (by decide))
    · rintro rfl
      exact (h.plain c hc).2 (hbyte c 59 hsame (by decide))
  · intro hlast
    have hsame := congrArg List.getLast? hletters
    rw [List.getLast?_map, List.getLast?_map, hlast, Option.map_some,
      Option.map_eq_some_iff] at hsame
    obtain ⟨c, hc, hsame⟩ := hsame
    exact h.last (hc.trans (congrArg some (hbyte c 58 hsame (by decide))))

end IsWord

/-- What a word and an operand say together. -/
def entry (names : List Text) (word operand : Text) : Except LineError Statement :=
  match Opcode.lookup? word with
  | none => .error (.unknownMnemonic word)
  | some op =>
    if op.operand = .none then
      if operand = [] then .ok (.instruction op .none) else .error (.noOperandTaken op)
    else if operand = [] then .error (.operandMissing op)
    else (operandOf names op operand).map (.instruction op)

/-- What can follow a word on its line. -/
def Follows (rest : Text) : Prop := Silent rest ∨ ∃ t, rest = 32 :: t

section Word

variable {names : List Text} {word : Text}

theorem statementOf_of_gist {line g : Text} (h : gist line = g) (hne : g ≠ [])
    (hlabel : labelOf? g = none) : statementOf names line = (instructionOf names g).map some := by
  have h : Text.trim (stripComment false line) = g := h
  rw [statementOf, h, if_neg hne, hlabel]

theorem instructionOf_word (h : IsWord word) : instructionOf names word = entry names word [] := by
  rw [instructionOf, Text.cut?_eq_none h.space_notMem]
  rfl

theorem instructionOf_word_append (h : IsWord word) (t : Text) :
    instructionOf names (word ++ 32 :: t) = entry names word (Text.trim t) := by
  rw [instructionOf, Text.cut?_append h.space_notMem]
  rfl

/-- **A line that begins with a word says what the word and the gist of the rest say.** -/
theorem statementOf_word (h : IsWord word) {rest : Text} (hrest : Follows rest) :
    statementOf names (word ++ rest) = (entry names word (gist rest)).map some := by
  have hstrip := stripComment_plain_append h.plain
  rcases hrest with hsilent | ⟨t, rfl⟩
  · -- nothing is left but the word
    have hgist : gist (word ++ rest) = word := by
      obtain ⟨blank, hblank, rfl | ⟨comment, rfl⟩⟩ := hsilent
      · rw [gist_append_blank word hblank, gist, h.stripComment_eq, h.trim_eq]
      · rw [gist, hstrip, stripComment_blank_append hblank, stripComment_comment, List.append_nil,
          Text.trim_append_blank _ hblank, h.trim_eq]
    rw [statementOf_of_gist hgist h.nonempty h.labelOf?_eq_none, instructionOf_word h,
      hsilent.gist_eq]
  · have hspace : Text.IsBlank [32] := Text.isBlank_ascii (by decide) (by decide)
    have hoperand : gist (32 :: t) = Text.trim (stripComment false t) :=
      gist_blank_append hspace t
    have hgist : gist (word ++ 32 :: t) = Text.trim (word ++ 32 :: stripComment false t) := by
      rw [gist, hstrip, stripComment_outside (by decide) (by decide)]
    rw [hoperand]
    rcases Text.trim_word_append h.trim_eq h.nonempty (stripComment false t) with
      ⟨hnone, htrim⟩ | ⟨b, hb, htrim⟩
    · rw [statementOf_of_gist (hgist.trans htrim) h.nonempty h.labelOf?_eq_none,
        instructionOf_word h, hnone]
    · rw [statementOf_of_gist (hgist.trans htrim) (by simp) (IsWord.labelOf?_append_space _ _),
        instructionOf_word_append h, Text.trim_blank_append hb, Text.trim_trim]

theorem map_eq_ok_iff {ε α β : Type} {r : Except ε α} {f : α → β} {b : β} :
    r.map f = .ok b ↔ ∃ a, r = .ok a ∧ f a = b := by
  cases r <;> simp [Except.map]

theorem entry_recased {word' operand : Text} (hletters : Text.SameLetters word word')
    {s : Statement} : entry names word operand = .ok s ↔ entry names word' operand = .ok s := by
  have hlookup : Opcode.lookup? word = Opcode.lookup? word' := by
    rw [Opcode.lookup?, Opcode.lookup?, hletters.upper_eq]
  rw [entry, entry, hlookup]
  cases Opcode.lookup? word' with
  | none => exact ⟨fun h => (nomatch h), fun h => (nomatch h)⟩
  | some op => exact Iff.rfl

/-- **What a line says does not depend on the case of its mnemonic.** -/
theorem statementOf_recased (h : IsWord word) {word' : Text}
    (hletters : Text.SameLetters word word') {rest : Text} (hrest : Follows rest)
    {said : Option Statement} :
    statementOf names (word ++ rest) = .ok said ↔ statementOf names (word' ++ rest) = .ok said := by
  rw [statementOf_word h hrest, statementOf_word (h.recased hletters) hrest, map_eq_ok_iff,
    map_eq_ok_iff]
  exact exists_congr fun s => and_congr_left fun _ => entry_recased hletters

end Word

end Assembly

end SchemePlayer
