import Mathlib
import SchemePlayer.Bytecode.Listing
import SchemePlayer.Proofs.Assembly.Blame

/-!
# Literals between a listing and a source

A listing shows a literal between double quotes. When such a line is assembled, the quoted text is
looked at before it is read: for a semicolon that starts a comment, for a colon at the end, for the
first space, for blanks at the ends. Nothing of this touches it: between the quotes no comment
starts, the line ends in a quote, the first space is the one before the operand, and quotes are no
blanks. So the literal comes back, whatever bytes it has.

- `gist_quote`: nothing is cut from a quoted text.
- `statementOf_literalLine`: what the line says, with or without a comment.
- `literal_survives`: **the line is accepted as long as it is not too long, its code pushes the
  literal, and the listing of this code shows the line again.**
-/

namespace SchemePlayer.Assembly

/-- The line that pushes a literal, and a comment behind it if there is one. -/
def literalLine (s : Text) (comment : Option Text) : Text :=
  Opcode.pushString.name ++ 32 :: (Text.quote s ++ (comment.map (59 :: ·)).getD [])

/-! ### Reading the line -/

theorem closed_quote (s : Text) : Closed (Text.quote s) :=
  .quotes (Text.quotedBody_flatMap _) .nil

/-- A quoted text begins and ends with a double quote. -/
theorem trim_quote (s : Text) : Text.trim (Text.quote s) = Text.quote s := by
  have hfirst : (Text.runes (Text.quote s)).head? = some (.char '"') := by
    rw [Text.quote, Text.runes_ascii_cons (by decide)]
    rfl
  have hlast : (Text.runes (Text.quote s)).getLast? = some (.char '"') := by
    rw [Text.quote, ← List.cons_append, Text.runes_append (by decide)]
    exact List.getLast?_concat
  refine Text.trim_eq_self (fun r hr => ?_) fun r hr => ?_
  · rw [hfirst] at hr
    obtain rfl := Option.some.inj hr
    decide
  · rw [hlast] at hr
    obtain rfl := Option.some.inj hr
    decide

/-- **Nothing is cut from a quoted text.** -/
theorem gist_quote (s : Text) : gist (Text.quote s) = Text.quote s := by
  have hstrip : stripComment false (Text.quote s) = Text.quote s := by
    rw [Text.quote, stripComment_quote, Bool.not_false,
      stripComment_quoted (Text.quotedBody_flatMap _), stripComment]
  rw [gist, hstrip, trim_quote]

theorem gist_quote_comment (s : Text) (comment : Option Text) :
    gist (Text.quote s ++ (comment.map (59 :: ·)).getD []) = Text.quote s := by
  cases comment with
  | none =>
    rw [Option.map_none, Option.getD_none, List.append_nil]
    exact gist_quote s
  | some c =>
    rw [Option.map_some, Option.getD_some, (closed_quote s).gist_append_comment]
    exact gist_quote s

/-- **The line says that the literal is pushed.** -/
theorem statementOf_literalLine (names : List Text) (s : Text) (comment : Option Text) :
    statementOf names (literalLine s comment) =
      .ok (some (.instruction .pushString (.literal s))) := by
  have hword : IsWord Opcode.pushString.name := by constructor <;> decide +kernel
  have hlookup : Opcode.lookup? Opcode.pushString.name = some .pushString := by decide +kernel
  have hspace : Text.IsBlank [32] := Text.isBlank_ascii (by decide) (by decide)
  have hoperand : gist (32 :: (Text.quote s ++ (comment.map (59 :: ·)).getD [])) = Text.quote s :=
    (gist_blank_append hspace _).trans (gist_quote_comment s comment)
  have hread : operandOf names .pushString (Text.quote s) = .ok (.literal s) := by
    have hkind : Opcode.operand .pushString = .string := rfl
    rw [operandOf, hkind]
    dsimp only
    rw [Text.unquote?_quote]
  have hentry : entry names Opcode.pushString.name (Text.quote s) =
      .ok (.instruction .pushString (.literal s)) := by
    rw [entry, hlookup]
    dsimp only
    rw [if_neg (by decide), if_neg (by simp [Text.quote]), hread]
    rfl
  rw [literalLine, statementOf_word hword (.inr ⟨_, rfl⟩), hoperand, hentry]
  rfl

/-! ### The source and its code -/

theorem newline_notMem_literalLine (s : Text) {comment : Option Text} (h : ∀ c ∈ comment, 10 ∉ c) :
    10 ∉ literalLine s comment := by
  intro hmem
  simp only [literalLine, List.mem_append, List.mem_cons] at hmem
  rcases hmem with hmem | hmem | hmem | hmem
  · revert hmem
    decide +kernel
  · exact absurd hmem (by decide)
  · exact Text.newline_notMem_quote s hmem
  · cases comment with
    | none => cases hmem
    | some c =>
      rcases List.mem_cons.mp hmem with hmem | hmem
      · exact absurd hmem (by decide)
      · exact h c rfl hmem

theorem splitOn_eq_singleton {line : Text} (h : 10 ∉ line) : Text.splitOn 10 line = [line] := by
  induction line with
  | nil => rfl
  | cons c line ih =>
    obtain ⟨hc, hline⟩ := not_or.mp (mt List.mem_cons.mpr h)
    have hstep : Text.splitOn 10 (c :: line) = Text.splitStep 10 c (Text.splitOn 10 line) := rfl
    rw [hstep, ih hline, Text.splitStep, if_neg (Ne.symm hc)]

/-- A line by itself is the only one, with or without its break. -/
theorem lines_eq_singleton {line source : Text} (hbreak : 10 ∉ line) (hne : line ≠ [])
    (hsource : source = line ∨ source = line ++ [10]) : lines source = [line] := by
  rcases hsource with rfl | rfl
  · rw [lines, splitOn_eq_singleton hbreak, if_neg (by simpa using hne)]
  · have hall := @lines_flatMap [line] (by simpa using hbreak)
    simpa using hall

/-- The instruction that pushes the first literal of the pool. -/
def pushFirst : Instruction := ⟨0, .pushString, [0, 0]⟩

theorem decode_pushFirst : decode pushFirst.encode.toArray = ([pushFirst], .finished) := by
  refine @decodeFrom_encoded _ [pushFirst] 0 ⟨rfl, rfl, trivial⟩ ?_
  rw [List.flatMap_singleton, List.drop_zero]

theorem codeOf_literal (s : Text) :
    codeOf [.instruction .pushString (.literal s)] = ⟨pushFirst.encode.toArray, #[s]⟩ := by
  simp [codeOf, write, operandBytes, Pool.intern, Word.bytes, pushFirst, Instruction.encode]

/-- A listing shows the literal as it is written in a source. -/
theorem listing_pushFirst (s : Text) :
    Code.listing ⟨pushFirst.encode.toArray, #[s]⟩ = "0000  " ++ literalLine s none ++ "\n" := by
  have hoffset : Text.padZero 4 (Text.ofNat pushFirst.offset) = "0000" := by decide +kernel
  have hoperand : pushFirst.showOperand #[s] = 32 :: Text.quote s := rfl
  rw [Code.listing, decode_pushFirst]
  dsimp only
  rw [List.flatMap_singleton, Instruction.line, hoffset, hoperand, Code.listingEnd,
    List.append_nil, literalLine, Option.map_none, Option.getD_none, List.append_nil]
  rfl

/-- **Literals survive a listing.** The line that a listing shows for a literal, with any comment
behind it, is accepted as a source of its own, with or without its break, unless it is too long. Its
code is one instruction, which pushes the same literal, and the listing of this code shows the same
line. -/
theorem literal_survives (names : List Text) (s : Text) (comment : Option Text)
    (hcomment : ∀ c ∈ comment, 10 ∉ c) (source : Text)
    (hsource : source = literalLine s comment ∨ source = literalLine s comment ++ [10]) :
    ((literalLine s comment).length < lineLimit → ∃ code i, assemble names source = .ok code ∧
      decode code.bytes = ([i], .finished) ∧ i.op = .pushString ∧
      code.strings[i.number]? = some s ∧
      code.listing = "0000  " ++ literalLine s none ++ "\n") ∧
    (lineLimit ≤ (literalLine s comment).length → assemble names source = .error .lineTooLong) := by
  have hlines : lines source = [literalLine s comment] :=
    lines_eq_singleton (newline_notMem_literalLine s hcomment) (by simp [literalLine]) hsource
  have hsaid := statementOf_literalLine names s comment
  constructor
  · intro hshort
    have hprogram : linesOf names source = [.instruction .pushString (.literal s)] := by
      rw [linesOf, hlines, List.filterMap_cons, said?_of_ok hsaid]
      rfl
    have hacceptable : AcceptableFrom names [] (lines source) := by
      rw [hlines]
      refine ⟨⟨hshort, ⟨_, hsaid⟩, fun name hlabel => ?_⟩, trivial⟩
      rw [said?_of_ok hsaid] at hlabel
      cases hlabel
    have hlabels : ∀ op name, .instruction op (.label name) ∈ linesOf names source →
        .label name ∈ linesOf names source := by
      intro op name hmem
      rw [hprogram, List.mem_singleton] at hmem
      cases hmem
    have hassemble : assemble names source = .ok ⟨pushFirst.encode.toArray, #[s]⟩ := by
      refine assemble_eq_ok_iff.mpr ⟨hacceptable, hlabels, ?_⟩
      rw [hprogram, codeOf_literal]
    exact ⟨_, pushFirst, hassemble, decode_pushFirst, rfl, rfl, listing_pushFirst s⟩
  · intro hlong
    rw [assemble, statements, hlines, statementsFrom, if_pos hlong]

/-- A quote, a backslash, a semicolon, a colon, a line break and a stray byte, with a comment that
opens a quote again. -/
theorem literal_survives_hostile :
    ∃ code i, assemble [] (literalLine [34, 92, 59, 58, 10, 255, 32] (some " \"")) = .ok code ∧
      decode code.bytes = ([i], .finished) ∧ i.op = .pushString ∧
      code.strings[i.number]? = some [34, 92, 59, 58, 10, 255, 32] := by
  obtain ⟨code, i, hassemble, hdecode, hop, hget, -⟩ :=
    (literal_survives [] [34, 92, 59, 58, 10, 255, 32] (some " \"") (by decide +kernel) _
      (.inl rfl)).1 (by decide +kernel)
  exact ⟨code, i, hassemble, hdecode, hop, hget⟩

end SchemePlayer.Assembly
