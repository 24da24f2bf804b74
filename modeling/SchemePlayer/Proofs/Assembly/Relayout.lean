import Mathlib
import SchemePlayer.Proofs.Assembly.Blame

/-!
# Sources that are laid out anew

Lines that say nothing can be put in anywhere, a line can be indented, a comment can be put behind
it, and its mnemonic can be written in other letters. None of this changes what a source says, and
so it has the same code. Where a source is not accepted, the line to blame stays the same one; only
its number counts the lines that were put in before it.

- `Edit`, `Relaid`: a source that was laid out anew.
- `Blamed.insert`: behind a line that was put in, the line to blame has the next number.
- `assemble_insert`: **a line that says nothing is put in: nothing changes but the numbers behind
  it.**
- `assemble_relaid`: **a source that was laid out anew has the same code.**
- `layout_irrelevant`: both, and which line a report names.
-/

namespace SchemePlayer.Assembly

variable {names : List Text}

/-! ### Lines that say nothing -/

section Silent

variable {before after : List Text} {blank : Text}

theorem said?_silent (h : Silent blank) : said? names blank = none :=
  said?_of_ok (h.statementOf names)

theorem filterMap_insert (h : Silent blank) :
    (before ++ blank :: after).filterMap (said? names) =
      (before ++ after).filterMap (said? names) := by
  rw [List.filterMap_append, List.filterMap_cons, said?_silent h, List.filterMap_append]

theorem acceptableFrom_insert (h : Silent blank) (hshort : blank.length < lineLimit)
    (earlier : List Statement) :
    AcceptableFrom names earlier (before ++ blank :: after) ↔
      AcceptableFrom names earlier (before ++ after) := by
  have hblank : ∀ earlier, AcceptableAfter names earlier blank := fun _ =>
    ⟨hshort, ⟨_, h.statementOf names⟩, fun name hlabel => by simp [said?_silent h] at hlabel⟩
  rw [acceptableFrom_append, acceptableFrom_append, AcceptableFrom, said?_silent h,
    Option.toList_none, List.append_nil]
  exact and_congr_right fun _ => and_iff_right (hblank _)

/-- **Behind a line that says nothing, the line to blame has the next number.** -/
theorem Blamed.insert (h : Silent blank) (hshort : blank.length < lineLimit) {n : Nat}
    {cause : LineError} (hblamed : Blamed names (before ++ after) n cause)
    (hbefore : before.length < n) : Blamed names (before ++ blank :: after) (n + 1) cause := by
  -- the line that is put in comes before the one to blame
  have hsplit : ∀ {sooner later : List Text} {line : Text},
      before ++ after = sooner ++ line :: later → before.length ≤ sooner.length →
      ∃ between, sooner = before ++ between ∧ after = between ++ line :: later := by
    intro sooner later line heq hle
    rcases List.append_eq_append_iff.mp heq with ⟨between, hsooner, hafter⟩ | ⟨w, hw, hlater⟩
    · exact ⟨between, hsooner, hafter⟩
    · have hlength := congrArg List.length hw
      rw [List.length_append] at hlength
      obtain rfl : w = [] := List.eq_nil_of_length_eq_zero (by omega)
      rw [List.append_nil] at hw
      exact ⟨[], by rw [hw, List.append_nil], hlater.symm⟩
  have hlength : ∀ between : List Text,
      (before ++ between).length + 1 = (before ++ blank :: between).length := by
    intro between
    simp [Nat.add_assoc]
  cases hblamed with
  | @line sooner later line _ heq hsooner hnot hwrong =>
    obtain ⟨between, rfl, rfl⟩ := hsplit heq (by omega)
    rw [hlength]
    refine @Blamed.line _ _ _ later line _ (by simp) ?_ ?_ ?_
    · exact (acceptableFrom_insert h hshort []).mpr hsooner
    · rwa [filterMap_insert h]
    · rwa [filterMap_insert h]
  | @label sooner later line op name hall heq hjump hfirst hnever =>
    obtain ⟨between, rfl, rfl⟩ := hsplit heq (by omega)
    rw [hlength]
    refine @Blamed.label _ _ _ later line op _ ?_ (by simp) hjump ?_ ?_
    · exact (acceptableFrom_insert h hshort []).mpr hall
    · rwa [filterMap_insert h]
    · rwa [filterMap_insert h]

end Silent

/-! ### Numbers that move -/

/-- A line's number when a line was put in behind the first `k`. -/
def moved (k n : Nat) : Nat := if n ≤ k then n else n + 1

/-- A report when a line was put in behind the first `k`. -/
def Error.moved (k : Nat) : Error → Error
  | .line n cause => .line (Assembly.moved k n) cause
  | .lineTooLong => .lineTooLong

/-- A statement when a line was put in behind the first `k`. -/
def Numbered.moved (k : Nat) (s : Numbered) : Numbered := { s with line := Assembly.moved k s.line }

/-- What the first pass gives when a line was put in behind the first `k`. -/
def movedPass (k : Nat) : Except Error (List Numbered) → Except Error (List Numbered)
  | .ok numbered => .ok (numbered.map (Numbered.moved k))
  | .error e => .error (e.moved k)

theorem movedPass_map (k number : Nat) (said : Option Statement)
    (r : Except Error (List Numbered)) :
    movedPass k (r.map ((said.map (Numbered.mk number)).toList ++ ·)) =
      (movedPass k r).map ((said.map (Numbered.mk (moved k number))).toList ++ ·) := by
  cases r with
  | error e => rfl
  | ok numbered => cases said <;> rfl

/-- Lines behind the one that was put in have the next number. -/
theorem statementsFrom_succ {placed : List Text} {earlier : List Statement}
    (hplaced : Records placed earlier) {k number : Nat} (hk : k < number) (ls : List Text) :
    statementsFrom names (number + 1) placed ls =
      movedPass k (statementsFrom names number placed ls) := by
  have hmoved : moved k number = number + 1 := if_neg (Nat.not_le.mpr hk)
  induction ls generalizing placed earlier number with
  | nil => rfl
  | cons line rest ih =>
    rcases statementsFrom_cons names hplaced line with
      ⟨-, hstep⟩ | ⟨cause, -, -, hstep⟩ | ⟨-, placed', hplaced', hstep⟩
    · rw [hstep, hstep]
      rfl
    · rw [hstep, hstep, movedPass, Error.moved, hmoved]
    · have hnext : moved k (number + 1) = number + 1 + 1 := if_neg (by omega)
      rw [hstep, hstep, ih hplaced' (by omega) hnext, movedPass_map, hmoved]

/-- **Where a line that says nothing is put in, only the numbers behind it move.** -/
theorem statementsFrom_insert (names : List Text) {placed : List Text} {earlier : List Statement}
    (hplaced : Records placed earlier) {before : List Text} {blank : Text} (h : Silent blank)
    (hshort : blank.length < lineLimit) {k number : Nat} (hk : k + 1 = number + before.length)
    (after : List Text) :
    statementsFrom names number placed (before ++ blank :: after) =
      movedPass k (statementsFrom names number placed (before ++ after)) := by
  induction before generalizing placed earlier number with
  | nil =>
    have hpass := statementsFrom.eq_2 names number placed blank after
    rw [if_neg (Nat.not_le.mpr hshort), statementOf_withoutReturn, h.statementOf names] at hpass
    rw [List.nil_append, hpass, List.nil_append]
    have hk : k + 1 = number := hk
    exact statementsFrom_succ hplaced (by omega) after
  | cons line rest ih =>
    rw [List.length_cons] at hk
    have hmoved : moved k number = number := if_pos (by omega)
    rcases statementsFrom_cons names hplaced line with
      ⟨-, hstep⟩ | ⟨cause, -, -, hstep⟩ | ⟨-, placed', hplaced', hstep⟩
    · rw [List.cons_append, List.cons_append, hstep, hstep]
      rfl
    · rw [List.cons_append, List.cons_append, hstep, hstep, movedPass, Error.moved, hmoved]
    · rw [List.cons_append, List.cons_append, hstep, hstep, ih hplaced' (by omega), movedPass_map,
        hmoved]

theorem undefinedLabels_moved (positions : List (Text × Nat)) (k : Nat) (met : List Text)
    (numbered : List Numbered) :
    undefinedLabels positions met (numbered.map (Numbered.moved k)) =
      (undefinedLabels positions met numbered).map fun (n, name) => (moved k n, name) := by
  fun_induction undefinedLabels positions met numbered with
  | case1 => rfl
  | case2 met line op name rest hknown ih =>
    rw [List.map_cons, Numbered.moved, undefinedLabels, if_pos hknown, ih]
  | case3 met line op name rest hmissing ih =>
    rw [List.map_cons, Numbered.moved, undefinedLabels, if_neg hmissing, ih]
    rfl
  | case4 met first rest hother ih =>
    obtain ⟨line, s⟩ := first
    rw [List.map_cons, Numbered.moved]
    dsimp only
    cases s with
    | label name => exact ih
    | instruction op operand =>
      cases operand with
      | label name => exact absurd rfl (hother line op name)
      | _ => exact ih

/-- **A line that says nothing is put in: the same code, or the same report**, with the next number
if the report is about a line behind it. -/
theorem assemble_insert {source source' : Text} {before after : List Text} {blank : Text}
    (h : Silent blank) (hshort : blank.length < lineLimit)
    (hlines : lines source = before ++ after) (hlines' : lines source' = before ++ blank :: after) :
    assemble names source' = (assemble names source).mapError (Error.moved before.length) := by
  have hfirst := statementsFrom_insert names records_nil h hshort
    (show before.length + 1 = 1 + before.length from Nat.add_comm ..) after
  rw [assemble, assemble, statements, statements, hlines, hlines', hfirst]
  cases statementsFrom names 1 [] (before ++ after) with
  | error e => rfl
  | ok numbered =>
    have hprogram : (numbered.map (Numbered.moved before.length)).map (·.statement) =
        numbered.map (·.statement) := by
      rw [List.map_map]
      rfl
    dsimp only [movedPass]
    rw [hprogram, undefinedLabels_moved]
    cases undefinedLabels (layout 0 (numbered.map (·.statement))) [] numbered <;> rfl

/-! ### Sources that are laid out anew -/

/-- A line that is laid out anew: indented, with a comment behind it, or with its mnemonic in other
letters. A comment may be put before blanks at the end of the line, such as a carriage return. -/
inductive LineEdit : Text → Text → Prop where
  | indent {blank : Text} (line : Text) : Text.IsBlank blank → LineEdit line (blank ++ line)
  | comment {line blank : Text} (comment : Text) : Closed line → Text.IsBlank blank →
    LineEdit (line ++ blank) (line ++ 59 :: (comment ++ blank))
  | recase {blank word word' rest : Text} : Text.IsBlank blank → IsWord word →
    Text.SameLetters word word' → Follows rest →
    LineEdit (blank ++ (word ++ rest)) (blank ++ (word' ++ rest))

/-- Lines that are laid out anew: one of them is, or one that says nothing is put in. -/
inductive Edit : List Text → List Text → Prop where
  | insert (before after : List Text) {blank : Text} :
    Silent blank → Edit (before ++ after) (before ++ blank :: after)
  | change (before after : List Text) {line line' : Text} :
    LineEdit line line' → Edit (before ++ line :: after) (before ++ line' :: after)

/-- Lines that are laid out anew, any number of times. -/
def Relaid : List Text → List Text → Prop := Relation.ReflTransGen Edit

/-- **A line that is laid out anew says the same.** -/
theorem LineEdit.statementOf_iff {line line' : Text} (h : LineEdit line line')
    {said : Option Statement} :
    statementOf names line = .ok said ↔ statementOf names line' = .ok said := by
  cases h with
  | indent _ hblank => rw [statementOf_congr names (gist_blank_append hblank line)]
  | comment comment hclosed hblank =>
    rw [statementOf_congr names (gist_append_blank _ hblank),
      statementOf_congr names (hclosed.gist_append_comment _)]
  | recase hblank hword hletters hrest =>
    rw [statementOf_congr names (gist_blank_append hblank _),
      statementOf_congr names (gist_blank_append hblank _)]
    exact statementOf_recased hword hletters hrest

theorem LineEdit.length_le {line line' : Text} (h : LineEdit line line') :
    line.length ≤ line'.length := by
  cases h with
  | recase _ _ hletters _ =>
    have hlength := congrArg List.length hletters
    rw [List.length_map, List.length_map] at hlength
    rw [List.length_append, List.length_append, List.length_append, List.length_append, hlength]
  | indent _ _ =>
    rw [List.length_append]
    omega
  | comment _ _ _ =>
    rw [List.length_append, List.length_append, List.length_cons, List.length_append]
    omega

theorem LineEdit.said?_eq {line line' : Text} (h : LineEdit line line') :
    said? names line = said? names line' := by
  cases hsaid : statementOf names line with
  | ok said => rw [said?_of_ok hsaid, said?_of_ok (h.statementOf_iff.mp hsaid)]
  | error e =>
    cases hsaid' : statementOf names line' with
    | ok said =>
      rw [h.statementOf_iff.mpr hsaid'] at hsaid
      cases hsaid
    | error e' => rw [said?, said?, statementOf_withoutReturn, statementOf_withoutReturn, hsaid,
        hsaid']

theorem LineEdit.acceptable_iff {line line' : Text} (h : LineEdit line line')
    (hshort : line'.length < lineLimit) (earlier : List Statement) :
    AcceptableAfter names earlier line ↔ AcceptableAfter names earlier line' := by
  constructor
  · rintro ⟨-, ⟨said, hsaid⟩, hfresh⟩
    exact ⟨hshort, ⟨said, h.statementOf_iff.mp hsaid⟩, h.said?_eq ▸ hfresh⟩
  · rintro ⟨-, ⟨said, hsaid⟩, hfresh⟩
    exact ⟨Nat.lt_of_le_of_lt h.length_le hshort, ⟨said, h.statementOf_iff.mpr hsaid⟩,
      h.said?_eq ▸ hfresh⟩

/-- Lines are not made shorter. -/
theorem Edit.short {ls ls' : List Text} (h : Edit ls ls')
    (hshort : ∀ line ∈ ls', line.length < lineLimit) : ∀ line ∈ ls, line.length < lineLimit := by
  intro line hline
  cases h with
  | insert before after _ =>
    refine hshort line ?_
    simp only [List.mem_append, List.mem_cons] at hline ⊢
    tauto
  | change before after hedit =>
    simp only [List.mem_append, List.mem_cons] at hline hshort
    rcases hline with hline | rfl | hline
    · exact hshort line (.inl hline)
    · exact Nat.lt_of_le_of_lt hedit.length_le (hshort _ (.inr (.inl rfl)))
    · exact hshort line (.inr (.inr hline))

/-- **One step of laying out anew changes neither what lines say nor whether they are
acceptable.** -/
theorem Edit.same {ls ls' : List Text} (h : Edit ls ls')
    (hshort : ∀ line ∈ ls', line.length < lineLimit) :
    (AcceptableFrom names [] ls ↔ AcceptableFrom names [] ls') ∧
      ls.filterMap (said? names) = ls'.filterMap (said? names) := by
  cases h with
  | insert before after hsilent =>
    refine ⟨(acceptableFrom_insert hsilent (hshort _ ?_) []).symm, (filterMap_insert hsilent).symm⟩
    exact List.mem_append_cons_self
  | change before after hedit =>
    constructor
    · rw [acceptableFrom_append, acceptableFrom_append, AcceptableFrom, AcceptableFrom,
        hedit.acceptable_iff (hshort _ List.mem_append_cons_self), hedit.said?_eq]
    · rw [List.filterMap_append, List.filterMap_append, List.filterMap_cons, List.filterMap_cons,
        hedit.said?_eq]

theorem Relaid.short {ls ls' : List Text} (h : Relaid ls ls')
    (hshort : ∀ line ∈ ls', line.length < lineLimit) : ∀ line ∈ ls, line.length < lineLimit := by
  induction h using Relation.ReflTransGen.head_induction_on with
  | refl => exact hshort
  | head hedit _ ih => exact hedit.short ih

/-- Nor do any number of steps. -/
theorem Relaid.same (names : List Text) {ls ls' : List Text} (h : Relaid ls ls')
    (hshort : ∀ line ∈ ls', line.length < lineLimit) :
    (AcceptableFrom names [] ls ↔ AcceptableFrom names [] ls') ∧
      ls.filterMap (said? names) = ls'.filterMap (said? names) := by
  induction h using Relation.ReflTransGen.head_induction_on with
  | refl => exact ⟨Iff.rfl, rfl⟩
  | head hedit hrest ih =>
    obtain ⟨hiff, heq⟩ := hedit.same (Relaid.short hrest hshort)
    exact ⟨hiff.trans ih.1, heq.trans ih.2⟩

/-- **A source that is laid out anew has the same code**, unless a line became too long by it. -/
theorem assemble_relaid {source source' : Text} (h : Relaid (lines source) (lines source'))
    (code : Code) :
    assemble names source' = .ok code ↔
      assemble names source = .ok code ∧ ∀ line ∈ lines source', line.length < lineLimit := by
  have hsame : (∀ line ∈ lines source', line.length < lineLimit) →
      (assemble names source' = .ok code ↔ assemble names source = .ok code) := by
    intro hshort
    obtain ⟨hiff, heq⟩ := h.same names hshort
    rw [assemble_eq_ok_iff, assemble_eq_ok_iff, hiff, linesOf, linesOf, heq]
  constructor
  · intro hok
    have hshort := (assemble_eq_ok_iff.mp hok).1.short
    exact ⟨(hsame hshort).mp hok, hshort⟩
  · rintro ⟨hok, hshort⟩
    exact (hsame hshort).mpr hok

/-- **How a source is laid out does not matter, and a report names the line that is at fault.**
Lines that say nothing are put in, lines are indented, comments are put behind lines whose double
quotes are closed, mnemonics are written in other letters: after this the source has the code that
it had before, or none as before, as long as its lines stay below the limit. Where a report names a
line, it is the first that is not acceptable after those before it; or, if all are, the first that
jumps to some label that is never placed. With a line that says nothing put in before it, the report
names the next number; and so it would for any other label that is missing. -/
theorem layout_irrelevant (names : List Text) :
    (∀ source source', Relaid (lines source) (lines source') →
      ∀ code, assemble names source' = .ok code ↔
        assemble names source = .ok code ∧ ∀ line ∈ lines source', line.length < lineLimit) ∧
    (∀ source n cause, assemble names source = .error (.line n cause) →
      Blamed names (lines source) n cause) ∧
    ∀ source source' before after blank, Silent blank → blank.length < lineLimit →
      lines source = before ++ after → lines source' = before ++ blank :: after →
      (∀ n cause, Blamed names (lines source) n cause → before.length < n →
        Blamed names (lines source') (n + 1) cause) ∧
      ∀ n cause, assemble names source = .error (.line n cause) → before.length < n →
        assemble names source' = .error (.line (n + 1) cause) := by
  refine ⟨fun _ _ => assemble_relaid, fun _ _ _ => blamed_of_assemble, ?_⟩
  intro source source' before after blank hsilent hshort hlines hlines'
  refine ⟨fun n cause hblamed hbefore => ?_, fun n cause herror hbefore => ?_⟩
  · rw [hlines']
    exact (hlines ▸ hblamed).insert hsilent hshort hbefore
  · rw [assemble_insert hsilent hshort hlines hlines', herror]
    have hmoved : moved before.length n = n + 1 := if_neg (Nat.not_le.mpr hbefore)
    rw [Except.mapError, Error.moved, hmoved]

/-- A literal is pushed, and a jump leads to the end. -/
def tidy : Text := "PUSH_STRING \"a;b\"\nJUMP e\ne:"

/-- The same with a line put in, and the first line in small letters, with a comment, and
indented. -/
def untidy : Text := "; all\n\tpush_String \"a;b\";c\nJUMP e\ne:\n"

/-- A jump to a label that is missing. -/
def missing : Text := "NOP\nJUMP e"

theorem relaid_untidy : Relaid (lines tidy) (lines untidy) := by
  have hlines : lines tidy = ["PUSH_STRING \"a;b\"", "JUMP e", "e:"] := by decide +kernel
  have hlines' : lines untidy = ["; all", "\tpush_String \"a;b\";c", "JUMP e", "e:"] := by
    decide +kernel
  have hnone : Text.IsBlank [] := fun _ hr => nomatch hr
  have hrecase : LineEdit "PUSH_STRING \"a;b\"" "push_String \"a;b\"" :=
    @LineEdit.recase [] "PUSH_STRING" "push_String" " \"a;b\"" hnone
      (by constructor <;> decide +kernel) (by decide +kernel) (.inr ⟨"\"a;b\"", by decide +kernel⟩)
  have hclosed : Closed "push_String \"a;b\"" := by
    have hbody : Text.QuotedBody "a;b" := .plain_append (s := "a;b") (by decide +kernel) .nil
    exact .plain_append (s := "push_String ") (by decide +kernel) (.quotes hbody .nil)
  have hcomment : LineEdit "push_String \"a;b\"" "push_String \"a;b\";c" :=
    @LineEdit.comment _ [] "c" hclosed hnone
  have hindent : LineEdit "push_String \"a;b\";c" "\tpush_String \"a;b\";c" :=
    @LineEdit.indent [9] _ (Text.isBlank_ascii (by decide) (by decide))
  rw [hlines, hlines']
  exact .head (.change [] _ hrecase) (.head (.change [] _ hcomment) (.head (.change [] _ hindent)
    (.head (.insert [] _ ⟨[], hnone, .inr ⟨" all", rfl⟩⟩) .refl)))

/-- What both say. -/
def tidyProgram : List Statement :=
  [.instruction .pushString (.literal "a;b"), .instruction .jump (.label "e"), .label "e"]

theorem assemble_tidy : assemble [] tidy = .ok (codeOf tidyProgram) := by
  have hpass : statementsFrom [] 1 [] (lines tidy) =
      .ok [⟨1, .instruction .pushString (.literal "a;b")⟩, ⟨2, .instruction .jump (.label "e")⟩,
        ⟨3, .label "e"⟩] := by decide +kernel
  have hprogram : linesOf [] tidy = tidyProgram := (statementsFrom_eq hpass).symm
  refine assemble_eq_ok_iff.mpr ⟨(statementsFrom_isOk_iff records_nil 1 _).mp ⟨_, hpass⟩, ?_, ?_⟩
  · rw [hprogram]
    intro op name hmem
    obtain ⟨-, rfl⟩ : op = .jump ∧ name = "e" := by simpa [tidyProgram] using hmem
    simp [tidyProgram]
  · rw [hprogram]

/-- The code stays the same, and a missing label is reported one line further down. -/
theorem layout_irrelevant_untidy :
    assemble [] tidy = .ok (codeOf tidyProgram) ∧ assemble [] untidy = .ok (codeOf tidyProgram) ∧
      assemble [] missing = .error (.line 2 (.undefinedLabel "e")) ∧
      Blamed [] (lines missing) 2 (.undefinedLabel "e") ∧
      assemble [] (10 :: missing) = .error (.line 3 (.undefinedLabel "e")) := by
  have hmissing : assemble [] missing = .error (.line 2 (.undefinedLabel "e")) := by decide +kernel
  have hlines : lines missing = ["NOP", "JUMP e"] := by decide +kernel
  have hlines' : lines (10 :: missing) = [[], "NOP", "JUMP e"] := by decide +kernel
  obtain ⟨hsame, hblamed, hinsert⟩ := layout_irrelevant []
  refine ⟨assemble_tidy, (hsame _ _ relaid_untidy _).mpr ⟨assemble_tidy, by decide +kernel⟩,
    hmissing, hblamed _ _ _ hmissing, ?_⟩
  exact (hinsert missing (10 :: missing) [] _ [] silent_nil (by decide) hlines hlines').2 2 _
    hmissing (by decide)

end SchemePlayer.Assembly
