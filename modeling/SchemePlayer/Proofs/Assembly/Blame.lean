import Mathlib
import SchemePlayer.Proofs.Assembly.Layout
import SchemePlayer.Proofs.Assembly.Range

/-!
# The line that is at fault

Lines are understood one after another, and what was said before matters in one way only: no label
is placed twice. So a source is accepted if each of its lines is acceptable after those before it
and no label is missing at the end. If it is not, a report names a line: the first that is not
acceptable, or one that jumps to a label that is missing.

- `AcceptableAfter`, `AcceptableFrom`: lines that are acceptable after what was said before.
- `statementsFrom_cons`: what the first pass does with one line; everything below rests on it.
- `numberedLines`: what lines say, each statement with the number of its line.
- `assemble_eq_ok_iff`: **a source is accepted iff its lines are acceptable and its labels placed.**
- `Blamed`, `mem_reports_iff`: **the lines that a report can name.**
-/

namespace SchemePlayer.Assembly

/-! ### Acceptable lines -/

/-- What makes a line acceptable after what earlier lines have said. -/
structure AcceptableAfter (names : List Text) (earlier : List Statement) (line : Text) : Prop where
  short : line.length < lineLimit
  understood : ∃ said, statementOf names line = .ok said
  fresh : ∀ name, said? names line = some (.label name) → .label name ∉ earlier

/-- Each line is acceptable after those before it. -/
def AcceptableFrom (names : List Text) : List Statement → List Text → Prop
  | _, [] => True
  | earlier, line :: rest =>
    AcceptableAfter names earlier line ∧
      AcceptableFrom names (earlier ++ (said? names line).toList) rest

/-- What is wrong with a line that is not too long. -/
inductive Wrong (names : List Text) (earlier : List Statement) (line : Text) :
    LineError → Prop where
  | misread {cause : LineError} :
    statementOf names line = .error cause → Wrong names earlier line cause
  | twice {name : Text} : statementOf names line = .ok (some (.label name)) →
    .label name ∈ earlier → Wrong names earlier line (.labelTwice name)

section Lines

variable {names : List Text} {earlier : List Statement} {line : Text}

theorem said?_of_ok {said : Option Statement} (h : statementOf names line = .ok said) :
    said? names line = said := by
  rw [said?, statementOf_withoutReturn, h]

theorem Wrong.not_acceptable {cause : LineError} (h : Wrong names earlier line cause) :
    ¬AcceptableAfter names earlier line := by
  intro hacceptable
  cases h with
  | misread herror =>
    obtain ⟨said, hsaid⟩ := hacceptable.understood
    rw [herror] at hsaid
    cases hsaid
  | twice hlabel hmem => exact hacceptable.fresh _ (said?_of_ok hlabel) hmem

theorem acceptableFrom_append (a b : List Text) :
    AcceptableFrom names earlier (a ++ b) ↔
      AcceptableFrom names earlier a ∧
        AcceptableFrom names (earlier ++ a.filterMap (said? names)) b := by
  induction a generalizing earlier with
  | nil => simp [AcceptableFrom]
  | cons line a ih =>
    have hsaid : (line :: a).filterMap (said? names) =
        (said? names line).toList ++ a.filterMap (said? names) := by
      rw [List.filterMap_cons]
      cases said? names line <;> rfl
    rw [List.cons_append, AcceptableFrom, AcceptableFrom, ih, hsaid, List.append_assoc, and_assoc]

theorem AcceptableFrom.short {ls : List Text} (h : AcceptableFrom names earlier ls) :
    ∀ line ∈ ls, line.length < lineLimit := by
  induction ls generalizing earlier with
  | nil => exact fun line hline => nomatch hline
  | cons line rest ih => exact List.forall_mem_cons.mpr ⟨h.1.short, ih h.2⟩

theorem Wrong.unique {cause cause' : LineError} (h : Wrong names earlier line cause)
    (h' : Wrong names earlier line cause') : cause = cause' := by
  cases h with
  | misread herror =>
    cases h' with
    | misread herror' => exact Except.error.inj (herror.symm.trans herror')
    | twice hlabel' _ => exact nomatch herror.symm.trans hlabel'
  | twice hlabel _ =>
    cases h' with
    | misread herror' => exact nomatch hlabel.symm.trans herror'
    | twice hlabel' _ =>
      cases hlabel.symm.trans hlabel'
      rfl

end Lines

/-! ### The first pass, line by line -/

/-- The labels that were placed are those that were said. -/
def Records (placed : List Text) (earlier : List Statement) : Prop :=
  ∀ name, name ∈ placed ↔ .label name ∈ earlier

theorem records_nil : Records [] [] := fun _ => by simp

variable {names : List Text}

/-- **One line of the first pass.** It is too long, or it is wrong, or it is acceptable and the pass
goes on with the labels it places. -/
theorem statementsFrom_cons (names : List Text) {placed : List Text} {earlier : List Statement}
    (hplaced : Records placed earlier) (line : Text) :
    (lineLimit ≤ line.length ∧ ∀ number rest,
      statementsFrom names number placed (line :: rest) = .error .lineTooLong) ∨
    (∃ cause, line.length < lineLimit ∧ Wrong names earlier line cause ∧ ∀ number rest,
      statementsFrom names number placed (line :: rest) = .error (.line number cause)) ∨
    (AcceptableAfter names earlier line ∧ ∃ placed',
      Records placed' (earlier ++ (said? names line).toList) ∧ ∀ number rest,
        statementsFrom names number placed (line :: rest) =
          (statementsFrom names (number + 1) placed' rest).map
            (((said? names line).map (Numbered.mk number)).toList ++ ·)) := by
  have hstep := fun number rest => statementsFrom.eq_2 names number placed line rest
  simp only [statementOf_withoutReturn] at hstep
  by_cases hlong : lineLimit ≤ line.length
  · exact .inl ⟨hlong, fun number rest => by rw [hstep, if_pos hlong]⟩
  have hshort : line.length < lineLimit := Nat.not_le.mp hlong
  cases hsaid : statementOf names line with
  | error cause =>
    refine .inr (.inl ⟨cause, hshort, .misread hsaid, fun number rest => ?_⟩)
    rw [hstep, if_neg hlong, hsaid]
  | ok said =>
    rw [said?_of_ok hsaid]
    cases said with
    | none =>
      have hacceptable : AcceptableAfter names earlier line :=
        ⟨hshort, ⟨_, hsaid⟩, fun name hlabel => by simp [said?_of_ok hsaid] at hlabel⟩
      refine .inr (.inr ⟨hacceptable, placed, by simpa using hplaced, fun number rest => ?_⟩)
      rw [hstep, if_neg hlong, hsaid]
      dsimp only
      cases statementsFrom names (number + 1) placed rest <;> rfl
    | some s =>
      cases s with
      | instruction op operand =>
        have hacceptable : AcceptableAfter names earlier line :=
          ⟨hshort, ⟨_, hsaid⟩, fun name hlabel => by simp [said?_of_ok hsaid] at hlabel⟩
        refine .inr (.inr ⟨hacceptable, placed, fun name => ?_, fun number rest => ?_⟩)
        · rw [hplaced name]
          simp
        · rw [hstep, if_neg hlong, hsaid]
          dsimp only
          cases statementsFrom names (number + 1) placed rest <;> rfl
      | label name =>
        by_cases hmem : name ∈ placed
        · refine .inr (.inl ⟨.labelTwice name, hshort, .twice hsaid ((hplaced name).mp hmem),
            fun number rest => ?_⟩)
          rw [hstep, if_neg hlong, hsaid]
          dsimp only
          rw [if_pos hmem]
        · have hacceptable : AcceptableAfter names earlier line := by
            refine ⟨hshort, ⟨_, hsaid⟩, fun other hlabel => ?_⟩
            obtain rfl : name = other := by simpa [said?_of_ok hsaid] using hlabel
            exact mt (hplaced name).mpr hmem
          refine .inr (.inr ⟨hacceptable, name :: placed, fun other => ?_, fun number rest => ?_⟩)
          · rw [List.mem_cons, hplaced other]
            simp [or_comm]
          · rw [hstep, if_neg hlong, hsaid]
            dsimp only
            rw [if_neg hmem]
            cases statementsFrom names (number + 1) (name :: placed) rest <;> rfl

/-- **The first pass succeeds iff each line is acceptable after those before it.** -/
theorem statementsFrom_isOk_iff {placed : List Text} {earlier : List Statement}
    (hplaced : Records placed earlier) (number : Nat) (ls : List Text) :
    (∃ numbered, statementsFrom names number placed ls = .ok numbered) ↔
      AcceptableFrom names earlier ls := by
  induction ls generalizing placed earlier number with
  | nil => exact ⟨fun _ => trivial, fun _ => ⟨[], rfl⟩⟩
  | cons line rest ih =>
    rcases statementsFrom_cons names hplaced line with
      ⟨hlong, hstep⟩ | ⟨cause, -, hwrong, hstep⟩ | ⟨hacceptable, placed', hplaced', hstep⟩
    · rw [hstep]
      exact ⟨fun h => (nomatch h), fun h => absurd h.1.short (Nat.not_lt.mpr hlong)⟩
    · rw [hstep]
      exact ⟨fun h => (nomatch h), fun h => absurd h.1 hwrong.not_acceptable⟩
    · rw [hstep, AcceptableFrom, ← ih hplaced' (number + 1)]
      simp only [map_eq_ok_iff]
      exact ⟨fun ⟨_, more, hmore, _⟩ => ⟨hacceptable, more, hmore⟩,
        fun ⟨_, more, hmore⟩ => ⟨_, more, hmore, rfl⟩⟩

/-- **The first pass stops at the first line that is not acceptable.** -/
theorem wrong_of_statementsFrom {placed : List Text} {earlier : List Statement}
    (hplaced : Records placed earlier) {number n : Nat} {ls : List Text} {cause : LineError}
    (h : statementsFrom names number placed ls = .error (.line n cause)) :
    ∃ before line after, ls = before ++ line :: after ∧ n = number + before.length ∧
      AcceptableFrom names earlier before ∧
      Wrong names (earlier ++ before.filterMap (said? names)) line cause := by
  induction ls generalizing placed earlier number with
  | nil => cases h
  | cons line rest ih =>
    rcases statementsFrom_cons names hplaced line with
      ⟨-, hstep⟩ | ⟨cause', -, hwrong, hstep⟩ | ⟨hacceptable, placed', hplaced', hstep⟩
    · rw [hstep] at h
      cases h
    · rw [hstep] at h
      cases h
      refine ⟨[], line, rest, rfl, rfl, trivial, ?_⟩
      rwa [List.filterMap_nil, List.append_nil]
    · rw [hstep] at h
      have herror : statementsFrom names (number + 1) placed' rest = .error (.line n cause) := by
        cases hrest : statementsFrom names (number + 1) placed' rest with
        | ok more => rw [hrest] at h; cases h
        | error e => rw [hrest] at h; cases h; rfl
      obtain ⟨before, bad, after, rfl, hn, hbefore, hwrong⟩ := ih hplaced' herror
      refine ⟨line :: before, bad, after, rfl, ?_, ⟨hacceptable, hbefore⟩, ?_⟩
      · rw [hn, List.length_cons]
        omega
      · rw [List.filterMap_cons]
        cases hsaid : said? names line with
        | none => simpa [hsaid] using hwrong
        | some s => simpa [hsaid] using hwrong

/-- Where a line is wrong after acceptable ones, the first pass stops. -/
theorem statementsFrom_of_wrong {placed : List Text} {earlier : List Statement}
    (hplaced : Records placed earlier) {before : List Text} {line : Text} {cause : LineError}
    (hbefore : AcceptableFrom names earlier before) (hshort : line.length < lineLimit)
    (hwrong : Wrong names (earlier ++ before.filterMap (said? names)) line cause) (number : Nat)
    (after : List Text) :
    statementsFrom names number placed (before ++ line :: after) =
      .error (.line (number + before.length) cause) := by
  induction before generalizing placed earlier number with
  | nil =>
    rw [List.filterMap_nil, List.append_nil] at hwrong
    rcases statementsFrom_cons names hplaced line with
      ⟨hlong, -⟩ | ⟨cause', -, hwrong', hstep⟩ | ⟨hacceptable, -⟩
    · exact absurd hshort (Nat.not_lt.mpr hlong)
    · obtain rfl : cause' = cause := hwrong'.unique hwrong
      exact hstep number after
    · exact absurd hacceptable hwrong.not_acceptable
  | cons first before ih =>
    rcases statementsFrom_cons names hplaced first with
      ⟨hlong, -⟩ | ⟨cause', -, hwrong', -⟩ | ⟨-, placed', hplaced', hstep⟩
    · exact absurd hbefore.1.short (Nat.not_lt.mpr hlong)
    · exact absurd hbefore.1 hwrong'.not_acceptable
    · have hwrong : Wrong names
          (earlier ++ (said? names first).toList ++ before.filterMap (said? names)) line cause := by
        rw [List.filterMap_cons] at hwrong
        cases hsaid : said? names first with
        | none => simpa [hsaid] using hwrong
        | some s => simpa [hsaid] using hwrong
      rw [List.cons_append, hstep, ih hplaced' hbefore.2 hwrong (number + 1), List.length_cons,
        Nat.add_right_comm, Nat.add_assoc]
      rfl

/-! ### The numbers of lines -/

/-- What lines say, each statement with the number of its line. -/
def numberedLines (names : List Text) : Nat → List Text → List Numbered
  | _, [] => []
  | number, line :: rest =>
    ((said? names line).map (Numbered.mk number)).toList ++ numberedLines names (number + 1) rest

theorem numberedLines_append (number : Nat) (a b : List Text) :
    numberedLines names number (a ++ b) =
      numberedLines names number a ++ numberedLines names (number + a.length) b := by
  induction a generalizing number with
  | nil => rfl
  | cons line a ih =>
    rw [List.cons_append, numberedLines, numberedLines, ih, List.append_assoc, List.length_cons,
      Nat.add_right_comm, Nat.add_assoc]

theorem map_numberedLines (number : Nat) (ls : List Text) :
    (numberedLines names number ls).map (·.statement) = ls.filterMap (said? names) := by
  induction ls generalizing number with
  | nil => rfl
  | cons line rest ih =>
    rw [numberedLines, List.map_append, ih, List.filterMap_cons]
    cases said? names line <;> rfl

/-- **If the first pass succeeds, it gives what the lines say.** -/
theorem eq_numberedLines {placed : List Text} {earlier : List Statement}
    (hplaced : Records placed earlier) {number : Nat} {ls : List Text} {numbered : List Numbered}
    (h : statementsFrom names number placed ls = .ok numbered) :
    numbered = numberedLines names number ls := by
  induction ls generalizing placed earlier number numbered with
  | nil => exact (Except.ok.inj h).symm
  | cons line rest ih =>
    rcases statementsFrom_cons names hplaced line with
      ⟨-, hstep⟩ | ⟨cause, -, -, hstep⟩ | ⟨-, placed', hplaced', hstep⟩
    · rw [hstep] at h
      cases h
    · rw [hstep] at h
      cases h
    · rw [hstep, map_eq_ok_iff] at h
      obtain ⟨more, hmore, rfl⟩ := h
      rw [numberedLines, ih hplaced' hmore]

/-- **The first jump to a label, among lines.** -/
theorem firstJump_numberedLines {number n : Nat} {ls : List Text} {name : Text} :
    FirstJump (numberedLines names number ls) n name ↔
      ∃ before line after op, ls = before ++ line :: after ∧ n = number + before.length ∧
        said? names line = some (.instruction op (.label name)) ∧
        ∀ op', .instruction op' (.label name) ∉ before.filterMap (said? names) := by
  constructor
  · intro h
    induction ls generalizing number with
    | nil =>
      obtain ⟨sooner, op, later, heq, -⟩ := h
      simp [numberedLines] at heq
    | cons first rest ih =>
      by_cases hjump : ∃ op, said? names first = some (.instruction op (.label name))
      · obtain ⟨op, hop⟩ := hjump
        rw [numberedLines, hop] at h
        rcases firstJump_cons.mp h with ⟨rfl, -⟩ | ⟨hother, -⟩
        · exact ⟨[], first, rest, op, rfl, rfl, hop, fun _ => List.not_mem_nil⟩
        · exact absurd rfl (hother op)
      · have hrest : FirstJump (numberedLines names (number + 1) rest) n name := by
          rw [numberedLines] at h
          cases hsaid : said? names first with
          | none => simpa [hsaid] using h
          | some s =>
            rw [hsaid] at h
            rcases firstJump_cons.mp h with ⟨-, op, rfl⟩ | ⟨-, hrest⟩
            · exact absurd ⟨op, hsaid⟩ hjump
            · exact hrest
        obtain ⟨before, line, after, op, rfl, rfl, hop, hbefore⟩ := ih hrest
        refine ⟨first :: before, line, after, op, rfl, ?_, hop, fun op' hmem => ?_⟩
        · rw [List.length_cons]
          omega
        · obtain ⟨l, hl, hsaid⟩ := List.mem_filterMap.mp hmem
          rcases List.mem_cons.mp hl with rfl | hl
          · exact hjump ⟨op', hsaid⟩
          · exact hbefore op' (List.mem_filterMap.mpr ⟨l, hl, hsaid⟩)
  · rintro ⟨before, line, after, op, rfl, rfl, hop, hbefore⟩
    refine ⟨numberedLines names number before, op,
      numberedLines names (number + before.length + 1) after, ?_, ?_⟩
    · rw [numberedLines_append, numberedLines, hop]
      rfl
    · rwa [map_numberedLines]

/-! ### Acceptance and blame -/

/-- The line that a report names, and what the report says of it: the first line that is not
acceptable after those before it; or, if all are, the first that jumps to some label that is never
placed. Where several labels are missing, any of them can be the one. -/
inductive Blamed (names : List Text) (ls : List Text) : Nat → LineError → Prop where
  | line {before after : List Text} {line : Text} {cause : LineError} :
    ls = before ++ line :: after → AcceptableFrom names [] before →
    ¬AcceptableAfter names (before.filterMap (said? names)) line →
    Wrong names (before.filterMap (said? names)) line cause →
    Blamed names ls (before.length + 1) cause
  | label {before after : List Text} {line : Text} {op : Opcode} {name : Text} :
    AcceptableFrom names [] ls → ls = before ++ line :: after →
    said? names line = some (.instruction op (.label name)) →
    (∀ op', .instruction op' (.label name) ∉ before.filterMap (said? names)) →
    .label name ∉ ls.filterMap (said? names) →
    Blamed names ls (before.length + 1) (.undefinedLabel name)

/-- **A source is accepted iff each line is acceptable after those before it and every label that is
used is placed.** Its code is that of what its lines say. -/
theorem assemble_eq_ok_iff {source : Text} {code : Code} :
    assemble names source = .ok code ↔
      AcceptableFrom names [] (lines source) ∧
      (∀ op name, .instruction op (.label name) ∈ linesOf names source →
        .label name ∈ linesOf names source) ∧
      codeOf (linesOf names source) = code := by
  rw [← statementsFrom_isOk_iff records_nil 1]
  constructor
  · intro h
    obtain ⟨hcode, hlabels⟩ := codeOf_of_assemble h
    refine ⟨?_, fun op name hmem => places_isSome.mp (hlabels op name hmem), hcode⟩
    cases hfirst : statementsFrom names 1 [] (lines source) with
    | ok numbered => exact ⟨numbered, rfl⟩
    | error e =>
      rw [assemble, statements, hfirst] at h
      cases h
  · rintro ⟨⟨numbered, hfirst⟩, hlabels, hcode⟩
    have hprogram : numbered.map (·.statement) = linesOf names source := statementsFrom_eq hfirst
    have hdefined : undefinedLabels (layout 0 (linesOf names source)) [] numbered = [] :=
      undefinedLabels_eq_nil_iff.mpr fun op name hmem =>
        places_isSome.mpr (hlabels op name (hprogram ▸ hmem))
    rw [assemble, statements, hfirst]
    dsimp only
    rw [hprogram, hdefined]
    exact congrArg Except.ok hcode

section Reports

variable {source : Text} {n : Nat} {cause : LineError}

/-- What is reported may be reported. -/
theorem mem_reports_of_assemble {e : Error} (h : assemble names source = .error e) :
    e ∈ reports names source := by
  rw [assemble] at h
  rw [reports]
  cases hfirst : statements names source with
  | error e' =>
    rw [hfirst] at h
    cases h
    exact List.mem_singleton_self _
  | ok numbered =>
    rw [hfirst] at h
    dsimp only at h ⊢
    cases hlabels : undefinedLabels (layout 0 (numbered.map (·.statement))) [] numbered with
    | nil => rw [hlabels] at h; cases h
    | cons missing more => rw [hlabels] at h; cases h; exact .head _

/-- If the first pass succeeds, what may be reported are the labels that are missing. -/
theorem mem_reports_of_statements {numbered : List Numbered}
    (h : statements names source = .ok numbered) :
    .line n cause ∈ reports names source ↔
      ∃ name, cause = .undefinedLabel name ∧ .label name ∉ linesOf names source ∧
        FirstJump (numberedLines names 1 (lines source)) n name := by
  have hprogram : numbered.map (·.statement) = linesOf names source := statementsFrom_eq h
  rw [reports, h]
  dsimp only
  rw [hprogram, ← eq_numberedLines records_nil h, List.mem_map]
  have hmissing : ∀ name, places (linesOf names source) name = none ↔
      .label name ∉ linesOf names source := by
    intro name
    rw [← places_isSome, Option.not_isSome_iff_eq_none]
  constructor
  · rintro ⟨⟨line, name⟩, hmem, heq⟩
    cases heq
    obtain ⟨hnone, -, hfirst⟩ := mem_undefinedLabels.mp hmem
    exact ⟨name, rfl, (hmissing name).mp hnone, hfirst⟩
  · rintro ⟨name, rfl, hnone, hfirst⟩
    exact ⟨(n, name), mem_undefinedLabels.mpr
      ⟨(hmissing name).mpr hnone, List.not_mem_nil, hfirst⟩, rfl⟩

/-- **A line that may be reported is to blame.** -/
theorem blamed_of_mem_reports (h : .line n cause ∈ reports names source) :
    Blamed names (lines source) n cause := by
  cases hfirst : statements names source with
  | error e =>
    rw [reports, hfirst] at h
    obtain rfl := List.mem_singleton.mp h
    obtain ⟨before, line, after, hsplit, rfl, hbefore, hwrong⟩ :=
      wrong_of_statementsFrom records_nil hfirst
    rw [Nat.add_comm]
    exact .line hsplit hbefore hwrong.not_acceptable hwrong
  | ok numbered =>
    obtain ⟨name, rfl, hmissing, hjump⟩ := (mem_reports_of_statements hfirst).mp h
    obtain ⟨before, line, after, op, hsplit, rfl, hop, hbefore⟩ := firstJump_numberedLines.mp hjump
    rw [Nat.add_comm]
    exact .label ((statementsFrom_isOk_iff records_nil 1 _).mp ⟨_, hfirst⟩) hsplit hop hbefore
      hmissing

/-- **The lines that may be reported are those to blame**, and any of them may be: the first that is
not acceptable, or, for each label that is missing, the first that jumps there. -/
theorem mem_reports_iff (hshort : ∀ line ∈ lines source, line.length < lineLimit) :
    .line n cause ∈ reports names source ↔ Blamed names (lines source) n cause := by
  refine ⟨blamed_of_mem_reports, fun h => ?_⟩
  cases h with
  | @line before after line _ hsplit hbefore _ hwrong =>
    have hline : line.length < lineLimit := hshort line (hsplit ▸ List.mem_append_cons_self)
    have hstop : statements names source = .error (.line (before.length + 1) cause) := by
      rw [statements, hsplit,
        statementsFrom_of_wrong records_nil hbefore hline hwrong, Nat.add_comm]
    rw [reports, hstop]
    exact List.mem_singleton_self _
  | @label before after line op name hacceptable hsplit hop hbefore hmissing =>
    obtain ⟨numbered, hfirst⟩ := (statementsFrom_isOk_iff records_nil 1 _).mpr hacceptable
    refine (mem_reports_of_statements hfirst).mpr ⟨name, rfl, hmissing, ?_⟩
    exact firstJump_numberedLines.mpr
      ⟨before, line, after, op, hsplit, Nat.add_comm .., hop, hbefore⟩

example : reports [] "JUMP a\nJUMP b\nJUMP a" =
    [.line 1 (.undefinedLabel "a"), .line 2 (.undefinedLabel "b")] := by decide +kernel

/-- **A report names a line that is to blame.** -/
theorem blamed_of_assemble (h : assemble names source = .error (.line n cause)) :
    Blamed names (lines source) n cause :=
  blamed_of_mem_reports (mem_reports_of_assemble h)

end Reports

end SchemePlayer.Assembly
