import SchemePlayer.Proofs.Assembly.Image

/-!
# What assembling gives

A source that is accepted is a program: one statement for each line that says something, in
order. The code is the image of that program, with the labels where the layout puts them and the
literals in the order of their first use.

- `linesOf`: the program of a source, read line by line.
- `Operand.Means`, `means_of_mem_linesOf`: **what an operand says, read from the text of its line.**
- `linesOf_bounded`: its numbers are below what the text can say; `linesOf_fits`: with few enough
  variables it fits.
- `undefinedLabels_eq_nil_iff`: no label is missing iff each that is jumped to has a position.
- `write_image`: writing a program down gives its image.
- `image_of_assemble`: **the code of a source that is accepted is the image of its program.**
- `Written`: code that was assembled from a source, within the sizes that operands can express;
  `Written.image`: every operand in it is resolved.
-/

namespace SchemePlayer.Assembly

/-! ### Lines -/

/-- What a line says, if it says something. -/
def said? (names : List Text) (line : Text) : Option Statement :=
  match statementOf names (withoutReturn line) with
  | .ok s => s
  | .error _ => none

/-- The program of a source: what its lines say, those that say nothing left out. -/
def linesOf (names : List Text) (source : Text) : List Statement :=
  (lines source).filterMap (said? names)

theorem statementsFrom_eq {names : List Text} {number : Nat} {placed ls : List Text}
    {numbered : List Numbered} (h : statementsFrom names number placed ls = .ok numbered) :
    numbered.map (·.statement) = ls.filterMap (said? names) := by
  induction ls generalizing number placed numbered with
  | nil =>
    obtain rfl := Except.ok.inj h
    rfl
  | cons line rest ih =>
    rw [statementsFrom] at h
    rw [List.filterMap_cons, said?]
    split at h
    · cases h
    · split at h
      · cases h
      · -- a line that says nothing
        rename_i hsaid
        rw [hsaid]
        exact ih h
      · -- a label
        rename_i name hsaid
        rw [hsaid]
        split at h
        · cases h
        · split at h
          · rename_i more hmore
            obtain rfl := Except.ok.inj h
            rw [List.map_cons, ih hmore]
          · cases h
      · -- an instruction
        rename_i s hlabel hsaid
        rw [hsaid]
        split at h
        · rename_i more hmore
          obtain rfl := Except.ok.inj h
          rw [List.map_cons, ih hmore]
        · cases h

/-! ### Operands -/

/-- The layout that an operand is stored in. -/
def Operand.kind : Operand → OperandKind
  | .none => .none
  | .float _ => .float64
  | .int _ => .int32
  | .literal _ => .string
  | .slot _ => .slot
  | .label _ => .jump
  | .byte _ => .byte

/-- The numbers in an operand are below what its text can say: an index is one of a variable, or
was written as a number of two bytes. -/
def Operand.Bounded (count : Nat) : Operand → Prop
  | .slot i => i < max 65536 count
  | .byte n => n < 256
  | _ => True

/-- A variable is the first that has a name, upper or lower case. -/
def IsFirstNamed (names : List Text) (name : Text) (i : Nat) : Prop :=
  (∃ h : i < names.length, Text.equalFold names[i] name = true) ∧
    ∀ j, j < i → ∀ other, names[j]? = some other → Text.equalFold other name = false

/-- What an operand says, read from its text alone. A literal is what its quotes enclose, a label
goes by its name, and a variable is `#` and its index or else the first that has this name. -/
def Operand.Means (names : List Text) (text : Text) : Operand → Prop
  | .none => True
  | .float x => Reading.float text = .ok x
  | .int n => Reading.integer? 32 text = some n
  | .literal s => Text.unquote? text = some s
  | .slot i =>
    (∃ digits, text = 35 :: digits ∧ Reading.natural? 10 digits = some i ∧ i < 65536) ∨
      text.head? ≠ some 35 ∧ IsFirstNamed names text i
  | .label name => name = text
  | .byte n => Reading.markedNatural? text = some n ∧ n < 256

theorem variableIndex?_eq_some_iff {names : List Text} {name : Text} {i : Nat} :
    variableIndex? names name = some i ↔ IsFirstNamed names name i := by
  rw [variableIndex?, List.findIdx?_eq_some_iff_getElem, IsFirstNamed]
  constructor
  · rintro ⟨hlt, hname, hearlier⟩
    refine ⟨⟨hlt, hname⟩, fun j hj other hother => ?_⟩
    obtain ⟨_, rfl⟩ := List.getElem?_eq_some_iff.mp hother
    exact Bool.eq_false_iff.mpr (hearlier j hj)
  · rintro ⟨⟨hlt, hname⟩, hearlier⟩
    refine ⟨hlt, hname, fun j hj => ?_⟩
    exact Bool.eq_false_iff.mp (hearlier j hj _ (List.getElem?_eq_getElem (hj.trans hlt)))

/-- **The variable that an operand names**: `#` and a number of two bytes, or a name. -/
theorem slotOf_eq_ok_iff {names : List Text} {text : Text} {i : Nat} :
    slotOf names text = .ok i ↔ (Operand.slot i).Means names text := by
  unfold slotOf
  rw [Operand.Means]
  split
  · -- a number
    rename_i digits
    have hnumber : (∃ digits', 35 :: digits = 35 :: digits' ∧
        Reading.natural? 10 digits' = some i ∧ i < 65536) ↔
        Reading.natural? 10 digits = some i ∧ i < 65536 := by simp
    rw [hnumber]
    simp only [List.head?_cons, ne_eq, not_true_eq_false, false_and, or_false]
    cases Reading.natural? 10 digits with
    | none => simp
    | some n =>
      by_cases hn : n < 65536
      · simp only [hn, if_true, Except.ok.injEq, Option.some.injEq]
        exact ⟨fun h => ⟨h, h ▸ hn⟩, And.left⟩
      · simp only [hn, if_false, reduceCtorEq, Option.some.injEq, false_iff]
        exact fun ⟨h, hi⟩ => hn (h ▸ hi)
  · -- a name
    rename_i hmark
    have hhead : text.head? ≠ some 35 := by
      cases text with
      | nil => simp
      | cons c digits => exact fun h => hmark digits (Option.some.inj h ▸ rfl)
    rw [← variableIndex?_eq_some_iff]
    have hnumber : ¬∃ digits, text = 35 :: digits ∧ Reading.natural? 10 digits = some i ∧
        i < 65536 := fun ⟨digits, htext, _⟩ => hmark digits htext
    simp only [hnumber, hhead, ne_eq, not_false_eq_true, true_and, false_or]
    cases variableIndex? names text <;> simp

/-- **What an operation takes for its operand** is of its kind and what the text says. -/
theorem operandOf_eq_ok_iff {names : List Text} {op : Opcode} {text : Text} {operand : Operand} :
    operandOf names op text = .ok operand ↔
      operand.kind = op.operand ∧ operand.Means names text := by
  unfold operandOf
  split <;> rename_i hkind <;> rw [hkind]
  · cases operand <;> simp [Operand.kind, Operand.Means]
  · cases hread : Reading.float text <;> cases operand <;>
      simp [Operand.kind, Operand.Means, hread]
  · cases hread : Reading.integer? 32 text <;> cases operand <;>
      simp [Operand.kind, Operand.Means, hread]
  · cases hread : Text.unquote? text <;> cases operand <;>
      simp [Operand.kind, Operand.Means, hread]
  · cases operand with
    | slot i =>
      rw [← slotOf_eq_ok_iff]
      cases slotOf names text <;> simp [Except.map, Operand.kind]
    | _ => cases slotOf names text <;> simp [Except.map, Operand.kind]
  · cases operand <;> simp [Operand.kind, Operand.Means, eq_comm]
  · cases hread : Reading.markedNatural? text with
    | none => cases operand <;> simp [Operand.kind, Operand.Means, hread]
    | some n =>
      dsimp only
      split <;> rename_i hn <;> cases operand <;> simp [Operand.kind, Operand.Means, hread]
      · exact fun h => h ▸ hn
      · exact fun h => h ▸ Nat.not_lt.mp hn

/-- The mnemonic and the operand of a trimmed line. -/
def wordsOf (line : Text) : Text × Text :=
  match Text.cut? 32 line with
  | some (word, rest) => (word, Text.trim rest)
  | none => (line, [])

theorem means_of_instructionOf {names : List Text} {line : Text} {op : Opcode} {operand : Operand}
    (h : instructionOf names line = .ok (.instruction op operand)) :
    Opcode.lookup? (wordsOf line).1 = some op ∧ operand.kind = op.operand ∧
      operand.Means names (wordsOf line).2 := by
  revert h
  fun_cases instructionOf names line with
  | case1 => exact nofun
  | case2 mnemonic found hfound hnone hparts =>
    intro h
    obtain ⟨rfl, rfl⟩ := Statement.instruction.inj (Except.ok.inj h)
    have hwords : wordsOf line = (mnemonic, []) := hparts
    rw [hwords, hnone]
    exact ⟨hfound, rfl, trivial⟩
  | case3 => exact nofun
  | case4 => exact nofun
  | case5 mnemonic text hparts found hfound hsome htext =>
    intro h
    have hwords : wordsOf line = (mnemonic, text) := hparts
    cases hoperand : operandOf names found text with
    | error e =>
      rw [hoperand] at h
      cases h
    | ok understood =>
      rw [hoperand] at h
      obtain ⟨rfl, rfl⟩ := Statement.instruction.inj (Except.ok.inj h)
      rw [hwords]
      exact ⟨hfound, operandOf_eq_ok_iff.mp hoperand⟩

/-- **What an instruction of a source says** is read from its line: its operation goes by the
mnemonic, and its operand is what the rest of the line means. -/
theorem means_of_mem_linesOf {names : List Text} {source : Text} {op : Opcode} {operand : Operand}
    (h : .instruction op operand ∈ linesOf names source) :
    ∃ line ∈ lines source, ∃ word text,
      wordsOf (Text.trim (stripComment false (withoutReturn line))) = (word, text) ∧
      Opcode.lookup? word = some op ∧ operand.kind = op.operand ∧ operand.Means names text := by
  obtain ⟨line, hline, hsaid⟩ := List.mem_filterMap.mp h
  refine ⟨line, hline, _, _, rfl, means_of_instructionOf ?_⟩
  rw [said?, statementOf] at hsaid
  generalize Text.trim (stripComment false (withoutReturn line)) = gist at hsaid
  by_cases hempty : gist = []
  · rw [if_pos hempty] at hsaid
    cases hsaid
  rw [if_neg hempty] at hsaid
  cases hlabel : labelOf? gist with
  | some name =>
    rw [hlabel] at hsaid
    cases hsaid
  | none =>
    rw [hlabel] at hsaid
    cases hinstruction : instructionOf names gist with
    | error e =>
      rw [hinstruction] at hsaid
      cases hsaid
    | ok s =>
      rw [hinstruction] at hsaid
      exact congrArg Except.ok (Option.some.inj hsaid)

theorem Operand.Means.bounded {names : List Text} {text : Text} {operand : Operand}
    (h : operand.Means names text) : operand.Bounded names.length := by
  cases operand with
  | slot i =>
    have hi : i < 65536 ∨ i < names.length :=
      h.imp (fun ⟨_, _, _, hi⟩ => hi) fun ⟨_, ⟨hi, _⟩, _⟩ => hi
    exact hi.elim (fun hi => Nat.lt_of_lt_of_le hi (Nat.le_max_left ..))
      fun hi => Nat.lt_of_lt_of_le hi (Nat.le_max_right ..)
  | byte n => exact h.2
  | _ => trivial

theorem linesOf_bounded {names : List Text} {source : Text} {op : Opcode} {operand : Operand}
    (h : .instruction op operand ∈ linesOf names source) :
    operand.kind = op.operand ∧ operand.Bounded names.length := by
  obtain ⟨line, -, word, text, -, -, hkind, hmeans⟩ := means_of_mem_linesOf h
  exact ⟨hkind, hmeans.bounded⟩

theorem Operand.width_eq (operand : Operand) : operand.width = operand.kind.size := by
  cases operand <;> rfl

/-- The operands of a source take the bytes that their operations have for them. -/
theorem linesOf_shaped (names : List Text) (source : Text) : Shaped (linesOf names source) := by
  intro op operand hmem
  rw [Operand.width_eq, (linesOf_bounded hmem).1]

/-- With no more variables than two bytes can count, every operand fits. -/
theorem linesOf_fits {names : List Text} (hnames : names.length ≤ 65536) {source : Text}
    {op : Opcode} {operand : Operand} (h : .instruction op operand ∈ linesOf names source) :
    operand.kind = op.operand ∧ operand.Fits op.operand.size := by
  obtain ⟨hkind, hbounded⟩ := linesOf_bounded h
  refine ⟨hkind, ?_⟩
  rw [← hkind]
  cases operand with
  | slot i => exact ⟨rfl, by simpa [Operand.Bounded, hnames] using hbounded⟩
  | byte n => exact ⟨rfl, hbounded⟩
  | _ => rfl

/-! ### Labels -/

/-- The first jump to a label is that of line `n`. -/
def FirstJump (numbered : List Numbered) (n : Nat) (name : Text) : Prop :=
  ∃ sooner op later, numbered = sooner ++ ⟨n, .instruction op (.label name)⟩ :: later ∧
    ∀ op', .instruction op' (.label name) ∉ sooner.map (·.statement)

section Labels

variable {numbered : List Numbered} {positions : List (Text × Nat)} {n : Nat} {name : Text}

theorem firstJump_cons {line : Nat} {s : Statement} :
    FirstJump (⟨line, s⟩ :: numbered) n name ↔
      (line = n ∧ ∃ op, s = .instruction op (.label name)) ∨
        (∀ op, s ≠ .instruction op (.label name)) ∧ FirstJump numbered n name := by
  constructor
  · rintro ⟨sooner, op, later, heq, hfirst⟩
    cases sooner with
    | nil =>
      cases heq
      exact .inl ⟨rfl, op, rfl⟩
    | cons first sooner =>
      cases heq
      refine .inr ⟨fun op' hs => hfirst op' (hs ▸ .head _), sooner, op, later, rfl, ?_⟩
      exact fun op' hmem => hfirst op' (.tail _ hmem)
  · rintro (⟨rfl, op, rfl⟩ | ⟨hother, sooner, op, later, rfl, hfirst⟩)
    · exact ⟨[], op, numbered, rfl, fun _ => List.not_mem_nil⟩
    · refine ⟨⟨line, s⟩ :: sooner, op, later, rfl, fun op' hmem => ?_⟩
      rcases List.mem_cons.mp hmem with heq | hmem
      · exact hother op' heq.symm
      · exact hfirst op' hmem

/-- If anything jumps to a label, something does so first. -/
theorem exists_firstJump {op : Opcode}
    (h : .instruction op (.label name) ∈ numbered.map (·.statement)) :
    ∃ n, FirstJump numbered n name := by
  induction numbered with
  | nil => cases h
  | cons first rest ih =>
    obtain ⟨line, s⟩ := first
    by_cases hjump : ∃ op, s = .instruction op (.label name)
    · exact ⟨line, firstJump_cons.mpr (.inl ⟨rfl, hjump⟩)⟩
    · rcases List.mem_cons.mp h with heq | hmem
      · exact absurd ⟨op, heq.symm⟩ hjump
      · obtain ⟨n, hn⟩ := ih hmem
        exact ⟨n, firstJump_cons.mpr (.inr ⟨not_exists.mp hjump, hn⟩)⟩

/-- **The labels that are missing** are those without a position that are jumped to, each with the
line of the first jump. -/
theorem mem_undefinedLabels {met : List Text} :
    (n, name) ∈ undefinedLabels positions met numbered ↔
      positions.lookup name = none ∧ name ∉ met ∧ FirstJump numbered n name := by
  fun_induction undefinedLabels positions met numbered with
  | case1 met =>
    refine ⟨fun h => (nomatch h), fun ⟨_, _, sooner, _, _, heq, _⟩ => ?_⟩
    simp at heq
  | case2 met line op other rest hknown ih =>
    -- a jump to a label that has a position or came before
    rw [ih, firstJump_cons]
    refine and_congr_right fun hnone => and_congr_right fun hnew => ?_
    have hother : other ≠ name := by
      rintro rfl
      rcases hknown with hsome | hmet
      · rw [hnone] at hsome
        cases hsome
      · exact hnew hmet
    simp [hother]
  | case3 met line op other rest hmissing ih =>
    obtain ⟨hnone, hnew⟩ := not_or.mp hmissing
    rw [List.mem_cons, ih, firstJump_cons]
    by_cases heq : other = name
    · subst heq
      simpa [Option.not_isSome_iff_eq_none.mp hnone, hnew] using eq_comm
    · simp [heq, Ne.symm heq]
  | case4 met first rest hother ih =>
    obtain ⟨line, s⟩ := first
    have hs : ∀ op, s ≠ .instruction op (.label name) :=
      fun op heq => hother line op name (heq ▸ rfl)
    rw [ih, firstJump_cons]
    simp [hs]

theorem undefinedLabels_eq_nil_iff :
    undefinedLabels positions [] numbered = [] ↔
      ∀ op name, .instruction op (.label name) ∈ numbered.map (·.statement) →
        (positions.lookup name).isSome := by
  rw [List.eq_nil_iff_forall_not_mem]
  constructor
  · intro hnone op name hmem
    obtain ⟨n, hfirst⟩ := exists_firstJump hmem
    rw [← Option.ne_none_iff_isSome]
    exact fun hlookup =>
      hnone (n, name) (mem_undefinedLabels.mpr ⟨hlookup, List.not_mem_nil, hfirst⟩)
  · rintro hplaced ⟨n, name⟩ hmem
    obtain ⟨hlookup, -, sooner, op, later, rfl, -⟩ := mem_undefinedLabels.mp hmem
    have hsome := hplaced op name (by simp)
    rw [hlookup] at hsome
    cases hsome

end Labels

/-! ### Writing -/

/-- Writing an operand gives its image, with the literal that it may bring into the pool. -/
theorem operandBytes_image {positions : List (Text × Nat)} {known : Text → Option Nat}
    {position : Nat} {pool : Pool} (hpool : pool.Faithful) {operand : Operand}
    (hknown : ∀ name, operand = .label name → known name = some ((positions.lookup name).getD 0)) :
    (operandBytes positions position pool operand).2.Faithful ∧
      (∃ new, (operandBytes positions position pool operand).2.strings.toList =
        pool.strings.toList ++ new) ∧
      (∀ s, operand = .literal s →
        s ∈ (operandBytes positions position pool operand).2.strings.toList) ∧
      (operandBytes positions position pool operand).1 =
        operand.image known (operandBytes positions position pool operand).2.strings.toList
          position := by
  have hsame : ∃ new, pool.strings.toList = pool.strings.toList ++ new := ⟨[], by simp⟩
  cases operand with
  | literal s =>
    obtain ⟨hfaithful, hindex, new, hnew, hmem⟩ := hpool.intern s
    refine ⟨hfaithful, ⟨new, hnew⟩, ?_, ?_⟩
    · intro t ht
      cases ht
      show s ∈ (pool.intern s).2.strings.toList
      rw [hnew]
      exact (hmem s).mpr (.inl rfl)
    · exact congrArg (Word.bytes 2) hindex
  | label name =>
    refine ⟨hpool, hsame, by simp, ?_⟩
    rw [Operand.image, hknown name rfl]
    rfl
  | _ => exact ⟨hpool, hsame, by simp, rfl⟩

/-- **Writing a program down gives its image.** -/
theorem write_image {positions : List (Text × Nat)} {known : Text → Option Nat}
    {program : List Statement} (hshaped : Shaped program)
    (hknown : ∀ op name, .instruction op (.label name) ∈ program →
      known name = some ((positions.lookup name).getD 0))
    {bytes : Array UInt8} {pool : Pool} (hpool : pool.Faithful) :
    (write positions bytes pool program).2.Faithful ∧
      (∃ new, (write positions bytes pool program).2.strings.toList =
        pool.strings.toList ++ new) ∧
      (∀ op s, .instruction op (.literal s) ∈ program →
        s ∈ (write positions bytes pool program).2.strings.toList) ∧
      (write positions bytes pool program).1.toList = bytes.toList ++
        image known (write positions bytes pool program).2.strings.toList bytes.size program := by
  induction program generalizing bytes pool with
  | nil => exact ⟨hpool, ⟨[], by simp [write]⟩, by simp, by simp [write, image, emitted]⟩
  | cons s rest ih =>
    have hknown' : ∀ op name, .instruction op (.label name) ∈ rest →
        known name = some ((positions.lookup name).getD 0) :=
      fun op name hmem => hknown op name (.tail _ hmem)
    cases s with
    | label name =>
      obtain ⟨hfaithful, hgrows, hliterals, hbytes⟩ := ih hshaped.tail hknown' hpool
      refine ⟨hfaithful, hgrows, fun op s hmem => ?_, hbytes⟩
      rcases List.mem_cons.mp hmem with heq | hmem
      · cases heq
      · exact hliterals op s hmem
    | instruction op operand =>
      have hlabel : ∀ name, operand = .label name →
          known name = some ((positions.lookup name).getD 0) :=
        fun name heq => hknown op name (heq ▸ .head _)
      obtain ⟨hone, ⟨new, hnew⟩, hliteral, hoperand⟩ := @operandBytes_image positions known
        bytes.size pool hpool operand hlabel
      have hlength : (operandBytes positions bytes.size pool operand).1.length =
          op.operand.size := by
        rw [hoperand, Operand.length_image, hshaped op operand (.head _)]
      rw [write]
      dsimp only
      generalize operandBytes positions bytes.size pool operand = written at *
      obtain ⟨stored, pool'⟩ := written
      dsimp only at hone hnew hliteral hoperand hlength ⊢
      generalize hbytes' : stored.foldl (fun acc b => acc.push b) (bytes.push op.code) = bytes'
      have hlist : bytes'.toList = bytes.toList ++ op.code :: stored := by
        rw [← hbytes']
        simp
      have hsize : bytes'.size = bytes.size + (1 + op.operand.size) := by
        rw [← Array.length_toList, hlist, List.length_append, List.length_cons, hlength,
          Array.length_toList, Nat.add_comm 1]
      obtain ⟨hfaithful, ⟨more, hmore⟩, hliterals, hwritten⟩ :=
        @ih hshaped.tail hknown' bytes' pool' hone
      refine ⟨hfaithful, ⟨new ++ more, ?_⟩, fun op' s hmem => ?_, ?_⟩
      · rw [hmore, hnew, List.append_assoc]
      · rcases List.mem_cons.mp hmem with heq | hmem
        · rw [hmore]
          exact List.mem_append_left _ (hliteral s (Statement.instruction.inj heq).2.symm)
        · exact hliterals op' s hmem
      · -- the operand was written with the pool of that moment, which has only grown since
        have hstored : stored = operand.image known
            (write positions bytes' pool' rest).2.strings.toList bytes.size := by
          rw [hmore, Operand.image_pool_append hliteral, hoperand]
        rw [hwritten, hlist, image_instruction, ← hstored, ← hsize, List.append_assoc,
          List.cons_append]

/-! ### Assembled code -/

section Assembled

variable {code : Code} {names : List Text} {source : Text}

/-- The code of a source that is accepted is what was written down of its program, and every label
that is used there is placed. -/
theorem codeOf_of_assemble (h : assemble names source = .ok code) :
    codeOf (linesOf names source) = code ∧
      ∀ op name, .instruction op (.label name) ∈ linesOf names source →
        (places (linesOf names source) name).isSome := by
  unfold assemble at h
  split at h
  · cases h
  · rename_i numbered hstatements
    have hprogram : numbered.map (·.statement) = linesOf names source :=
      statementsFrom_eq hstatements
    dsimp only at h
    rw [hprogram] at h
    split at h
    · rename_i hlabels
      refine ⟨Except.ok.inj h, fun op name hmem => ?_⟩
      exact undefinedLabels_eq_nil_iff.mp hlabels op name (hprogram ▸ hmem)
    · cases h

/-- **The code of a source that is accepted is the image of its program**, whatever its size; its
pool holds every literal of the program, and each once. -/
theorem image_of_assemble (h : assemble names source = .ok code) :
    code.bytes.toList = image (places (linesOf names source)) code.strings.toList 0
        (linesOf names source) ∧
      code.strings.toList.Nodup ∧
      ∀ op s, .instruction op (.literal s) ∈ linesOf names source → s ∈ code.strings.toList := by
  obtain ⟨hcode, hlabels⟩ := codeOf_of_assemble h
  have hknown : ∀ op name, .instruction op (.label name) ∈ linesOf names source →
      places (linesOf names source) name =
        some (((layout 0 (linesOf names source)).lookup name).getD 0) := by
    intro op name hmem
    obtain ⟨place, hplace⟩ := Option.isSome_iff_exists.mp (hlabels op name hmem)
    have hlookup : (layout 0 (linesOf names source)).lookup name = some place := hplace
    rw [hplace, hlookup]
    rfl
  obtain ⟨hfaithful, -, hliterals, hbytes⟩ :=
    @write_image _ _ _ (linesOf_shaped names source) hknown #[] {} Pool.faithful_empty
  have hstrings : code.strings =
      (write (layout 0 (linesOf names source)) #[] {} (linesOf names source)).2.strings :=
    congrArg Code.strings hcode.symm
  have hcodeBytes : code.bytes =
      (write (layout 0 (linesOf names source)) #[] {} (linesOf names source)).1 :=
    congrArg Code.bytes hcode.symm
  rw [← hstrings, ← hcodeBytes] at hbytes
  rw [← hstrings] at hliterals
  exact ⟨hbytes, hstrings ▸ hfaithful.nodup, hliterals⟩

end Assembled

/-- Code that was assembled from a source, within the sizes that operands can express. -/
structure Written (code : Code) (names : List Text) (source : Text) : Prop where
  assembled : assemble names source = .ok code
  bytes : code.bytes.size ≤ 32767
  literals : code.strings.size ≤ 65536
  slots : names.length ≤ 65536

namespace Written

variable {code : Code} {names : List Text} {source : Text}

theorem fitting (h : Written code names source) : Fitting (linesOf names source) :=
  fun _ _ hmem => (linesOf_fits h.slots hmem).2

theorem lookup_layout_le {program : List Statement} {position place : Nat} {name : Text}
    (h : (layout position program).lookup name = some place) :
    place ≤ position + programSize program := by
  fun_induction layout position program with
  | case1 => cases h
  | case2 position rest other ih =>
    rw [List.lookup_cons] at h
    rw [programSize_cons, Statement.size, Nat.zero_add]
    split at h
    · obtain rfl := Option.some.inj h
      omega
    · exact ih h
  | case3 position rest op operand ih =>
    have := ih h
    rw [programSize_cons]
    omega

theorem end_le_of_mem_emitted {program : List Statement} {offset : Nat} {e : Emission}
    (h : e ∈ emitted offset program) :
    e.offset + (1 + e.op.operand.size) ≤ offset + programSize program := by
  fun_induction emitted offset program with
  | case1 => cases h
  | case2 offset name rest ih =>
    have := ih h
    rw [programSize_cons]
    omega
  | case3 offset op operand rest ih =>
    rw [programSize_cons, Statement.size]
    rcases List.mem_cons.mp h with rfl | h
    · dsimp only
      omega
    · have := ih h
      omega

/-- **Assembled code is the image of its program**, and every operand in it is resolved. -/
theorem image (h : Written code names source) :
    code.bytes.toList = image (places (linesOf names source)) code.strings.toList 0
        (linesOf names source) ∧
      ∀ e ∈ emitted 0 (linesOf names source),
        e.operand.Resolved (places (linesOf names source)) code.strings.toList e.offset := by
  obtain ⟨-, hlabels⟩ := codeOf_of_assemble h.assembled
  obtain ⟨hbytes, -, hliterals⟩ := image_of_assemble h.assembled
  have hshaped := linesOf_shaped names source
  have hsize : programSize (linesOf names source) ≤ 32767 := by
    rw [← hshaped.length_image (places (linesOf names source)) code.strings.toList 0]
    refine le_of_eq_of_le ?_ h.bytes
    rw [← Array.length_toList, hbytes]
  refine ⟨hbytes, fun e he => ?_⟩
  have hmem := mem_of_mem_emitted he
  cases hoperand : e.operand with
  | literal s => exact hliterals e.op s (hoperand ▸ hmem)
  | label name =>
    rw [hoperand] at hmem
    obtain ⟨place, hplace⟩ := Option.isSome_iff_exists.mp (hlabels e.op name hmem)
    have hend := end_le_of_mem_emitted he
    have hle := lookup_layout_le hplace
    have hwidth : 2 = e.op.operand.size := hshaped e.op (.label name) hmem
    exact ⟨place, hplace, by omega, by omega⟩
  | _ => trivial

end Written

end SchemePlayer.Assembly
