import Mathlib.Data.List.Forall2
import SchemePlayer.Proofs.Assembly.Program

/-!
# Operands out of range

A number that stands in a source is refused when it does not fit the bytes that its operation has
for it. Three numbers stand in no source: how far a label is away, and the indices of a literal and
of a variable that is called by its name. These are worked out after their line was understood, and
cut to two bytes without a word. So a source is accepted however large it is, and its code says
what it says exactly where these numbers are in range:

- `Emission.inRange_of_readBy`: an operand that is out of range is read as another one.
- `decode_of_assemble`: **the code of a source that is accepted is decoded into its instructions.**
- `assembled_reads_iff`: **an instruction reads as its line says iff its operand is in range.**
- `Acceptable`, `assemble_of_acceptable`: what it takes to be accepted; no size is asked for.
- `farJump`: a source that is accepted with a jump that leads out of its code.
-/

namespace SchemePlayer

/-- Two bytes hold a distance of sixteen bits. -/
theorem Word.signedOfBytes_bounds {bs : List UInt8} (h : bs.length = 2) :
    -32768 ≤ signedOfBytes bs ∧ signedOfBytes bs ≤ 32767 := by
  have hwidth : Nat.pow 256 bs.length = 65536 := by rw [h]
  rw [signedOfBytes, hwidth]
  have hlow := Int.le_bmod (x := Word.ofBytes bs) (m := 65536) (by decide)
  have hhigh := Int.bmod_lt (x := Word.ofBytes bs) (m := 65536) (by decide)
  omega

namespace Assembly

/-! ### What is read -/

/-- **An operand that is out of range is not read as it was written.** -/
theorem Emission.inRange_of_readBy {places : Text → Option Nat} {pool : List Text} {e : Emission}
    (hnodup : pool.Nodup) (hliteral : ∀ s, e.operand = .literal s → s ∈ pool)
    (h : e.operand.ReadBy places pool (e.image places pool)) :
    e.operand.InRange places pool e.offset := by
  obtain ⟨offset, op, operand⟩ := e
  cases operand with
  | literal s =>
    have hs := hliteral s rfl
    refine ⟨hs, ?_⟩
    -- the literal is found under the index that is left of its own, so that nothing was cut off
    have hread : pool[Word.ofBytes (Word.bytes 2 (pool.idxOf s))]? = some s := h
    rw [Word.ofBytes_bytes] at hread
    obtain ⟨hlt, hget⟩ := List.getElem?_eq_some_iff.mp hread
    have hown : pool.idxOf s < pool.length := List.idxOf_lt_length_of_mem hs
    have hsame : pool.idxOf s % Nat.pow 256 2 = pool.idxOf s :=
      (hnodup.getElem_inj_iff).mp (hget.trans (List.getElem_idxOf hown).symm)
    rw [← hsame]
    exact Nat.mod_lt _ (by decide)
  | slot i =>
    have hread : Word.ofBytes (Word.bytes 2 i) = i := h
    rw [Word.ofBytes_bytes] at hread
    exact lt_of_eq_of_lt hread.symm (Nat.mod_lt _ (by decide))
  | byte n =>
    have hread : Word.ofBytes (Word.bytes 1 n) = n := h
    rw [Word.ofBytes_bytes] at hread
    exact lt_of_eq_of_lt hread.symm (Nat.mod_lt _ (by decide))
  | label name =>
    obtain ⟨place, hplace, htarget⟩ := h
    have hread : (offset : Int) + 3 +
        Word.signedOfBytes ((Operand.label name).image places pool offset) = place := htarget
    have hbounds := Word.signedOfBytes_bounds
      (Operand.length_image places pool offset (.label name))
    exact ⟨place, hplace, by dsimp only; omega, by dsimp only; omega⟩
  | _ => trivial

section Assembled

variable {names : List Text} {source : Text} {code : Code}

/-- **The code of a source that is accepted is decoded into its instructions**, whatever its
size. -/
theorem decode_of_assemble (h : assemble names source = .ok code) :
    decode code.bytes =
      ((emitted 0 (linesOf names source)).map
        (Emission.image (places (linesOf names source)) code.strings.toList), .finished) :=
  decodeFrom_encoded ((linesOf_shaped names source).chained _ _ 0) (image_of_assemble h).1

/-- **An instruction reads as its line says iff its operand is in range.** Whatever source is
accepted, the code is decoded to its end into the instructions of the lines, in order and at their
offsets. Each of them has the operation that its line says. It leads to its label, pushes its
literal, names its variable exactly if the distance is one of sixteen bits, or the index one of
two bytes. Which label, literal or variable that is, `means_of_mem_linesOf` reads from the text. -/
theorem assembled_reads_iff (h : assemble names source = .ok code) :
    ∃ is, decode code.bytes = (is, .finished) ∧
      List.Forall₂
        (fun e i => i.offset = e.offset ∧ i.op = e.op ∧
          (e.operand.ReadBy (places (linesOf names source)) code.strings.toList i ↔
            e.operand.InRange (places (linesOf names source)) code.strings.toList e.offset))
        (emitted 0 (linesOf names source)) is := by
  obtain ⟨-, hnodup, hliterals⟩ := image_of_assemble h
  refine ⟨_, decode_of_assemble h, ?_⟩
  rw [List.forall₂_map_right_iff, List.forall₂_same]
  intro e he
  refine ⟨rfl, rfl, Emission.inRange_of_readBy hnodup fun s hs => ?_, Emission.readBy_image⟩
  exact hliterals e.op s (hs ▸ mem_of_mem_emitted he)

end Assembled

/-- A jump over one instruction, which pushes a variable. -/
def nearJump : Text := "JUMP e\nPUSH_VAR X\ne:\n"

/-- Both operands are in range, so that both instructions read as they were written. -/
theorem assembled_reads_nearJump :
    ∃ code i j, assemble ["y", "x"] nearJump = .ok code ∧
      decode code.bytes = ([i, j], .finished) ∧
      i.op = .jump ∧ i.target = 6 ∧ j.op = .pushVar ∧ j.number = 1 := by
  have hassemble : assemble ["y", "x"] nearJump = .ok ⟨#[0x60, 3, 0, 0x20, 1, 0], #[]⟩ := by
    decide +kernel
  have hemitted : emitted 0 (linesOf ["y", "x"] nearJump) =
      [⟨0, .jump, .label "e"⟩, ⟨3, .pushVar, .slot 1⟩] := by decide +kernel
  have hplace : places (linesOf ["y", "x"] nearJump) "e" = some 6 := by decide +kernel
  obtain ⟨is, hdecode, hreads⟩ := assembled_reads_iff hassemble
  rw [hemitted] at hreads
  obtain ⟨i, _, ⟨-, hi, hjump⟩, hrest, rfl⟩ := List.forall₂_cons_left_iff.mp hreads
  obtain ⟨j, _, ⟨-, hj, hpush⟩, hend, rfl⟩ := List.forall₂_cons_left_iff.mp hrest
  obtain rfl := List.forall₂_nil_left_iff.mp hend
  obtain ⟨place, hp, htarget⟩ := hjump.mpr ⟨6, hplace, by decide, by decide⟩
  rw [hplace] at hp
  obtain rfl := Option.some.inj hp
  have hnumber : (1 : Nat) < 65536 := by decide
  exact ⟨_, i, j, hassemble, hdecode, hi, htarget, hj, hpush.mpr hnumber⟩

/-! ### What is accepted -/

/-- What it takes to be accepted: lines that are short enough and understood, labels that are
placed at most once, and at least once if something jumps to them. -/
structure Acceptable (names : List Text) (source : Text) : Prop where
  lengths : ∀ line ∈ lines source, line.length < lineLimit
  understood : ∀ line ∈ lines source, ∃ s, statementOf names (withoutReturn line) = .ok s
  once : ∀ name, (linesOf names source).count (.label name) ≤ 1
  placed : ∀ op name, .instruction op (.label name) ∈ linesOf names source →
    .label name ∈ linesOf names source

theorem statementsFrom_isOk {names : List Text} {ls : List Text}
    (hlengths : ∀ line ∈ ls, line.length < lineLimit)
    (hunderstood : ∀ line ∈ ls, ∃ s, statementOf names (withoutReturn line) = .ok s)
    (honce : ∀ name, (ls.filterMap (said? names)).count (.label name) ≤ 1) {placed : List Text}
    (hnew : ∀ name ∈ placed, .label name ∉ ls.filterMap (said? names)) (number : Nat) :
    ∃ numbered, statementsFrom names number placed ls = .ok numbered := by
  induction ls generalizing placed number with
  | nil => exact ⟨[], rfl⟩
  | cons line rest ih =>
    obtain ⟨hlength, hlengths⟩ := List.forall_mem_cons.mp hlengths
    obtain ⟨⟨said, hsaid⟩, hunderstood⟩ := List.forall_mem_cons.mp hunderstood
    have hfirst : said? names line = said := by rw [said?, hsaid]
    rw [List.filterMap_cons, hfirst] at hnew honce
    rw [statementsFrom, if_neg (Nat.not_le.mpr hlength), hsaid]
    cases said with
    | none => exact ih hlengths hunderstood honce hnew (number + 1)
    | some s =>
      -- what the other lines say is as good as before
      have hrest : ∀ name, (rest.filterMap (said? names)).count (.label name) ≤ 1 :=
        fun name => Nat.le_trans List.count_le_count_cons (honce name)
      have hold : ∀ name ∈ placed, .label name ∉ rest.filterMap (said? names) :=
        fun name hmem => fun hlater => hnew name hmem (List.mem_cons_of_mem _ hlater)
      cases s with
      | instruction op operand =>
        obtain ⟨more, hmore⟩ := ih hlengths hunderstood hrest hold (number + 1)
        exact ⟨_, by dsimp only; rw [hmore]⟩
      | label name =>
        have hfree : name ∉ placed := fun hmem => hnew name hmem (List.mem_cons_self ..)
        have hlast : .label name ∉ rest.filterMap (said? names) := by
          intro hlater
          have htwice := honce name
          rw [List.count_cons_self] at htwice
          have := List.count_pos_iff.mpr hlater
          omega
        have hnew : ∀ n ∈ name :: placed, .label n ∉ rest.filterMap (said? names) :=
          List.forall_mem_cons.mpr ⟨hlast, hold⟩
        obtain ⟨more, hmore⟩ := ih hlengths hunderstood hrest hnew (number + 1)
        exact ⟨_, by dsimp only; rw [if_neg hfree, hmore]⟩

/-- **A source that is acceptable is accepted**, however far its labels are away, however many
literals it has and however many variables there are. -/
theorem assemble_of_acceptable {names : List Text} {source : Text} (h : Acceptable names source) :
    assemble names source = .ok (codeOf (linesOf names source)) := by
  have hnew : ∀ name ∈ ([] : List Text), .label name ∉ linesOf names source :=
    fun _ hmem => absurd hmem List.not_mem_nil
  obtain ⟨numbered, hstatements⟩ := statementsFrom_isOk h.lengths h.understood h.once hnew 1
  have hprogram : numbered.map (·.statement) = linesOf names source := statementsFrom_eq hstatements
  have hdefined : undefinedLabels (layout 0 (linesOf names source)) [] numbered = [] := by
    refine undefinedLabels_eq_nil_iff.mpr fun op name hmem => ?_
    exact places_isSome.mpr (h.placed op name (hprogram ▸ hmem))
  have hfirst : statements names source = .ok numbered := hstatements
  rw [assemble, hfirst]
  dsimp only
  rw [hprogram, hdefined]

/-! ### A jump that is too far -/

theorem splitOn_line {line : Text} (h : 10 ∉ line) (rest : Text) :
    Text.splitOn 10 (line ++ 10 :: rest) = line :: Text.splitOn 10 rest := by
  induction line with
  | nil => rfl
  | cons c line ih =>
    obtain ⟨hc, hline⟩ := not_or.mp (mt List.mem_cons.mpr h)
    have hstep : Text.splitOn 10 (c :: (line ++ 10 :: rest)) =
        Text.splitStep 10 c (Text.splitOn 10 (line ++ 10 :: rest)) := rfl
    rw [List.cons_append, hstep, ih hline, Text.splitStep, if_neg (Ne.symm hc)]

/-- Lines that are written one below the other are read again. -/
theorem lines_flatMap {ls : List Text} (h : ∀ line ∈ ls, 10 ∉ line) :
    lines (ls.flatMap (· ++ [10])) = ls := by
  have hsplit : Text.splitOn 10 (ls.flatMap (· ++ [10])) = ls ++ [[]] := by
    induction ls with
    | nil => rfl
    | cons line rest ih =>
      obtain ⟨hline, hrest⟩ := List.forall_mem_cons.mp h
      rw [List.flatMap_cons, List.append_assoc, List.singleton_append, splitOn_line hline, ih hrest]
      rfl
  rw [lines, hsplit]
  simp

/-- A jump over so many instructions that do nothing. -/
def farLines (count : Nat) : List Text :=
  ("JUMP e" : Text) :: (List.replicate count ("NOP" : Text) ++ [("e:" : Text)])

/-- The source of such a jump. -/
def farJump (count : Nat) : Text := (farLines count).flatMap (· ++ [10])

theorem mem_farLines {count : Nat} {line : Text} (h : line ∈ farLines count) :
    line = "JUMP e" ∨ line = "NOP" ∨ line = "e:" := by
  rcases List.mem_cons.mp h with rfl | h
  · exact .inl rfl
  · rcases List.mem_append.mp h with h | h
    · exact .inr (.inl (List.eq_of_mem_replicate h))
    · exact .inr (.inr (List.mem_singleton.mp h))

theorem lines_farJump (count : Nat) : lines (farJump count) = farLines count := by
  refine lines_flatMap fun line hline => ?_
  rcases mem_farLines hline with rfl | rfl | rfl <;> decide +kernel

theorem linesOf_farJump (count : Nat) :
    linesOf [] (farJump count) =
      .instruction .jump (.label "e") ::
        (List.replicate count (.instruction .nop .none) ++ [.label "e"]) := by
  have hjump : said? [] "JUMP e" = some (.instruction .jump (.label "e")) := by decide +kernel
  have hnop : said? [] "NOP" = some (.instruction .nop .none) := by decide +kernel
  have hend : said? [] "e:" = some (.label "e") := by decide +kernel
  rw [linesOf, lines_farJump, farLines, List.filterMap_cons, hjump, List.filterMap_append,
    List.filterMap_replicate_of_some hnop]
  simp only [List.filterMap_cons, hend, List.filterMap_nil]

theorem acceptable_farJump (count : Nat) : Acceptable [] (farJump count) where
  lengths line hline := by
    rw [lines_farJump] at hline
    rcases mem_farLines hline with rfl | rfl | rfl <;> decide +kernel
  understood line hline := by
    rw [lines_farJump] at hline
    rcases mem_farLines hline with rfl | rfl | rfl
    · exact ⟨some (.instruction .jump (.label "e")), by decide +kernel⟩
    · exact ⟨some (.instruction .nop .none), by decide +kernel⟩
    · exact ⟨some (.label "e"), by decide +kernel⟩
  once name := by
    rw [linesOf_farJump, List.count_cons, List.count_append, List.count_replicate]
    simp only [beq_iff_eq, reduceCtorEq, if_false, Nat.add_zero, Nat.zero_add]
    exact List.count_le_length
  placed op name hmem := by
    rw [linesOf_farJump] at hmem ⊢
    simp only [List.mem_cons, List.mem_append, List.mem_replicate, Statement.instruction.injEq,
      Operand.label.injEq, reduceCtorEq, and_false, List.not_mem_nil, or_false] at hmem
    rw [hmem.2]
    simp

theorem places_farJump (count : Nat) :
    places (linesOf [] (farJump count)) "e" = some (count + 3) := by
  have hnops : ∀ position,
      layout position (List.replicate count (.instruction .nop .none)) = [] := by
    intro position
    induction count generalizing position with
    | zero => rfl
    | succ count ih => exact ih _
  have hsize : programSize (List.replicate count (.instruction .nop .none)) = count := by
    simp [programSize, Statement.size, Opcode.operand, Opcode.info, OperandKind.size]
  rw [places, linesOf_farJump, layout, layout_append, hnops, hsize]
  show some (3 + count) = some (count + 3)
  rw [Nat.add_comm]

/-- **A jump that is too far is cut without a word.** The label is forty thousand bytes away, more
than a distance of sixteen bits. The source is accepted, and the jump leads to a place before the
beginning of the code. -/
theorem farJump_cut :
    ∃ code i is, assemble [] (farJump 40000) = .ok code ∧
      decode code.bytes = (i :: is, .finished) ∧ i.op = .jump ∧ i.offset = 0 ∧
      places (linesOf [] (farJump 40000)) "e" = some 40003 ∧ i.target = -25533 := by
  have hassemble := assemble_of_acceptable (acceptable_farJump 40000)
  have hplace : places (linesOf [] (farJump 40000)) "e" = some 40003 := places_farJump 40000
  have hdecode := decode_of_assemble hassemble
  obtain ⟨es, hes⟩ : ∃ es, emitted 0 (linesOf [] (farJump 40000)) =
      ⟨0, .jump, .label "e"⟩ :: es := by
    rw [linesOf_farJump]
    exact ⟨_, rfl⟩
  rw [hes, List.map_cons] at hdecode
  generalize codeOf (linesOf [] (farJump 40000)) = code at hassemble hdecode
  generalize linesOf [] (farJump 40000) = program at hplace hdecode
  refine ⟨code, _, _, hassemble, hdecode, rfl, rfl, hplace, ?_⟩
  have himage : (Operand.label "e").image (places program) code.strings.toList 0 =
      Word.signedBytes 2 40000 := by
    rw [Operand.image, hplace]
    rfl
  show (0 : Int) + 3 + Word.signedOfBytes
    ((Operand.label "e").image (places program) code.strings.toList 0) = -25533
  rw [himage]
  decide

end Assembly

end SchemePlayer
