import SchemePlayer.Machine.Basic
import SchemePlayer.Proofs.Assembly.Meaning

/-!
# Lines and offsets

Assembled code is the list of its lines in another notation. Each line has an offset, that of the
first byte of its instruction; a label has the offset of what follows it. At the offset of a line
that holds an instruction, that instruction is fetched, and it reads as the operand on the line.

- `next?`: the next line with an instruction, labels passed over.
- `offsetOf_injective`: lines with instructions are at different offsets.
- `Written.fetch`: **where a line is, its instruction is fetched.**
- `Written.fetch_end`: behind the last instruction the code ends.
-/

namespace SchemePlayer.Assembly

/-! ### Walking over lines -/

/-- The first instruction of a program whose lines are numbered from `line`. -/
def instructionFrom : Nat → List Statement → Option (Nat × Opcode × Operand)
  | _, [] => none
  | line, .label _ :: rest => instructionFrom (line + 1) rest
  | line, .instruction op operand :: _ => some (line, op, operand)

/-- The next line with an instruction, from a line on. -/
def next? (program : List Statement) (line : Nat) : Option (Nat × Opcode × Operand) :=
  instructionFrom line (program.drop line)

variable {program : List Statement} {line : Nat}

theorem offsetOf_succ {s : Statement} (h : program[line]? = some s) :
    offsetOf program (line + 1) = offsetOf program line + s.size := by
  unfold offsetOf
  rw [List.take_add_one, h, programSize_append]
  simp

theorem offsetOf_mono (program : List Statement) {line line' : Nat} (h : line ≤ line') :
    offsetOf program line ≤ offsetOf program line' := by
  obtain ⟨k, rfl⟩ := Nat.exists_eq_add_of_le h
  rw [offsetOf, offsetOf, List.take_add, programSize_append]
  exact Nat.le_add_right _ _

/-- **Lines with instructions are at different offsets.** -/
theorem offsetOf_injective {line' : Nat} {op op' : Opcode} {operand operand' : Operand}
    (h : program[line]? = some (.instruction op operand))
    (h' : program[line']? = some (.instruction op' operand'))
    (heq : offsetOf program line = offsetOf program line') : line = line' := by
  have hsize : ∀ op operand, 0 < (Statement.instruction op operand).size := by
    intro op operand
    rw [Statement.size]
    omega
  have hafter := offsetOf_succ h
  have hafter' := offsetOf_succ h'
  have hpos := hsize op operand
  have hpos' := hsize op' operand'
  rcases Nat.lt_trichotomy line line' with hlt | hsame | hgt
  · have := offsetOf_mono program (show line + 1 ≤ line' by omega)
    omega
  · exact hsame
  · have := offsetOf_mono program (show line' + 1 ≤ line by omega)
    omega

theorem instructionFrom_some {rest : List Statement} {k : Nat} {op : Opcode} {operand : Operand}
    (h : instructionFrom line rest = some (k, op, operand)) :
    line ≤ k ∧ rest[k - line]? = some (.instruction op operand) ∧
      programSize (rest.take (k - line)) = 0 := by
  fun_induction instructionFrom line rest with
  | case1 => cases h
  | case2 line name rest ih =>
    obtain ⟨hle, hget, hsize⟩ := ih h
    have hsub : k - line = k - (line + 1) + 1 := by omega
    rw [hsub, List.getElem?_cons_succ, List.take_succ_cons, programSize_cons, Statement.size,
      Nat.zero_add]
    exact ⟨by omega, hget, hsize⟩
  | case3 line op' operand' rest =>
    obtain ⟨rfl, rfl, rfl⟩ : line = k ∧ op' = op ∧ operand' = operand := by simpa using h
    rw [Nat.sub_self]
    exact ⟨Nat.le_refl _, rfl, rfl⟩

/-- The next line with an instruction is at the same offset: only labels are in between. -/
theorem next?_some {k : Nat} {op : Opcode} {operand : Operand}
    (h : next? program line = some (k, op, operand)) :
    program[k]? = some (.instruction op operand) ∧ offsetOf program k = offsetOf program line := by
  obtain ⟨hle, hget, hsize⟩ := instructionFrom_some h
  have hk : k = line + (k - line) := by omega
  constructor
  · rw [List.getElem?_drop] at hget
    rwa [hk]
  · rw [hk, offsetOf, List.take_add, programSize_append, hsize]
    rfl

theorem next?_none (h : next? program line = none) :
    offsetOf program line = programSize program := by
  have hlabels : ∀ line rest, instructionFrom line rest = none → programSize rest = 0 := by
    intro line rest h
    fun_induction instructionFrom line rest with
    | case1 => rfl
    | case2 line name rest ih =>
      rw [programSize_cons, ih h]
      rfl
    | case3 => cases h
  have hsplit := programSize_append (program.take line) (program.drop line)
  rw [List.take_append_drop, hlabels _ _ h] at hsplit
  exact hsplit.symm

/-! ### Fetching -/

namespace Written

variable {code : Code} {names : List Text} {source : Text}

theorem size_eq (h : Written code names source) :
    code.bytes.size = programSize (linesOf names source) := by
  rw [← Array.length_toList, h.image.1, h.fitting.shaped.length_image]

/-- **Where a line is, its instruction is fetched**, and reads as the operand on the line. -/
theorem fetch (h : Written code names source) {op : Opcode} {operand : Operand}
    (hline : (linesOf names source)[line]? = some (.instruction op operand)) :
    ∃ i, code.bytes[offsetOf (linesOf names source) line]? = some op.code ∧
      Instruction.fetchAt code.bytes (offsetOf (linesOf names source) line) op.code = .ok i ∧
      i.op = op ∧ i.offset = offsetOf (linesOf names source) line ∧
      i.size = (Statement.instruction op operand).size ∧
      operand.ReadBy (places (linesOf names source)) code.strings.toList i ∧
      operand.kind = op.operand := by
  obtain ⟨hbytes, hresolved⟩ := h.image
  have hfitting := h.fitting
  have hmem : .instruction op operand ∈ linesOf names source := List.mem_of_getElem? hline
  have hkind := linesOf_fits h.slots hmem
  generalize hprogram : linesOf names source = program at *
  have hsplit : program =
      program.take line ++ .instruction op operand :: program.drop (line + 1) := by
    obtain ⟨hlt, hget⟩ := List.getElem?_eq_some_iff.mp hline
    rw [← hget, ← List.drop_eq_getElem_cons hlt, List.take_append_drop]
  let e : Emission := ⟨offsetOf program line, op, operand⟩
  -- what stands before the line takes as many bytes as its offset says
  have hbefore : Fitting (program.take line) :=
    fun op operand hmem => hfitting op operand (List.mem_of_mem_take hmem)
  have hemitted : emitted 0 program = emitted 0 (program.take line) ++
      e :: emitted (offsetOf program line + (1 + op.operand.size)) (program.drop (line + 1)) := by
    conv_lhs => rw [hsplit, emitted_append, Nat.zero_add]
    rfl
  have hdrop : code.bytes.toList.drop (e.image (places program) code.strings.toList).offset =
      (e.image (places program) code.strings.toList).encode ++
        Assembly.image (places program) code.strings.toList
          (offsetOf program line + (1 + op.operand.size)) (program.drop (line + 1)) := by
    have hlength := hbefore.shaped.length_image (places program) code.strings.toList 0
    rw [hbytes, Assembly.image, hemitted, List.map_append, List.flatMap_append, List.map_cons,
      List.flatMap_cons]
    exact List.drop_left' hlength
  have hwhole : (e.image (places program) code.strings.toList).IsWhole :=
    Emission.isWhole_image hkind.2.width_eq
  obtain ⟨hcode, hfetch⟩ := Instruction.fetchAt_encode hwhole hdrop
  refine ⟨e.image (places program) code.strings.toList, hcode, hfetch, rfl, rfl,
    Emission.size_image hkind.2.width_eq, ?_, hkind.1⟩
  refine Emission.readBy_image ((hresolved e ?_).inRange hkind.2 (by simpa using h.literals))
  rw [hemitted]
  exact List.mem_append_right _ (.head _)

/-- Behind the last instruction the code ends. -/
theorem fetch_end (h : Written code names source)
    (hnone : next? (linesOf names source) line = none) :
    code.bytes[offsetOf (linesOf names source) line]? = none := by
  rw [next?_none hnone, ← h.size_eq]
  simp

end Written

end SchemePlayer.Assembly
