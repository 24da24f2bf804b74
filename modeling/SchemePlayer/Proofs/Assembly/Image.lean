import Mathlib.Data.List.Nodup
import SchemePlayer.Assembly.Program
import SchemePlayer.Proofs.Bytecode.Decode
import SchemePlayer.Proofs.Number.Bits

/-!
# The image of a program

A program is a list of labels and instructions whose operands are understood. Once every label
has a place and every literal an index, each instruction has its bytes, and the bytes say what
the operand said. Assembler and builder come by places and indices in different ways; what they
share is here:

- `Pool.Faithful`: the index of a pool knows each literal once, at its place in the pool.
- `emitted`: the instructions of a program, each with the offset at which it stands.
- `Emission.image`: the instruction in bytes. A label that has no place yet leaves a gap.
- `Operand.ReadBy`: an instruction reads an operand: the same number, text or destination.
- `Emission.readBy_image`: **the image of an instruction reads as its operand**, if the operand is
  in the range that its bytes can express (`Operand.InRange`).
-/

namespace SchemePlayer

/-! ### Literals -/

/-- Every literal of a pool is there once, and the index has its place. -/
structure Pool.Faithful (p : Pool) : Prop where
  nodup : p.strings.toList.Nodup
  index : ∀ s, p.index[s]? =
    if s ∈ p.strings.toList then some (p.strings.toList.idxOf s) else none

theorem Pool.faithful_empty : Pool.Faithful {} :=
  ⟨List.nodup_nil, fun s => by simp⟩

/-- A literal that is interned is in the pool, where its index says; the literals before it keep
their places. -/
theorem Pool.Faithful.intern {p : Pool} (h : p.Faithful) (s : Text) :
    (p.intern s).2.Faithful ∧
      (p.intern s).1 = (p.intern s).2.strings.toList.idxOf s ∧
      ∃ new, (p.intern s).2.strings.toList = p.strings.toList ++ new ∧
        (∀ t, t ∈ p.strings.toList ++ new ↔ t = s ∨ t ∈ p.strings.toList) := by
  unfold Pool.intern
  rw [h.index s]
  by_cases hs : s ∈ p.strings.toList
  · rw [if_pos hs]
    refine ⟨h, rfl, [], by simp, fun t => ?_⟩
    rw [List.append_nil]
    exact ⟨.inr, fun ht => ht.elim (fun heq => heq ▸ hs) id⟩
  · rw [if_neg hs]
    dsimp only
    rw [Array.toList_push, List.idxOf_append_of_notMem hs]
    refine ⟨⟨?_, fun t => ?_⟩, by simp, [s], rfl, fun t => ?_⟩
    · rw [Array.toList_push, List.nodup_append]
      refine ⟨h.nodup, List.nodup_singleton s, fun a ha b hb heq => hs ?_⟩
      rw [List.mem_singleton] at hb
      exact (heq.trans hb) ▸ ha
    · -- the new literal stands behind the old ones
      rw [Std.HashMap.getElem?_insert, h.index t, Array.toList_push]
      by_cases heq : s = t
      · subst heq
        simp [List.idxOf_append_of_notMem hs]
      · rw [if_neg (by simpa using heq)]
        by_cases ht : t ∈ p.strings.toList
        · rw [if_pos ht, if_pos (List.mem_append_left _ ht), List.idxOf_append_of_mem ht]
        · have hnew : t ∉ p.strings.toList ++ [s] := by
            rw [List.mem_append, List.mem_singleton]
            exact fun hmem => hmem.elim ht fun h => heq h.symm
          rw [if_neg ht, if_neg hnew]
    · rw [List.mem_append, List.mem_singleton, or_comm]

namespace Assembly

/-! ### Instructions with their offsets -/

/-- An instruction that stands at an offset, its operand not yet in bytes. -/
structure Emission where
  offset : Nat
  op : Opcode
  operand : Operand
  deriving DecidableEq

/-- The number of bytes of a program. -/
def programSize (program : List Statement) : Nat := (program.map Statement.size).sum

/-- The instructions of a program that begins at an offset. -/
def emitted : Nat → List Statement → List Emission
  | _, [] => []
  | offset, .label _ :: rest => emitted offset rest
  | offset, .instruction op operand :: rest =>
    ⟨offset, op, operand⟩ :: emitted (offset + (1 + op.operand.size)) rest

@[simp] theorem programSize_nil : programSize [] = 0 := rfl

@[simp] theorem programSize_cons (s : Statement) (rest : List Statement) :
    programSize (s :: rest) = s.size + programSize rest := by
  simp [programSize]

@[simp] theorem programSize_append (a b : List Statement) :
    programSize (a ++ b) = programSize a + programSize b := by
  simp [programSize]

theorem emitted_append (offset : Nat) (a b : List Statement) :
    emitted offset (a ++ b) = emitted offset a ++ emitted (offset + programSize a) b := by
  fun_induction emitted offset a with
  | case1 => rfl
  | case2 offset name rest ih =>
    rw [List.cons_append, emitted, ih, programSize_cons, Statement.size, Nat.zero_add]
  | case3 offset op operand rest ih =>
    rw [List.cons_append, emitted, ih, programSize_cons, Statement.size, List.cons_append,
      Nat.add_assoc offset]

theorem layout_append (position : Nat) (a b : List Statement) :
    layout position (a ++ b) = layout position a ++ layout (position + programSize a) b := by
  fun_induction layout position a with
  | case1 => rfl
  | case2 position rest name ih =>
    rw [List.cons_append, layout, ih, programSize_cons, Statement.size, Nat.zero_add,
      List.cons_append]
  | case3 position rest op operand ih =>
    rw [List.cons_append, layout, ih, programSize_cons, ← Nat.add_assoc]

/-! ### Images -/

/-- The bytes of an operand whose instruction stands at an offset, once labels have places and
literals are in a pool. -/
def Operand.image (places : Text → Option Nat) (pool : List Text) (offset : Nat) :
    Operand → List UInt8
  | .none => []
  | .float x => Word.bytes 8 (Binary64.codeBits x).toNat
  | .int n => Word.signedBytes 4 n
  | .literal s => Word.bytes 2 (pool.idxOf s)
  | .slot i => Word.bytes 2 i
  | .label name =>
    match places name with
    | .some place => Word.signedBytes 2 ((place : Int) - (offset + 3))
    | .none => [0, 0]
  | .byte n => Word.bytes 1 n

/-- The number of bytes that an operand is stored in. -/
def Operand.width : Operand → Nat
  | .none => 0
  | .float _ => 8
  | .int _ => 4
  | .literal _ => 2
  | .slot _ => 2
  | .label _ => 2
  | .byte _ => 1

theorem Operand.length_image (places : Text → Option Nat) (pool : List Text) (offset : Nat)
    (operand : Operand) : (operand.image places pool offset).length = operand.width := by
  cases operand with
  | none => rfl
  | label name =>
    rw [Operand.image]
    split
    · exact Word.length_signedBytes _ _
    · rfl
  | int n => exact Word.length_signedBytes _ _
  | _ => exact Word.length_bytes _ _

/-- An operand can be stored in so many bytes. -/
def Operand.Fits : Operand → Nat → Prop
  | .none, width => width = 0
  | .float _, width => width = 8
  | .int _, width => width = 4
  | .literal _, width => width = 2
  | .slot i, width => width = 2 ∧ i < 65536
  | .label _, width => width = 2
  | .byte n, width => width = 1 ∧ n < 256

theorem Operand.Fits.width_eq {operand : Operand} {width : Nat} (h : operand.Fits width) :
    operand.width = width := by
  cases operand with
  | slot i => exact h.1.symm
  | byte n => exact h.1.symm
  | _ => exact Eq.symm h

/-- What an operand says is what an instruction reads: a number, a literal of the pool, the
place of a label. -/
def Operand.ReadBy (places : Text → Option Nat) (pool : List Text) (i : Instruction) :
    Operand → Prop
  | .none => i.operand = []
  | .float x => i.float = x
  | .int n => i.handle = Int32.ofInt n
  | .literal s => pool[i.number]? = some s
  | .slot index => i.number = index
  | .label name => ∃ place, places name = some place ∧ i.target = place
  | .byte n => i.number = n

/-- What an operand needs in order to be read again: its literal is in the pool, its label has a
place that is near enough. -/
def Operand.Resolved (places : Text → Option Nat) (pool : List Text) (offset : Nat) :
    Operand → Prop
  | .literal s => s ∈ pool
  | .label name => ∃ place, places name = some place ∧
      -32768 ≤ (place : Int) - (offset + 3) ∧ (place : Int) - (offset + 3) ≤ 32767
  | _ => True

/-- What an operand says can be told by the bytes that it has: its label is near enough, and the
index of its literal or of its variable is not too large. -/
def Operand.InRange (places : Text → Option Nat) (pool : List Text) (offset : Nat) :
    Operand → Prop
  | .literal s => s ∈ pool ∧ pool.idxOf s < 65536
  | .slot i => i < 65536
  | .label name => ∃ place, places name = some place ∧
      -32768 ≤ (place : Int) - (offset + 3) ∧ (place : Int) - (offset + 3) ≤ 32767
  | .byte n => n < 256
  | _ => True

/-- A pool that is not too large has no index that is. -/
theorem Operand.Resolved.inRange {places : Text → Option Nat} {pool : List Text} {offset width : Nat}
    {operand : Operand} (h : operand.Resolved places pool offset) (hfits : operand.Fits width)
    (hpool : pool.length ≤ 65536) : operand.InRange places pool offset := by
  cases operand with
  | literal s => exact ⟨h, Nat.lt_of_lt_of_le (List.idxOf_lt_length_of_mem h) hpool⟩
  | slot i => exact hfits.2
  | label name => exact h
  | byte n => exact hfits.2
  | _ => trivial

namespace Emission

/-- The instruction in bytes. -/
def image (places : Text → Option Nat) (pool : List Text) (e : Emission) : Instruction :=
  ⟨e.offset, e.op, e.operand.image places pool e.offset⟩

variable {places : Text → Option Nat} {pool : List Text} {e : Emission}

theorem isWhole_image (h : e.operand.width = e.op.operand.size) :
    (e.image places pool).IsWhole :=
  (Operand.length_image ..).trans h

theorem size_image (h : e.operand.width = e.op.operand.size) :
    (e.image places pool).size = 1 + e.op.operand.size := by
  rw [Instruction.size]
  exact congrArg (1 + ·) (isWhole_image h)

/-- **The image of an instruction reads as its operand.** -/
theorem readBy_image (h : e.operand.InRange places pool e.offset) :
    e.operand.ReadBy places pool (e.image places pool) := by
  obtain ⟨offset, op, operand⟩ := e
  cases operand with
  | none => rfl
  | float x =>
    show Float.ofBits (Word.ofBytes (Word.bytes 8 (Binary64.codeBits x).toNat)).toUInt64 = x
    have hlt : (Binary64.codeBits x).toNat < Nat.pow 256 8 := (Binary64.codeBits x).toNat_lt_size
    rw [Word.ofBytes_bytes, Nat.mod_eq_of_lt hlt]
    exact (congrArg Float.ofBits (UInt64.ofNat_toNat)).trans (Binary64.ofBits_codeBits x)
  | int n => exact Word.handle_signedBytes n
  | literal s =>
    obtain ⟨hs, hlt⟩ := h
    show pool[Word.ofBytes (Word.bytes 2 (pool.idxOf s))]? = some s
    have hnumber : Word.ofBytes (Word.bytes 2 (pool.idxOf s)) = pool.idxOf s := by
      rw [Word.ofBytes_bytes]
      exact Nat.mod_eq_of_lt hlt
    rw [hnumber, List.getElem?_eq_getElem (List.idxOf_lt_length_of_mem hs), List.getElem_idxOf]
  | slot i =>
    show Word.ofBytes (Word.bytes 2 i) = i
    rw [Word.ofBytes_bytes]
    exact Nat.mod_eq_of_lt h
  | byte n =>
    show Word.ofBytes (Word.bytes 1 n) = n
    rw [Word.ofBytes_bytes]
    exact Nat.mod_eq_of_lt h
  | label name =>
    obtain ⟨place, hplace, hlow, hhigh⟩ := h
    dsimp only at hlow hhigh
    refine ⟨place, hplace, ?_⟩
    have himage : (Operand.label name).image places pool offset =
        Word.signedBytes 2 ((place : Int) - (offset + 3)) := by
      rw [Operand.image, hplace]
    show (offset : Int) + 3 + Word.signedOfBytes ((Operand.label name).image places pool offset) =
      place
    rw [himage, Word.signedOfBytes_signedBytes hlow hhigh]
    omega

end Emission

/-- The bytes of a program that begins at an offset. -/
def image (places : Text → Option Nat) (pool : List Text) (offset : Nat)
    (program : List Statement) : List UInt8 :=
  ((emitted offset program).map (Emission.image places pool)).flatMap Instruction.encode

/-- Every operand of a program takes as many bytes as its operation has for it. -/
def Shaped (program : List Statement) : Prop :=
  ∀ op operand, .instruction op operand ∈ program → operand.width = op.operand.size

theorem Shaped.tail {s : Statement} {rest : List Statement} (h : Shaped (s :: rest)) :
    Shaped rest := fun op operand hmem => h op operand (.tail _ hmem)

/-- Every operand of a program fits its operation. -/
def Fitting (program : List Statement) : Prop :=
  ∀ op operand, .instruction op operand ∈ program → operand.Fits op.operand.size

theorem Fitting.tail {s : Statement} {rest : List Statement} (h : Fitting (s :: rest)) :
    Fitting rest := fun op operand hmem => h op operand (.tail _ hmem)

theorem Fitting.shaped {program : List Statement} (h : Fitting program) : Shaped program :=
  fun op operand hmem => (h op operand hmem).width_eq

/-- What is emitted is an instruction of the program. -/
theorem mem_of_mem_emitted {program : List Statement} {offset : Nat} {e : Emission}
    (he : e ∈ emitted offset program) : .instruction e.op e.operand ∈ program := by
  fun_induction emitted offset program with
  | case1 => cases he
  | case2 offset name rest ih => exact .tail _ (ih he)
  | case3 offset op operand rest ih =>
    rcases List.mem_cons.mp he with rfl | he
    · exact .head _
    · exact .tail _ (ih he)

theorem Fitting.of_mem_emitted {program : List Statement} (h : Fitting program) {offset : Nat}
    {e : Emission} (he : e ∈ emitted offset program) : e.operand.Fits e.op.operand.size :=
  h e.op e.operand (mem_of_mem_emitted he)

/-- The instructions of a program stand one after another. -/
theorem Shaped.chained {program : List Statement} (h : Shaped program)
    (places : Text → Option Nat) (pool : List Text) (offset : Nat) :
    Chained offset ((emitted offset program).map (Emission.image places pool)) := by
  fun_induction emitted offset program with
  | case1 => trivial
  | case2 offset name rest ih => exact ih h.tail
  | case3 offset op operand rest ih =>
    have hwidth := h op operand (.head _)
    refine ⟨rfl, Emission.isWhole_image hwidth, ?_⟩
    rw [Emission.size_image hwidth]
    exact ih h.tail

theorem image_instruction (places : Text → Option Nat) (pool : List Text) (offset : Nat)
    (op : Opcode) (operand : Operand) (rest : List Statement) :
    image places pool offset (.instruction op operand :: rest) =
      op.code :: (operand.image places pool offset ++
        image places pool (offset + (1 + op.operand.size)) rest) := rfl

theorem image_append (places : Text → Option Nat) (pool : List Text) (offset : Nat)
    (a b : List Statement) :
    image places pool offset (a ++ b) =
      image places pool offset a ++ image places pool (offset + programSize a) b := by
  rw [image, emitted_append, List.map_append, List.flatMap_append]
  rfl

theorem Shaped.length_image {program : List Statement} (h : Shaped program)
    (places : Text → Option Nat) (pool : List Text) (offset : Nat) :
    (image places pool offset program).length = programSize program := by
  unfold image
  fun_induction emitted offset program with
  | case1 => rfl
  | case2 offset name rest ih =>
    rw [ih h.tail, programSize_cons, Statement.size, Nat.zero_add]
  | case3 offset op operand rest ih =>
    rw [List.map_cons, List.flatMap_cons, List.length_append, Instruction.length_encode,
      Emission.size_image (h op operand (.head _)), ih h.tail, programSize_cons, Statement.size]

/-- Literals that come into the pool later change nothing for an operand whose own is there. -/
theorem Operand.image_pool_append {places : Text → Option Nat} {pool : List Text} {operand : Operand}
    (h : ∀ s, operand = .literal s → s ∈ pool) (new : List Text) (offset : Nat) :
    operand.image places (pool ++ new) offset = operand.image places pool offset := by
  cases operand with
  | literal s => rw [Operand.image, Operand.image, List.idxOf_append_of_mem (h s rfl)]
  | _ => rfl

theorem image_pool_append {places : Text → Option Nat} {pool : List Text} {offset : Nat}
    {program : List Statement}
    (h : ∀ op s, .instruction op (.literal s) ∈ program → s ∈ pool) (new : List Text) :
    image places (pool ++ new) offset program = image places pool offset program := by
  unfold image
  congr 1
  refine List.map_congr_left fun e he => ?_
  have hown : ∀ s, e.operand = .literal s → s ∈ pool :=
    fun s hs => h e.op s (hs ▸ mem_of_mem_emitted he)
  rw [Emission.image, Operand.image_pool_append hown]
  rfl

/-- Where the labels of a program are. -/
def places (program : List Statement) (name : Text) : Option Nat := (layout 0 program).lookup name

/-- An instruction places no label. -/
theorem places_instruction (program : List Statement) (op : Opcode) (operand : Operand) :
    places (program ++ [.instruction op operand]) = places program := by
  funext name
  rw [places, layout_append, layout, layout, List.append_nil]
  rfl

/-- A label is where it was placed first. -/
theorem places_label (program : List Statement) (name other : Text) :
    places (program ++ [.label name]) other =
      (places program other).or (if other = name then some (programSize program) else none) := by
  rw [places, layout_append, List.lookup_append, layout, layout, Nat.zero_add]
  congr 1
  rw [List.lookup_cons]
  by_cases heq : other = name
  · simp [heq]
  · have : (other == name) = false := by simpa using heq
    rw [this, if_neg heq]
    rfl

/-- A label has a place if it is one of the program's. -/
theorem places_isSome {program : List Statement} {name : Text} :
    (places program name).isSome ↔ .label name ∈ program := by
  unfold places
  generalize 0 = position
  fun_induction layout position program with
  | case1 => simp
  | case2 position rest other ih =>
    rw [List.lookup_cons, List.mem_cons, ← ih]
    by_cases heq : name = other
    · simp [heq]
    · have : (name == other) = false := by simpa using heq
      rw [this]
      simp [heq]
  | case3 position rest op operand ih =>
    rw [List.mem_cons, ← ih]
    simp

end Assembly

end SchemePlayer
