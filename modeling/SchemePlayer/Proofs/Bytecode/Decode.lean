import Mathlib.Data.List.Basic
import SchemePlayer.Bytecode.Instruction

/-!
# Decoding

Bytes and instructions are two views of the same code. An instruction that stands in a string of
bytes is fetched from there, a string made of instructions is decoded into them, and what is
decoded of any string spells a beginning of it:

- `Word.signedOfBytes_signedBytes`, `Word.handle_signedBytes`: operands are read as written.
- `Instruction.fetchAt_encode`: fetching where an instruction stands.
- `Chained`: instructions that stand one after another.
- `decodeFrom_encoded`: **code made of instructions is decoded into them, to its end.**
- `decodeUpTo_spells`: **what is decoded spells the beginning of the code**, and `Stopped` says
  why the walk went no further.
-/

namespace SchemePlayer

/-! ### Operands -/

namespace Word

@[simp] theorem length_signedBytes (width : Nat) (n : Int) :
    (signedBytes width n).length = width :=
  length_bytes _ _

/-- Only so many bytes of a number are stored. -/
theorem bytes_mod (width n : Nat) : bytes width (n % Nat.pow 256 width) = bytes width n := by
  induction width generalizing n with
  | zero => rfl
  | succ width ih =>
    have hnext : Nat.pow 256 (width + 1) = 256 * Nat.pow 256 width := Nat.mul_comm _ _
    rw [bytes, bytes, hnext, Nat.mod_mul_right_mod, Nat.mod_mul_right_div_self, ih]

theorem signedBytes_natCast (width n : Nat) : signedBytes width n = bytes width n := by
  rw [signedBytes, ← Int.natCast_emod, Int.toNat_natCast, bytes_mod]

/-- What is stored of an integer is its remainder. -/
theorem ofBytes_signedBytes (width : Nat) (n : Int) :
    (ofBytes (signedBytes width n) : Int) = n % (Nat.pow 256 width : Nat) := by
  have hpos : (0 : Int) < (Nat.pow 256 width : Nat) := by
    exact_mod_cast Nat.pow_pos (n := width) (show 0 < 256 by decide)
  have hnonneg := Int.emod_nonneg n (Int.ne_of_gt hpos)
  have hlt := Int.emod_lt_of_pos n hpos
  have hcast : ((n % (Nat.pow 256 width : Nat)).toNat : Int) = n % (Nat.pow 256 width : Nat) :=
    Int.toNat_of_nonneg hnonneg
  rw [signedBytes, ofBytes_bytes, Nat.mod_eq_of_lt (by omega), hcast]

/-- **A distance that fits two bytes is read as it was written.** -/
theorem signedOfBytes_signedBytes {n : Int} (hlow : -32768 ≤ n) (hhigh : n ≤ 32767) :
    signedOfBytes (signedBytes 2 n) = n := by
  have hwidth : Nat.pow 256 (signedBytes 2 n).length = 65536 := by
    rw [length_signedBytes]
  rw [signedOfBytes, hwidth, ofBytes_signedBytes]
  show Int.bmod (n % (65536 : Nat)) 65536 = n
  rw [Int.emod_bmod]
  exact Int.bmod_eq_of_le (by omega) (by omega)

/-- A handle is read as the integer that was written, cut to its width. -/
theorem handle_signedBytes (n : Int) :
    Int32.ofNat (ofBytes (signedBytes 4 n)) = Int32.ofInt n := by
  have hread := ofBytes_signedBytes 4 n
  have hofInt : ∀ k : Nat, Int32.ofNat k = Int32.ofInt k := fun k => by
    rw [Int32.ofInt_eq_ofNat]
  rw [hofInt, hread]
  apply Int32.toInt_inj.mp
  rw [Int32.toInt_ofInt, Int32.toInt_ofInt]
  show Int.bmod (n % (4294967296 : Nat)) 4294967296 = Int.bmod n 4294967296
  exact Int.emod_bmod _ _

end Word

/-! ### Fetching -/

namespace Instruction

/-- The operand has the length that the operation wants. -/
def IsWhole (i : Instruction) : Prop := i.operand.length = i.op.operand.size

theorem operandAt_eq (bytes : Array UInt8) (offset : Nat) (op : Opcode) :
    operandAt bytes offset op = (bytes.toList.drop (offset + 1)).take op.operand.size := by
  unfold operandAt
  rw [Array.toList_extract, List.extract_eq_take_drop]
  congr 1
  omega

/-- **Where an instruction stands, it is fetched.** -/
theorem fetchAt_encode {bytes : Array UInt8} {i : Instruction} {rest : List UInt8}
    (hwhole : i.IsWhole) (h : bytes.toList.drop i.offset = i.encode ++ rest) :
    bytes[i.offset]? = some i.op.code ∧ fetchAt bytes i.offset i.op.code = .ok i := by
  have hhead : bytes[i.offset]? = some i.op.code := by
    rw [← Array.getElem?_toList, ← Nat.add_zero i.offset, ← List.getElem?_drop, h]
    rfl
  have htail : bytes.toList.drop (i.offset + 1) = i.operand ++ rest := by
    rw [← List.drop_drop, h]
    rfl
  have hfits : i.offset + 1 + i.op.operand.size ≤ bytes.size := by
    have hlength := congrArg List.length htail
    have hbound : i.offset < bytes.size := (Array.getElem?_eq_some_iff.mp hhead).1
    simp only [List.length_drop, Array.length_toList, List.length_append] at hlength
    unfold IsWhole at hwhole
    omega
  refine ⟨hhead, ?_⟩
  unfold fetchAt
  rw [Opcode.ofByte?_code]
  dsimp only
  rw [if_pos hfits, operandAt_eq, htail, ← hwhole, List.take_left']
  rfl

/-- What is fetched stands there. -/
theorem encode_of_fetchAt {bytes : Array UInt8} {offset : Nat} {i : Instruction}
    (hlt : offset < bytes.size) (h : fetchAt bytes offset bytes[offset] = .ok i) :
    i.offset = offset ∧ i.IsWhole ∧
      bytes.toList.drop offset = i.encode ++ bytes.toList.drop (offset + i.size) ∧
      offset + i.size ≤ bytes.size := by
  unfold fetchAt at h
  split at h
  · cases h
  · rename_i op hop
    split at h
    · rename_i hfits
      obtain rfl := Except.ok.inj h
      have hwhole : (operandAt bytes offset op).length = op.operand.size := by
        rw [operandAt_eq, List.length_take, List.length_drop, Array.length_toList]
        omega
      have hsize : (⟨offset, op, operandAt bytes offset op⟩ : Instruction).size =
          1 + op.operand.size := by
        rw [size, hwhole]
      refine ⟨rfl, hwhole, ?_, by rw [hsize]; omega⟩
      have hcons : bytes.toList.drop offset = bytes[offset] :: bytes.toList.drop (offset + 1) := by
        rw [List.drop_eq_getElem_cons (by simpa using hlt), Array.getElem_toList]
      have hsplit : bytes.toList.drop (offset + 1) = operandAt bytes offset op ++
          bytes.toList.drop (offset + (1 + op.operand.size)) := by
        rw [operandAt_eq, ← Nat.add_assoc,
          ← List.drop_drop (l := bytes.toList) (i := op.operand.size) (j := offset + 1),
          List.take_append_drop]
      rw [hcons, encode, Opcode.code_of_ofByte? hop, hsize, List.cons_append, ← hsplit]
    · cases h

end Instruction

/-! ### Code made of instructions -/

/-- Instructions that stand one after another from an offset on. -/
def Chained : Nat → List Instruction → Prop
  | _, [] => True
  | offset, i :: rest => i.offset = offset ∧ i.IsWhole ∧ Chained (offset + i.size) rest

theorem Instruction.length_encode (i : Instruction) : i.encode.length = i.size := by
  rw [encode, List.length_cons, size, Nat.add_comm]

/-- **Code made of instructions is decoded into them, to its end.** -/
theorem decodeFrom_encoded {bytes : Array UInt8} {is : List Instruction} {offset : Nat}
    (hchained : Chained offset is) (h : bytes.toList.drop offset = is.flatMap Instruction.encode) :
    decodeFrom bytes offset = (is, .finished) := by
  induction is generalizing offset with
  | nil =>
    have hend : ¬offset < bytes.size := by
      have := congrArg List.length h
      simp only [List.length_drop, Array.length_toList, List.flatMap_nil, List.length_nil] at this
      omega
    rw [decodeFrom, dif_neg hend]
  | cons i is ih =>
    obtain ⟨rfl, hwhole, hchained⟩ := hchained
    rw [List.flatMap_cons] at h
    obtain ⟨hhead, hfetch⟩ := Instruction.fetchAt_encode hwhole h
    obtain ⟨hlt, hget⟩ := Array.getElem?_eq_some_iff.mp hhead
    have hrest : bytes.toList.drop (i.offset + i.size) = is.flatMap Instruction.encode := by
      rw [← List.drop_drop, h, ← i.length_encode, List.drop_left']
      rfl
    have hnext := ih hchained hrest
    rw [decodeFrom, dif_pos hlt, hget, hfetch]
    dsimp only
    rw [← Instruction.size, hnext]

/-! ### Any code -/

/-- Why a walk ended where it did, `rest` being the bytes from there on. -/
inductive Stopped (offset : Nat) : List UInt8 → DecodeStop → Prop where
  | finished : Stopped offset [] .finished
  | unknown {code : UInt8} {rest : List UInt8} (h : Opcode.ofByte? code = none) :
      Stopped offset (code :: rest) (.unknown offset)
  | truncated {op : Opcode} {rest : List UInt8} (h : rest.length < op.operand.size) :
      Stopped offset (op.code :: rest) (.truncated offset op)

/-- **A whole walk spells the code up to where it ended**, which is the end of the code, a byte
that stands for no operation, or an operand that is cut off. -/
theorem decodeFrom_spells (bytes : Array UInt8) (offset : Nat) (hle : offset ≤ bytes.size) :
    Chained offset (decodeFrom bytes offset).1 ∧
      ∃ rest, bytes.toList.drop offset =
          (decodeFrom bytes offset).1.flatMap Instruction.encode ++ rest ∧
        Stopped (offset + ((decodeFrom bytes offset).1.flatMap Instruction.encode).length) rest
          (decodeFrom bytes offset).2 := by
  -- along the walk itself: one case for each way in which a fetch can end
  fun_induction decodeFrom bytes offset with
  | case1 offset hlt code hfetch =>
    refine ⟨trivial, bytes.toList.drop offset, rfl, ?_⟩
    have hcons : bytes.toList.drop offset = bytes[offset] :: bytes.toList.drop (offset + 1) := by
      rw [List.drop_eq_getElem_cons (by simpa using hlt), Array.getElem_toList]
    rw [hcons]
    refine .unknown ?_
    unfold Instruction.fetchAt at hfetch
    split at hfetch
    · assumption
    · split at hfetch <;> cases hfetch
  | case2 offset hlt op hfetch =>
    refine ⟨trivial, bytes.toList.drop offset, rfl, ?_⟩
    have hcons : bytes.toList.drop offset = bytes[offset] :: bytes.toList.drop (offset + 1) := by
      rw [List.drop_eq_getElem_cons (by simpa using hlt), Array.getElem_toList]
    rw [hcons]
    unfold Instruction.fetchAt at hfetch
    split at hfetch
    · cases hfetch
    · rename_i found hop
      split at hfetch
      · cases hfetch
      · rename_i hshort
        cases hfetch
        rw [← Opcode.code_of_ofByte? hop]
        refine .truncated ?_
        rw [List.length_drop, Array.length_toList]
        omega
  | case3 offset hlt i hfetch is stop hrest ih =>
    obtain ⟨hoffset, hwhole, hspelled, hfits⟩ := Instruction.encode_of_fetchAt hlt hfetch
    obtain ⟨hchained, rest, hdrop, hstopped⟩ := ih hfits
    rw [hrest] at hchained hdrop hstopped
    refine ⟨⟨hoffset, hwhole, hchained⟩, rest, ?_, ?_⟩
    · rw [hspelled, List.flatMap_cons, List.append_assoc]
      exact congrArg _ hdrop
    · rw [List.flatMap_cons, List.length_append, i.length_encode, ← Nat.add_assoc]
      exact hstopped
  | case4 offset hnot =>
    have hempty : bytes.toList.drop offset = [] := List.drop_of_length_le (by simpa using hnot)
    exact ⟨trivial, [], by rw [hempty]; rfl, .finished⟩

/-- The beginning of a chain is one. -/
theorem Chained.take {offset : Nat} {is : List Instruction} (h : Chained offset is) (n : Nat) :
    Chained offset (is.take n) := by
  induction is generalizing offset n with
  | nil => simpa using h
  | cons i is ih =>
    cases n with
    | zero => trivial
    | succ n =>
      obtain ⟨hoffset, hwhole, hrest⟩ := h
      exact ⟨hoffset, hwhole, ih hrest n⟩

/-- **What is decoded spells the beginning of the code.** A walk that was told to stop after
`limit` instructions and was not over before has visited so many; every other one ended where it
had to. -/
theorem decodeUpTo_spells (limit : Nat) (bytes : Array UInt8) :
    Chained 0 (decodeUpTo limit bytes).1 ∧
      ∃ rest, bytes.toList = (decodeUpTo limit bytes).1.flatMap Instruction.encode ++ rest ∧
        (Stopped ((decodeUpTo limit bytes).1.flatMap Instruction.encode).length rest
            (decodeUpTo limit bytes).2 ∨
          0 < limit ∧ (decodeUpTo limit bytes).1.length = limit ∧
            (decodeUpTo limit bytes).2 = .finished) := by
  obtain ⟨hchained, rest, hdrop, hstopped⟩ := decodeFrom_spells bytes 0 (Nat.zero_le _)
  rw [List.drop_zero] at hdrop
  rw [Nat.zero_add] at hstopped
  unfold decodeUpTo decode
  dsimp only
  split
  · exact ⟨hchained, rest, hdrop, .inl hstopped⟩
  · rename_i hlimit
    obtain ⟨hpos, hlength⟩ := not_or.mp hlimit
    refine ⟨hchained.take limit,
      ((decodeFrom bytes 0).1.drop limit).flatMap Instruction.encode ++ rest, ?_,
      .inr ⟨by omega, ?_, rfl⟩⟩
    · rw [← List.append_assoc, ← List.flatMap_append, List.take_append_drop]
      exact hdrop
    · rw [List.length_take]
      omega

end SchemePlayer
