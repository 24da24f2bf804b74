import SchemePlayer.Proofs.Bytecode.Decode
import SchemePlayer.Proofs.Machine.Stride

/-!
# Instruction boundaries

Code can be read in two ways. The decoder walks over it from its beginning to its end and goes by
the table of operations; an execution goes where its jumps lead it and reads operands by itself.
Where the walk comes to the end and jumps lead only to places at which it stopped, both read the
same instructions.

- `boundaries`: the places at which the walk stops.
- `Regular`: code that is decoded to its end and jumps to boundaries only.
- `Regular.behind`, `mem_boundaries_of_after`: what an instruction leads to is a boundary again.
- `Aligned.stride`: **executions of regular code stay at boundaries**, step by step;
  `Aligned.reaches`: during a whole tick.
- `fails_of_aligned`: **regular code never fails by a fault of encoding.**
- `executes_as_decoded`: **regular code is executed as it is decoded.**
-/

namespace SchemePlayer

/-! ### Boundaries -/

/-- The offsets at which a walk stops that begins at an offset: where instructions begin, and the
end of the code. -/
def boundariesFrom (bytes : Array UInt8) (offset : Nat) : List Nat :=
  (decodeFrom bytes offset).1.map (·.offset) ++ [bytes.size]

/-- The offsets at which the instructions of code begin, and its end. -/
def boundaries (bytes : Array UInt8) : List Nat := boundariesFrom bytes 0

/-- Code that is decoded to its end, and in which every jump leads to an instruction or to the
end. -/
structure Regular (bytes : Array UInt8) : Prop where
  finished : (decode bytes).2 = .finished
  targets : ∀ i ∈ (decode bytes).1, i.op.operand = .jump →
    ∃ place ∈ boundaries bytes, i.target = place

section Walk

variable {bytes : Array UInt8} {offset : Nat} {i : Instruction}

/-- What is decoded can be fetched where it stands. -/
theorem fetchAt_of_mem_decodeFrom (hmem : i ∈ (decodeFrom bytes offset).1) :
    ∃ b, bytes[i.offset]? = some b ∧ Instruction.fetchAt bytes i.offset b = .ok i := by
  fun_induction decodeFrom bytes offset with
  | case1 | case2 | case4 => exact absurd hmem List.not_mem_nil
  | case3 offset hlt first hfetch is stop hrest ih =>
    rcases List.mem_cons.mp hmem with rfl | hmem
    · have hoffset := (Instruction.encode_of_fetchAt hlt hfetch).1
      rw [hoffset]
      exact ⟨bytes[offset], Array.getElem?_eq_getElem hlt, hfetch⟩
    · exact ih (by rwa [hrest])

/-- A walk that comes to the end begins at one of its boundaries. -/
theorem mem_boundariesFrom_self (hfinished : (decodeFrom bytes offset).2 = .finished)
    (hle : offset ≤ bytes.size) : offset ∈ boundariesFrom bytes offset := by
  unfold boundariesFrom
  revert hfinished
  fun_cases decodeFrom bytes offset with
  | case1 hlt code hfetch =>
    intro hfinished
    cases hfinished
  | case2 hlt op hfetch =>
    intro hfinished
    cases hfinished
  | case3 hlt first hfetch is stop hrest =>
    have hoffset := (Instruction.encode_of_fetchAt hlt hfetch).1
    intro _
    rw [List.map_cons, hoffset]
    exact List.mem_cons_self ..
  | case4 hlt =>
    have hend : offset = bytes.size := by omega
    intro _
    rw [hend]
    exact List.mem_singleton_self _

/-- **Behind an instruction there is a boundary.** -/
theorem next_mem_boundariesFrom (hfinished : (decodeFrom bytes offset).2 = .finished)
    (hmem : i ∈ (decodeFrom bytes offset).1) : i.offset + i.size ∈ boundariesFrom bytes offset := by
  unfold boundariesFrom
  fun_induction decodeFrom bytes offset with
  | case1 | case2 | case4 => exact absurd hmem List.not_mem_nil
  | case3 offset hlt first hfetch is stop hrest ih =>
    obtain ⟨hoffset, -, -, hfits⟩ := Instruction.encode_of_fetchAt hlt hfetch
    have hlater : (decodeFrom bytes (offset + first.size)).2 = .finished := by
      rw [Instruction.size, hrest]
      exact hfinished
    rcases List.mem_cons.mp hmem with rfl | hmem
    · have hself := mem_boundariesFrom_self hlater hfits
      rw [boundariesFrom, Instruction.size, hrest] at hself
      rw [hoffset]
      exact List.mem_cons_of_mem _ hself
    · rw [hrest] at ih
      exact List.mem_cons_of_mem _ (ih hfinished hmem)

end Walk

/-! ### Boundaries of whole code -/

section Boundaries

variable {bytes : Array UInt8} {i : Instruction} {place : Nat}

theorem le_of_mem_boundaries (h : place ∈ boundaries bytes) : place ≤ bytes.size := by
  rcases List.mem_append.mp h with h | h
  · obtain ⟨i, hi, rfl⟩ := List.mem_map.mp h
    obtain ⟨b, hbyte, -⟩ := fetchAt_of_mem_decodeFrom hi
    exact Nat.le_of_lt (Array.getElem?_eq_some_iff.mp hbyte).1
  · exact Nat.le_of_eq (List.mem_singleton.mp h)

/-- At a boundary within the code, an instruction is decoded. -/
theorem exists_of_mem_boundaries (h : place ∈ boundaries bytes) (hlt : place < bytes.size) :
    ∃ i ∈ (decode bytes).1, i.offset = place := by
  rcases List.mem_append.mp h with h | h
  · exact List.mem_map.mp h
  · exact absurd (List.mem_singleton.mp h) (Nat.ne_of_lt hlt)

theorem Regular.zero (h : Regular bytes) : 0 ∈ boundaries bytes :=
  mem_boundariesFrom_self h.finished (Nat.zero_le _)

theorem Regular.behind (h : Regular bytes) (hi : i ∈ (decode bytes).1) :
    i.offset + i.size ∈ boundaries bytes :=
  next_mem_boundariesFrom h.finished hi

end Boundaries

/-! ### Executions -/

/-- An execution of this code, whatever its instance and its literals are. -/
def Frame.Runs (bytes : Array UInt8) (f : Frame) : Prop := f.inst.proto.program.bytes = bytes

namespace Machine

variable {σ : Type} {h : Host σ} {s : Setting} {m m₀ m' : Machine σ} {f : Frame}
  {outer : List Frame} {i : Instruction} {bytes : Array UInt8}

/-- Every execution of this code stands at a boundary. -/
def Aligned (bytes : Array UInt8) (m : Machine σ) : Prop :=
  ∀ f ∈ m.frames, f.Runs bytes → f.pc ∈ boundaries bytes

/-- **What is executed at a boundary is what is decoded there.** -/
theorem mem_decode_of_next? (hnext : m.next? = some (f, outer, i)) (hruns : f.Runs bytes)
    (hplace : f.pc ∈ boundaries bytes) : i ∈ (decode bytes).1 ∧ i.offset = f.pc := by
  obtain ⟨-, -, b, hbyte, hfetch⟩ := next?_eq_some hnext
  rw [hruns] at hbyte hfetch
  have hlt : f.pc < bytes.size := (Array.getElem?_eq_some_iff.mp hbyte).1
  obtain ⟨j, hj, hoffset⟩ := exists_of_mem_boundaries hplace hlt
  obtain ⟨b', hbyte', hfetch'⟩ := fetchAt_of_mem_decodeFrom hj
  rw [hoffset] at hbyte' hfetch'
  obtain rfl := Option.some.inj (hbyte.symm.trans hbyte')
  obtain rfl := Except.ok.inj (hfetch.symm.trans hfetch')
  exact ⟨hj, hoffset⟩

/-- At a boundary within the code an instruction can be read. -/
theorem exists_next? (hframes : m.frames = f :: outer) (hruns : f.Runs bytes)
    (hplace : f.pc ∈ boundaries bytes) (htargets : f.targets = []) (hlt : f.pc < bytes.size) :
    ∃ i, m.next? = some (f, outer, i) := by
  obtain ⟨i, hi, hoffset⟩ := exists_of_mem_boundaries hplace hlt
  obtain ⟨b, hbyte, hfetch⟩ := fetchAt_of_mem_decodeFrom hi
  rw [hoffset, ← hruns] at hbyte hfetch
  refine ⟨i, ?_⟩
  simp only [next?, hframes, htargets, hbyte, hfetch]

/-- **After an instruction, an execution stands at a boundary again.** -/
theorem mem_boundaries_of_after {f' : Frame} (hregular : Regular bytes)
    (hi : i ∈ (decode bytes).1) (hoffset : i.offset = f.pc)
    (hsize : i.size = 1 + i.op.operand.size) (hafter : f.After i f') :
    f'.pc ∈ boundaries bytes := by
  have hplace := hafter.place
  cases htaken : i.taken f.stack with
  | true =>
    obtain ⟨place, hmem, htarget⟩ := hregular.targets i hi (Instruction.jump_of_taken htaken)
    rw [htaken, if_pos rfl, htarget] at hplace
    rwa [Int.ofNat.inj hplace]
  | false =>
    have hbehind : f'.pc = i.offset + i.size := by
      rw [htaken] at hplace
      simp only [Bool.false_eq_true, if_false] at hplace
      omega
    rw [hbehind]
    exact hregular.behind hi

theorem Aligned.begins {id : Nat} {old new : List Frame} (hregular : Regular bytes)
    (hold : ∀ f ∈ old, f.Runs bytes → f.pc ∈ boundaries bytes) (hbegins : Begins s id old new) :
    ∀ f ∈ new, f.Runs bytes → f.pc ∈ boundaries bytes := by
  cases hbegins with
  | denied => exact hold
  | begun hinst hdepth =>
    intro f hf
    rcases List.mem_cons.mp hf with rfl | hf
    · exact fun _ => hregular.zero
    · exact hold f hf

/-- **Executions of regular code stay at boundaries.** -/
theorem Aligned.stride (hregular : Regular bytes) (hm : m.Aligned bytes) (hstride : Stride s m m') :
    m'.Aligned bytes := by
  cases hstride with
  | @executes f f' outer i hnext hafter hmessage hframes =>
    obtain ⟨hold, hmem, -, -, -, hlength⟩ := within_of_next? hnext
    intro g hg hruns
    rw [hframes] at hg
    rcases List.mem_cons.mp hg with rfl | hg
    · have hruns' : f.Runs bytes := by rwa [Frame.Runs, ← hafter.inst]
      obtain ⟨hi, hoffset⟩ := mem_decode_of_next? hnext hruns' (hm f hmem hruns')
      exact mem_boundaries_of_after hregular hi hoffset (by rw [Instruction.size, hlength]) hafter
    · exact hm g (by rw [hold]; exact List.mem_cons_of_mem _ hg) hruns
  | returns hnext hop hframes =>
    intro g hg
    rw [hframes] at hg
    exact hm g (by rw [(within_of_next? hnext).1]; exact List.mem_cons_of_mem _ hg)
  | ends hnone hold htargets hframes =>
    intro g hg
    rw [hframes] at hg
    exact hm g (by rw [hold]; exact List.mem_cons_of_mem _ hg)
  | @sends f outer target targets hold htargets hframes =>
    refine Aligned.begins hregular (fun g hg => ?_) hframes
    rcases List.mem_cons.mp hg with rfl | hg
    · exact hm f (by rw [hold]; exact List.mem_cons_self ..)
    · exact hm g (by rw [hold]; exact List.mem_cons_of_mem _ hg)
  | runs hold hvisit hframes =>
    exact Aligned.begins hregular (fun g hg => absurd hg List.not_mem_nil) hframes
  | enters hold hvisit hframes =>
    intro g hg
    rw [hframes] at hg
    exact absurd hg List.not_mem_nil

theorem Aligned.reaches (hregular : Regular bytes) (hm : m₀.Aligned bytes)
    (hreach : Reaches h s m₀ m) : m.Aligned bytes := by
  induction hreach with
  | refl => exact hm
  | step _ hstep ih => exact ih.stride hregular (stride_of_step hstep)

/-- A jump of regular code does not leave it. -/
theorem isEncoding_of_mayRaise {w : Scenery} {fault : Fault} (hregular : Regular bytes)
    (hraised : i.MayRaise w fault) (hcode : w.code.bytes = bytes) (hi : i ∈ (decode bytes).1) :
    fault.isEncoding = false := by
  cases fault with
  | unknownOpcode code => exact absurd hraised id
  | truncated op offset => exact absurd hraised id
  | badJump target =>
    obtain ⟨hjump, rfl, hout⟩ := hraised
    obtain ⟨place, hmem, htarget⟩ := hregular.targets i hi hjump
    have hle := le_of_mem_boundaries hmem
    rw [htarget, hcode] at hout
    omega
  | _ => rfl

/-- **Regular code never fails by a fault of encoding.** -/
theorem fails_of_aligned (hregular : Regular bytes) (hm : m.Aligned bytes)
    (hframes : m.frames = f :: outer) (hruns : f.Runs bytes) :
    Fails (fun fault => fault.isEncoding = false) f.inst (m.step h s) := by
  have hinner : m.frames.head?.map (·.inst) = some f.inst := by rw [hframes]; rfl
  have hplace := hm f (by rw [hframes]; exact List.mem_cons_self ..) hruns
  cases htargets : f.targets with
  | cons target targets =>
    have hstep : m.step h s = goesOn
        (({ m with frames := { f with targets } :: outer } : Machine σ).begin s target) := by
      simp only [step, hframes, execute_eq, htargets]
    rw [hstep]
    exact fails_goesOn
  | nil =>
    by_cases hlt : f.pc < bytes.size
    · obtain ⟨i, hnext⟩ := exists_next? hframes hruns hplace htargets hlt
      rw [step_of_next hnext]
      cases heffect : i.effect (m.scenery s f) f.stack with
      | error fault =>
        have hraised := Instruction.tame_effect fault heffect
        refine fails_fail hinner (isEncoding_of_mayRaise hregular hraised hruns ?_)
        exact (mem_decode_of_next? hnext hruns hplace).1
      | ok e => exact fails_perform hinner (fun _ _ => rfl) fun _ => rfl
    · -- the end of the code
      have hnone : f.inst.proto.program.bytes[f.pc]? = none := by
        rw [Array.getElem?_eq_none_iff, hruns]
        omega
      have hstep : m.step h s = goesOn { m with frames := outer } := by
        simp only [step, hframes, execute_eq, htargets, hnone]
      rw [hstep]
      exact fails_goesOn

/-- An instruction that does not end its execution moves it. -/
theorem Stride.of_next (hstride : Stride s m m') (hnext : m.next? = some (f, outer, i)) :
    (i.op = .ret ∧ m'.frames = outer) ∨ ∃ f', m'.frames = f' :: outer ∧ f.After i f' := by
  obtain ⟨hold, -, htargets, -⟩ := within_of_next? hnext
  cases hstride with
  | executes hnext' hafter hmessage hframes =>
    obtain ⟨rfl, rfl, rfl⟩ := Prod.mk.inj (Option.some.inj (hnext.symm.trans hnext'))
    exact .inr ⟨_, hframes, hafter⟩
  | returns hnext' hop hframes =>
    obtain ⟨rfl, rfl, rfl⟩ := Prod.mk.inj (Option.some.inj (hnext.symm.trans hnext'))
    exact .inl ⟨hop, hframes⟩
  | ends hnone =>
    rw [hnext] at hnone
    cases hnone
  | sends hold' htargets' =>
    obtain ⟨rfl, rfl⟩ := List.cons.inj (hold.symm.trans hold')
    rw [htargets] at htargets'
    cases htargets'
  | runs hold' | enters hold' =>
    rw [hold'] at hold
    cases hold

/-- The executions around the innermost one, and the innermost one while it waits for the targets
of a message, are left as they are. -/
theorem Stride.suffix (hstride : Stride s m m') (hframes : m.frames = f :: outer) :
    outer <:+ m'.frames ∧ ∀ target targets, f.targets = target :: targets →
      { f with targets } :: outer <:+ m'.frames := by
  -- an instruction is carried out only when there is no target left
  have hnone : ∀ {f' : Frame} {outer' : List Frame} {i : Instruction},
      m.next? = some (f', outer', i) → f' :: outer' = f :: outer ∧ f.targets = [] := by
    intro f' outer' i hnext
    obtain ⟨hframes', -, htargets, -⟩ := within_of_next? hnext
    have hsame := hframes'.symm.trans hframes
    obtain ⟨rfl, -⟩ := List.cons.inj hsame
    exact ⟨hsame, htargets⟩
  cases hstride with
  | executes hnext hafter hmessage hframes' =>
    obtain ⟨hsame, htargets⟩ := hnone hnext
    obtain ⟨rfl, rfl⟩ := List.cons.inj hsame
    rw [hframes', htargets]
    exact ⟨List.suffix_cons .., fun _ _ hcons => by cases hcons⟩
  | returns hnext hop hframes' =>
    obtain ⟨hsame, htargets⟩ := hnone hnext
    obtain ⟨rfl, rfl⟩ := List.cons.inj hsame
    rw [hframes', htargets]
    exact ⟨List.suffix_rfl, fun _ _ hcons => by cases hcons⟩
  | ends hnone' hold htargets hframes' =>
    obtain ⟨rfl, rfl⟩ := List.cons.inj (hold.symm.trans hframes)
    rw [hframes', htargets]
    exact ⟨List.suffix_rfl, fun _ _ hcons => by cases hcons⟩
  | @sends f' outer' target targets hold htargets hframes' =>
    obtain ⟨rfl, rfl⟩ := List.cons.inj (hold.symm.trans hframes)
    refine ⟨(List.suffix_cons ..).trans hframes'.suffix, fun target' targets' hcons => ?_⟩
    obtain ⟨rfl, rfl⟩ := List.cons.inj (htargets.symm.trans hcons)
    exact hframes'.suffix
  | runs hold | enters hold =>
    rw [hold] at hframes
    cases hframes

/-- **Regular code is executed as it is decoded.** Take any moment of a tick, with any instances,
memory, literals, host and nesting of messages, whose executions of this code have all begun at
offset 0. They stand at boundaries. A step leaves the executions around the innermost one as they
are, and that one too while a message of its own is under way. If the innermost execution is one of
this code, an instruction can be read before the end; what is executed is the instruction that is
decoded there; unless it ends the execution, the next place is its target or the place behind it,
and the height of the stack changes as the table of operations says; and no fault is one of bad
encoding. -/
theorem executes_as_decoded (hregular : Regular bytes)
    (hbegin : ∀ f ∈ m₀.frames, f.Runs bytes → f.pc = 0) (hreach : Reaches h s m₀ m) :
    (∀ f ∈ m.frames, f.Runs bytes → f.pc ∈ boundaries bytes) ∧
    ∀ f outer, m.frames = f :: outer →
      (∀ m', m.step h s = (m', none) → outer <:+ m'.frames ∧
        ∀ target targets, f.targets = target :: targets →
          { f with targets } :: outer <:+ m'.frames) ∧
      (f.Runs bytes →
        (f.targets = [] → f.pc < bytes.size → ∃ i, m.next? = some (f, outer, i)) ∧
        (∀ i, m.next? = some (f, outer, i) → i ∈ (decode bytes).1 ∧ i.offset = f.pc ∧
          ∀ m', m.step h s = (m', none) →
            (i.op = .ret ∧ m'.frames = outer) ∨ ∃ f', m'.frames = f' :: outer ∧ f.After i f') ∧
        ∀ m' className place fault, m.step h s = (m', some (.failed (.at className place fault))) →
          fault.isEncoding = false) := by
  have hfirst : m₀.Aligned bytes := by
    intro f hf hruns
    rw [hbegin f hf hruns]
    exact hregular.zero
  have hm := hfirst.reaches hregular hreach
  refine ⟨hm, fun f outer hframes => ⟨fun m' hstep => (stride_of_step hstep).suffix hframes, ?_⟩⟩
  intro hruns
  have hplace := hm f (by rw [hframes]; exact List.mem_cons_self ..) hruns
  refine ⟨exists_next? hframes hruns hplace, fun i hnext => ?_, ?_⟩
  · obtain ⟨hmem, hoffset⟩ := mem_decode_of_next? hnext hruns hplace
    exact ⟨hmem, hoffset, fun m' hstep => (stride_of_step hstep).of_next hnext⟩
  · intro m' className place fault hstep
    have hfails := fails_of_aligned (h := h) (s := s) hregular hm hframes hruns
    rw [hstep] at hfails
    exact (hfails className place fault rfl).2

/-- Code that pushes a handle, jumps over an instruction and drops the handle. -/
def skipping : Array UInt8 := #[0x11, 7, 0, 0, 0, 0x60, 1, 0, 0x00, 0x01]

theorem decode_skipping :
    decode skipping =
      ([⟨0, .pushInt, [7, 0, 0, 0]⟩, ⟨5, .jump, [1, 0]⟩, ⟨8, .nop, []⟩, ⟨9, .pop, []⟩],
        .finished) :=
  decodeFrom_encoded (by simp [Chained, Instruction.IsWhole]; decide) (by decide)

theorem regular_skipping : Regular skipping where
  finished := by rw [decode_skipping]
  targets := by
    have hplaces : boundaries skipping = [0, 5, 8, 9, 10] := by
      have hdecode : decodeFrom skipping 0 = _ := decode_skipping
      rw [boundaries, boundariesFrom, hdecode]
      rfl
    rw [decode_skipping, hplaces]
    decide

/-- An instance with this code. -/
def skipper : Instance :=
  { parent := 0, proto := { name := "a", code := some ⟨skipping, #[]⟩ }, slots := #[] }

/-- What runs that instance alone. -/
def skipperSetting : Setting :=
  { tree := { instances := #[skipper] }, classes := {}, keys := {}, dir := [], project := 0,
    iterations := 0, maxDepth := 1, delivered := [] }

/-- When the jump is to be executed, a handle is on the stack. The jump is the one that is decoded;
it leads to the last instruction and leaves the handle there. -/
theorem executes_skipping :
    let start : Machine Unit :=
      { memory := {}, host := (), agenda := [], frames := [{ id := 0, inst := skipper }] }
    let f : Frame := { id := 0, inst := skipper, pc := 5, stack := [.handle 7] }
    let m : Machine Unit := { start with frames := [f] }
    Regular skipping ∧ Reaches Host.absent skipperSetting start m ∧
      ∃ i ∈ (decode skipping).1, m.next? = some (f, [], i) ∧ i.offset = 5 ∧
        ∃ m' f', m.step Host.absent skipperSetting = (m', none) ∧ m'.frames = [f'] ∧ f'.pc = 9 ∧
          f'.stack.length = 1 := by
  intro start f m
  have hreach : Reaches Host.absent skipperSetting start m := .step .refl rfl
  obtain ⟨-, hall⟩ := executes_as_decoded regular_skipping
    (fun f hf _ => by obtain rfl := List.mem_singleton.mp hf; rfl) hreach
  obtain ⟨-, hinner⟩ := hall f [] rfl
  obtain ⟨-, hdecoded, -⟩ := hinner rfl
  have hnext : m.next? = some (f, [], ⟨5, .jump, [1, 0]⟩) := rfl
  have hstep : m.step Host.absent skipperSetting =
      ({ m with frames := [{ f with pc := 9 }] }, none) := by
    have heffect : Instruction.effect ⟨5, .jump, [1, 0]⟩ (m.scenery skipperSetting f) f.stack =
        .ok (.jump 9 f.stack) := by decide +kernel
    rw [step_of_next hnext, heffect]
    rfl
  obtain ⟨hmem, hoffset, hmoves⟩ := hdecoded _ hnext
  rcases hmoves _ hstep with ⟨hret, -⟩ | ⟨f', hframes, hafter⟩
  · cases hret
  · refine ⟨regular_skipping, hreach, _, hmem, hnext, hoffset, _, f', hstep, hframes, ?_, ?_⟩
    · exact Int.ofNat.inj (hafter.place.trans (by decide +kernel))
    · exact Int.ofNat.inj (hafter.height.trans (by decide +kernel))

end Machine

end SchemePlayer
