import Mathlib.Data.List.Dedup
import Mathlib.Data.List.Forall2
import SchemePlayer.Bytecode.Builder
import SchemePlayer.Proofs.Assembly.Image

/-!
# What a builder builds

A builder is driven by steps: instructions with operands of each form, literals, jumps to labels
and the placing of labels. At every moment its bytes are the image of the program so far, in
which the labels that are not placed yet have left gaps; placing one fills its gaps.

- `Step`, `performAll`: the operations of a builder, one after another.
- `Follows`: a builder stands where some steps have led; `Follows.perform`: one step keeps it so.
- `fill_gaps`: filling the gaps of a label gives the image with the label in its place.
- `decode_built_and_spelled`: **encoding and decoding are inverse**: the code of a builder is
  decoded into what was emitted, and what is decoded of any bytes spells them.
-/

namespace SchemePlayer.Builder

open Assembly

/-! ### Steps -/

/-- One operation on a builder. -/
inductive Step where
  | plain (op : Opcode)
  | byte (op : Opcode) (n : UInt8)
  /-- a two-byte operand as it is: the index of a variable or of a literal, or a distance -/
  | word (op : Opcode) (n : UInt16)
  | handle (op : Opcode) (n : Int32)
  | float (op : Opcode) (x : Float)
  /-- pushes a literal -/
  | literal (s : Text)
  /-- asks for the index of a literal and emits nothing -/
  | intern (s : Text)
  | jump (op : Opcode) (name : Text)
  | mark (name : Text)
  deriving DecidableEq

namespace Step

/-- Whether the operand that the step emits has the form that its operation wants. -/
def fits : Step → Bool
  | plain op => op.operand = .none
  | byte op _ => op.operand = .byte
  | word op _ => op.operand = .string ∨ op.operand = .slot ∨ op.operand = .jump
  | handle op _ => op.operand = .int32
  | float op _ => op.operand = .float64
  | jump op _ => op.operand = .jump
  | literal _ | intern _ | mark _ => true

/-- What the step adds to the program. -/
def statement? : Step → Option Statement
  | plain op => some (.instruction op .none)
  | byte op n => some (.instruction op (.byte n.toNat))
  | word op n => some (.instruction op (.slot n.toNat))
  | handle op n => some (.instruction op (.int n.toInt))
  | float op x => some (.instruction op (.float x))
  | literal s => some (.instruction .pushString (.literal s))
  | intern _ => none
  | jump op name => some (.instruction op (.label name))
  | mark name => some (.label name)

/-- The literal that the step needs in the pool. -/
def interned? : Step → Option Text
  | literal s | intern s => some s
  | _ => none

end Step

/-- The program of some steps. -/
def program (steps : List Step) : List Statement := steps.filterMap Step.statement?

/-- Performs a step; `none` when a label is placed twice. -/
def perform (b : Builder) : Step → Option Builder
  | .plain op => some (b.raw op.code)
  | .byte op n => some (b.emitByte op.code n)
  | .word op n => some (b.emitWord op.code n.toNat)
  | .handle op n => some (b.emitHandle op.code n.toInt)
  | .float op x => some (b.emitFloat op.code x)
  | .literal s => some (b.pushString s)
  | .intern s => some (b.intern s).2
  | .jump op name => some (b.jump op.code name)
  | .mark name => b.mark? name

/-- Performs steps one after another. -/
def performAll (b : Builder) (steps : List Step) : Option Builder := steps.foldlM perform b

/-- Steps that a builder can carry out: operands have the form of their operations, there are
no more literals than indices, no label is placed twice, and every jump has a label that is
placed somewhere near enough. -/
structure WellFormed (steps : List Step) : Prop where
  fits : ∀ s ∈ steps, s.fits
  literals : (steps.filterMap Step.interned?).dedup.length ≤ 65536
  marks : ∀ name, steps.count (.mark name) ≤ 1
  jumps : ∀ e ∈ emitted 0 (program steps), ∀ name, e.operand = .label name →
    ∃ place, places (program steps) name = some place ∧
      -32768 ≤ (place : Int) - (e.offset + 3) ∧ (place : Int) - (e.offset + 3) ≤ 32767

theorem program_concat (done : List Step) (s : Step) :
    program (done ++ [s]) = program done ++ s.statement?.toList := by
  unfold program
  rw [List.filterMap_append]
  congr 1

theorem fitting_program {steps : List Step} (h : ∀ s ∈ steps, s.fits) :
    Fitting (program steps) := by
  intro op operand hmem
  obtain ⟨s, hs, hstatement⟩ := List.mem_filterMap.mp hmem
  have hfits := h s hs
  -- each form of step against the operation's layout
  cases s <;> simp only [Step.statement?, Option.some.injEq, Statement.instruction.injEq,
    reduceCtorEq] at hstatement <;> obtain ⟨rfl, rfl⟩ := hstatement <;>
    simp only [Step.fits, decide_eq_true_eq] at hfits
  case plain => rw [hfits]; rfl
  case byte n => exact ⟨by rw [hfits]; rfl, n.toNat_lt⟩
  case word n =>
    refine ⟨?_, n.toNat_lt⟩
    rcases hfits with hfits | hfits | hfits <;> rw [hfits] <;> rfl
  case handle => rw [hfits]; rfl
  case float => rw [hfits]; rfl
  case literal => rfl
  case jump => rw [hfits]; rfl

/-! ### Gaps -/

/-- The gaps that the jumps to a label leave in a program, in the order of the jumps. -/
def gaps (name : Text) (offset : Nat) (program : List Statement) : List Nat :=
  (emitted offset program).filterMap fun e =>
    if e.operand = .label name then some (e.offset + 1) else none

theorem toList_fill {bytes : Array UInt8} {front back : List UInt8} {x y : UInt8} {gap : Nat}
    (h : bytes.toList = front ++ x :: y :: back) (hgap : front.length = gap) (position : Nat) :
    (fill position bytes gap).toList =
      front ++ (Word.signedBytes 2 ((position : Int) - (gap + 2)) ++ back) := by
  obtain ⟨lo, hi, hword⟩ : ∃ lo hi, Word.signedBytes 2 ((position : Int) - (gap + 2)) = [lo, hi] :=
    ⟨_, _, rfl⟩
  subst hgap
  unfold fill
  rw [hword]
  dsimp only
  rw [Array.toList_setIfInBounds, Array.toList_setIfInBounds, h]
  simp

/-- An operand changes with a label only if it is that label. -/
theorem image_of_not_label {known known' : Text → Option Nat} {name : Text}
    (hother : ∀ other, other ≠ name → known' other = known other) {operand : Operand}
    (h : operand ≠ .label name) (pool : List Text) (offset : Nat) :
    operand.image known' pool offset = operand.image known pool offset := by
  cases operand with
  | label other =>
    have hne : other ≠ name := fun heq => h (by rw [heq])
    rw [Operand.image, Operand.image, hother other hne]
  | _ => rfl

/-- **Filling the gaps of a label puts it in its place.** -/
theorem fill_gaps {known known' : Text → Option Nat} {pool : List Text} {name : Text}
    {position : Nat} (hbefore : known name = none) (hafter : known' name = some position)
    (hother : ∀ other, other ≠ name → known' other = known other)
    {program : List Statement} (hfitting : Fitting program) {offset : Nat} {bytes : Array UInt8}
    {front : List UInt8} (hfront : front.length = offset)
    (h : bytes.toList = front ++ image known pool offset program) :
    ((gaps name offset program).foldl (fill position) bytes).toList =
      front ++ image known' pool offset program := by
  induction program generalizing offset bytes front with
  | nil => exact h
  | cons s rest ih =>
    cases s with
    | label _ => exact ih hfitting.tail hfront h
    | instruction op operand =>
      have hfits := hfitting op operand (.head _)
      have hnext : ∀ known : Text → Option Nat,
          (front ++ op.code :: operand.image known pool offset).length =
            offset + (1 + op.operand.size) := by
        intro known
        rw [List.length_append, List.length_cons, Operand.length_image, hfits.width_eq, hfront,
          Nat.add_comm 1]
      rw [image_instruction] at h ⊢
      by_cases hjump : operand = .label name
      · -- a jump to the label: its gap is filled, then those after it
        subst hjump
        have hgaps : gaps name offset (.instruction op (.label name) :: rest) =
            (offset + 1) :: gaps name (offset + (1 + op.operand.size)) rest := by
          simp [gaps, emitted]
        have hempty : (Operand.label name).image known pool offset = [0, 0] := by
          rw [Operand.image, hbefore]
        have hfilled : (Operand.label name).image known' pool offset =
            Word.signedBytes 2 ((position : Int) - ((offset + 1 : Nat) + 2)) := by
          rw [Operand.image, hafter]
          dsimp only
          congr 1
        have hgap : bytes.toList = (front ++ [op.code]) ++
            0 :: 0 :: image known pool (offset + (1 + op.operand.size)) rest := by
          rw [h, hempty]
          simp
        have hbytes : (fill position bytes (offset + 1)).toList =
            (front ++ op.code :: (Operand.label name).image known' pool offset) ++
              image known pool (offset + (1 + op.operand.size)) rest := by
          rw [toList_fill hgap (by simp [hfront]) position, hfilled]
          simp
        rw [hgaps, List.foldl_cons, ih hfitting.tail (hnext known') hbytes]
        simp
      · -- any other instruction has its bytes already
        have hgaps : gaps name offset (.instruction op operand :: rest) =
            gaps name (offset + (1 + op.operand.size)) rest := by
          simp [gaps, emitted, hjump]
        have hsame : operand.image known' pool offset = operand.image known pool offset :=
          image_of_not_label hother hjump pool offset
        have hbytes : bytes.toList = (front ++ op.code :: operand.image known pool offset) ++
            image known pool (offset + (1 + op.operand.size)) rest := by
          rw [h]
          simp
        rw [hgaps, hsame, ih hfitting.tail (hnext known) hbytes]
        simp

/-! ### Following the steps -/

/-- A builder stands where some steps have led: its bytes are the image of their program, with
the labels that have a place so far, and it knows the gaps of the others. -/
structure Follows (b : Builder) (done : List Step) : Prop where
  pool : b.pool.Faithful
  literals : ∀ s, s ∈ b.pool.strings.toList ↔ s ∈ done.filterMap Step.interned?
  label : ∀ name, b.label name =
    match places (program done) name with
    | some place => .placed place
    | none => .awaited (gaps name 0 (program done))
  bytes : b.bytes.toList =
    image (places (program done)) b.pool.strings.toList 0 (program done)

theorem follows_nil : Follows {} [] :=
  ⟨Pool.faithful_empty, fun s => by simp, fun name => rfl, rfl⟩

theorem literal_mem {done : List Step} {op : Opcode} {s : Text}
    (h : .instruction op (.literal s) ∈ program done) : s ∈ done.filterMap Step.interned? := by
  obtain ⟨step, hstep, hstatement⟩ := List.mem_filterMap.mp h
  refine List.mem_filterMap.mpr ⟨step, hstep, ?_⟩
  cases step <;> simp_all [Step.statement?, Step.interned?]

theorem Follows.size {b : Builder} {done : List Step} (h : Follows b done)
    (hfits : ∀ s ∈ done, s.fits) : b.size = programSize (program done) := by
  rw [← (fitting_program hfits).shaped.length_image (places (program done)) b.pool.strings.toList 0,
    ← h.bytes, Array.length_toList]
  rfl

theorem gaps_append (name : Text) (a b : List Statement) :
    gaps name 0 (a ++ b) = gaps name 0 a ++ gaps name (programSize a) b := by
  rw [gaps, emitted_append, List.filterMap_append, Nat.zero_add]
  rfl

/-- **An instruction is added**: its image stands behind what was there, literals may have come
into the pool, and a jump to a label without a place has left a gap. -/
theorem Follows.emission {b b' : Builder} {done : List Step} {step : Step} {op : Opcode}
    {operand : Operand} {new : List Text} (h : Follows b done) (hfits : ∀ s ∈ done, s.fits)
    (hstep : step.statement? = some (.instruction op operand)) (hpool : b'.pool.Faithful)
    (hnew : b'.pool.strings.toList = b.pool.strings.toList ++ new)
    (hliterals : ∀ s, s ∈ b'.pool.strings.toList ↔
      s ∈ (done ++ [step]).filterMap Step.interned?)
    (hlabel : ∀ name, b'.label name =
      match places (program done) name with
      | some place => .placed place
      | none => .awaited (gaps name 0 (program done) ++
          if operand = .label name then [b.size + 1] else []))
    (hbytes : b'.bytes.toList = b.bytes.toList ++ op.code ::
      operand.image (places (program done)) b'.pool.strings.toList b.size) :
    Follows b' (done ++ [step]) := by
  have hprogram : program (done ++ [step]) = program done ++ [.instruction op operand] := by
    rw [program_concat, hstep]
    rfl
  refine ⟨hpool, hliterals, fun name => ?_, ?_⟩
  · have hone : gaps name (programSize (program done)) [.instruction op operand] =
        if operand = .label name then [b.size + 1] else [] := by
      rw [h.size hfits]
      by_cases heq : operand = .label name <;> simp [gaps, emitted, heq]
    rw [hlabel name, hprogram, places_instruction, gaps_append, hone]
  · have hold : image (places (program done)) b'.pool.strings.toList 0 (program done) =
        b.bytes.toList := by
      rw [hnew, image_pool_append (fun op s hmem => (h.literals s).mpr (literal_mem hmem)), h.bytes]
    have hlast : image (places (program done)) b'.pool.strings.toList (programSize (program done))
        [.instruction op operand] = op.code ::
          operand.image (places (program done)) b'.pool.strings.toList b.size := by
      rw [h.size hfits]
      exact List.append_nil _
    rw [hbytes, hprogram, places_instruction, image_append, Nat.zero_add, hold, hlast]

/-- An instruction with an operand that is neither a literal nor a label. -/
theorem Follows.simple {b : Builder} {done : List Step} {step : Step} {op : Opcode}
    {operand : Operand} (h : Follows b done) (hfits : ∀ s ∈ done, s.fits)
    (hstep : step.statement? = some (.instruction op operand)) (hplain : step.interned? = none)
    (hjump : ∀ name, operand ≠ .label name) {bytes : List UInt8}
    (hbytes : bytes = op.code ::
      operand.image (places (program done)) b.pool.strings.toList b.size) :
    Follows (b.append bytes) (done ++ [step]) := by
  refine h.emission hfits hstep h.pool (List.append_nil _).symm (fun s => ?_) (fun name => ?_) ?_
  · rw [List.filterMap_append, List.mem_append, ← h.literals s]
    simp [append, hplain]
  · rw [if_neg (hjump name), List.append_nil]
    exact h.label name
  · rw [hbytes]
    simp [append]

@[simp] theorem label_setLabel (b : Builder) (name other : Text) (l : Label) :
    (b.setLabel name l).label other = if other = name then l else b.label other := by
  have hfilter : ∀ labels : List (Text × Label), other ≠ name →
      (labels.filter (·.1 ≠ name)).lookup other = labels.lookup other := by
    intro labels hne
    induction labels with
    | nil => rfl
    | cons entry rest ih =>
      obtain ⟨key, l⟩ := entry
      by_cases hkey : key = name
      · have hmiss : (other == key) = false := by simpa [hkey] using hne
        rw [List.filter_cons_of_neg (by simpa using hkey), ih, List.lookup_cons, hmiss]
      · rw [List.filter_cons_of_pos (by simpa using hkey), List.lookup_cons, List.lookup_cons, ih]
  unfold label setLabel
  dsimp only
  rw [List.lookup_cons]
  by_cases heq : other = name
  · simp [heq]
  · have hmiss : (other == name) = false := by simpa using heq
    rw [hmiss, if_neg heq, hfilter _ heq]

theorem Follows.intern {b : Builder} {done : List Step} (h : Follows b done) (s : Text) :
    Follows (b.intern s).2 (done ++ [.intern s]) := by
  obtain ⟨hpool, -, new, hnew, hmem⟩ := h.pool.intern s
  have hprogram : program (done ++ [.intern s]) = program done := by
    rw [program_concat]
    exact List.append_nil _
  refine ⟨hpool, fun t => ?_, fun name => ?_, ?_⟩
  · show t ∈ (b.pool.intern s).2.strings.toList ↔ _
    rw [hnew, hmem, h.literals, List.filterMap_append, List.mem_append, or_comm]
    simp [Step.interned?]
  · rw [hprogram]
    exact h.label name
  · rw [hprogram]
    show b.bytes.toList = image _ (b.pool.intern s).2.strings.toList 0 _
    rw [hnew, image_pool_append (fun op s hmem => (h.literals s).mpr (literal_mem hmem)), h.bytes]

theorem Follows.literal {b : Builder} {done : List Step} (h : Follows b done)
    (hfits : ∀ s ∈ done, s.fits) (s : Text) :
    Follows (b.pushString s) (done ++ [.literal s]) := by
  obtain ⟨hpool, hindex, new, hnew, hmem⟩ := h.pool.intern s
  refine h.emission hfits rfl hpool hnew (fun t => ?_) (fun name => ?_) ?_
  · show t ∈ (b.pool.intern s).2.strings.toList ↔ _
    rw [hnew, hmem, h.literals, List.filterMap_append, List.mem_append, or_comm]
    simp [Step.interned?]
  · rw [if_neg (by simp), List.append_nil]
    exact h.label name
  · have hword : Word.signedBytes 2 (((b.pool.intern s).1 % 65536 : Nat) : Int) =
        Word.bytes 2 ((b.pool.intern s).2.strings.toList.idxOf s) := by
      rw [Word.signedBytes_natCast, ← hindex]
      exact Word.bytes_mod 2 _
    show ((Opcode.pushString.code :: Word.signedBytes 2 (((b.pool.intern s).1 % 65536 : Nat) : Int)
      ).foldl (fun acc x => acc.push x) b.bytes).toList = _
    rw [hword]
    simp [Operand.image, pushString, Builder.intern, emitWord, append]

theorem Follows.jump {b : Builder} {done : List Step} (h : Follows b done)
    (hfits : ∀ s ∈ done, s.fits) (op : Opcode) (name : Text) :
    Follows (b.jump op.code name) (done ++ [.jump op name]) := by
  have hliterals : ∀ s, s ∈ b.pool.strings.toList ↔
      s ∈ (done ++ [Step.jump op name]).filterMap Step.interned? := by
    intro s
    rw [h.literals, List.filterMap_append]
    simp [Step.interned?]
  have hlabel := h.label name
  unfold Builder.jump
  cases hplace : places (program done) name with
  | some place =>
    -- the label has its place: the distance is known
    rw [hplace] at hlabel
    have hsame : (b.append [op.code]).label name = .placed place := hlabel
    dsimp only
    rw [hsame]
    dsimp only
    refine h.emission hfits rfl h.pool (List.append_nil _).symm hliterals (fun other => ?_) ?_
    · show b.label other = _
      rw [h.label other]
      by_cases heq : name = other
      · rw [← heq, hplace]
      · rw [if_neg (by simpa using heq), List.append_nil]
    · have hsize : (b.append [op.code]).size = b.size + 1 := by simp [append, Builder.size]
      have hdistance : ((place : Int) - ((b.size + 1 : Nat) + 2)) = place - (b.size + 3) := by omega
      rw [Operand.image, hplace, hsize, hdistance]
      simp [append]
  | none =>
    -- a gap, which the label waits to fill
    rw [hplace] at hlabel
    have hsame : (b.append [op.code]).label name = .awaited (gaps name 0 (program done)) := hlabel
    dsimp only
    rw [hsame]
    dsimp only
    refine h.emission hfits rfl h.pool (List.append_nil _).symm hliterals (fun other => ?_) ?_
    · have hsize : (b.append [op.code]).size = b.size + 1 := by simp [append, Builder.size]
      rw [label_setLabel, hsize]
      by_cases heq : other = name
      · rw [if_pos heq, heq, hplace, if_pos rfl]
      · rw [if_neg heq, if_neg (by simpa using fun h => heq h.symm), List.append_nil]
        exact h.label other
    · rw [Operand.image, hplace]
      simp [append, setLabel]

theorem Follows.mark {b : Builder} {done : List Step} (h : Follows b done)
    (hfits : ∀ s ∈ done, s.fits) {name : Text} (hnew : .mark name ∉ done) :
    ∃ b', b.mark? name = some b' ∧ Follows b' (done ++ [.mark name]) := by
  have hprogram : program (done ++ [.mark name]) = program done ++ [.label name] :=
    program_concat _ _
  have hplace : places (program done) name = none := by
    rw [← Option.not_isSome_iff_eq_none, places_isSome]
    intro hmem
    obtain ⟨step, hstep, hstatement⟩ := List.mem_filterMap.mp hmem
    cases step <;> simp_all [Step.statement?]
  have hlabel := h.label name
  rw [hplace] at hlabel
  have hbefore := h.size hfits
  unfold mark?
  rw [hlabel]
  refine ⟨_, rfl, h.pool, fun s => ?_, fun other => ?_, ?_⟩
  · show s ∈ b.pool.strings.toList ↔ _
    rw [h.literals, List.filterMap_append]
    simp [Step.interned?]
  · rw [label_setLabel, hprogram, places_label, gaps_append]
    by_cases heq : other = name
    · rw [if_pos heq, if_pos heq, heq, hplace, hbefore]
      rfl
    · have hnone : gaps other (programSize (program done)) [.label name] = [] := rfl
      rw [if_neg heq, if_neg heq, Option.or_none, hnone, List.append_nil]
      exact h.label other
  · have hlast : image (places (program done ++ [.label name])) b.pool.strings.toList
        (programSize (program done)) [.label name] = [] := rfl
    show ((gaps name 0 (program done)).foldl (fill b.size) b.bytes).toList =
      image _ b.pool.strings.toList 0 _
    rw [hprogram, image_append, Nat.zero_add, hlast, List.append_nil, hbefore]
    have hafter : places (program done ++ [.label name]) name =
        some (programSize (program done)) := by
      rw [places_label, hplace, if_pos rfl]
      rfl
    have hother : ∀ other, other ≠ name →
        places (program done ++ [.label name]) other = places (program done) other := by
      intro other hne
      rw [places_label, if_neg hne, Option.or_none]
    have hfront : b.bytes.toList =
        [] ++ image (places (program done)) b.pool.strings.toList 0 (program done) := h.bytes
    exact fill_gaps hplace hafter hother (fitting_program hfits) rfl hfront

/-- **One step keeps a builder where the steps lead**, and it is carried out unless it places a
label for the second time. -/
theorem Follows.perform {b : Builder} {done : List Step} (h : Follows b done)
    (hfits : ∀ s ∈ done, s.fits) {step : Step}
    (hmark : ∀ name, step = .mark name → .mark name ∉ done) :
    ∃ b', b.perform step = some b' ∧ Follows b' (done ++ [step]) := by
  cases step with
  | plain op => exact ⟨_, rfl, h.simple hfits rfl rfl (by simp) rfl⟩
  | byte op n =>
    refine ⟨_, rfl, h.simple hfits rfl rfl (by simp) ?_⟩
    simp [Operand.image, Word.bytes]
  | word op n =>
    refine ⟨_, rfl, h.simple hfits rfl rfl (by simp) ?_⟩
    rw [Operand.image, Word.signedBytes_natCast]
  | handle op n => exact ⟨_, rfl, h.simple hfits rfl rfl (by simp) rfl⟩
  | float op x => exact ⟨_, rfl, h.simple hfits rfl rfl (by simp) rfl⟩
  | literal s => exact ⟨_, rfl, h.literal hfits s⟩
  | intern s => exact ⟨_, rfl, h.intern s⟩
  | jump op name => exact ⟨_, rfl, h.jump hfits op name⟩
  | mark name => exact h.mark hfits (hmark name rfl)

/-- **All steps are carried out**, if no label is placed twice. -/
theorem Follows.performAll {b : Builder} {done steps : List Step} (h : Follows b done)
    (hfits : ∀ s ∈ done ++ steps, s.fits)
    (hmarks : ∀ name, (done ++ steps).count (.mark name) ≤ 1) :
    ∃ b', b.performAll steps = some b' ∧ Follows b' (done ++ steps) := by
  -- along the steps, those that are done growing at their end
  induction steps generalizing b done with
  | nil => exact ⟨b, rfl, by rwa [List.append_nil]⟩
  | cons step steps ih =>
    have hsplit : done ++ step :: steps = (done ++ [step]) ++ steps := by simp
    have hnew : ∀ name, step = .mark name → .mark name ∉ done := by
      rintro name rfl hmem
      have hcount := hmarks name
      have hpos := List.count_pos_iff.mpr hmem
      rw [List.count_append, List.count_cons_self] at hcount
      omega
    obtain ⟨b₁, hstep, hfollows⟩ := h.perform
      (fun s hs => hfits s (List.mem_append_left _ hs)) hnew
    obtain ⟨b', hrest, hall⟩ := ih hfollows (by rwa [← hsplit]) (by rwa [← hsplit])
    refine ⟨b', ?_, by rwa [hsplit]⟩
    rw [Builder.performAll, List.foldlM_cons, hstep]
    exact hrest

/-! ### The pool grows at its end -/

theorem prefix_intern (p : Pool) (s : Text) :
    p.strings.toList <+: (p.intern s).2.strings.toList := by
  unfold Pool.intern
  split
  · exact List.prefix_rfl
  · rw [Array.toList_push]
    exact List.prefix_append _ _

theorem pool_perform {b b' : Builder} {step : Step} (h : b.perform step = some b') :
    b.pool.strings.toList <+: b'.pool.strings.toList := by
  cases step with
  | literal s =>
    obtain rfl := Option.some.inj h
    exact prefix_intern b.pool s
  | intern s =>
    obtain rfl := Option.some.inj h
    exact prefix_intern b.pool s
  | jump op name =>
    obtain rfl := Option.some.inj h
    unfold Builder.jump
    dsimp only
    split <;> exact List.prefix_rfl
  | mark name =>
    simp only [Builder.perform, mark?] at h
    split at h
    · cases h
    · obtain rfl := Option.some.inj h
      exact List.prefix_rfl
  | _ =>
    obtain rfl := Option.some.inj h
    exact List.prefix_rfl

theorem pool_performAll {b b' : Builder} {steps : List Step} (h : b.performAll steps = some b') :
    b.pool.strings.toList <+: b'.pool.strings.toList := by
  induction steps generalizing b with
  | nil =>
    obtain rfl := Option.some.inj h
    exact List.prefix_rfl
  | cons step steps ih =>
    rw [performAll, List.foldlM_cons] at h
    obtain ⟨b₁, hstep, hrest⟩ := Option.bind_eq_some_iff.mp h
    exact (pool_perform hstep).trans (ih hrest)

/-- A pool has one place for every literal that was asked for. -/
theorem Follows.length_pool {b : Builder} {steps : List Step} (h : Follows b steps) :
    b.pool.strings.toList.length = (steps.filterMap Step.interned?).dedup.length := by
  refine List.Perm.length_eq ((List.perm_ext_iff_of_nodup h.pool.nodup (List.nodup_dedup _)).mpr ?_)
  intro s
  rw [h.literals, List.mem_dedup]

/-- The index that was given for a literal is its place in the end. -/
theorem index_of_intern {b final : Builder} {before after : List Step} {s : Text}
    (hbefore : Follows b before) (hafter : (b.intern s).2.performAll after = some final)
    (hlength : final.pool.strings.toList.length ≤ 65536) :
    final.build.strings[(b.intern s).1]? = some s := by
  obtain ⟨hfaithful, hindex, new, hnew, hmem⟩ := hbefore.pool.intern s
  have hin : s ∈ (b.pool.intern s).2.strings.toList := by
    rw [hnew]
    exact (hmem s).mpr (.inl rfl)
  have hlt := List.idxOf_lt_length_of_mem hin
  have hgrows : (b.pool.intern s).2.strings.toList <+: final.pool.strings.toList :=
    pool_performAll hafter
  have hsmall : (b.intern s).1 = (b.pool.intern s).2.strings.toList.idxOf s := by
    show (b.pool.intern s).1 % 65536 = _
    rw [hindex, Nat.mod_eq_of_lt]
    exact Nat.lt_of_lt_of_le hlt (hgrows.length_le.trans hlength)
  show final.pool.strings[(b.intern s).1]? = some s
  rw [hsmall, ← Array.getElem?_toList, List.prefix_iff_getElem?.mp hgrows _ hlt,
    List.getElem_idxOf]

/-! ### Encoding and decoding -/

/-- What a builder emitted is what an instruction is: the same operation at the same offset, and
an operand that reads the same. -/
def Emitted (known : Text → Option Nat) (pool : List Text) (e : Emission) (i : Instruction) :
    Prop :=
  i.offset = e.offset ∧ i.op = e.op ∧ e.operand.ReadBy known pool i

/-- The code of a builder is decoded into what was emitted. -/
theorem Follows.decode_build {b : Builder} {steps : List Step} (h : Follows b steps)
    (hsteps : WellFormed steps) :
    ∃ is, decode b.build.bytes = (is, .finished) ∧
      List.Forall₂ (Emitted (places (program steps)) b.build.strings.toList)
        (emitted 0 (program steps)) is := by
  have hfitting := fitting_program hsteps.fits
  have hpool : b.pool.strings.toList.length ≤ 65536 := h.length_pool.le.trans hsteps.literals
  refine ⟨_, decodeFrom_encoded (hfitting.shaped.chained _ _ 0) h.bytes, ?_⟩
  rw [List.forall₂_map_right_iff, List.forall₂_same]
  intro e he
  have hfits := hfitting.of_mem_emitted he
  refine ⟨rfl, rfl, Emission.readBy_image (Operand.Resolved.inRange ?_ hfits hpool)⟩
  cases hoperand : e.operand with
  | literal s => exact (h.literals s).mpr (literal_mem (hoperand ▸ mem_of_mem_emitted he))
  | label name => exact hsteps.jumps e he name hoperand
  | _ => trivial

/-- **Encoding and decoding are inverse.**

1. Steps that a builder can carry out are carried out, and decoding the code visits exactly the
   instructions that were emitted, in order and to the end: operands have their values, jumps
   lead to where their labels were placed, literals are found in a pool without duplicates,
   also by an index that was asked for beforehand.
2. Of any bytes, a walk visits instructions that spell a beginning of them. It ends before the
   end only at a byte that stands for no operation, at an operand that is cut off, or because it
   was told to after `limit` instructions. -/
theorem decode_built_and_spelled :
    (∀ steps, WellFormed steps → ∃ b is,
      performAll {} steps = some b ∧
      decode b.build.bytes = (is, .finished) ∧
      List.Forall₂ (Emitted (places (program steps)) b.build.strings.toList)
        (emitted 0 (program steps)) is ∧
      b.build.strings.toList.Nodup ∧
      ∀ before s after, steps = before ++ .intern s :: after →
        ∃ b', performAll {} before = some b' ∧ b.build.strings[(b'.intern s).1]? = some s) ∧
    ∀ limit bytes, Chained 0 (decodeUpTo limit bytes).1 ∧
      ∃ rest, bytes.toList = (decodeUpTo limit bytes).1.flatMap Instruction.encode ++ rest ∧
        (Stopped ((decodeUpTo limit bytes).1.flatMap Instruction.encode).length rest
            (decodeUpTo limit bytes).2 ∨
          0 < limit ∧ (decodeUpTo limit bytes).1.length = limit ∧
            (decodeUpTo limit bytes).2 = .finished) := by
  refine ⟨fun steps hsteps => ?_, decodeUpTo_spells⟩
  obtain ⟨b, hperformed, hfollows⟩ := follows_nil.performAll
    (by rw [List.nil_append]; exact hsteps.fits) (by rw [List.nil_append]; exact hsteps.marks)
  rw [List.nil_append] at hfollows
  obtain ⟨is, hdecode, hemitted⟩ := hfollows.decode_build hsteps
  refine ⟨b, is, hperformed, hdecode, hemitted, hfollows.pool.nodup, ?_⟩
  rintro before s after rfl
  -- the builder at the moment when the index was asked for
  rw [performAll, List.foldlM_append] at hperformed
  obtain ⟨b', hbefore, hafter⟩ := Option.bind_eq_some_iff.mp hperformed
  obtain ⟨b'', hbefore', hfollows'⟩ := follows_nil.performAll
    (fun s hs => hsteps.fits s (List.mem_append_left _ (by simpa using hs)))
    (fun name => (List.Sublist.count_le _ (List.sublist_append_left _ _)).trans
      (hsteps.marks name))
  rw [List.nil_append] at hfollows'
  obtain rfl : b' = b'' := Option.some.inj (hbefore.symm.trans hbefore')
  exact ⟨b', hbefore, index_of_intern hfollows' hafter
    (hfollows.length_pool.le.trans hsteps.literals)⟩

/-- A loop with a way out: a jump back, a jump ahead, and a literal that is used twice. -/
def countdown : List Step :=
  [.mark [116], .literal [97], .jump .jumpIfFalse [101], .word .pushVar 3, .literal [97],
    .handle .pushInt (-2), .jump .jump [116], .mark [101], .plain .ret]

theorem wellFormed_countdown : WellFormed countdown := by
  refine ⟨by decide, by decide, fun name => ?_, ?_⟩
  · show List.count (.mark name) countdown ≤ 1
    simp only [countdown, List.count_cons, List.count_nil, beq_iff_eq, reduceCtorEq, if_false,
      Step.mark.injEq]
    by_cases h : [116] = name
    · subst h
      decide
    · rw [if_neg h]
      split <;> omega
  · intro e he name hname
    have hemitted : emitted 0 (program countdown) =
        [⟨0, .pushString, .literal [97]⟩, ⟨3, .jumpIfFalse, .label [101]⟩, ⟨6, .pushVar, .slot 3⟩,
          ⟨9, .pushString, .literal [97]⟩, ⟨12, .pushInt, .int (-2)⟩, ⟨17, .jump, .label [116]⟩,
          ⟨20, .ret, .none⟩] := by
      decide
    rw [hemitted] at he
    simp only [List.mem_cons, List.not_mem_nil, or_false] at he
    rcases he with rfl | rfl | rfl | rfl | rfl | rfl | rfl <;> cases hname <;>
      exact ⟨_, rfl, by decide, by decide⟩

theorem decode_countdown :
    WellFormed countdown ∧ ∃ b is, performAll {} countdown = some b ∧
      decode b.build.bytes = (is, .finished) ∧ is.length = 7 := by
  refine ⟨wellFormed_countdown, ?_⟩
  obtain ⟨b, is, hperformed, hdecode, hemitted, -⟩ :=
    decode_built_and_spelled.1 countdown wellFormed_countdown
  refine ⟨b, is, hperformed, hdecode, ?_⟩
  rw [← hemitted.length_eq]
  decide

end SchemePlayer.Builder
