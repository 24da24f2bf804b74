import SchemePlayer.Proofs.Assembly.Lines

/-!
# Assembling preserves meaning

A machine can run a program line by line, without any bytes: its program counter is a line, a
label is passed over, a jump goes to the line behind its label, and an operand is what the line
says. The code that is assembled from the program does the same, step for step.

Instances of several classes take part in a tick, since a message runs other instances inside the
execution that sends it. `Sources` says which code has a source; the line machine runs the
instances of such classes by lines and all others as they are.

- `Machine.lineStep`, `Machine.lineRun`: the line machine.
- `Machine.compiled`, `TickEnd.compiled`: the same moment and the same end of a tick with offsets
  in place of lines. Stacks, memory and the state of the host are the same in both.
- `Traced`: the calls of a tick were made by lines that hold instructions; `step_compiled`: **one
  step of the code is one step of the lines**, and keeps it so.
- `run_eq_lineRun`: **the code runs as the lines do**, and is never badly encoded.
-/

namespace SchemePlayer

open Assembly

/-! ### Code and its sources -/

/-- Which code was assembled from which source, against which variables. -/
structure Sources where
  find? : Code → Option (List Text × Text)
  written : ∀ code names source, find? code = some (names, source) → Written code names source

namespace Sources

variable (S : Sources)

/-- The lines from which code was assembled. -/
def program? (code : Code) : Option (List Statement) :=
  (S.find? code).map fun (names, source) => linesOf names source

/-- The offset of a line in code. In code without a source, lines are offsets. -/
def offset (code : Code) (line : Nat) : Nat :=
  match S.program? code with
  | some program => offsetOf program line
  | none => line

variable {S}

theorem written_of_program? {code : Code} {program : List Statement}
    (h : S.program? code = some program) :
    ∃ names source, Written code names source ∧ program = linesOf names source := by
  unfold program? at h
  cases hfind : S.find? code with
  | none =>
    rw [hfind] at h
    cases h
  | some found =>
    rw [hfind] at h
    exact ⟨found.1, found.2, S.written code found.1 found.2 hfind, (Option.some.inj h).symm⟩

theorem offset_of_program? {code : Code} {program : List Statement}
    (h : S.program? code = some program) : S.offset code = offsetOf program := by
  funext line
  rw [offset, h]

theorem offset_of_none {code : Code} (h : S.program? code = none) : S.offset code = id := by
  funext line
  rw [offset, h]
  rfl

theorem offset_zero (code : Code) : S.offset code 0 = 0 := by
  unfold offset
  split <;> rfl

end Sources

/-! ### Running lines -/

namespace Machine

variable {σ : Type}

/-- Performs the next line of a program that the innermost execution runs. -/
def lineExecute (h : Host σ) (s : Setting) (m : Machine σ) (f : Frame) (outer : List Frame)
    (program : List Statement) : Progress σ :=
  match next? program f.pc with
  | none => goesOn { m with frames := outer }
  | some (line, op, operand) =>
    let f := { f with pc := line }
    match lineEffect program line op operand (m.scenery s f) f.stack with
    | .error fault => m.fail f fault
    -- an instruction without bytes for its operand takes one line
    | .ok effect => m.perform h s f outer ⟨line, op, []⟩ effect

/-- One step of a tick in which code with a source is run by its lines. What a message has still
to run comes first, as ever. -/
def lineStep (S : Sources) (h : Host σ) (s : Setting) (m : Machine σ) : Progress σ :=
  match m.frames with
  | f :: outer =>
    match S.program? f.inst.proto.program, f.targets with
    | some program, [] => m.lineExecute h s f outer program
    | _, _ => m.execute h s f outer
  | [] =>
    match m.agenda with
    | [] => (m, some .completed)
    | v :: agenda => goesOn (({ m with agenda } : Machine σ).visit s v)

/-- Steps until the tick ends, at most as many as the budget allows. -/
def lineRun (S : Sources) (h : Host σ) (s : Setting) : Nat → Machine σ → Machine σ × TickEnd
  | 0, m => (m, .failed .exhausted)
  | budget + 1, m =>
    match m.lineStep S h s with
    | (m, none) => lineRun S h s budget m
    | (m, some how) => (m, how)

end Machine

/-! ### Offsets in place of lines -/

section Compiled

variable (S : Sources) (t : Tree)

/-- An execution at an offset. -/
def Frame.compiled (f : Frame) : Frame := { f with pc := S.offset f.inst.proto.program f.pc }

/-- The site of a call at an offset. -/
def CallSite.compiled (c : CallSite) : CallSite :=
  match t.instance? c.inst with
  | some inst => ⟨c.inst, S.offset inst.proto.program c.offset⟩
  | none => c

/-- The key of a call whose site is at an offset. -/
def CallKey.compiled (k : CallKey) : CallKey := ⟨k.site.compiled S t, k.turn⟩

/-- A setting whose replies are those to calls at offsets. -/
def Setting.compiled (s : Setting) : Setting :=
  { s with delivered := s.delivered.map fun (k, v) => (k.compiled S s.tree, v) }

/-- A moment of a tick with offsets in place of lines. Nothing else differs. -/
def Machine.compiled {σ : Type} (m : Machine σ) : Machine σ :=
  { m with
    frames := m.frames.map (Frame.compiled S)
    reached := m.reached.map (CallSite.compiled S t)
    pending := m.pending.map fun p => { p with key := p.key.compiled S t } }

/-- How a tick ended, a failure being that of the innermost of some executions. -/
def TickEnd.compiled (frames : List Frame) : TickEnd → TickEnd
  | .failed (.at className line fault) =>
    match frames.head? with
    | some f =>
      .failed (.at className (S.offset f.inst.proto.program line)
        (fault.relocate (S.offset f.inst.proto.program)))
    | none => .failed (.at className line fault)
  | how => how

/-- A step with offsets in place of lines. -/
def Machine.Progress.compiled {σ : Type} (x : Machine.Progress σ) : Machine.Progress σ :=
  (x.1.compiled S t, x.2.map (TickEnd.compiled S x.1.frames))

/-- A call was made by a line that holds an instruction, if its code has lines. -/
def CallSite.OnLine (c : CallSite) : Prop :=
  ∀ inst program, t.instance? c.inst = some inst → S.program? inst.proto.program = some program →
    ∃ op operand, program[c.offset]? = some (.instruction op operand)

/-- The replies that were collected are those to calls made by lines with instructions. -/
def Setting.OnLines (s : Setting) : Prop := ∀ entry ∈ s.delivered, entry.1.site.OnLine S s.tree

/-- A moment of a tick: executions are those of instances of the tree, and calls were made by
lines that hold instructions. -/
structure Machine.Traced {σ : Type} (s : Setting) (m : Machine σ) : Prop where
  frames : ∀ f ∈ m.frames, s.tree.instance? f.id = some f.inst
  reached : ∀ c ∈ m.reached, c.OnLine S s.tree
  pending : ∀ p, m.pending = some p → p.key.site.OnLine S s.tree

end Compiled

variable {S : Sources} {t : Tree} {σ : Type} {h : Host σ} {s : Setting} {m : Machine σ}

/-- **Sites on lines with instructions are told apart by their offsets.** -/
theorem CallSite.compiled_injective {c c' : CallSite} (hc : c.OnLine S t) (hc' : c'.OnLine S t)
    (heq : c.compiled S t = c'.compiled S t) : c = c' := by
  obtain ⟨id, line⟩ := c
  obtain ⟨id', line'⟩ := c'
  have hinst : ∀ c : CallSite, (c.compiled S t).inst = c.inst := by
    intro c
    unfold compiled
    split <;> rfl
  have hid := congrArg CallSite.inst heq
  rw [hinst, hinst] at hid
  obtain rfl : id = id' := hid
  unfold compiled at heq
  dsimp only at heq
  split at heq
  · rename_i inst hfound
    have hoffset := (CallSite.mk.inj heq).2
    cases hprogram : S.program? inst.proto.program with
    | none =>
      rw [Sources.offset_of_none hprogram] at hoffset
      exact congrArg _ hoffset
    | some program =>
      obtain ⟨op, operand, hline⟩ := hc inst program hfound hprogram
      obtain ⟨op', operand', hline'⟩ := hc' inst program hfound hprogram
      rw [Sources.offset_of_program? hprogram] at hoffset
      exact congrArg _ (offsetOf_injective hline hline' hoffset)
  · exact heq

theorem CallKey.compiled_injective {k k' : CallKey} (hk : k.site.OnLine S t)
    (hk' : k'.site.OnLine S t) (heq : k.compiled S t = k'.compiled S t) : k = k' := by
  obtain ⟨site, turn⟩ := k
  obtain ⟨site', turn'⟩ := k'
  obtain ⟨hsite, hturn⟩ := CallKey.mk.inj heq
  have := CallSite.compiled_injective hk hk' hsite
  simp_all

theorem count_compiled {c : CallSite} (hc : c.OnLine S t) {reached : List CallSite}
    (hreached : ∀ c ∈ reached, c.OnLine S t) :
    (reached.map (CallSite.compiled S t)).count (c.compiled S t) = reached.count c := by
  induction reached with
  | nil => rfl
  | cons first rest ih =>
    have hfirst := hreached first (.head _)
    rw [List.map_cons, List.count_cons, List.count_cons, ih fun c hc => hreached c (.tail _ hc)]
    congr 1
    by_cases heq : first = c
    · simp [heq]
    · have hne : first.compiled S t ≠ c.compiled S t :=
        fun h => heq (CallSite.compiled_injective hfirst hc h)
      simp [heq, hne]

theorem lookup_compiled {k : CallKey} (hk : k.site.OnLine S t)
    {delivered : List (CallKey × Value)}
    (hdelivered : ∀ entry ∈ delivered, entry.1.site.OnLine S t) :
    (delivered.map fun (k, v) => (k.compiled S t, v)).lookup (k.compiled S t) =
      delivered.lookup k := by
  induction delivered with
  | nil => rfl
  | cons first rest ih =>
    obtain ⟨key, v⟩ := first
    have hfirst : key.site.OnLine S t := hdelivered (key, v) (.head _)
    rw [List.map_cons, List.lookup_cons, List.lookup_cons,
      ih fun entry hentry => hdelivered entry (.tail _ hentry)]
    by_cases heq : k = key
    · simp [heq]
    · have hne : k.compiled S t ≠ key.compiled S t :=
        fun h => heq (CallKey.compiled_injective hk hfirst h)
      have hmiss : (k == key) = false := by simpa using heq
      have hmiss' : (k.compiled S t == key.compiled S t) = false := by simpa using hne
      rw [hmiss, hmiss']

namespace Machine

/-! ### One step of both machines -/

/-- A step of the code is one of the lines: the same moment and end, with offsets, and calls made
by lines that hold instructions. -/
structure Agrees (S : Sources) (s : Setting) (bytes lines : Progress σ) : Prop where
  eq : bytes = lines.compiled S s.tree
  traced : lines.1.Traced S s

theorem Agrees.goesOn {m' : Machine σ} (heq : m' = m.compiled S s.tree) (hm : m.Traced S s) :
    Agrees S s (goesOn m') (goesOn m) :=
  ⟨by rw [heq]; rfl, hm⟩

theorem Traced.withFrames {frames : List Frame} (hm : m.Traced S s)
    (hframes : ∀ f ∈ frames, s.tree.instance? f.id = some f.inst) :
    ({ m with frames } : Machine σ).Traced S s :=
  ⟨hframes, hm.reached, hm.pending⟩

/-- The innermost execution and those outside it are of instances of the tree. -/
theorem Traced.innermost (hm : m.Traced S s) {f : Frame} {outer : List Frame}
    (hframes : m.frames = f :: outer) :
    s.tree.instance? f.id = some f.inst ∧
      (∀ f ∈ outer, s.tree.instance? f.id = some f.inst) ∧
      m.frames.head?.map (·.inst) = some f.inst := by
  refine ⟨hm.frames f (hframes ▸ .head _), fun f' hf' => hm.frames f' (hframes ▸ .tail _ hf'), ?_⟩
  rw [hframes]
  rfl

theorem begin_compiled (hm : m.Traced S s) (id : Nat) :
    (m.compiled S s.tree).begin (s.compiled S) id = (m.begin s id).compiled S s.tree ∧
      (m.begin s id).Traced S s := by
  have hlength : (m.compiled S s.tree).frames.length = m.frames.length := List.length_map _
  have hinstance : (s.compiled S).tree.instance? id = s.tree.instance? id := rfl
  unfold begin
  rw [hlength, hinstance]
  show (if m.frames.length < s.maxDepth then _ else _) = _ ∧ _
  split
  · cases hfound : s.tree.instance? id with
    | none => exact ⟨rfl, hm⟩
    | some inst =>
      dsimp only
      refine ⟨?_, hm.withFrames fun f hf => ?_⟩
      · -- execution begins on the first line, which is at offset zero
        have hfirst : Frame.compiled S { id, inst } = { id, inst } := by
          rw [Frame.compiled, Sources.offset_zero]
        simp only [Machine.compiled, List.map_cons, hfirst]
      · rcases List.mem_cons.mp hf with rfl | hf
        · exact hfound
        · exact hm.frames f hf
  · exact ⟨rfl, ⟨hm.frames, hm.reached, hm.pending⟩⟩

theorem visit_compiled (hm : m.Traced S s) (v : Visit) :
    (m.compiled S s.tree).visit (s.compiled S) v = (m.visit s v).compiled S s.tree ∧
      (m.visit s v).Traced S s := by
  cases v with
  | run id => exact begin_compiled hm id
  | enter id =>
    have hinstance : (s.compiled S).tree.instance? id = s.tree.instance? id := rfl
    unfold visit
    dsimp only
    rw [hinstance]
    cases s.tree.instance? id with
    | none => exact ⟨rfl, hm⟩
    | some inst =>
      have hdisabled : (m.compiled S s.tree).isDisabled inst = m.isDisabled inst := rfl
      dsimp only
      rw [hdisabled]
      split
      · exact ⟨rfl, hm⟩
      · exact ⟨rfl, ⟨hm.frames, hm.reached, hm.pending⟩⟩

/-- Failing at an offset is failing on the line. -/
theorem fail_compiled (hm : m.Traced S s) {f : Frame}
    (hinner : m.frames.head?.map (·.inst) = some f.inst) (fault : Fault) :
    Agrees S s
      ((m.compiled S s.tree).fail (f.compiled S)
        (fault.relocate (S.offset f.inst.proto.program)))
      (m.fail f fault) := by
  refine ⟨?_, hm⟩
  obtain ⟨inner, hinner, hinst⟩ := Option.map_eq_some_iff.mp hinner
  simp only [fail, Progress.compiled, Option.map_some, TickEnd.compiled, hinner, hinst,
    Frame.compiled]

/-- **Asking the host** at an offset is asking it on the line. -/
theorem ask_compiled (hs : s.OnLines S) (hm : m.Traced S s) {f : Frame}
    (hf : s.tree.instance? f.id = some f.inst) (hsite : CallSite.OnLine S s.tree ⟨f.id, f.pc⟩)
    (hinner : m.frames.head?.map (·.inst) = some f.inst) (call : HyperCall)
    {next : Value → List Frame} (hnext : ∀ v, ∀ f ∈ next v, s.tree.instance? f.id = some f.inst) :
    Agrees S s
      ((m.compiled S s.tree).ask h (s.compiled S) (f.compiled S) call
        fun v => (next v).map (Frame.compiled S))
      (m.ask h s f call next) := by
  let site : CallSite := ⟨f.id, f.pc⟩
  let key : CallKey := ⟨site, m.reached.count site⟩
  -- 1. the same call is meant
  have hsite' : (⟨(f.compiled S).id, (f.compiled S).pc⟩ : CallSite) = site.compiled S s.tree := by
    simp only [CallSite.compiled, site, hf]
    rfl
  have hkey : (⟨site.compiled S s.tree,
      (m.compiled S s.tree).reached.count (site.compiled S s.tree)⟩ : CallKey) =
        key.compiled S s.tree :=
    congrArg _ (count_compiled hsite hm.reached)
  have hlookup : (s.compiled S).delivered.lookup (key.compiled S s.tree) = s.delivered.lookup key :=
    lookup_compiled hsite hs
  have hpending : (m.compiled S s.tree).pending.isSome = m.pending.isSome := Option.isSome_map
  -- 2. the line is among those that were reached
  have hreached : ({ m with reached := site :: m.reached } : Machine σ).Traced S s := by
    refine ⟨hm.frames, fun c hc => ?_, hm.pending⟩
    rcases List.mem_cons.mp hc with rfl | hc
    · exact hsite
    · exact hm.reached c hc
  unfold ask
  dsimp only
  rw [hsite', hkey, hlookup]
  cases s.delivered.lookup key with
  | some v => exact .goesOn rfl (hreached.withFrames (hnext v))
  | none =>
    dsimp only
    rw [hpending]
    split
    · exact ⟨rfl, hreached⟩
    · -- 3. the host is asked the same by the same instance
      have hhost : (m.compiled S s.tree).host = m.host := rfl
      have hcaller : (⟨(s.compiled S).project, (s.compiled S).dir, (f.compiled S).inst.proto.name,
          (f.compiled S).id, (s.compiled S).classes⟩ : Caller) =
            ⟨s.project, s.dir, f.inst.proto.name, f.id, s.classes⟩ := rfl
      rw [hhost, hcaller]
      rcases h.call m.host ⟨s.project, s.dir, f.inst.proto.name, f.id, s.classes⟩ call with
        ⟨reply, host⟩
      have hasked : ({ m with host, reached := site :: m.reached } : Machine σ).Traced S s :=
        ⟨hreached.frames, hreached.reached, hreached.pending⟩
      cases reply with
      | pending ticket =>
        refine ⟨rfl, hm.frames, hreached.reached, fun p hp => ?_⟩
        obtain rfl := Option.some.inj hp
        exact hsite
      | failed cause =>
        dsimp only
        split
        · exact @fail_compiled S σ s { m with host, reached := site :: m.reached } hasked f hinner
            (.host call.op cause)
        · exact .goesOn rfl (hasked.withFrames (hnext _))
      | ready v => exact .goesOn rfl (hasked.withFrames (hnext _))

/-- **Carrying out an effect** at an offset is carrying it out on the line. -/
theorem perform_compiled (hs : s.OnLines S) (hm : m.Traced S s) {f : Frame} {outer : List Frame}
    (hf : s.tree.instance? f.id = some f.inst)
    (houter : ∀ f ∈ outer, s.tree.instance? f.id = some f.inst)
    (hsite : CallSite.OnLine S s.tree ⟨f.id, f.pc⟩)
    (hinner : m.frames.head?.map (·.inst) = some f.inst) {i j : Instruction}
    (hsize : S.offset f.inst.proto.program (f.pc + j.size) =
      S.offset f.inst.proto.program f.pc + i.size) (e : Effect) :
    Agrees S s
      ((m.compiled S s.tree).perform h (s.compiled S) (f.compiled S)
        (outer.map (Frame.compiled S)) i (e.relocate (S.offset f.inst.proto.program)))
      (m.perform h s f outer j e) := by
  -- the frame goes on behind the instruction, on the next line
  have hnext : ∀ stack targets, Frame.compiled S { f with pc := f.pc + j.size, stack, targets } =
      { f.compiled S with pc := (f.compiled S).pc + i.size, stack, targets } := by
    intro stack targets
    simp only [Frame.compiled, hsize]
  have hframes : ∀ g : Frame, g.id = f.id → g.inst = f.inst →
      ∀ f ∈ g :: outer, s.tree.instance? f.id = some f.inst := by
    intro g hid hinst f' hf'
    rcases List.mem_cons.mp hf' with rfl | hf'
    · rw [hid, hinst]
      exact hf
    · exact houter f' hf'
  cases e with
  | next stack =>
    refine .goesOn ?_ (hm.withFrames (hframes _ rfl rfl))
    simp only [Machine.compiled, List.map_cons, hnext]
    rfl
  | jump target stack => exact .goesOn rfl (hm.withFrames (hframes _ rfl rfl))
  | store slot value stack =>
    have hmemory : (m.compiled S s.tree).memory = m.memory := rfl
    simp only [perform, Effect.relocate, hmemory]
    cases m.memory.write slot value with
    | ok memory =>
      refine .goesOn ?_ ⟨hframes _ rfl rfl, hm.reached, hm.pending⟩
      simp only [Machine.compiled, List.map_cons, hnext]
      rfl
    | error e => exact fail_compiled hm hinner (.crash e)
  | finish => exact .goesOn rfl (hm.withFrames houter)
  | closeAll =>
    refine .goesOn ?_ ⟨hframes _ rfl rfl, hm.reached, hm.pending⟩
    simp only [Machine.compiled, List.map_cons, hnext]
    rfl
  | send className stack =>
    refine .goesOn ?_ (hm.withFrames (hframes _ rfl rfl))
    simp only [Machine.compiled, List.map_cons, hnext]
    rfl
  | ask call stack =>
    have hasked := @ask_compiled S σ h s m hs hm f hf hsite hinner call
      (fun v => { f with pc := f.pc + j.size, stack := v :: stack } :: outer)
      fun v => hframes _ rfl rfl
    simp only [List.map_cons, hnext] at hasked
    exact hasked

/-- What a message has still to run is begun in the same way. -/
theorem execute_target_compiled (hm : m.Traced S s) {f : Frame} {outer : List Frame}
    (hframes : m.frames = f :: outer) {target : Nat} {targets : List Nat}
    (htargets : f.targets = target :: targets) :
    Agrees S s
      ((m.compiled S s.tree).execute h (s.compiled S) (f.compiled S) (outer.map (Frame.compiled S)))
      (m.execute h s f outer) := by
  have hm' : ({ m with frames := { f with targets } :: outer } : Machine σ).Traced S s := by
    obtain ⟨hf, houter, -⟩ := hm.innermost hframes
    refine hm.withFrames fun f' hf' => ?_
    rcases List.mem_cons.mp hf' with rfl | hf'
    · exact hf
    · exact houter f' hf'
  have htargets' : (f.compiled S).targets = target :: targets := htargets
  obtain ⟨heq, htraced⟩ := begin_compiled hm' target
  unfold execute
  rw [htargets', htargets]
  exact .goesOn heq htraced

/-- Code without a source runs as it is. -/
theorem execute_compiled (hs : s.OnLines S) (hm : m.Traced S s) {f : Frame} {outer : List Frame}
    (hframes : m.frames = f :: outer) (htargets : f.targets = [])
    (hnone : S.program? f.inst.proto.program = none) :
    Agrees S s
      ((m.compiled S s.tree).execute h (s.compiled S) (f.compiled S) (outer.map (Frame.compiled S)))
      (m.execute h s f outer) := by
  have hid := Sources.offset_of_none hnone
  obtain ⟨hf, houter, hinner⟩ := hm.innermost hframes
  have hsite : CallSite.OnLine S s.tree ⟨f.id, f.pc⟩ := by
    intro inst program hinst hprogram
    rw [hf] at hinst
    obtain rfl := Option.some.inj hinst
    rw [hnone] at hprogram
    cases hprogram
  have hpc : (f.compiled S).pc = f.pc := by
    rw [Frame.compiled, hid]
    rfl
  have hrelocate : ∀ fault : Fault, fault.relocate id = fault := by
    intro fault
    cases fault <;> rfl
  have hrelocate' : ∀ e : Effect, e.relocate id = e := by
    intro e
    cases e <;> rfl
  have htargets' : (f.compiled S).targets = [] := htargets
  have hcode : (f.compiled S).inst = f.inst := rfl
  unfold execute
  rw [htargets', htargets]
  dsimp only
  rw [hpc, hcode]
  split
  · exact .goesOn rfl (hm.withFrames houter)
  · split
    · exact fail_compiled hm hinner (.unknownOpcode _)
    · rename_i op _
      have hfail := fail_compiled hm hinner (.truncated op f.pc)
      rwa [hid, hrelocate] at hfail
    · rename_i i _
      have hscenery : (m.compiled S s.tree).scenery (s.compiled S) (f.compiled S) =
          m.scenery s f := rfl
      have hstack : (f.compiled S).stack = f.stack := rfl
      rw [hscenery, hstack]
      split
      · rename_i fault _
        have hfail := fail_compiled hm hinner fault
        rwa [hid, hrelocate] at hfail
      · rename_i e _
        have hperform := @perform_compiled S σ h s m hs hm f outer hf houter hsite hinner i i
          (by rw [hid]; rfl) e
        rwa [hid, hrelocate'] at hperform

/-- **Code with a source runs as its lines do.** -/
theorem lineExecute_compiled (hs : s.OnLines S) (hm : m.Traced S s) {f : Frame}
    {outer : List Frame} (hframes : m.frames = f :: outer) (htargets : f.targets = [])
    {program : List Statement} (hprogram : S.program? f.inst.proto.program = some program) :
    Agrees S s
      ((m.compiled S s.tree).execute h (s.compiled S) (f.compiled S) (outer.map (Frame.compiled S)))
      (m.lineExecute h s f outer program) := by
  have hoffset := Sources.offset_of_program? hprogram
  obtain ⟨names, source, hwritten, hlines⟩ := Sources.written_of_program? hprogram
  obtain ⟨hf, houter, hinner⟩ := hm.innermost hframes
  have hpc : (f.compiled S).pc = offsetOf program f.pc := by rw [← hoffset]; rfl
  have htargets' : (f.compiled S).targets = [] := htargets
  have hcode : (f.compiled S).inst = f.inst := rfl
  unfold execute lineExecute
  rw [htargets']
  dsimp only
  rw [hpc, hcode]
  cases hnext : next? program f.pc with
  | none =>
    rw [hlines] at hnext
    rw [hlines, hwritten.fetch_end hnext]
    exact .goesOn rfl (hm.withFrames houter)
  | some found =>
    -- 1. the instruction of the next line is fetched
    obtain ⟨line, op, operand⟩ := found
    obtain ⟨hline, hsame⟩ := next?_some hnext
    have hline' := hline
    rw [hlines] at hline'
    obtain ⟨i, hbyte, hfetch, hop, hplace, hsize, hread, hkind⟩ := hwritten.fetch hline'
    rw [← hlines] at hbyte hfetch hplace hread
    rw [← hsame, hbyte]
    dsimp only
    rw [Instruction.readAt_eq_fetchAt, hfetch]
    dsimp only
    -- 2. it does what the line does
    have hframe : f.compiled S = Frame.compiled S { f with pc := line } := by
      simp only [Frame.compiled, hoffset, hsame]
    have hscenery : (m.compiled S s.tree).scenery (s.compiled S) (f.compiled S) =
        m.scenery s { f with pc := line } := rfl
    have hstack : (f.compiled S).stack = f.stack := rfl
    have heffect : i.effect (m.scenery s { f with pc := line }) f.stack =
        relocated (offsetOf program)
          (lineEffect program line op operand (m.scenery s { f with pc := line }) f.stack) := by
      rw [← hop] at hkind ⊢
      exact effect_eq_lineEffect hkind hplace hread (hwritten.size_eq.trans (by rw [hlines]))
    rw [hscenery, hstack, heffect, hframe]
    have hinner' : m.frames.head?.map (·.inst) = some ({ f with pc := line } : Frame).inst := hinner
    cases lineEffect program line op operand (m.scenery s { f with pc := line }) f.stack with
    | error fault =>
      have hfail := fail_compiled hm hinner' fault
      rw [hoffset] at hfail
      exact hfail
    | ok e =>
      have hsite : CallSite.OnLine S s.tree ⟨f.id, line⟩ := by
        intro inst program' hinst hprogram'
        rw [hf] at hinst
        obtain rfl := Option.some.inj hinst
        rw [hprogram] at hprogram'
        obtain rfl := Option.some.inj hprogram'
        exact ⟨op, operand, hline⟩
      have hperform := @perform_compiled S σ h s m hs hm { f with pc := line } outer hf houter hsite
        hinner' i ⟨line, op, []⟩ (by
          rw [hoffset, hsize]
          exact offsetOf_succ hline) e
      rw [hoffset] at hperform
      exact hperform

/-- **One step of the code is one step of the lines.** -/
theorem step_compiled (hs : s.OnLines S) (hm : m.Traced S s) :
    Agrees S s ((m.compiled S s.tree).step h (s.compiled S)) (m.lineStep S h s) := by
  cases hframes : m.frames with
  | nil =>
    have hnone : (m.compiled S s.tree).frames = [] := by simp [Machine.compiled, hframes]
    have hagenda : (m.compiled S s.tree).agenda = m.agenda := rfl
    unfold step lineStep
    rw [hnone, hframes, hagenda]
    cases hnext : m.agenda with
    | nil => exact ⟨rfl, hm⟩
    | cons v agenda =>
      have hm' : ({ m with agenda, frames := [] } : Machine σ).Traced S s :=
        ⟨by simp, hm.reached, hm.pending⟩
      obtain ⟨heq, htraced⟩ := visit_compiled hm' v
      exact .goesOn heq htraced
  | cons f outer =>
    have hsome : (m.compiled S s.tree).frames = f.compiled S :: outer.map (Frame.compiled S) := by
      simp [Machine.compiled, hframes]
    unfold step lineStep
    rw [hsome, hframes]
    dsimp only
    split
    · rename_i program hprogram htargets
      exact lineExecute_compiled hs hm hframes htargets hprogram
    · rename_i hother
      cases htargets : f.targets with
      | cons target targets => exact execute_target_compiled hm hframes htargets
      | nil =>
        refine execute_compiled hs hm hframes htargets ?_
        rw [Option.eq_none_iff_forall_ne_some]
        exact fun program hprogram => hother program hprogram htargets

/-! ### What can go wrong -/

/-- A line fails, if it does, by no fault of encoding. -/
theorem fails_lineExecute {f : Frame} {outer : List Frame} (hframes : m.frames = f :: outer)
    {program : List Statement} (hprogram : S.program? f.inst.proto.program = some program) :
    Fails (fun fault => fault.isEncoding = false) f.inst (m.lineExecute h s f outer program) := by
  have hinner : m.frames.head?.map (·.inst) = some f.inst := by rw [hframes]; rfl
  obtain ⟨names, source, hwritten, rfl⟩ := Sources.written_of_program? hprogram
  unfold lineExecute
  split
  · exact fails_goesOn
  · rename_i line op operand hnext
    have hkind := (linesOf_fits hwritten.slots (List.mem_of_getElem? (next?_some hnext).1)).1
    dsimp only
    split
    · rename_i fault heffect
      exact fails_fail hinner (isEncoding_lineEffect hkind heffect)
    · exact fails_perform hinner (fun _ _ => rfl) fun _ => rfl

/-- **An execution whose code has a source never fails by a fault of encoding.** -/
theorem isEncoding_lineStep {className : Text} {place : Nat} {fault : Fault}
    (hend : (m.lineStep S h s).2 = some (.failed (.at className place fault))) {f : Frame}
    {outer : List Frame} (hinner : (m.lineStep S h s).1.frames = f :: outer)
    (hsome : (S.program? f.inst.proto.program).isSome) : fault.isEncoding = false := by
  cases hframes : m.frames with
  | nil =>
    unfold lineStep at hend
    rw [hframes] at hend
    dsimp only at hend
    split at hend
    · cases hend
    · exact absurd hend (by simp [goesOn])
  | cons g rest =>
    cases hprogram : S.program? g.inst.proto.program with
    | none =>
      -- the bytes of other code: its execution is not the one that is spoken of
      have hstep : m.lineStep S h s = m.execute h s g rest := by
        simp only [lineStep, hframes, hprogram]
      rw [hstep] at hend hinner
      have hinst := (fails_execute hframes _ _ _ hend).1
      rw [hinner] at hinst
      have hsame : f.inst = g.inst := Option.some.inj hinst
      rw [hsame, hprogram] at hsome
      cases hsome
    | some program =>
      cases htargets : g.targets with
      | nil =>
        have hstep : m.lineStep S h s = m.lineExecute h s g rest program := by
          simp only [lineStep, hframes, hprogram, htargets]
        rw [hstep] at hend
        exact (fails_lineExecute hframes hprogram _ _ _ hend).2
      | cons target targets =>
        have hstep : m.lineStep S h s = m.execute h s g rest := by
          simp only [lineStep, hframes, hprogram, htargets]
        rw [hstep, execute, htargets] at hend
        exact absurd hend (by simp [goesOn])

/-! ### Whole runs -/

theorem isEncoding_lineRun {budget : Nat} {className : Text} {place : Nat} {fault : Fault}
    (hend : (m.lineRun S h s budget).2 = .failed (.at className place fault)) {f : Frame}
    {outer : List Frame} (hinner : (m.lineRun S h s budget).1.frames = f :: outer)
    (hsome : (S.program? f.inst.proto.program).isSome) : fault.isEncoding = false := by
  induction budget generalizing m with
  | zero => cases hend
  | succ budget ih =>
    rw [lineRun] at hend hinner
    rcases hstep : m.lineStep S h s with ⟨m', _ | how⟩
    · rw [hstep] at hend hinner
      exact ih hend hinner
    · rw [hstep] at hend hinner
      have hend' : (m.lineStep S h s).2 = some (.failed (.at className place fault)) := by
        rw [hstep]
        exact congrArg some hend
      have hinner' : (m.lineStep S h s).1.frames = f :: outer := by
        rw [hstep]
        exact hinner
      exact isEncoding_lineStep hend' hinner' hsome

/-- A whole run of the code is one of the lines. -/
theorem run_compiled (hs : s.OnLines S) (hm : m.Traced S s) (budget : Nat) :
    (m.compiled S s.tree).run h (s.compiled S) budget =
        ((m.lineRun S h s budget).1.compiled S s.tree,
          (m.lineRun S h s budget).2.compiled S (m.lineRun S h s budget).1.frames) ∧
      (m.lineRun S h s budget).1.Traced S s := by
  induction budget generalizing m with
  | zero => exact ⟨rfl, hm⟩
  | succ budget ih =>
    obtain ⟨heq, htraced⟩ := step_compiled (h := h) hs hm
    rw [run, lineRun, heq]
    rcases hstep : m.lineStep S h s with ⟨m', _ | how⟩
    · rw [hstep] at htraced
      exact ih htraced
    · rw [hstep] at htraced
      exact ⟨rfl, htraced⟩

/-- A tick that begins with nothing running, nothing collected and nothing outstanding has no lines
in it yet: it is the same in both readings. -/
theorem compiled_start (S : Sources) {s : Setting} {m : Machine σ} (hs : s.delivered = [])
    (hframes : m.frames = []) (hreached : m.reached = []) (hpending : m.pending = none) :
    s.compiled S = s ∧ s.OnLines S ∧ m.compiled S s.tree = m ∧ m.Traced S s := by
  refine ⟨?_, ?_, ?_, ?_, ?_, ?_⟩
  · rw [Setting.compiled, hs, List.map_nil, ← hs]
  · rw [Setting.OnLines, hs]
    simp
  · rw [Machine.compiled, hframes, hreached, hpending, List.map_nil, List.map_nil, Option.map_none,
      ← hframes, ← hreached, ← hpending]
  · simp [hframes]
  · simp [hreached]
  · simp [hpending]

/-- **The code runs as the lines do.** Take any tick that begins, or goes on, in any moment `m`
with any host, in which the code of some classes was assembled from sources. Running the bytes for
any number of steps and running the lines for as many leads to the same moment and the same end,
with offsets in place of lines: memory, stacks, the state of the host and with it all calls are
the same. And the code is never badly encoded: where it was assembled, no byte stands for no
operation, no operand is cut off, and no jump leaves the code. A tick that begins anew, with
nothing on any stack, is the same moment in both readings. What an operand on a line says,
`means_of_mem_linesOf` reads from the text. -/
theorem run_eq_lineRun (S : Sources) (h : Host σ) (s : Setting) (m : Machine σ)
    (hs : s.OnLines S) (hm : m.Traced S s) (budget : Nat) :
    (m.compiled S s.tree).run h (s.compiled S) budget =
        ((m.lineRun S h s budget).1.compiled S s.tree,
          (m.lineRun S h s budget).2.compiled S (m.lineRun S h s budget).1.frames) ∧
      (m.lineRun S h s budget).1.Traced S s ∧
      (∀ className offset fault f outer,
        ((m.compiled S s.tree).run h (s.compiled S) budget).2 =
            .failed (.at className offset fault) →
          ((m.compiled S s.tree).run h (s.compiled S) budget).1.frames = f :: outer →
            (S.program? f.inst.proto.program).isSome → fault.isEncoding = false) ∧
      (s.delivered = [] → m.frames = [] → m.reached = [] → m.pending = none →
        s.compiled S = s ∧ m.compiled S s.tree = m) := by
  obtain ⟨heq, htraced⟩ := run_compiled (h := h) hs hm budget
  refine ⟨heq, htraced, ?_, ?_⟩
  · intro className offset fault f outer hend hinner hsome
    rw [heq] at hend hinner
    dsimp only at hend hinner
    -- the same fault on the line
    obtain ⟨g, rest, hframes, rfl, -⟩ := List.map_eq_cons_iff.mp hinner
    rcases hhow : (m.lineRun S h s budget).2 with _ | _ | ⟨className', line, fault'⟩ | _
    · rw [hhow] at hend
      cases hend
    · rw [hhow] at hend
      cases hend
    · rw [hhow, hframes] at hend
      simp only [TickEnd.compiled, List.head?_cons, TickEnd.failed.injEq, Failure.at.injEq] at hend
      have hline := isEncoding_lineRun hhow hframes hsome
      rw [← hend.2.2]
      cases fault' <;> exact hline
    · rw [hhow] at hend
      cases hend
  · intro hdelivered hframes hreached hpending
    obtain ⟨hsetting, -, hmachine, -⟩ := compiled_start S hdelivered hframes hreached hpending
    exact ⟨hsetting, hmachine⟩

/-- A loop that a variable keeps going, with labels at both ends and a comment. -/
def looping : Text :=
  Text.ofString "top:\n push_var X ; read\n jump_if_false end\n push_float 0\n store_var x\n jump top\nend:\n"

/-- Its code. -/
def loopCode : Code :=
  ⟨#[32, 0, 0, 97, 15, 0, 16, 0, 0, 0, 0, 0, 0, 0, 0, 34, 0, 0, 96, 235, 255], #[]⟩

theorem written_loopCode : Written loopCode [[120]] looping :=
  ⟨by decide +kernel, by decide, by decide, by decide⟩

/-- The one source there is. -/
def loopSources : Sources where
  find? code := if code = loopCode then some ([[120]], looping) else none
  written code names source h := by
    split at h
    · rename_i heq
      obtain ⟨rfl, rfl⟩ := Prod.mk.inj (Option.some.inj h)
      exact heq ▸ written_loopCode
    · cases h

/-- One instance of one class, with one variable. -/
def loopInstance : Instance where
  parent := 0
  proto := { name := [97], code := some loopCode }
  slots := #[⟨.float, 0⟩]

def loopSetting : Setting where
  tree := { instances := #[loopInstance] }
  classes := {}
  keys := {}
  dir := []
  project := 0
  iterations := 0
  maxDepth := 8
  delivered := []

/-- Within eleven steps the tick leads twice through the head of the loop and ends. -/
theorem loop_runs_as_written :
    let m : Machine Unit := { memory := { floats := #[⟨1, 1, 1⟩] }, host := (), agenda := [.run 0] }
    m.run Host.absent loopSetting 11 =
        ((m.lineRun loopSources Host.absent loopSetting 11).1.compiled loopSources loopSetting.tree,
          .completed) ∧
      (m.run Host.absent loopSetting 11).1.memory.read? ⟨.float, 0⟩ = some (.float 0) := by
  intro m
  obtain ⟨-, honLines, -, htraced⟩ :=
    @compiled_start Unit loopSources loopSetting m rfl rfl rfl rfl
  obtain ⟨hrun, -, -, hstart⟩ :=
    run_eq_lineRun loopSources Host.absent loopSetting m honLines htraced 11
  obtain ⟨hs, hm⟩ := hstart rfl rfl rfl rfl
  rw [hs, hm] at hrun
  have hend : (m.lineRun loopSources Host.absent loopSetting 11).2 = .completed := by decide +kernel
  refine ⟨?_, by decide +kernel⟩
  rw [hrun, hend]
  rfl

end Machine

end SchemePlayer
