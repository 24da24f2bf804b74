import SchemePlayer.Host.Scripted
import SchemePlayer.Proofs.Machine.Solo

/-!
# Isolation of instances

All variables of all instances are in one memory, and code names them by numbers. What keeps the
instances apart is the table of slots that each of them got when the tree was built: no slot is in
two of them. An execution that sends no message and asks the host for nothing therefore shows
others nothing of what it does, and sees nothing of them:

- `Instruction.effect_of_alike`: an instruction sees of memory only the cells of its instance, by
  their places.
- `Solo.Twins`: two executions of the same code with the same values, in trees, memories and places
  of their own. `Solo.Twins.move`: they make the same move and are twins afterwards;
  `Solo.Twins.run`: so they are to the end.
- `Memory.OnlyNew.comm`: changes to disjoint slots can be made in either order.
- `isolated_of_discreet`: **instances are isolated**, in all three respects.
-/

namespace SchemePlayer

/-! ### One instruction -/

/-- What the variables of an instance hold, one after another. -/
def Instance.cells (inst : Instance) (memory : Memory) : List (Option (Cell Value)) :=
  inst.slots.toList.map memory.cell?

/-- Two executions see the same: the same code and circumstances, and at the same places of their
own variables the same values. The slots themselves and the rest of memory may be others. -/
structure Scenery.Alike (w₁ w₂ : Scenery) : Prop where
  code : w₂.code = w₁.code
  cells : w₂.slots.toList.map w₂.memory.cell? = w₁.slots.toList.map w₁.memory.cell?
  keys : w₂.keys = w₁.keys
  iterations : w₂.iterations = w₁.iterations
  dir : w₂.dir = w₁.dir
  classes : w₂.classes = w₁.classes

namespace Instruction

variable {w₁ w₂ : Scenery}

theorem size_of_alike (h : w₁.Alike w₂) : w₂.slots.size = w₁.slots.size := by
  simpa using congrArg List.length h.cells

/-- The cells that two sceneries have at the same place. -/
theorem cell?_of_alike (h : w₁.Alike w₂) (k : Nat) :
    (w₂.slots[k]?).map w₂.memory.cell? = (w₁.slots[k]?).map w₁.memory.cell? := by
  simpa using congrArg (·[k]?) h.cells

/-- What is loaded is a part of a cell, which is the same for both. -/
theorem load_of_alike (h : w₁.Alike w₂) (i : Instruction) (stack : List Value)
    (part : Cell Value → Value) :
    i.load w₂ (fun x => (w₂.memory.cell? x).map part) stack =
      i.load w₁ (fun x => (w₁.memory.cell? x).map part) stack := by
  have hcell := cell?_of_alike h i.number
  unfold load slotOf
  cases h₁ : w₁.slots[i.number]? with
  | none =>
    rw [h₁, Option.map_none, Option.map_eq_none_iff] at hcell
    rw [hcell, size_of_alike h]
  | some x₁ =>
    rw [h₁, Option.map_some, Option.map_eq_some_iff] at hcell
    obtain ⟨x₂, h₂, hsame⟩ := hcell
    rw [h₂]
    dsimp only
    rw [hsame]

/-- Only `STORE_VAR` writes to a slot. -/
theorem storeVar_of_effect {i : Instruction} {w : Scenery} {stack rest : List Value} {x : Slot}
    {v : Value} (h : i.effect w stack = .ok (.store x v rest)) : i.op = .storeVar := by
  unfold effect at h
  split at h <;> first | assumption | grind

/-- **An instruction has the same effect for those who see the same.** A slot that is to be written
to is named by itself, so `STORE_VAR` is left to `Solo.Twins.save`. -/
theorem effect_of_alike (h : w₁.Alike w₂) {i : Instruction} (hop : i.op ≠ .storeVar)
    (stack : List Value) : i.effect w₂ stack = i.effect w₁ stack := by
  unfold effect
  split
  all_goals first
    | rfl
    | contradiction
    | exact load_of_alike h i stack _
    | simp only [literal, goto, gotoIf, systemCall, systemCommand, classDir, h.code, h.keys,
        h.iterations, h.dir, h.classes]

end Instruction

namespace Instance

/-- **To write to the slot at a place changes the cell at that place**, if no other place has the
slot. -/
theorem cells_write {inst : Instance} {memory memory' : Memory} {k : Nat} {x : Slot} {v : Value}
    (hapart : inst.slots.toList.Nodup) (hx : inst.slots[k]? = some x)
    (h : memory.write x v = .ok memory') :
    inst.cells memory' =
      (inst.cells memory).modify k (Option.map (Memory.Target.apply { new := true } v)) := by
  refine List.ext_getElem? fun j => ?_
  rw [← Array.getElem?_toList] at hx
  simp only [cells, List.getElem?_map, List.getElem?_modify]
  cases hj : inst.slots.toList[j]? with
  | none => rfl
  | some y =>
    have hplace : y = x ↔ k = j := by
      constructor
      · rintro rfl
        have hlt := (List.getElem?_eq_some_iff.mp hx).1
        exact (List.getElem?_inj hlt hapart).mp (hx.trans hj.symm)
      · rintro rfl
        rw [hj] at hx
        exact Option.some.inj hx
    simp only [Option.map_some, Memory.cell?_assign h]
    by_cases hkj : k = j
    · simp [hplace.mpr hkj, hkj]
    · have hyx : y ≠ x := fun hy => hkj (hplace.mp hy)
      simp [hyx, hkj]

end Instance

/-! ### Two executions side by side -/

/-- What code sees of a setting is the same. -/
structure Setting.Alike (s₁ s₂ : Setting) : Prop where
  keys : s₂.keys = s₁.keys
  iterations : s₂.iterations = s₁.iterations
  dir : s₂.dir = s₁.dir
  classes : s₂.classes = s₁.classes

/-- The variables of an instance: distinct slots, all of which memory has. -/
structure Instance.Settled (inst : Instance) (memory : Memory) : Prop where
  apart : inst.slots.toList.Nodup
  filled : ∀ x ∈ inst.slots, x.InRange memory

theorem Instance.Settled.write {inst : Instance} {memory memory' : Memory} {x : Slot} {v : Value}
    (h : inst.Settled memory) (hw : memory.write x v = .ok memory') : inst.Settled memory' := by
  refine ⟨h.apart, fun y hy => ?_⟩
  rw [Slot.InRange, Memory.size_write hw]
  exact h.filled y hy

/-- Two executions that stand alike: in the same code at the same place, with the same values on the
stack and in their own variables. -/
structure Solo.Twins (x₁ x₂ : Solo) : Prop where
  name : x₂.frame.inst.proto.name = x₁.frame.inst.proto.name
  program : x₂.frame.inst.proto.program = x₁.frame.inst.proto.program
  pc : x₂.frame.pc = x₁.frame.pc
  stack : x₂.frame.stack = x₁.frame.stack
  closes : x₂.closes = x₁.closes
  cells : x₂.frame.inst.cells x₂.memory = x₁.frame.inst.cells x₁.memory
  settled₁ : x₁.frame.inst.Settled x₁.memory
  settled₂ : x₂.frame.inst.Settled x₂.memory

/-- The same move of both, after which they are twins again if they go on. -/
inductive Solo.Move.Twins (x₁ x₂ : Solo) : Solo.Move → Solo.Move → Prop where
  | on {f₁ f₂ : Frame} {memory₁ memory₂ : Memory} (closes : Bool)
      (h : Solo.Twins ⟨f₁, memory₁, x₁.closes || closes⟩ ⟨f₂, memory₂, x₂.closes || closes⟩) :
      Twins x₁ x₂ (.on f₁ memory₁ closes) (.on f₂ memory₂ closes)
  | ended : Twins x₁ x₂ .ended .ended
  | fault (cause : Fault) : Twins x₁ x₂ (.fault cause) (.fault cause)
  | outside : Twins x₁ x₂ .outside .outside

namespace Solo

variable {s₁ s₂ : Setting} {x₁ x₂ : Solo}

theorem Twins.scenery (h : x₁.Twins x₂) (hs : s₁.Alike s₂) :
    (x₁.frame.scenery s₁ x₁.memory).Alike (x₂.frame.scenery s₂ x₂.memory) :=
  ⟨h.program, h.cells, hs.keys, hs.iterations, hs.dir, hs.classes⟩

/-- Two that stand alike go on alike, if their own variables do. -/
theorem Twins.goOn (h : x₁.Twins x₂) {pc₁ pc₂ : Nat} (hpc : pc₂ = pc₁) {stack₁ stack₂ : List Value}
    (hstack : stack₂ = stack₁) {memory₁ memory₂ : Memory}
    (hcells : x₂.frame.inst.cells memory₂ = x₁.frame.inst.cells memory₁)
    (hsettled₁ : x₁.frame.inst.Settled memory₁) (hsettled₂ : x₂.frame.inst.Settled memory₂)
    (closes : Bool) :
    Move.Twins x₁ x₂ (.on { x₁.frame with pc := pc₁, stack := stack₁ } memory₁ closes)
      (.on { x₂.frame with pc := pc₂, stack := stack₂ } memory₂ closes) :=
  .on closes ⟨h.name, h.program, hpc, hstack, by rw [h.closes], hcells, hsettled₁, hsettled₂⟩

/-- An effect that writes to no slot is carried out alike. -/
theorem Twins.carry (h : x₁.Twins x₂) (i : Instruction) {e : Effect}
    (he : ∀ x v stack, e ≠ .store x v stack) :
    Move.Twins x₁ x₂ (x₁.frame.carry x₁.memory i e) (x₂.frame.carry x₂.memory i e) := by
  have hbehind : x₂.frame.pc + i.size = x₁.frame.pc + i.size := by rw [h.pc]
  cases e with
  | next stack => exact h.goOn hbehind rfl h.cells h.settled₁ h.settled₂ false
  | jump target stack => exact h.goOn rfl rfl h.cells h.settled₁ h.settled₂ false
  | store slot value stack => exact absurd rfl (he slot value stack)
  | finish => exact .ended
  | closeAll => exact h.goOn hbehind h.stack h.cells h.settled₁ h.settled₂ true
  | send className stack => exact .outside
  | ask call stack => exact .outside

/-- The slots that two instances have at one place take the same values. -/
theorem Twins.slot (h : x₁.Twins x₂) (k : Nat) :
    (x₁.frame.inst.slots[k]? = none ∧ x₂.frame.inst.slots[k]? = none) ∨
      ∃ y₁ y₂, x₁.frame.inst.slots[k]? = some y₁ ∧ x₂.frame.inst.slots[k]? = some y₂ ∧
        y₂.kind = y₁.kind := by
  have hcell : x₂.frame.inst.slots[k]?.map x₂.memory.cell? =
      x₁.frame.inst.slots[k]?.map x₁.memory.cell? := by
    simpa [Instance.cells] using congrArg (·[k]?) h.cells
  cases h₁ : x₁.frame.inst.slots[k]? with
  | none =>
    rw [h₁, Option.map_none, Option.map_eq_none_iff] at hcell
    exact .inl ⟨rfl, hcell⟩
  | some y₁ =>
    rw [h₁, Option.map_some, Option.map_eq_some_iff] at hcell
    obtain ⟨y₂, h₂, hsame⟩ := hcell
    have hfilled := h.settled₁.filled y₁ (Array.mem_of_getElem? h₁)
    obtain ⟨c, hc⟩ := Option.isSome_iff_exists.mp (Memory.cell?_isSome hfilled)
    refine .inr ⟨y₁, y₂, rfl, h₂, ?_⟩
    rw [← Memory.kind_of_cell? hc, ← Memory.kind_of_cell? (hsame.trans hc)]

/-- **A value that is stored goes to the same place.** -/
theorem Twins.store (h : x₁.Twins x₂) (i : Instruction) {y₁ y₂ : Slot}
    (h₁ : x₁.frame.inst.slots[i.number]? = some y₁) (h₂ : x₂.frame.inst.slots[i.number]? = some y₂)
    (hkind : y₂.kind = y₁.kind) {v : Value} (hv : v.kind = y₁.kind) (rest : List Value) :
    Move.Twins x₁ x₂ (x₁.frame.carry x₁.memory i (.store y₁ v rest))
      (x₂.frame.carry x₂.memory i (.store y₂ v rest)) := by
  obtain ⟨memory₁, hw₁⟩ : ∃ memory, x₁.memory.write y₁ v = .ok memory :=
    Memory.assign_isOk (h.settled₁.filled y₁ (Array.mem_of_getElem? h₁)) hv ..
  obtain ⟨memory₂, hw₂⟩ : ∃ memory, x₂.memory.write y₂ v = .ok memory :=
    Memory.assign_isOk (h.settled₂.filled y₂ (Array.mem_of_getElem? h₂)) (hv.trans hkind.symm) ..
  have hbehind : x₂.frame.pc + i.size = x₁.frame.pc + i.size := by rw [h.pc]
  have hcells : x₂.frame.inst.cells memory₂ = x₁.frame.inst.cells memory₁ := by
    rw [Instance.cells_write h.settled₂.apart h₂ hw₂, h.cells,
      Instance.cells_write h.settled₁.apart h₁ hw₁]
  simp only [Frame.carry, hw₁, hw₂]
  exact h.goOn hbehind rfl hcells (h.settled₁.write hw₁) (h.settled₂.write hw₂) false

/-- What an execution makes of the outcome of an instruction. -/
def conclude (x : Solo) (i : Instruction) : Except Fault Effect → Move
  | .error cause => .fault cause
  | .ok e => x.frame.carry x.memory i e

/-- A variable is named by its place, so both write to their own slot there, or fail alike. -/
theorem Twins.save (h : x₁.Twins x₂) (hs : s₁.Alike s₂) (i : Instruction) (stack : List Value) :
    Move.Twins x₁ x₂ (x₁.conclude i (i.save (x₁.frame.scenery s₁ x₁.memory) stack))
      (x₂.conclude i (i.save (x₂.frame.scenery s₂ x₂.memory) stack)) := by
  have hsize : x₂.frame.inst.slots.size = x₁.frame.inst.slots.size :=
    Instruction.size_of_alike (h.scenery hs)
  unfold Instruction.save Instruction.slotOf Frame.scenery
  dsimp only
  rcases h.slot i.number with ⟨h₁, h₂⟩ | ⟨y₁, y₂, h₁, h₂, hkind⟩
  · rw [h₁, h₂, hsize]
    exact .fault _
  · rw [h₁, h₂]
    dsimp only
    rw [hkind]
    cases hpop : i.popKind y₁.kind stack with
    | error cause => exact .fault cause
    | ok taken =>
      obtain ⟨v, rest⟩ := taken
      exact h.store i h₁ h₂ hkind (Instruction.popKind_kind hpop) rest

/-- **Twins make the same move.** -/
theorem Twins.move (h : x₁.Twins x₂) (hs : s₁.Alike s₂) :
    Move.Twins x₁ x₂ (x₁.frame.move s₁ x₁.memory) (x₂.frame.move s₂ x₂.memory) := by
  have hscenery := h.scenery hs
  have hstack := h.stack
  unfold Frame.move
  rw [h.program, h.pc]
  cases hbyte : x₁.frame.inst.proto.program.bytes[x₁.frame.pc]? with
  | none => exact .ended
  | some b =>
    dsimp only
    cases hfetch : Instruction.fetchAt x₁.frame.inst.proto.program.bytes x₁.frame.pc b with
    | error cause => cases cause <;> exact .fault _
    | ok i =>
      dsimp only
      rw [hstack]
      by_cases hop : i.op = .storeVar
      · have heffect : ∀ w stack, i.effect w stack = i.save w stack := by
          intro w stack
          rw [Instruction.effect, hop]
        have hsave := h.save hs i x₁.frame.stack
        rw [heffect, heffect]
        exact hsave
      · rw [Instruction.effect_of_alike hscenery hop]
        cases heffect : i.effect (x₁.frame.scenery s₁ x₁.memory) x₁.frame.stack with
        | error cause => exact .fault cause
        | ok e =>
          refine h.carry i fun x v rest hstore => hop ?_
          rw [hstore] at heffect
          exact Instruction.storeVar_of_effect heffect

/-- An execution as it is seen from within: its variables, whether it asked to close the project,
and how it stands. -/
def view (r : Solo × Machine.Fate) : List (Option (Cell Value)) × Bool × Machine.Fate :=
  (r.1.frame.inst.cells r.1.memory, r.1.closes, r.2)

/-- **Twins are the same to the end**, as they are seen from within. -/
theorem Twins.run (h : x₁.Twins x₂) (hs : s₁.Alike s₂) (count : Nat) :
    (x₂.run s₂ count).map view = (x₁.run s₁ count).map view := by
  induction count generalizing x₁ x₂ with
  | zero => simp only [Solo.run, Option.map_some, view, h.cells, h.closes]
  | succ count ih =>
    have hmove := h.move hs
    rw [Solo.run, Solo.run]
    generalize x₁.frame.move s₁ x₁.memory = move₁ at hmove
    generalize x₂.frame.move s₂ x₂.memory = move₂ at hmove
    cases hmove with
    | on closes hnext => exact ih hnext
    | ended => simp only [Option.map_some, view, h.cells, h.closes]
    | fault cause => simp only [Option.map_some, view, h.cells, h.closes, h.name, h.pc]
    | outside => rfl

end Solo

/-! ### The slots of instances -/

/-- In a tree that was built no slot is given twice. -/
theorem Tree.nodup_slots_of_build {classes : ClassTable} {name : Text} {strict : Bool}
    {varSet : Option VarSet} {t : Tree} {m : Memory}
    (h : build classes name strict varSet = .ok (t, m)) : t.slots.Nodup := by
  obtain ⟨p, seedling, slots, grown, -, hseedling, hgrow, rfl, -⟩ := build_eq_ok h
  have htiled := Sapling.tiled_grow hseedling.instance? (Sapling.tiled_seedling hseedling) hgrow
  refine nodup_of_indices fun k => ?_
  rw [htiled.indices]
  exact List.nodup_range

/-- No slot belongs to two instances, if none is given twice. -/
theorem Tree.apart_of_nodup {t : Tree} (hnodup : t.slots.Nodup) {id other : Nat}
    {inst inst' : Instance} (hinst : t.instance? id = some inst)
    (hinst' : t.instance? other = some inst') (hother : other ≠ id) {x : Slot}
    (hx : x ∈ inst'.slots) : x ∉ inst.slots := by
  intro hmine
  obtain ⟨k, hk⟩ := Array.getElem?_of_mem hmine
  obtain ⟨j, hj⟩ := Array.getElem?_of_mem hx
  have hours : t.slotAt? (id, k) = some x := by
    rw [slotAt?, hinst]
    exact hk
  have htheirs : t.slotAt? (other, j) = some x := by
    rw [slotAt?, hinst']
    exact hj
  exact hother (Prod.mk.inj (owner_unique hnodup htheirs hours)).1

theorem Instance.cells_eq_iff {inst : Instance} {memory memory' : Memory} :
    inst.cells memory' = inst.cells memory ↔
      ∀ x ∈ inst.slots, memory'.cell? x = memory.cell? x := by
  rw [cells, cells, List.map_inj_left]
  simp only [Array.mem_toList_iff]

namespace Machine

variable {σ : Type} {h : Host σ} {s : Setting} {m : Machine σ} {id other : Nat}
  {inst inst' : Instance}

/-- An execution of an instance can begin, in a tree that was built. -/
structure CanBegin (s : Setting) (m : Machine σ) (id : Nat) (inst : Instance) : Prop where
  built : ∃ classes name strict varSet memory,
    Tree.build classes name strict varSet = .ok (s.tree, memory)
  known : s.tree.instance? id = some inst
  memory : s.tree.InBounds m.memory
  room : m.frames.length < s.maxDepth

namespace CanBegin

theorem nodup (hm : m.CanBegin s id inst) : s.tree.slots.Nodup := by
  obtain ⟨classes, name, strict, varSet, memory, hbuild⟩ := hm.built
  exact Tree.nodup_slots_of_build hbuild

theorem slotAt? (hm : m.CanBegin s id inst) (k : Nat) :
    s.tree.slotAt? (id, k) = inst.slots[k]? := by
  rw [Tree.slotAt?, hm.known]
  rfl

theorem settled (hm : m.CanBegin s id inst) : inst.Settled m.memory := by
  refine ⟨?_, hm.memory.slots id inst hm.known⟩
  rw [List.nodup_iff_injective_get]
  intro i j hij
  have hi : s.tree.slotAt? (id, i) = some (inst.slots.toList.get i) := by
    rw [hm.slotAt?, ← Array.getElem?_toList]
    exact List.getElem?_eq_getElem i.2
  have hj : s.tree.slotAt? (id, j) = some (inst.slots.toList.get i) := by
    rw [hm.slotAt?, ← Array.getElem?_toList, hij]
    exact List.getElem?_eq_getElem j.2
  exact Fin.ext (Prod.mk.inj (Tree.owner_unique hm.nodup hi hj)).2

/-- No slot belongs to two instances. -/
theorem apart (hm : m.CanBegin s id inst) (hother : other ≠ id)
    (hinst' : s.tree.instance? other = some inst') {x : Slot} (hx : x ∈ inst'.slots) :
    x ∉ inst.slots :=
  Tree.apart_of_nodup hm.nodup hm.known hinst' hother hx

end CanBegin

/-! ### Executions by themselves -/

@[simp] theorem memory_upTo (m : Machine σ) (r : Solo × Fate) :
    (m.upTo r).1.memory = r.1.memory := by
  obtain ⟨x, fate⟩ := r
  cases fate <;> rfl

@[simp] theorem closing_upTo (m : Machine σ) (r : Solo × Fate) :
    (m.upTo r).1.closing = (m.closing || r.1.closes) := by
  obtain ⟨x, fate⟩ := r
  cases fate <;> rfl

@[simp] theorem snd_upTo (m : Machine σ) (r : Solo × Fate) : (m.upTo r).2 = r.2 := by
  obtain ⟨x, fate⟩ := r
  cases fate <;> rfl

/-- An execution is discreet iff it runs by itself. -/
theorem discreet_iff (hm : m.CanBegin s id inst) {count : Nat} :
    m.Discreet h s count id ↔ ((Solo.first m.memory id inst).run s count).isSome = true := by
  rw [Discreet, begin_eq_above hm.known hm.room]
  exact silentFor_above_iff rfl

theorem executed_eq (hm : m.CanBegin s id inst) {count : Nat} {r : Solo × Fate}
    (hrun : (Solo.first m.memory id inst).run s count = some r) :
    m.executed h s count id = m.upTo r := by
  rw [executed, begin_eq_above hm.known hm.room]
  exact proceed_above rfl hrun

/-! ### Isolation -/

/-- What an execution of an instance leaves alone: the variables of all other instances, what is
committed, the defaults, and when it has ended everything but memory and the wish to close. -/
structure Isolated (s : Setting) (m : Machine σ) (id : Nat) (after : Machine σ × Fate) : Prop where
  others : ∀ other inst', other ≠ id → s.tree.instance? other = some inst' →
    ∀ x ∈ inst'.slots, after.1.memory.cell? x = m.memory.cell? x
  old : ∀ x, after.1.memory.readOld? x = m.memory.readOld? x
  dflt : ∀ x, after.1.memory.readDefault? x = m.memory.readDefault? x
  rest : after.2 = .finished →
    after.1 = { m with memory := after.1.memory, closing := after.1.closing }

/-- Two executions have the same to go by. -/
structure SameInputs (s₁ s₂ : Setting) (inst₁ inst₂ : Instance) (memory₁ memory₂ : Memory) :
    Prop where
  name : inst₂.proto.name = inst₁.proto.name
  program : inst₂.proto.program = inst₁.proto.program
  cells : inst₂.cells memory₂ = inst₁.cells memory₁
  setting : s₁.Alike s₂

/-- Two executions come out the same: they stand alike, have the same values in their own variables,
and ask to close the project or not. -/
structure SameOutcome {τ : Type} (m₁ : Machine σ) (m₂ : Machine τ) (inst₁ inst₂ : Instance)
    (after₁ : Machine σ × Fate) (after₂ : Machine τ × Fate) : Prop where
  fate : after₂.2 = after₁.2
  cells : inst₂.cells after₂.1.memory = inst₁.cells after₁.1.memory
  closes : ∃ closes, after₁.1.closing = (m₁.closing || closes) ∧
    after₂.1.closing = (m₂.closing || closes)

theorem isolated_upTo (hm : m.CanBegin s id inst) {count : Nat} {r : Solo × Fate}
    (hrun : (Solo.first m.memory id inst).run s count = some r) : Isolated s m id (m.upTo r) := by
  obtain ⟨x, fate⟩ := r
  obtain ⟨-, hnew⟩ := Solo.onlyNew_run hrun
  refine ⟨fun other inst' hother hinst' y hy => ?_, fun y => ?_, fun y => ?_, fun hfinished => ?_⟩
  · rw [memory_upTo]
    exact hnew.cells y (hm.apart hother hinst' hy)
  · rw [memory_upTo]
    exact hnew.old y
  · rw [memory_upTo]
    exact hnew.dflt y
  · rw [snd_upTo] at hfinished
    obtain rfl : fate = .finished := hfinished
    rfl

/-- **Executions that have the same to go by come out the same**, as far as they are seen from
within. -/
theorem run_of_sameInputs {τ : Type} {s' : Setting} {m' : Machine τ} {id' : Nat}
    (hm : m.CanBegin s id inst) (hm' : m'.CanBegin s' id' inst')
    (hsame : SameInputs s s' inst inst' m.memory m'.memory) {count : Nat} {x : Solo} {fate : Fate}
    (hrun : (Solo.first m.memory id inst).run s count = some (x, fate)) :
    ∃ x', (Solo.first m'.memory id' inst').run s' count = some (x', fate) ∧
      inst'.cells x'.memory = inst.cells x.memory ∧ x'.closes = x.closes := by
  have htwins : (Solo.first m.memory id inst).Twins (Solo.first m'.memory id' inst') :=
    ⟨hsame.name, hsame.program, rfl, rfl, rfl, hsame.cells, hm.settled, hm'.settled⟩
  have hview := htwins.run hsame.setting count
  rw [hrun, Option.map_some, Option.map_eq_some_iff] at hview
  obtain ⟨⟨x', fate'⟩, hrun', hsee⟩ := hview
  obtain ⟨hinst, -⟩ := Solo.onlyNew_run hrun
  obtain ⟨hinst', -⟩ := Solo.onlyNew_run hrun'
  simp only [Solo.view, Prod.mk.injEq, hinst, hinst', Solo.first] at hsee
  obtain ⟨hcells, hcloses, rfl⟩ := hsee
  exact ⟨x', hrun', hcells, hcloses⟩

end Machine

/-- **Changes to disjoint slots can be made in either order**, if each comes out the same whether
the other one was made before or not. -/
theorem Memory.OnlyNew.comm {inst inst' : Instance} {m m₁ m₂ m₁₂ m₂₁ : Memory}
    (hapart : ∀ x ∈ inst'.slots, x ∉ inst.slots)
    (h₁ : OnlyNew inst.slots m m₁) (h₂ : OnlyNew inst'.slots m m₂)
    (h₁₂ : OnlyNew inst'.slots m₁ m₁₂) (h₂₁ : OnlyNew inst.slots m₂ m₂₁)
    (hsame : inst'.cells m₁₂ = inst'.cells m₂) (hsame' : inst.cells m₂₁ = inst.cells m₁) :
    m₁₂ = m₂₁ := by
  rw [Instance.cells_eq_iff] at hsame hsame'
  refine Memory.ext_cell? fun x => ?_
  by_cases hx : x ∈ inst.slots
  · have hx' : x ∉ inst'.slots := fun hx' => hapart x hx' hx
    rw [h₁₂.cells x hx', hsame' x hx]
  · rw [h₂₁.cells x hx]
    by_cases hx' : x ∈ inst'.slots
    · exact hsame x hx'
    · rw [h₁₂.cells x hx', h₁.cells x hx, h₂.cells x hx']

namespace Machine

variable {σ : Type} {h : Host σ} {s : Setting} {m : Machine σ} {id other : Nat}
  {inst inst' : Instance}

theorem CanBegin.below (hm : m.CanBegin s id inst) {x : Solo} {slots : Array Slot}
    (hx : m.memory.OnlyNew slots x.memory) : (m.below x).CanBegin s id inst := by
  exact ⟨hm.built, hm.known, hm.memory.mono fun k => Nat.le_of_eq (hx.size k).symm, hm.room⟩

/-- **Executions of two instances that both end can be made in either order.** -/
theorem executed_comm (hother : other ≠ id) (hm : m.CanBegin s id inst)
    (hm' : m.CanBegin s other inst') {count count' : Nat} {x x' : Solo}
    (hrun : (Solo.first m.memory id inst).run s count = some (x, .finished))
    (hrun' : (Solo.first m.memory other inst').run s count' = some (x', .finished)) :
    ∃ m'', (m.below x).executed h s count' other = (m'', .finished) ∧
      (m.below x').executed h s count id = (m'', .finished) := by
  obtain ⟨hsolo, hnew⟩ := Solo.onlyNew_run hrun
  obtain ⟨hsolo', hnew'⟩ := Solo.onlyNew_run hrun'
  have hafter := hm.below hnew'
  have hafter' := hm'.below hnew
  have hin : ∀ y ∈ inst'.slots, y ∉ inst.slots := fun y hy => hm.apart hother hm'.known hy
  have hin' : ∀ y ∈ inst.slots, y ∉ inst'.slots := fun y hy hy' => hin y hy' hy
  have hsame : SameInputs s s inst inst m.memory (m.below x').memory :=
    ⟨rfl, rfl, Instance.cells_eq_iff.mpr fun y hy => hnew'.cells y (hin' y hy), rfl, rfl, rfl, rfl⟩
  have hsame' : SameInputs s s inst' inst' m.memory (m.below x).memory :=
    ⟨rfl, rfl, Instance.cells_eq_iff.mpr fun y hy => hnew.cells y (hin y hy), rfl, rfl, rfl, rfl⟩
  obtain ⟨y, hy, hcells, hcloses⟩ := run_of_sameInputs hm hafter hsame hrun
  obtain ⟨y', hy', hcells', hcloses'⟩ := run_of_sameInputs hm' hafter' hsame' hrun'
  have hmemory : y'.memory = y.memory :=
    Memory.OnlyNew.comm hin hnew hnew' (Solo.onlyNew_run hy').2 (Solo.onlyNew_run hy).2 hcells'
      hcells
  rw [executed_eq hafter hy, executed_eq hafter' hy']
  refine ⟨_, rfl, ?_⟩
  simp only [upTo, below, hmemory, hcloses, hcloses', Bool.or_right_comm]

/-- **Instances are isolated.** Let an execution of an instance of a built tree send no message and
ask the host for nothing, for as many steps as is wished.

1. It changes no variable of another instance, no committed value and no default; when it has ended,
   nothing but memory and the wish to close the project is different at all.
2. Whatever else differs (tree, memory, host, instance, other executions), an execution of the same
   code with the same values in its own variables, the same keys, number of ticks, directory and
   classes is discreet too, stands alike and has the same values in its variables afterwards.
3. With a discreet execution of another instance, if both end, it leads to the same machine in
   either order. -/
theorem isolated_of_discreet (h : Host σ) (hm : m.CanBegin s id inst) {count : Nat}
    (hdiscreet : m.Discreet h s count id) :
    let after := m.executed h s count id
    Isolated s m id after ∧
      (∀ {τ : Type} (g : Host τ) {s' : Setting} {m' : Machine τ} {id' : Nat} {inst' : Instance},
        m'.CanBegin s' id' inst' → SameInputs s s' inst inst' m.memory m'.memory →
          m'.Discreet g s' count id' ∧
            SameOutcome m m' inst inst' after (m'.executed g s' count id')) ∧
      ∀ {other : Nat} {inst' : Instance} {count' : Nat}, other ≠ id → m.CanBegin s other inst' →
        m.Discreet h s count' other → after.2 = .finished →
          let after' := m.executed h s count' other
          after'.2 = .finished →
            ∃ m'', after.1.executed h s count' other = (m'', .finished) ∧
              after'.1.executed h s count id = (m'', .finished) := by
  intro after
  obtain ⟨⟨x, fate⟩, hrun⟩ := Option.isSome_iff_exists.mp ((discreet_iff hm).mp hdiscreet)
  have hafter : after = m.upTo (x, fate) := executed_eq hm hrun
  refine ⟨?_, ?_, ?_⟩
  · rw [hafter]
    exact isolated_upTo hm hrun
  · intro τ g s' m' id' inst' hm' hsame
    obtain ⟨x', hrun', hcells, hcloses⟩ := run_of_sameInputs hm hm' hsame hrun
    refine ⟨(discreet_iff hm').mpr (by rw [hrun']; rfl), ?_⟩
    rw [hafter, executed_eq hm' hrun']
    refine ⟨by rw [snd_upTo, snd_upTo], by rw [memory_upTo, memory_upTo, hcells], x.closes, ?_, ?_⟩
    · rw [closing_upTo]
    · rw [closing_upTo, hcloses]
  · intro other inst' count' hother hm' hdiscreet' hfinished after' hfinished'
    obtain ⟨⟨x', fate'⟩, hrun'⟩ := Option.isSome_iff_exists.mp ((discreet_iff hm').mp hdiscreet')
    have hafter' : after' = m.upTo (x', fate') := executed_eq hm' hrun'
    rw [hafter, snd_upTo] at hfinished
    rw [hafter', snd_upTo] at hfinished'
    subst hfinished hfinished'
    rw [hafter, hafter']
    exact executed_comm hother hm hm' hrun hrun'

/-- A class with a text, which its code sets, and inside it one that adds to its own text and asks
to close the project. -/
def writers : ClassTable := .ofList
  [{ name := "a"
     vars := [{ name := "x", type := .string }]
     children := [{ className := "b", handle := 1 }]
     code := some ⟨#[0x12, 0, 0, 0x22, 0, 0], #["new"]⟩ },
   { name := "b"
     vars := [{ name := "y", type := .string, dflt := "old" }]
     code := some ⟨#[0x20, 0, 0, 0x12, 0, 0, 0x58, 0x22, 0, 0, 0x70], #["er"]⟩ }]

/-- The setting in which they run. -/
def writersSetting (t : Tree) : Setting :=
  { tree := t, classes := writers, keys := {}, dir := [], project := 1, iterations := 0,
    maxDepth := 2, delivered := [] }

/-- Whether an execution of an instance by itself ends within a number of steps. -/
def endsAlone (s : Setting) (memory : Memory) (count id : Nat) : Bool :=
  (s.tree.instance? id).any fun inst =>
    ((Solo.first memory id inst).run s count).any fun r => r.2 = .finished

theorem exists_of_endsAlone {count : Nat} (hends : endsAlone s m.memory count id = true)
    (hbuilt : ∃ classes name strict varSet memory,
      Tree.build classes name strict varSet = .ok (s.tree, memory))
    (hmemory : s.tree.InBounds m.memory) (hroom : m.frames.length < s.maxDepth) :
    ∃ inst, m.CanBegin s id inst ∧ m.Discreet h s count id ∧
      (m.executed h s count id).2 = .finished := by
  obtain ⟨inst, hinst, hruns⟩ := (Option.any_eq_true _ _).mp hends
  obtain ⟨⟨x, fate⟩, hrun, hfate⟩ := (Option.any_eq_true _ _).mp hruns
  have hm : m.CanBegin s id inst := ⟨hbuilt, hinst, hmemory, hroom⟩
  refine ⟨inst, hm, (discreet_iff hm).mpr (by rw [hrun]; rfl), ?_⟩
  rw [executed_eq hm hrun, snd_upTo]
  exact of_decide_eq_true hfate

/-- The two can run in either order. -/
theorem isolated_of_discreet_writers :
    ∃ t memory, Tree.build writers "a" false none = .ok (t, memory) ∧
      let s := writersSetting t
      let m : Machine ScriptedHost := { memory, host := {}, agenda := [] }
      let h := ScriptedHost.host
      Isolated s m 0 (m.executed h s 3 0) ∧
        ∃ m'', (m.executed h s 3 0).1.executed h s 6 1 = (m'', .finished) ∧
          (m.executed h s 6 1).1.executed h s 3 0 = (m'', .finished) := by
  have heval : (Tree.build writers "a" false none).toOption.any (fun (t, memory) =>
      endsAlone (writersSetting t) memory 3 0 &&
        endsAlone (writersSetting t) memory 6 1) = true := by decide +kernel
  cases hbuild : Tree.build writers "a" false none with
  | error e =>
    rw [hbuild] at heval
    cases heval
  | ok built =>
    obtain ⟨t, memory⟩ := built
    rw [hbuild] at heval
    obtain ⟨hfirst, hsecond⟩ := Bool.and_eq_true_iff.mp heval
    refine ⟨t, memory, rfl, ?_⟩
    intro s m h
    have hbuilt : ∃ classes name strict varSet memory,
        Tree.build classes name strict varSet = .ok (s.tree, memory) := ⟨_, _, _, _, _, hbuild⟩
    have hbounds : s.tree.InBounds m.memory := Tree.build_inBounds hbuild
    have hroom : m.frames.length < s.maxDepth := Nat.zero_lt_two
    obtain ⟨inst, hm, hdiscreet, hends⟩ :=
      @exists_of_endsAlone _ h s m 0 3 hfirst hbuilt hbounds hroom
    obtain ⟨inst', hm', hdiscreet', hends'⟩ :=
      @exists_of_endsAlone _ h s m 1 6 hsecond hbuilt hbounds hroom
    obtain ⟨hisolated, -, horder⟩ := isolated_of_discreet h hm hdiscreet
    exact ⟨hisolated, horder (by decide) hm' hdiscreet' hends hends'⟩

end Machine

end SchemePlayer
