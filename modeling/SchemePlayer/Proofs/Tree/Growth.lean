import SchemePlayer.Tree.Build

/-!
# How a tree grows

A sapling changes in three ways only: an instance is planted below another one, a name that
cannot be resolved is noted, and the links of an instance are attached once everything below
it exists. This module says what each of them does to the instances, so that no later proof
has to look into the recursion:

- `instance?_push`, `instance?_adopt`, `instances_attachLinks`: the instances afterwards.
- `Keeps`: instances stay what they are, except that they get more children.
- `grow_induct`: what the three ways preserve, everything that grows has.
- `build_grown`, `build_eq_ok`: the parts of a successful build.
-/

namespace SchemePlayer.Tree

namespace Sapling

/-! ### The three ways -/

/-- The instance that is planted when `id` instances exist. -/
def newcomer (id : Nat) (p : Prototype) (parent : Nat) (handle : Int) (name : Text)
    (slots : List Slot) : Instance where
  parent := if id = 0 then 0 else parent
  proto := p
  handle := handle
  name := name
  slots := slots.toArray
  disable := disableSlot p.vars slots

/-- **What adding an instance does.** -/
theorem add_eq_ok {s s' : Sapling} {p : Prototype} {parent id : Nat} {handle : Int} {name : Text}
    (h : s.add p parent handle name = .ok (id, s')) :
    ∃ slots memory, allocate s.memory p.vars = .ok (slots, memory) ∧
      id = s.tree.instances.size ∧
      s' = ⟨{ s.tree with
              instances := s.tree.instances.push (newcomer id p parent handle name slots)
              missing := scan p s.tree.missing }, memory⟩ := by
  simp only [add] at h
  split at h
  · cases h
  · rename_i slots memory hslots
    cases h
    exact ⟨slots, memory, hslots, rfl, rfl⟩

theorem instance?_push (s : Sapling) (inst : Instance) (missing : Missing) (m : Memory) (j : Nat) :
    (Sapling.mk { s.tree with instances := s.tree.instances.push inst, missing }
        m).tree.instance? j =
      if j = s.tree.instances.size then some inst else s.tree.instance? j := by
  simp only [instance?, Array.getElem?_push]

theorem instance?_adopt (s : Sapling) (id child j : Nat) :
    (s.adopt id child).tree.instance? j =
      if id = j then (s.tree.instance? j).map fun i => { i with children := i.children ++ [child] }
      else s.tree.instance? j := by
  simp only [adopt, instance?, Array.getElem?_modify]

/-- **After planting, an instance is the newcomer or was there before**, and has the same number of
children or more. -/
theorem eq_of_planted {s : Sapling} {newcomer inst : Instance} {missing : Missing} {m : Memory}
    {parent child id : Nat}
    (h : ((Sapling.mk { s.tree with instances := s.tree.instances.push newcomer, missing }
      m).adopt parent child).tree.instance? id = some inst) :
    ∃ before more, inst = { before with children := before.children ++ more } ∧
      (before = newcomer ∨ s.tree.instance? id = some before) := by
  have hpushed : ∀ {i : Instance}, (if id = s.tree.instances.size then some newcomer
      else s.tree.instance? id) = some i → i = newcomer ∨ s.tree.instance? id = some i := by
    intro i hi
    split at hi
    · exact .inl (Option.some.inj hi).symm
    · exact .inr hi
  rw [instance?_adopt, instance?_push] at h
  split at h
  · obtain ⟨before, hbefore, rfl⟩ := Option.map_eq_some_iff.mp h
    exact ⟨before, [child], rfl, hpushed hbefore⟩
  · exact ⟨inst, [], by rw [List.append_nil], hpushed h⟩

@[simp] theorem size_adopt (s : Sapling) (id child : Nat) :
    (s.adopt id child).tree.instances.size = s.tree.instances.size := by
  simp only [adopt, Array.size_modify]

/-- A pair of variables changes the links or the report, and nothing else. -/
theorem attachPair_keeps (owner : Text) (src dst : Nat) (s : Sapling) (srcName dstName : Text) :
    (attachPair owner src dst s srcName dstName).tree.instances = s.tree.instances ∧
      (attachPair owner src dst s srcName dstName).memory = s.memory := by
  unfold attachPair
  split
  · exact ⟨rfl, rfl⟩
  · exact ⟨rfl, rfl⟩
  · split
    · exact ⟨rfl, rfl⟩
    · exact ⟨rfl, rfl⟩

theorem attachLink_keeps (id : Nat) (owner : Text) (s : Sapling) (l : LinkDecl) :
    (attachLink id owner s l).tree.instances = s.tree.instances ∧
      (attachLink id owner s l).memory = s.memory := by
  unfold attachLink
  split
  · exact ⟨rfl, rfl⟩
  · split
    · refine List.foldlRecOn (motive := fun s' : Sapling => s'.tree.instances = s.tree.instances ∧
        s'.memory = s.memory) l.vars _ ⟨rfl, rfl⟩ fun s' hs' pair _ => ?_
      have hpair : ∀ src dst srcName dstName,
          (attachPair owner src dst s' srcName dstName).tree.instances = s.tree.instances ∧
            (attachPair owner src dst s' srcName dstName).memory = s.memory := by
        intro src dst srcName dstName
        obtain ⟨hinstances, hmemory⟩ := attachPair_keeps owner src dst s' srcName dstName
        exact ⟨hinstances.trans hs'.1, hmemory.trans hs'.2⟩
      dsimp only
      split
      · exact hpair ..
      · exact hpair ..
    · exact ⟨rfl, rfl⟩

/-- Attaching links leaves the instances and the memory alone. -/
theorem attachLinks_keeps (s : Sapling) (id : Nat) (p : Prototype) :
    (s.attachLinks id p).tree.instances = s.tree.instances ∧
      (s.attachLinks id p).memory = s.memory := by
  refine List.foldlRecOn (motive := fun s' : Sapling => s'.tree.instances = s.tree.instances ∧
    s'.memory = s.memory) p.links _ ⟨rfl, rfl⟩ fun s' hs' l _ => ?_
  obtain ⟨hinstances, hmemory⟩ := attachLink_keeps id p.name s' l
  exact ⟨hinstances.trans hs'.1, hmemory.trans hs'.2⟩

@[simp] theorem instances_attachLinks (s : Sapling) (id : Nat) (p : Prototype) :
    (s.attachLinks id p).tree.instances = s.tree.instances := (attachLinks_keeps s id p).1

@[simp] theorem memory_attachLinks (s : Sapling) (id : Nat) (p : Prototype) :
    (s.attachLinks id p).memory = s.memory := (attachLinks_keeps s id p).2

/-! ### What stays -/

/-- Instances stay what they are, except that they get more children. -/
def Keeps (s s' : Sapling) : Prop :=
  ∀ id inst, s.tree.instance? id = some inst →
    ∃ more, s'.tree.instance? id = some { inst with children := inst.children ++ more }

theorem Keeps.of_instances {s s' : Sapling} (h : s'.tree.instances = s.tree.instances) :
    s.Keeps s' := by
  intro id inst hid
  refine ⟨[], ?_⟩
  rw [List.append_nil, instance?, h]
  exact hid

theorem Keeps.trans {s s' s'' : Sapling} (h : s.Keeps s') (h' : s'.Keeps s'') : s.Keeps s'' := by
  intro id inst hid
  obtain ⟨more, hid'⟩ := h id inst hid
  obtain ⟨more', hid''⟩ := h' id _ hid'
  exact ⟨more ++ more', by rw [hid'', List.append_assoc]⟩

/-- Planting an instance below another one keeps those that exist. -/
theorem keeps_plant {s s' : Sapling} {p : Prototype} {parent child : Nat} {handle : Int}
    {name : Text} (h : s.add p parent handle name = .ok (child, s')) :
    s.Keeps (s'.adopt parent child) := by
  obtain ⟨slots, memory, -, -, rfl⟩ := add_eq_ok h
  intro id inst hid
  have hlt : id < s.tree.instances.size := (Array.getElem?_eq_some_iff.mp hid).1
  rw [instance?_adopt, instance?_push, if_neg (Nat.ne_of_lt hlt), hid]
  split
  · exact ⟨[child], rfl⟩
  · exact ⟨[], by rw [List.append_nil]⟩

/-- The child that was planted. -/
theorem instance?_planted {s s' : Sapling} {p : Prototype} {parent child : Nat} {handle : Int}
    {name : Text} (h : s.add p parent handle name = .ok (child, s'))
    (hparent : parent < s.tree.instances.size) :
    child = s.tree.instances.size ∧ (s'.adopt parent child).tree.instances.size = child + 1 ∧
      ∃ slots memory, allocate s.memory p.vars = .ok (slots, memory) ∧
        (s'.adopt parent child).tree.instance? child =
          some (newcomer child p parent handle name slots) := by
  obtain ⟨slots, memory, hslots, rfl, rfl⟩ := add_eq_ok h
  refine ⟨rfl, ?_, slots, memory, hslots, ?_⟩
  · simp only [size_adopt, Array.size_push]
  · rw [instance?_adopt, instance?_push, if_neg (Nat.ne_of_lt hparent), if_pos rfl]

/-! ### Everything that grows -/

section Induct

variable {classes : ClassTable} {strict : Bool} {P : Sapling → Prop}
  (plant : ∀ {s s' p parent child handle name}, P s → parent < s.tree.instances.size →
    s.add p parent handle name = .ok (child, s') → P (s'.adopt parent child))
  (missing : ∀ {s} name owner, P s → P (s.recordMissing name owner))
  (attach : ∀ {s id inst}, P s → s.tree.instance? id = some inst → P (s.attachLinks id inst.proto))

include plant missing in
/-- Adding children one after another preserves what planting and growing each of them do. -/
theorem sprout_induct {grow : Nat → Prototype → Sapling → Except BuildError Sapling}
    (hgrow : ∀ {id inst s s'}, s.tree.instance? id = some inst → P s →
      grow id inst.proto s = .ok s' → P s' ∧ s.Keeps s')
    {id : Nat} {inst : Instance} {owner : Text} {decls : List ChildDecl} {s s' : Sapling}
    (hid : s.tree.instance? id = some inst) (hs : P s)
    (h : sprout classes strict grow id owner decls s = .ok s') : P s' ∧ s.Keeps s' := by
  induction decls generalizing s inst with
  | nil =>
    cases h
    exact ⟨hs, .of_instances rfl⟩
  | cons decl decls ih =>
    simp only [sprout] at h
    split at h
    · split at h
      · cases h
      · -- a class that is missing is noted and left out
        exact ih (s := s.recordMissing decl.className owner) hid (missing _ _ hs) h
    · split at h
      · cases h
      · rename_i child s₁ hadd
        split at h
        · cases h
        · rename_i s₂ hgrown
          have hlt : id < s.tree.instances.size := (Array.getElem?_eq_some_iff.mp hid).1
          have hkept := keeps_plant hadd
          obtain ⟨-, -, slots, memory, -, hchild⟩ := instance?_planted hadd hlt
          -- 1. the child is planted and grows
          obtain ⟨hs₂, hkept₂⟩ := hgrow hchild (plant hs hlt hadd) hgrown
          -- 2. the other children follow
          obtain ⟨more, hid₂⟩ := (hkept.trans hkept₂) id inst hid
          obtain ⟨hs', hkept'⟩ := ih hid₂ hs₂ h
          exact ⟨hs', (hkept.trans hkept₂).trans hkept'⟩

include plant missing attach in
/-- **What planting, noting and attaching preserve, everything that grows has.** -/
theorem grow_induct {depth id : Nat} {inst : Instance} {s s' : Sapling}
    (hid : s.tree.instance? id = some inst) (hs : P s)
    (h : grow classes strict depth id inst.proto s = .ok s') : P s' ∧ s.Keeps s' := by
  -- the depth bounds the recursion, so that it carries the induction too
  induction depth generalizing id inst s s' with
  | zero => cases h
  | succ depth ih =>
    simp only [grow] at h
    split at h
    · cases h
    · rename_i s₁ hsprout
      cases h
      obtain ⟨hs₁, hkept⟩ := sprout_induct plant missing ih hid hs hsprout
      obtain ⟨more, hid₁⟩ := hkept id inst hid
      have hs' := attach hs₁ hid₁
      exact ⟨hs', hkept.trans (.of_instances (instances_attachLinks ..))⟩

end Induct

end Sapling

/-! ### Built trees -/

/-- Where a build begins: the root alone. -/
structure Seedling (p : Prototype) (s : Sapling) (slots : List Slot) : Prop where
  instances : s.tree.instances = #[Sapling.newcomer 0 p 0 0 [] slots]
  links : s.tree.links = []
  missing : s.tree.missing = Sapling.scan p []
  slots : Sapling.allocate {} p.vars = .ok (slots, s.memory)

theorem Seedling.instance? {p : Prototype} {s : Sapling} {slots : List Slot}
    (h : Seedling p s slots) : s.tree.instance? 0 = some (Sapling.newcomer 0 p 0 0 [] slots) := by
  rw [Tree.instance?, h.instances]
  rfl

/-- A build begins with a seedling. -/
theorem seedling_of_add {p : Prototype} {id : Nat} {s : Sapling}
    (h : ({} : Sapling).add p 0 0 [] = .ok (id, s)) : id = 0 ∧ ∃ slots, Seedling p s slots := by
  obtain ⟨slots, memory, hslots, rfl, rfl⟩ := Sapling.add_eq_ok h
  exact ⟨rfl, slots, rfl, rfl, rfl, hslots⟩

/-- The memory of a tree that has grown, once every variable has its first value. -/
def Sapling.furnish (s : Sapling) : Option VarSet → Except MemoryCrash Memory
  | none => .ok s.memory.applyDefaults
  | some set => s.tree.seed Tree.root s.memory.applyDefaults set

/-- **The parts of a successful build**: the root is planted, everything below it grows, every
variable takes its default, and the variable set is applied. With any other variable set the same
tree grows. -/
theorem build_grown {classes : ClassTable} {root : Text} {strict : Bool} {varSet : Option VarSet}
    {t : Tree} {m : Memory} (h : build classes root strict varSet = .ok (t, m)) :
    ∃ p seedling slots s, classes.find? root = some p ∧ Seedling p seedling slots ∧
      Sapling.grow classes strict (classes.size + 1) 0 p seedling = .ok s ∧ t = s.tree ∧
      s.furnish varSet = .ok m ∧ ∀ {varSet' m'}, s.furnish varSet' = .ok m' →
        build classes root strict varSet' = .ok (t, m') := by
  unfold build at h
  split at h
  · cases h
  · rename_i p hp
    split at h
    · cases h
    · rename_i id seedling hadd
      obtain ⟨rfl, slots, hseedling⟩ := seedling_of_add hadd
      split at h
      · cases h
      · rename_i s hgrow
        have hagain : ∀ {varSet' m'}, s.furnish varSet' = .ok m' →
            build classes root strict varSet' = .ok (s.tree, m') := by
          intro varSet' m' hfurnish
          cases varSet' with
          | none =>
            cases hfurnish
            simp only [build, hp, hadd, hgrow]
          | some set =>
            have hseed : s.tree.seed Tree.root s.memory.applyDefaults set = .ok m' := hfurnish
            simp only [build, hp, hadd, hgrow, hseed]
        refine ⟨p, seedling, slots, s, hp, hseedling, hgrow, ?_⟩
        dsimp only at h
        split at h
        · cases h
          exact ⟨rfl, rfl, hagain⟩
        · split at h
          · rename_i hseed
            cases h
            exact ⟨rfl, hseed, hagain⟩
          · cases h

theorem build_eq_ok {classes : ClassTable} {root : Text} {strict : Bool} {varSet : Option VarSet}
    {t : Tree} {m : Memory} (h : build classes root strict varSet = .ok (t, m)) :
    ∃ p seedling slots s, classes.find? root = some p ∧ Seedling p seedling slots ∧
      Sapling.grow classes strict (classes.size + 1) 0 p seedling = .ok s ∧ t = s.tree ∧
      s.furnish varSet = .ok m := by
  obtain ⟨p, seedling, slots, s, hp, hseedling, hgrow, ht, hm, -⟩ := build_grown h
  exact ⟨p, seedling, slots, s, hp, hseedling, hgrow, ht, hm⟩

end SchemePlayer.Tree
