import Mathlib.Data.List.Forall2
import Mathlib.Data.List.Nodup
import SchemePlayer.Proofs.Tree.Shape

/-!
# The post-order of a tree

A tick goes through the tree children first. Here it is said, of trees alone, which order that
is, and what becomes of it when a walk leaves out instances with everything below them:

- `Postorder`: a list of numbers goes through subtrees in post-order; `Numbered.postorder`: a built
  tree has one, in which every instance occurs once, and `Postorder.unique` no other.
- `Instance.Disabled`: the switch among an instance's variables is on; `disable_iff`: the slot that
  is looked at before the instance is visited is that of the switch.
- `Silenced`: an instance or one above it is disabled.
- `Schedule`: what a walk runs that leaves out a disabled instance and everything below it.
- `Postorder.schedule`: **such a walk runs the post-order without the instances that are
  silenced.**
-/

namespace SchemePlayer

/-! ### Switches -/

/-- A variable that can keep an instance from running: a number named `_disable`. -/
def VarDecl.IsSwitch (decl : VarDecl) : Prop :=
  decl.type.kind = .float ∧ Text.equalFold decl.name "_disable" = true

instance (decl : VarDecl) : Decidable decl.IsSwitch :=
  inferInstanceAs (Decidable (_ ∧ _))

/-- The switch of an instance is on: of the switches that its class declares, the last one holds
a positive number. -/
def Instance.Disabled (inst : Instance) (m : Memory) : Prop :=
  ∃ before decl after x a, inst.proto.vars = before ++ decl :: after ∧ decl.IsSwitch ∧
    (∀ d ∈ after, ¬d.IsSwitch) ∧ inst.slots[before.length]? = some x ∧
    m.read? x = some (.float a) ∧ 0 < a

/-- Whether an instance is disabled depends on its own variables. -/
theorem Instance.disabled_congr {inst : Instance} {m m' : Memory}
    (h : ∀ x ∈ inst.slots, m'.cell? x = m.cell? x) : inst.Disabled m' ↔ inst.Disabled m := by
  have hread : ∀ {k : Nat} {x : Slot}, inst.slots[k]? = some x → m'.read? x = m.read? x := by
    intro k x hx
    rw [Memory.read?, h x (Array.mem_of_getElem? hx), Memory.read?]
  constructor
  · rintro ⟨before, decl, after, x, a, hvars, hswitch, hnone, hx, hvalue, hpos⟩
    exact ⟨before, decl, after, x, a, hvars, hswitch, hnone, hx, (hread hx).symm.trans hvalue, hpos⟩
  · rintro ⟨before, decl, after, x, a, hvars, hswitch, hnone, hx, hvalue, hpos⟩
    exact ⟨before, decl, after, x, a, hvars, hswitch, hnone, hx, (hread hx).trans hvalue, hpos⟩

namespace Tree

namespace Sapling

/-- A variable disables an instance if none that is declared after it does. -/
theorem disableSlot_cons {decl : VarDecl} {vars : List VarDecl} {y : Slot} {slots : List Slot}
    (hkind : y.kind = decl.type.kind) :
    disableSlot (decl :: vars) (y :: slots) =
      (disableSlot vars slots).or (if decl.IsSwitch then some y else none) := by
  have htest : (y.kind = .float && Text.equalFold decl.name "_disable") = true ↔
      decl.IsSwitch := by
    rw [Bool.and_eq_true, decide_eq_true_eq, hkind]
    exact Iff.rfl
  unfold disableSlot
  rw [List.zip_cons_cons, List.filter_cons]
  by_cases hswitch : decl.IsSwitch
  · rw [if_pos hswitch, if_pos (htest.mpr hswitch), List.getLast?_cons]
    cases (List.filter _ _).getLast? <;> rfl
  · rw [if_neg hswitch, if_neg (mt htest.mp hswitch), Option.or_none]

theorem disableSlot_eq_none {vars : List VarDecl} {slots : List Slot}
    (hkinds : List.Forall₂ (fun y decl => y.kind = decl.type.kind) slots vars) :
    disableSlot vars slots = none ↔ ∀ decl ∈ vars, ¬decl.IsSwitch := by
  induction hkinds with
  | nil => exact ⟨fun _ _ hmem => absurd hmem List.not_mem_nil, fun _ => rfl⟩
  | cons hkind _ ih =>
    rw [disableSlot_cons hkind, Option.or_eq_none_iff, ih, List.forall_mem_cons, and_comm]
    simp

/-- **What disables an instance is the slot of its last switch.** -/
theorem disableSlot_eq_some {vars : List VarDecl} {slots : List Slot} {x : Slot}
    (hkinds : List.Forall₂ (fun y decl => y.kind = decl.type.kind) slots vars) :
    disableSlot vars slots = some x ↔
      ∃ before decl after, vars = before ++ decl :: after ∧ decl.IsSwitch ∧
        (∀ d ∈ after, ¬d.IsSwitch) ∧ slots[before.length]? = some x := by
  induction hkinds with
  | nil => simp [disableSlot]
  | @cons y decl slots vars hkind hrest ih =>
    rw [disableSlot_cons hkind, Option.or_eq_some_iff, ih, disableSlot_eq_none hrest]
    constructor
    · rintro (⟨before, d, after, rfl, hlast⟩ | ⟨hnone, hfirst⟩)
      · exact ⟨decl :: before, d, after, rfl, hlast⟩
      · split at hfirst
        · rename_i hswitch
          exact ⟨[], decl, vars, rfl, hswitch, hnone, hfirst⟩
        · cases hfirst
    · rintro ⟨before, d, after, hvars, hswitch, hnone, hx⟩
      cases before with
      | nil =>
        cases hvars
        rw [if_pos hswitch]
        exact .inr ⟨hnone, hx⟩
      | cons b before =>
        cases hvars
        exact .inl ⟨before, d, after, rfl, hswitch, hnone, hx⟩

/-- What disables each instance is looked up among its own variables. -/
def Switched (s : Sapling) : Prop :=
  ∀ id inst, s.tree.instance? id = some inst →
    inst.disable = disableSlot inst.proto.vars inst.slots.toList

theorem switched_plant {s s' : Sapling} {p : Prototype} {parent child : Nat} {handle : Int}
    {name : Text} (hs : s.Switched) (h : s.add p parent handle name = .ok (child, s')) :
    (s'.adopt parent child).Switched := by
  obtain ⟨slots, memory, -, rfl, rfl⟩ := add_eq_ok h
  have hplanted : ∀ id inst, (if id = s.tree.instances.size then
      some (newcomer s.tree.instances.size p parent handle name slots)
      else s.tree.instance? id) = some inst →
      inst.disable = disableSlot inst.proto.vars inst.slots.toList := by
    intro id inst hid
    split at hid
    · cases hid
      rfl
    · exact hs id inst hid
  intro id inst hid
  rw [instance?_adopt, instance?_push] at hid
  split at hid
  · -- to get a child changes neither the variables nor what disables
    obtain ⟨inst', hinst', rfl⟩ := Option.map_eq_some_iff.mp hid
    exact hplanted id inst' hinst'
  · exact hplanted id inst hid

theorem switched_seedling {p : Prototype} {s : Sapling} {slots : List Slot}
    (h : Seedling p s slots) : s.Switched := by
  intro id inst hid
  rw [instance?, h.instances] at hid
  obtain ⟨hlt, rfl⟩ := Array.getElem?_eq_some_iff.mp hid
  obtain rfl : id = 0 := Nat.lt_one_iff.mp hlt
  rfl

end Sapling

/-- **In a built tree the slot that is looked at is that of the last switch.** -/
theorem disable_iff {classes : ClassTable} {name : Text} {strict : Bool} {varSet : Option VarSet}
    {t : Tree} {m m' : Memory} (h : build classes name strict varSet = .ok (t, m)) {id : Nat}
    {inst : Instance} (hid : t.instance? id = some inst) :
    (∃ x a, inst.disable = some x ∧ m'.read? x = some (.float a) ∧ 0 < a) ↔
      inst.Disabled m' := by
  have hkinds : List.Forall₂ (fun (y : Slot) (decl : VarDecl) => y.kind = decl.type.kind)
      inst.slots.toList inst.proto.vars :=
    ((build_shape h).2.1.slots id inst hid).imp fun _ _ hslot => hslot.1
  have hdisable : inst.disable = Sapling.disableSlot inst.proto.vars inst.slots.toList := by
    obtain ⟨p, seedling, slots, s, -, hseedling, hgrow, rfl, -⟩ := build_eq_ok h
    refine (Sapling.grow_induct (P := Sapling.Switched)
      (fun hs _ hadd => Sapling.switched_plant hs hadd) (fun _ _ hs => hs) (fun hs _ => ?_)
      hseedling.instance? (Sapling.switched_seedling hseedling) hgrow).1 id inst hid
    intro j i hj
    rw [instance?, Sapling.instances_attachLinks] at hj
    exact hs j i hj
  rw [hdisable]
  simp only [Sapling.disableSlot_eq_some hkinds, Array.getElem?_toList]
  constructor
  · rintro ⟨x, a, ⟨before, decl, after, hvars, hswitch, hnone, hx⟩, hread, hpos⟩
    exact ⟨before, decl, after, x, a, hvars, hswitch, hnone, hx, hread, hpos⟩
  · rintro ⟨before, decl, after, x, a, hvars, hswitch, hnone, hx, hread, hpos⟩
    exact ⟨x, a, ⟨before, decl, after, hvars, hswitch, hnone, hx⟩, hread, hpos⟩

/-! ### Post-orders -/

/-- `t.Postorder roots order`: the numbers in `order` are those of the subtrees at `roots`,
everything below an instance before the instance, and the instance before its next sibling. -/
inductive Postorder (t : Tree) : List Nat → List Nat → Prop where
  | nil : Postorder t [] []
  | cons {id : Nat} {inst : Instance} {below siblings beside : List Nat} :
    t.instance? id = some inst → Postorder t inst.children below → Postorder t siblings beside →
      Postorder t (id :: siblings) (below ++ id :: beside)

variable {t : Tree} {roots order : List Nat}

/-- A tree has no more than one post-order. -/
theorem Postorder.unique {order' : List Nat} (h : t.Postorder roots order)
    (h' : t.Postorder roots order') : order' = order := by
  induction h generalizing order' with
  | nil =>
    cases h'
    rfl
  | cons hid _ _ ihbelow ihbeside =>
    cases h' with
    | cons hid' hbelow' hbeside' =>
      cases Option.some.inj (hid.symm.trans hid')
      rw [ihbelow hbelow', ihbeside hbeside']

/-- Where there is a pre-order there is a post-order, of the same numbers. -/
theorem Preorder.postorder (h : t.Preorder roots order) :
    ∃ post, t.Postorder roots post ∧ post.Perm order := by
  induction h with
  | nil => exact ⟨[], .nil, .refl _⟩
  | @cons id inst below siblings beside hid _ _ ihbelow ihbeside =>
    obtain ⟨postBelow, hbelow, hpermBelow⟩ := ihbelow
    obtain ⟨postBeside, hbeside, hpermBeside⟩ := ihbeside
    refine ⟨postBelow ++ id :: postBeside, .cons hid hbelow hbeside, ?_⟩
    calc (postBelow ++ id :: postBeside).Perm (id :: (postBelow ++ postBeside)) :=
          List.perm_middle
      _ |>.Perm (id :: (below ++ beside)) := (hpermBelow.append hpermBeside).cons id

/-- **A built tree has a post-order, in which every instance occurs once.** -/
theorem Numbered.postorder {classes : ClassTable} {name : Text} (h : t.Numbered classes name) :
    ∃ post, t.Postorder [root] post ∧ post.Perm (List.range t.instances.size) :=
  h.preorder.postorder

/-! ### Leaving instances out -/

/-- An instance is not to run: it is disabled, or one above it is. -/
inductive Silenced (t : Tree) (m : Memory) : Nat → Prop where
  | self {id : Nat} {inst : Instance} : t.instance? id = some inst → inst.Disabled m →
      Silenced t m id
  | above {id child : Nat} {inst : Instance} : t.instance? id = some inst →
      child ∈ inst.children → Silenced t m id → Silenced t m child

/-- What a walk of the subtrees at `roots` runs, children first, if it leaves out an instance that
is disabled together with everything below it. -/
inductive Schedule (t : Tree) (m : Memory) : List Nat → List Nat → Prop where
  | nil : Schedule t m [] []
  | skip {id : Nat} {inst : Instance} {siblings beside : List Nat} :
    t.instance? id = some inst → inst.Disabled m → Schedule t m siblings beside →
      Schedule t m (id :: siblings) beside
  | cons {id : Nat} {inst : Instance} {below siblings beside : List Nat} :
    t.instance? id = some inst → ¬inst.Disabled m → Schedule t m inst.children below →
      Schedule t m siblings beside → Schedule t m (id :: siblings) (below ++ id :: beside)

/-- What is run is not disabled. -/
theorem Schedule.awake {m : Memory} (h : t.Schedule m roots order) :
    ∀ id ∈ order, ∀ inst, t.instance? id = some inst → ¬inst.Disabled m := by
  induction h with
  | nil => exact fun _ hmem => absurd hmem List.not_mem_nil
  | skip _ _ _ ih => exact ih
  | @cons id inst below siblings beside hid hawake _ _ ihbelow ihbeside =>
    intro j hj
    rcases List.mem_append.mp hj with hj | hj
    · exact ihbelow j hj
    · rcases List.mem_cons.mp hj with rfl | hj
      · intro inst' hid'
        cases Option.some.inj (hid.symm.trans hid')
        exact hawake
      · exact ihbeside j hj

/-- Everything below silenced instances is silenced. -/
theorem Postorder.silenced {m : Memory} (h : t.Postorder roots order)
    (hroots : ∀ id ∈ roots, t.Silenced m id) : ∀ id ∈ order, t.Silenced m id := by
  induction h with
  | nil => exact hroots
  | @cons id inst below siblings beside hid _ _ ihbelow ihbeside =>
    obtain ⟨hself, hsiblings⟩ := List.forall_mem_cons.mp hroots
    intro j hj
    rcases List.mem_append.mp hj with hj | hj
    · exact ihbelow (fun c hc => .above hid hc hself) j hj
    · rcases List.mem_cons.mp hj with rfl | hj
      · exact hself
      · exact ihbeside hsiblings j hj

/-- No instance is a child of two. -/
def Rooted (t : Tree) : Prop :=
  ∀ c a b i j, t.instance? a = some i → t.instance? b = some j → c ∈ i.children →
    c ∈ j.children → a = b

open scoped Classical in
/-- **A walk that leaves out disabled instances with everything below them runs the post-order
without the silenced instances**, if nothing above it is silenced. -/
theorem Postorder.schedule {m : Memory} (htree : t.Rooted) (h : t.Postorder roots order)
    (habove : ∀ id ∈ roots, ∀ a inst, t.instance? a = some inst → id ∈ inst.children →
      ¬t.Silenced m a) :
    t.Schedule m roots (order.filter fun id => ¬t.Silenced m id) := by
  induction h with
  | nil => exact .nil
  | @cons id inst below siblings beside hid hbelow _ ihbelow ihbeside =>
    obtain ⟨hself, hsiblings⟩ := List.forall_mem_cons.mp habove
    rw [List.filter_append, List.filter_cons]
    by_cases hdisabled : inst.Disabled m
    · -- the instance and everything below it drop out
      have hsilenced : t.Silenced m id := .self hid hdisabled
      have hnone : (below.filter fun id => ¬t.Silenced m id) = [] := by
        rw [List.filter_eq_nil_iff]
        intro j hj
        simpa using hbelow.silenced (fun c hc => .above hid hc hsilenced) j hj
      rw [hnone, if_neg (by simpa using hsilenced), List.nil_append]
      exact .skip hid hdisabled (ihbeside hsiblings)
    · have hawake : ¬t.Silenced m id := by
        rintro (⟨hid', hdisabled'⟩ | ⟨ha, hchild, hsilenced⟩)
        · cases Option.some.inj (hid.symm.trans hid')
          exact hdisabled hdisabled'
        · exact hself _ _ ha hchild hsilenced
      rw [if_pos (by simpa using hawake)]
      refine .cons hid hdisabled (ihbelow fun c hc a i ha hchild => ?_) (ihbeside hsiblings)
      -- what has a child in common with the instance is the instance
      obtain rfl := htree c a id i inst ha hid hchild hc
      exact hawake

theorem Numbered.rooted {classes : ClassTable} {name : Text} (h : t.Numbered classes name) :
    t.Rooted := by
  intro c a b i j ha hb hc hc'
  obtain ⟨ic, hic⟩ := Option.isSome_iff_exists.mp (h.children ha hc)
  rw [← (h.follows a i ha).parent hc hic, (h.follows b j hb).parent hc' hic]

/-- The root is no child. -/
theorem Numbered.root_not_child {classes : ClassTable} {name : Text} (h : t.Numbered classes name)
    {a : Nat} {inst : Instance} (ha : t.instance? a = some inst) : root ∉ inst.children := by
  intro hchild
  have hnodup : (root :: (List.range t.instances.size).flatMap t.childrenOf).Nodup :=
    h.preorder.perm.nodup_iff.mp List.nodup_range
  refine (List.nodup_cons.mp hnodup).1 (List.mem_flatMap.mpr ⟨a, ?_, ?_⟩)
  · exact List.mem_range.mpr (Array.getElem?_eq_some_iff.mp ha).1
  · rw [childrenOf_eq ha]
    exact hchild

end Tree

end SchemePlayer
