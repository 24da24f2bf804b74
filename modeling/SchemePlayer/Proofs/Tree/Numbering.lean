import Mathlib.Data.List.Forall2
import Mathlib.Data.List.Nodup
import SchemePlayer.Proofs.Tree.Growth

/-!
# The numbers of instances

The number of an instance is its place in the tree's array. Trees grow depth first, so the
numbers of a built tree are its depth-first pre-order:

- `Preorder`: what it means that a list of numbers goes through subtrees in pre-order.
- `Follows`: the children of an instance are those that its class declares, in that order.
- `Branch`, `branch_sprout`, `branch_grow`: what grows below an instance takes the next free
  numbers in pre-order, and touches no instance outside.
- `Preorder.perm`: in a pre-order every instance but the roots is a child exactly once.
-/

namespace SchemePlayer.Tree

/-! ### Pre-orders -/

/-- `t.Preorder roots order`: the numbers in `order` are those of the subtrees at `roots`, each
instance before everything below it, and what is below it before its next sibling. -/
inductive Preorder (t : Tree) : List Nat → List Nat → Prop where
  | nil : Preorder t [] []
  | cons {id : Nat} {inst : Instance} {below siblings beside : List Nat} :
    t.instance? id = some inst → Preorder t inst.children below → Preorder t siblings beside →
      Preorder t (id :: siblings) (id :: (below ++ beside))

/-- A pre-order depends only on the instances in it. -/
theorem Preorder.congr {t t' : Tree} {roots order : List Nat} (h : t.Preorder roots order)
    (hsame : ∀ id ∈ order, t'.instance? id = t.instance? id) : t'.Preorder roots order := by
  induction h with
  | nil => exact .nil
  | cons hid _ _ ihbelow ihbeside =>
    refine .cons ((hsame _ (List.mem_cons_self ..)).trans hid) (ihbelow fun id hmem => ?_)
      (ihbeside fun id hmem => ?_)
    · exact hsame id (List.mem_cons_of_mem _ (List.mem_append_left _ hmem))
    · exact hsame id (List.mem_cons_of_mem _ (List.mem_append_right _ hmem))

theorem childrenOf_eq {t : Tree} {id : Nat} {inst : Instance} (h : t.instance? id = some inst) :
    t.childrenOf id = inst.children := by
  rw [childrenOf, h]
  rfl

theorem mem_childrenOf {t : Tree} {id c : Nat} :
    c ∈ t.childrenOf id ↔ ∃ inst, t.instance? id = some inst ∧ c ∈ inst.children := by
  constructor
  · intro hmem
    cases hid : t.instance? id with
    | none =>
      rw [childrenOf, hid] at hmem
      cases hmem
    | some inst =>
      rw [childrenOf_eq hid] at hmem
      exact ⟨inst, rfl, hmem⟩
  · rintro ⟨inst, hid, hmem⟩
    rwa [childrenOf_eq hid]

/-- What a handle finds is a child that has it. -/
theorem mem_of_child? {t : Tree} {id c : Nat} {handle : Int} (h : t.child? id handle = some c) :
    c ∈ t.childrenOf id ∧ ∃ inst, t.instance? c = some inst ∧ inst.handle = handle := by
  have hany := List.find?_some h
  obtain ⟨inst, hc, hhandle⟩ := (Option.any_eq_true _ _).mp hany
  exact ⟨List.mem_of_find?_eq_some h, inst, hc, of_decide_eq_true hhandle⟩

/-- **In a pre-order every instance but the roots is a child exactly once.** -/
theorem Preorder.perm {t : Tree} {roots order : List Nat} (h : t.Preorder roots order) :
    order.Perm (roots ++ order.flatMap t.childrenOf) := by
  induction h with
  | nil => exact .refl _
  | @cons id inst below siblings beside hid _ _ ihbelow ihbeside =>
    rw [List.cons_append, List.flatMap_cons, childrenOf_eq hid, List.flatMap_append]
    refine .cons _ ?_
    calc (below ++ beside).Perm
          ((inst.children ++ below.flatMap t.childrenOf) ++
            (siblings ++ beside.flatMap t.childrenOf)) := ihbelow.append ihbeside
      _ = (inst.children ++ below.flatMap t.childrenOf) ++ siblings ++
            beside.flatMap t.childrenOf := by rw [List.append_assoc _ siblings]
      _ |>.Perm (siblings ++ (inst.children ++ below.flatMap t.childrenOf) ++
            beside.flatMap t.childrenOf) := List.perm_append_comm.append_right _
      _ = siblings ++ (inst.children ++ (below.flatMap t.childrenOf ++
            beside.flatMap t.childrenOf)) := by simp only [List.append_assoc]

/-! ### Children as declared -/

/-- The instance with the number `child` is the one that `parent` has for a declaration. -/
def Places (classes : ClassTable) (t : Tree) (parent child : Nat) (decl : ChildDecl) : Prop :=
  ∃ inst, t.instance? child = some inst ∧ inst.parent = parent ∧
    classes.find? decl.className = some inst.proto ∧
    inst.handle = decl.handle ∧ inst.name = decl.name

/-- Declarations whose classes the table has. -/
def resolved (classes : ClassTable) (decls : List ChildDecl) : List ChildDecl :=
  decls.filter fun decl => (classes.find? decl.className).isSome

/-- The children of an instance are those that its class declares, in that order; only those
of unknown classes are left out. -/
def Follows (classes : ClassTable) (t : Tree) (id : Nat) (inst : Instance) : Prop :=
  List.Forall₂ (Places classes t id) inst.children (resolved classes inst.proto.children)

theorem Places.mono {classes : ClassTable} {s s' : Sapling} {parent child : Nat}
    {decl : ChildDecl} (hkept : s.Keeps s') (h : Places classes s.tree parent child decl) :
    Places classes s'.tree parent child decl := by
  obtain ⟨inst, hchild, hparent, hproto, hhandle, hname⟩ := h
  obtain ⟨more, hchild'⟩ := hkept child inst hchild
  exact ⟨_, hchild', hparent, hproto, hhandle, hname⟩

theorem Follows.mono {classes : ClassTable} {s s' : Sapling} {id : Nat} {inst : Instance}
    (hkept : s.Keeps s') (h : Follows classes s.tree id inst) : Follows classes s'.tree id inst :=
  h.imp fun _ _ => Places.mono hkept

namespace Sapling

/-! ### What grows below an instance -/

/-- What grows below the instance `id`, which gets the children `new` for `decls`. -/
structure Branch (classes : ClassTable) (id : Nat) (decls : List ChildDecl) (new : List Nat)
    (s s' : Sapling) : Prop where
  size : s.tree.instances.size ≤ s'.tree.instances.size
  /-- no other instance is touched -/
  others : ∀ j < s.tree.instances.size, j ≠ id → s'.tree.instance? j = s.tree.instance? j
  own : ∀ inst, s.tree.instance? id = some inst →
    s'.tree.instance? id = some { inst with children := inst.children ++ new }
  /-- the new instances take the next free numbers -/
  order : s'.tree.Preorder new
    (List.range' s.tree.instances.size (s'.tree.instances.size - s.tree.instances.size))
  placed : List.Forall₂ (Places classes s'.tree id) new (resolved classes decls)
  follows : ∀ j inst, s.tree.instances.size ≤ j → s'.tree.instance? j = some inst →
    Follows classes s'.tree j inst

theorem lt_size_of_instance? {s : Sapling} {id : Nat} {inst : Instance}
    (h : s.tree.instance? id = some inst) : id < s.tree.instances.size :=
  (Array.getElem?_eq_some_iff.mp h).1

theorem Branch.keeps {classes : ClassTable} {id : Nat} {decls : List ChildDecl} {new : List Nat}
    {s s' : Sapling} (h : Branch classes id decls new s s') : s.Keeps s' := by
  intro j inst hj
  by_cases hid : j = id
  · subst hid
    exact ⟨new, h.own inst hj⟩
  · refine ⟨[], ?_⟩
    rw [List.append_nil, h.others j (lt_size_of_instance? hj) hid]
    exact hj

/-- The numbers from `a` to `c` are those from `a` to `b` and then those from `b` on. -/
theorem range'_split {a b c : Nat} (hab : a < b) (hbc : b ≤ c) :
    List.range' a (c - a) =
      a :: (List.range' (a + 1) (b - (a + 1)) ++ List.range' b (c - b)) := by
  obtain ⟨m, rfl⟩ := Nat.exists_eq_add_of_lt hab
  obtain ⟨n, rfl⟩ := Nat.exists_eq_add_of_le hbc
  have hlen : a + m + 1 + n - a = (m + n) + 1 := by omega
  have hbelow : a + m + 1 - (a + 1) = m := by omega
  have hbeside : a + m + 1 + n - (a + m + 1) = n := by omega
  rw [hlen, hbelow, hbeside, List.range'_succ, show a + m + 1 = a + 1 + m by omega,
    List.range'_append_1]

/-- A planted child that has grown, followed by the branch of its siblings. -/
theorem Branch.cons {classes : ClassTable} {id child : Nat} {inst : Instance} {decl : ChildDecl}
    {decls : List ChildDecl} {p : Prototype} {below new : List Nat} {s s₁ s₂ s₃ : Sapling}
    (hid : s.tree.instance? id = some inst) (hp : classes.find? decl.className = some p)
    (hadd : s.add p id decl.handle decl.name = .ok (child, s₁))
    (hchild : Branch classes child p.children below (s₁.adopt id child) s₂)
    (hrest : Branch classes id decls new s₂ s₃) :
    Branch classes id (decl :: decls) (child :: new) s s₃ := by
  have hlt := lt_size_of_instance? hid
  obtain ⟨rfl, hsize₁, slots, memory, -, hnew⟩ := instance?_planted hadd hlt
  have hsize₂ := hchild.size
  have hsize₃ := hrest.size
  rw [hsize₁] at hsize₂
  -- the planted child as the rest of the growth leaves it
  have hown := hrest.others _ (Nat.lt_of_lt_of_le (Nat.lt_succ_self _) hsize₂) (Nat.ne_of_gt hlt)
  rw [hchild.own _ hnew] at hown
  refine ⟨by omega, fun j hj hne => ?_, fun inst' hinst' => ?_, ?_, ?_, fun j i hj hi => ?_⟩
  · -- the instances outside
    rw [hrest.others j (by omega) hne, hchild.others j (by omega) (by omega), instance?_adopt,
      if_neg (Ne.symm hne)]
    obtain ⟨_, _, -, -, rfl⟩ := add_eq_ok hadd
    rw [instance?_push, if_neg (by omega)]
  · -- the instance itself has one child more, and then the others
    obtain rfl : inst = inst' := Option.some.inj (hid.symm.trans hinst')
    have hadopted : (s₁.adopt id s.tree.instances.size).tree.instance? id =
        some { inst with children := inst.children ++ [s.tree.instances.size] } := by
      rw [instance?_adopt, if_pos rfl]
      obtain ⟨_, _, -, -, rfl⟩ := add_eq_ok hadd
      rw [instance?_push, if_neg (by omega), hid]
      rfl
    have hstays := hchild.others id (by omega) (by omega)
    rw [hrest.own _ (hstays.trans hadopted)]
    simp only [List.append_assoc, List.singleton_append]
  · -- the child, what is below it, and what is beside it
    rw [range'_split (b := s₂.tree.instances.size) (by omega) hsize₃]
    refine .cons hown ?_ hrest.order
    have horder := hchild.order
    rw [hsize₁] at horder
    refine horder.congr fun j hj => hrest.others j ?_ ?_
    · have := List.mem_range'_1.mp hj
      omega
    · have := List.mem_range'_1.mp hj
      omega
  · have hfound : resolved classes (decl :: decls) = decl :: resolved classes decls := by
      simp [resolved, hp]
    rw [hfound]
    refine .cons ⟨_, hown, ?_, hp, rfl, rfl⟩ hrest.placed
    show (if s.tree.instances.size = 0 then 0 else id) = id
    rw [if_neg (by omega)]
  · -- every new instance has its children
    by_cases hlate : s₂.tree.instances.size ≤ j
    · exact hrest.follows j i hlate hi
    · rw [hrest.others j (by omega) (by omega)] at hi
      by_cases hj₁ : j = s.tree.instances.size
      · subst hj₁
        rw [hchild.own _ hnew] at hi
        cases hi
        exact hchild.placed.imp fun _ _ => Places.mono hrest.keeps
      · exact (hchild.follows j i (by omega) hi).mono hrest.keeps

theorem branch_sprout {classes : ClassTable} {strict : Bool}
    {grow : Nat → Prototype → Sapling → Except BuildError Sapling}
    (hgrow : ∀ {id inst s s'}, s.tree.instance? id = some inst → grow id inst.proto s = .ok s' →
      ∃ new, Branch classes id inst.proto.children new s s')
    {id : Nat} {inst : Instance} {owner : Text} {decls : List ChildDecl} {s s' : Sapling}
    (hid : s.tree.instance? id = some inst)
    (h : sprout classes strict grow id owner decls s = .ok s') :
    ∃ new, Branch classes id decls new s s' := by
  induction decls generalizing s inst with
  | nil =>
    cases h
    refine ⟨[], Nat.le_refl _, fun _ _ _ => rfl, fun inst hinst => ?_, ?_, .nil,
      fun j i hj hi => ?_⟩
    · rw [List.append_nil]
      exact hinst
    · rw [Nat.sub_self]
      exact .nil
    · exact absurd (lt_size_of_instance? hi) (Nat.not_lt.mpr hj)
  | cons decl decls ih =>
    simp only [sprout] at h
    split at h
    · rename_i hnone
      split at h
      · cases h
      · -- a class that is missing leaves no trace among the instances
        obtain ⟨new, hbranch⟩ := ih (s := s.recordMissing decl.className owner) hid h
        have hleft : resolved classes (decl :: decls) = resolved classes decls := by
          simp [resolved, hnone]
        refine ⟨new, ?_⟩
        exact { hbranch with placed := by rw [hleft]; exact hbranch.placed }
    · rename_i p hp
      split at h
      · cases h
      · rename_i child s₁ hadd
        split at h
        · cases h
        · rename_i s₂ hgrown
          obtain ⟨-, -, slots, memory, -, hnew⟩ :=
            instance?_planted hadd (lt_size_of_instance? hid)
          obtain ⟨below, hchild⟩ := hgrow hnew hgrown
          obtain ⟨more, hid₂⟩ := ((keeps_plant hadd).trans hchild.keeps) id inst hid
          obtain ⟨new, hrest⟩ := ih hid₂ h
          exact ⟨child :: new, .cons hid hp hadd hchild hrest⟩

/-- **What grows below an instance takes the next free numbers in pre-order.** -/
theorem branch_grow {classes : ClassTable} {strict : Bool} {depth id : Nat} {inst : Instance}
    {s s' : Sapling} (hid : s.tree.instance? id = some inst)
    (h : grow classes strict depth id inst.proto s = .ok s') :
    ∃ new, Branch classes id inst.proto.children new s s' := by
  induction depth generalizing id inst s s' with
  | zero => cases h
  | succ depth ih =>
    simp only [grow] at h
    split at h
    · cases h
    · rename_i s₁ hsprout
      cases h
      obtain ⟨new, hbranch⟩ := branch_sprout ih hid hsprout
      -- attaching links changes no instance
      have hsame : ∀ j, (s₁.attachLinks id inst.proto).tree.instance? j = s₁.tree.instance? j := by
        intro j
        rw [instance?, instances_attachLinks]
        rfl
      have hkept : s₁.Keeps (s₁.attachLinks id inst.proto) := .of_instances (by simp)
      refine ⟨new, ?_, fun j hj hne => ?_, fun i hi => ?_, ?_, ?_, fun j i hj hi => ?_⟩
      · rw [instances_attachLinks]
        exact hbranch.size
      · rw [hsame, hbranch.others j hj hne]
      · rw [hsame, hbranch.own i hi]
      · rw [instances_attachLinks]
        exact hbranch.order.congr fun j _ => hsame j
      · exact hbranch.placed.imp fun _ _ => Places.mono hkept
      · rw [hsame] at hi
        exact (hbranch.follows j i hj hi).mono hkept

end Sapling

end SchemePlayer.Tree
