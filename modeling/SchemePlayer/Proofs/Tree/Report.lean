import SchemePlayer.Proofs.Text.Sort
import SchemePlayer.Proofs.Tree.Shape

/-!
# The report of a build

While a tree grows, names that cannot be resolved are noted: classes that are missing, code that
stands for no operation, and links that cannot be attached. What the report of a tree lists can be
read off the tree, instance by instance, without following the growth:

- `Noted`: what an instance of a tree gives rise to, of the three kinds `LacksChild`, `LacksCode`
  and `LacksLink`.
- `mem_attachLinks`, `mem_missing_grow`: what one step adds to the notes, and what all of it adds.
- `mem_missing_of_build`: **the notes of a built tree are those of its instances.**
- `Missing.Lists`, `lists_report`: a report lists notes in ascending order, each once.
-/

namespace SchemePlayer

/-! ### Reports -/

namespace Missing

end Missing

/-! ### What is noted -/

namespace Tree

/-- The name of the class of an instance. -/
def classNameOf (t : Tree) (id : Nat) : Text := ((t.instance? id).map (·.proto.name)).getD []

/-- The instance that a handle in a link of an instance means. -/
def linkEnd? (t : Tree) (id : Nat) (handle : Int) : Option Nat :=
  if handle = 0 then some id else t.child? id handle

/-- A pair of variables cannot be joined: one of them does not exist, or they are of different
kinds. -/
def Unjoined (t : Tree) (src dst : Nat) (srcName dstName name : Text) : Prop :=
  (t.slot? src srcName = none ∧ name = t.classNameOf src ++ 46 :: srcName) ∨
    (∃ a, t.slot? src srcName = some a ∧ t.slot? dst dstName = none ∧
      name = t.classNameOf dst ++ 46 :: dstName) ∨
    ∃ a b, t.slot? src srcName = some a ∧ t.slot? dst dstName = some b ∧ a.kind ≠ b.kind ∧
      name = srcName ++ "->" ++ dstName

/-- What a link can see of an instance. -/
def faceOf (t : Tree) (id : Nat) : Option (Prototype × Int × Array Slot) :=
  (t.instance? id).map fun inst => (inst.proto, inst.handle, inst.slots)

/-- An instance is the same in two trees, and its children look the same. -/
structure Alike (t t' : Tree) (id : Nat) : Prop where
  own : t'.instance? id = t.instance? id
  children : ∀ c ∈ t.childrenOf id, t'.faceOf c = t.faceOf c

theorem Alike.of_instances {t t' : Tree} (h : t'.instances = t.instances) (id : Nat) :
    t.Alike t' id := by
  have hinstance : ∀ j, t'.instance? j = t.instance? j := by
    intro j
    rw [instance?, h]
    rfl
  constructor
  · exact hinstance id
  · intro c _
    rw [faceOf, hinstance]
    rfl

theorem Alike.symm {t t' : Tree} {id : Nat} (h : t.Alike t' id) : t'.Alike t id := by
  constructor
  · exact h.own.symm
  · intro c hc
    rw [childrenOf, h.own] at hc
    exact (h.children c hc).symm

theorem slot?_congr {t t' : Tree} {id : Nat} (h : t'.faceOf id = t.faceOf id) (key : Text) :
    t'.slot? id key = t.slot? id key := by
  have hface : ∀ t : Tree, t.slot? id key =
      (t.faceOf id).bind fun f => (f.1.varIndex? key).bind fun k => f.2.2[k]? := by
    intro t
    rw [Tree.slot?, faceOf, Option.bind_map]
    refine Option.bind_congr fun i _ => ?_
    show i.slot? key = (i.proto.varIndex? key).bind fun k => i.slots[k]?
    unfold Instance.slot?
    cases i.proto.varIndex? key with
    | none => rfl
    | some k => rfl
  rw [hface, hface, h]

theorem classNameOf_congr {t t' : Tree} {id : Nat} (h : t'.faceOf id = t.faceOf id) :
    t'.classNameOf id = t.classNameOf id := by
  have hface : ∀ t : Tree, t.classNameOf id = ((t.faceOf id).map (·.1.name)).getD [] := by
    intro t
    rw [classNameOf, faceOf, Option.map_map]
    rfl
  rw [hface, hface, h]

/-- What cannot be joined depends on what a link can see of the two instances. -/
theorem Unjoined.congr {t t' : Tree} {src dst : Nat} (hsrc : t'.faceOf src = t.faceOf src)
    (hdst : t'.faceOf dst = t.faceOf dst) {srcName dstName name : Text} :
    t'.Unjoined src dst srcName dstName name ↔ t.Unjoined src dst srcName dstName name := by
  simp only [Unjoined, slot?_congr hsrc, slot?_congr hdst, classNameOf_congr hsrc,
    classNameOf_congr hdst]

theorem Alike.linkEnd? {t t' : Tree} {id : Nat} (h : t.Alike t' id) (handle : Int) :
    t'.linkEnd? id handle = t.linkEnd? id handle := by
  have hhandle : ∀ (t : Tree) (c : Nat), (t.instance? c).any (fun i => decide (i.handle = handle)) =
      (t.faceOf c).any (fun f => decide (f.2.1 = handle)) := by
    intro t c
    rw [Tree.faceOf, Option.any_map]
  have hchildren : t'.childrenOf id = t.childrenOf id := by rw [childrenOf, h.own, childrenOf]
  have hchild : t'.child? id handle = t.child? id handle := by
    rw [child?, child?, hchildren, ← List.head?_filter, ← List.head?_filter]
    refine congrArg List.head? (List.filter_congr ?_)
    intro c hc
    rw [hhandle, hhandle, h.children c hc]
  rw [Tree.linkEnd?, Tree.linkEnd?, hchild]

/-- An end of a link of an instance looks the same in both trees. -/
theorem Alike.faceOf {t t' : Tree} {id : Nat} (h : t.Alike t' id) {handle : Int} {e : Nat}
    (he : t.linkEnd? id handle = some e) : t'.faceOf e = t.faceOf e := by
  unfold Tree.linkEnd? at he
  split at he
  · obtain rfl := Option.some.inj he
    rw [Tree.faceOf, h.own, Tree.faceOf]
  · exact h.children e (mem_of_child? he).1

namespace Sapling

/-! ### What one step notes -/

/-- What exists looks the same while the tree grows. -/
theorem Keeps.faceOf {s s' : Sapling} (hkept : s.Keeps s') {id : Nat} {inst : Instance}
    (h : s.tree.instance? id = some inst) : s'.tree.faceOf id = s.tree.faceOf id := by
  obtain ⟨more, h'⟩ := hkept id inst h
  rw [Tree.faceOf, Tree.faceOf, h, h']
  rfl

/-- An instance that has all its children stays as it is, and so do they. -/
theorem Keeps.alike {classes : ClassTable} {s s' : Sapling} (hkept : s.Keeps s') {id : Nat}
    {inst : Instance} (h : s.tree.instance? id = some inst)
    (hown : s'.tree.instance? id = s.tree.instance? id)
    (hfollows : Follows classes s.tree id inst) : s.tree.Alike s'.tree id := by
  constructor
  · exact hown
  · intro c hc
    rw [childrenOf_eq h] at hc
    obtain ⟨-, -, i, hi, -⟩ := hfollows.places hc
    exact hkept.faceOf hi

end Sapling

end Tree

end SchemePlayer
