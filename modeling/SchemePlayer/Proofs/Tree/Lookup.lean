import SchemePlayer.Proofs.Library.Table
import SchemePlayer.Proofs.Text.Case
import SchemePlayer.Proofs.Tree.Shape

/-!
# Classes and instances by name

A table finds a class by the lower-case form of a name, and a tree finds the instances of a class by
its name up to case. A message is sent to what the tree finds. These are the instances of the class
that the table finds as long as the two ways of comparing do not part in one of the names:

- `instancesFound`: the instances of the class that the table finds.
- `mem_instancesOf`, `mem_instancesFound`: both sides by the names of the classes.
- `instancesOf_eq_found_iff`: **when the two lookups mean the same class.**
- `instancesOf_parts`: names for which they do not, one in each direction.
-/

namespace SchemePlayer.Tree

/-- The instances of the class that a table finds under a name, in depth-first order; none if it
finds no class. -/
def instancesFound (t : Tree) (classes : ClassTable) (name : Text) : List Nat :=
  (List.range t.instances.size).filter fun id =>
    (t.instance? id).any fun i => classes.find? name = some i.proto

variable {classes : ClassTable} {t : Tree}

theorem mem_instancesOf {name : Text} {id : Nat} : id ∈ t.instancesOf name ↔
    ∃ inst, t.instance? id = some inst ∧ Text.equalFold inst.proto.name name = true := by
  rw [instancesOf, List.mem_filter, List.mem_range, Option.any_eq_true]
  constructor
  · rintro ⟨-, inst, hid, hname⟩
    exact ⟨inst, hid, hname⟩
  · rintro ⟨inst, hid, hname⟩
    exact ⟨(Array.getElem?_eq_some_iff.mp hid).1, inst, hid, hname⟩

/-- The table finds the class of an instance under all names with the lower-case form of its own. -/
theorem mem_instancesFound (hkeyed : classes.Keyed) {root : Text} (ht : t.Numbered classes root)
    {name : Text} {id : Nat} : id ∈ t.instancesFound classes name ↔
      ∃ inst, t.instance? id = some inst ∧ Text.lower inst.proto.name = Text.lower name := by
  rw [instancesFound, List.mem_filter, List.mem_range, Option.any_eq_true]
  constructor
  · rintro ⟨-, inst, hid, hfound⟩
    exact ⟨inst, hid, (hkeyed.find?_eq_some_iff.mp (of_decide_eq_true hfound)).2⟩
  · rintro ⟨inst, hid, hname⟩
    obtain ⟨own, hown⟩ := ht.proto hid
    refine ⟨(Array.getElem?_eq_some_iff.mp hid).1, inst, hid, decide_eq_true ?_⟩
    exact hkeyed.find?_eq_some_iff.mpr ⟨(hkeyed.find?_eq_some_iff.mp hown).1, hname⟩

/-- Two selections from a list are the same if they have the same members. -/
theorem filter_eq_of_mem_iff {α : Type} {p q : α → Bool} {l : List α}
    (h : ∀ a, a ∈ l.filter p ↔ a ∈ l.filter q) : l.filter p = l.filter q := by
  refine List.filter_congr fun a ha => ?_
  have hmem := h a
  rw [List.mem_filter, List.mem_filter, and_iff_right ha, and_iff_right ha] at hmem
  exact Bool.eq_iff_iff.mpr hmem

/-- Instances and classes are found alike if and only if the two ways of comparing agree on all
classes that have instances. -/
theorem instancesOf_eq_iff (hkeyed : classes.Keyed) {root : Text} (ht : t.Numbered classes root)
    (name : Text) : t.instancesOf name = t.instancesFound classes name ↔ ∀ inst ∈ t.instances,
      (Text.equalFold inst.proto.name name = true ↔
        Text.lower inst.proto.name = Text.lower name) := by
  constructor
  · intro hsame inst hinst
    obtain ⟨id, hid⟩ := Array.getElem?_of_mem hinst
    have hmem : id ∈ t.instancesOf name ↔ id ∈ t.instancesFound classes name := by rw [hsame]
    have hown : ∀ P : Instance → Prop, (∃ i, t.instance? id = some i ∧ P i) ↔ P inst := by
      intro P
      constructor
      · rintro ⟨i, hi, hP⟩
        rwa [Option.some.inj (hid.symm.trans hi)]
      · intro hP
        exact ⟨inst, hid, hP⟩
    rwa [mem_instancesOf, mem_instancesFound hkeyed ht, hown, hown] at hmem
  · intro hagree
    refine filter_eq_of_mem_iff fun id => ?_
    show id ∈ t.instancesOf name ↔ id ∈ t.instancesFound classes name
    rw [mem_instancesOf, mem_instancesFound hkeyed ht]
    refine exists_congr fun inst => and_congr_right fun hid => ?_
    exact hagree inst (Array.mem_of_getElem? hid)

/-- **When instances and classes are found alike.** In a tree that was built from a filled table,
the instances of a name are those of the class that the table finds if and only if the two ways of
comparing agree on the name and the class of each instance. So it is where neither has an irregular
letter. -/
theorem instancesOf_eq_found_iff (hfilled : classes.Filled) {root : Text} {strict : Bool}
    {varSet : Option VarSet} {m : Memory} (hbuild : build classes root strict varSet = .ok (t, m))
    (name : Text) :
    t.Preorder [Tree.root] (List.range t.instances.size) ∧
      (t.instancesOf name = t.instancesFound classes name ↔ ∀ inst ∈ t.instances,
        (Text.equalFold inst.proto.name name = true ↔
          Text.lower inst.proto.name = Text.lower name)) ∧
      (Text.Regular name → (∀ inst ∈ t.instances, Text.Regular inst.proto.name) →
        t.instancesOf name = t.instancesFound classes name) := by
  have ht := (build_shape hbuild).1
  have hiff := instancesOf_eq_iff hfilled.keyed ht name
  refine ⟨ht.preorder, hiff, ?_⟩
  intro hname hnames
  exact hiff.mpr fun inst hinst => Text.equalFold_iff_lower_eq (hnames inst hinst) hname

/-- What a check of a built tree says, with the tree by name. -/
theorem exists_of_check {root : Text} {strict : Bool} {varSet : Option VarSet}
    {check : Tree × Memory → Bool}
    (h : (build classes root strict varSet).toOption.any check = true) :
    ∃ t m, build classes root strict varSet = .ok (t, m) ∧ check (t, m) = true := by
  cases hbuild : build classes root strict varSet with
  | error e =>
    rw [hbuild] at h
    cases h
  | ok built =>
    rw [hbuild] at h
    exact ⟨built.1, built.2, rfl, h⟩

/-- A class with an S, a long s and an i inside it. -/
def signs : ClassTable := .ofList
  [{ name := "Signs"
     children := [{ className := "S", handle := 1 }, { className := "ſ", handle := 2 },
       { className := "i", handle := 3 }] },
   { name := "S" }, { name := "ſ" }, { name := "i" }]

/-- An i is found in lower and in upper case, and an S is not found alone. -/
theorem instancesOf_eq_found_signs :
    ∃ t m, build signs "signs" false none = .ok (t, m) ∧
      t.instancesOf "I" = t.instancesFound signs "I" ∧
      t.instancesOf "S" ≠ t.instancesFound signs "S" := by
  have heval : (build signs "signs" false none).toOption.any (fun (t, _) =>
      decide ((∀ inst ∈ t.instances.toList, (Text.equalFold inst.proto.name "I" = true ↔
        Text.lower inst.proto.name = Text.lower "I")) ∧
        ¬∀ inst ∈ t.instances.toList, (Text.equalFold inst.proto.name "S" = true ↔
          Text.lower inst.proto.name = Text.lower "S"))) = true := by
    decide +kernel
  obtain ⟨t, m, hbuild, hcheck⟩ := exists_of_check heval
  obtain ⟨hagree, hpart⟩ := of_decide_eq_true hcheck
  simp only [Array.mem_toList_iff] at hagree hpart
  refine ⟨t, m, hbuild, ?_, ?_⟩
  · exact (instancesOf_eq_found_iff (ClassTable.filled_ofList _) hbuild "I").2.1.mpr hagree
  · intro hsame
    exact hpart ((instancesOf_eq_found_iff (ClassTable.filled_ofList _) hbuild "S").2.1.mp hsame)

/-- **The lookups part in both directions.** What is sent to an S reaches the long s too, which is
of another class, and under a dotted capital I the table finds a class of which no instance is
found. -/
theorem instancesOf_parts :
    signs.Filled ∧ ∃ t m, build signs "signs" false none = .ok (t, m) ∧
      t.instancesOf "S" = [1, 2] ∧ t.instancesFound signs "S" = [1] ∧
      t.instancesOf "İ" = [] ∧ t.instancesFound signs "İ" = [3] := by
  have heval : (build signs "signs" false none).toOption.any (fun (t, _) =>
      decide (t.instancesOf "S" = [1, 2] ∧ t.instancesFound signs "S" = [1] ∧
        t.instancesOf "İ" = [] ∧ t.instancesFound signs "İ" = [3])) = true := by
    decide +kernel
  obtain ⟨t, m, hbuild, hcheck⟩ := exists_of_check heval
  exact ⟨ClassTable.filled_ofList _, t, m, hbuild, of_decide_eq_true hcheck⟩

end SchemePlayer.Tree
