import Mathlib.Data.List.Nodup
import Mathlib.Data.List.Perm.Subperm
import Mathlib.Logic.Relation
import SchemePlayer.Proofs.Tree.Bounds

/-!
# Classes within classes

A class that contains itself, directly or through others, has no tree, and the growth of one is cut
off at a depth: one more than the number of classes. Without such a class the depth is never
reached, because the classes on the way down from the root are all different:

- `Contains`, `Acyclic`: containment of classes, and that it has no cycle.
- `Within`: a class and those that are around it, on the way down from the root.
- `settles_grow`: growing ends well, or with a class that a strict build misses.
- `Fate`, `fate_of_build`: what a build comes to does not depend on the variable set.
- `build_settles`: **without a cycle a build gives a tree, unless a class is missing.**
-/

namespace SchemePlayer

namespace ClassTable

/-- A class of the table. -/
def Has (classes : ClassTable) (p : Prototype) : Prop := ∃ name, classes.find? name = some p

/-- A class of the table places an instance of another one inside itself. -/
def Contains (classes : ClassTable) (p q : Prototype) : Prop :=
  classes.Has p ∧ ∃ decl ∈ p.children, classes.find? decl.className = some q

/-- No class contains itself, directly or through others. -/
def Acyclic (classes : ClassTable) : Prop := ∀ p, ¬Relation.TransGen classes.Contains p p

theorem Has.mem {classes : ClassTable} {p : Prototype} (h : classes.Has p) :
    p ∈ classes.entries.map (·.2) := by
  obtain ⟨name, hname⟩ := h
  obtain ⟨before, after, hentries, -⟩ := List.lookup_eq_some_iff.mp hname
  rw [hentries]
  simp

/-- Classes whose rank falls from each to those within it contain no cycle. -/
theorem acyclic_of_rank {classes : ClassTable} (rank : Prototype → Nat)
    (h : ∀ p q, classes.Contains p q → rank q < rank p) : classes.Acyclic := by
  have hfalls : ∀ p q, Relation.TransGen classes.Contains p q → rank q < rank p := by
    intro p q hpq
    induction hpq with
    | single hstep => exact h _ _ hstep
    | tail _ hstep ih => exact Nat.lt_trans (h _ _ hstep) ih
  exact fun p hp => Nat.lt_irrefl _ (hfalls p p hp)

/-- A class with those that are around it on the way down, all different. -/
structure Within (classes : ClassTable) (p : Prototype) (around : List Prototype) : Prop where
  has : ∀ q ∈ p :: around, classes.Has q
  distinct : (p :: around).Nodup
  leads : ∀ q ∈ around, Relation.TransGen classes.Contains q p

/-- No way down is longer than the table. -/
theorem Within.length_lt {classes : ClassTable} {p : Prototype} {around : List Prototype}
    (h : classes.Within p around) : around.length < classes.size := by
  have hsub : p :: around ⊆ classes.entries.map (·.2) := fun q hq => (h.has q hq).mem
  have hle := (List.subperm_of_subset h.distinct hsub).length_le
  rwa [List.length_map] at hle

/-- A class inside the last one is different from all around it. -/
theorem Within.child {classes : ClassTable} (hacyclic : classes.Acyclic) {p q : Prototype}
    {around : List Prototype} (h : classes.Within p around) {decl : ChildDecl}
    (hdecl : decl ∈ p.children) (hq : classes.find? decl.className = some q) :
    classes.Within q (p :: around) := by
  have hcontains : classes.Contains p q := ⟨h.has p List.mem_cons_self, decl, hdecl, hq⟩
  have hleads : ∀ r ∈ p :: around, Relation.TransGen classes.Contains r q := by
    intro r hr
    rcases List.mem_cons.mp hr with rfl | hr
    · exact .single hcontains
    · exact (h.leads r hr).tail hcontains
  constructor
  · intro r hr
    rcases List.mem_cons.mp hr with rfl | hr
    · exact ⟨_, hq⟩
    · exact h.has r hr
  · exact List.nodup_cons.mpr ⟨fun hmem => hacyclic q (hleads q hmem), h.distinct⟩
  · exact hleads

end ClassTable

namespace Tree

namespace Sapling

/-- A growth ends well, or with a class that a strict build misses. -/
def Settles (classes : ClassTable) (strict : Bool) (r : Except BuildError Sapling) : Prop :=
  (∃ s, r = .ok s) ∨
    strict = true ∧ ∃ name, classes.find? name = none ∧ r = .error (.prototypeNotFound name)

theorem settles_sprout {classes : ClassTable} {strict : Bool}
    {grow : Nat → Prototype → Sapling → Except BuildError Sapling} {decls : List ChildDecl}
    (hgrow : ∀ decl ∈ decls, ∀ q, classes.find? decl.className = some q → ∀ child s,
      Settles classes strict (grow child q s)) (id : Nat) (owner : Text) (s : Sapling) :
    Settles classes strict (sprout classes strict grow id owner decls s) := by
  induction decls generalizing s with
  | nil => exact .inl ⟨s, rfl⟩
  | cons decl decls ih =>
    have hrest := ih fun decl' hdecl' => hgrow decl' (List.mem_cons_of_mem _ hdecl')
    rw [sprout]
    cases hfind : classes.find? decl.className with
    | none =>
      by_cases hstrict : strict = true
      · exact .inr ⟨hstrict, decl.className, hfind, by rw [if_pos hstrict]⟩
      · simp only [if_neg hstrict]
        exact hrest _
    | some q =>
      obtain ⟨⟨child, s₁⟩, hadd⟩ := add_isOk s q id decl.handle decl.name
      simp only [hadd]
      rcases hgrow decl List.mem_cons_self q hfind child (s₁.adopt id child) with
        ⟨s₂, hgrown⟩ | ⟨hstrict, name, hname, hmissed⟩
      · rw [hgrown]
        exact hrest s₂
      · exact .inr ⟨hstrict, name, hname, by rw [hmissed]⟩

/-- **Without a cycle the depth is never reached.** -/
theorem settles_grow {classes : ClassTable} (hacyclic : classes.Acyclic) (strict : Bool)
    {depth : Nat} {p : Prototype} {around : List Prototype} (hp : classes.Within p around)
    (hdepth : classes.size ≤ depth + around.length) (id : Nat) (s : Sapling) :
    Settles classes strict (grow classes strict depth id p s) := by
  -- the way down gets longer as the depth that is left gets smaller
  induction depth generalizing p around id s with
  | zero =>
    have hlt := hp.length_lt
    omega
  | succ depth ih =>
    have hchildren : ∀ decl ∈ p.children, ∀ q, classes.find? decl.className = some q →
        ∀ child s, Settles classes strict (grow classes strict depth child q s) := by
      intro decl hdecl q hq child s
      refine ih (hp.child hacyclic hdecl hq) ?_ child s
      rw [List.length_cons]
      omega
    rw [grow]
    rcases settles_sprout hchildren id p.name s with ⟨s₁, hgrown⟩ | ⟨hstrict, name, hname, hmissed⟩
    · exact .inl ⟨s₁.attachLinks id p, by rw [hgrown]⟩
    · exact .inr ⟨hstrict, name, hname, by rw [hmissed]⟩

end Sapling

/-- What a build comes to, whatever the variable set is. -/
inductive Fate (classes : ClassTable) (root : Text) (strict : Bool) : Prop
  | unknown : classes.find? root = none →
      (∀ varSet, build classes root strict varSet = .error (.prototypeNotFound root)) →
      Fate classes root strict
  | stunted {p : Prototype} {seedling : Sapling} {e : BuildError} : classes.find? root = some p →
      Sapling.grow classes strict (classes.size + 1) 0 p seedling = .error e →
      (∀ varSet, build classes root strict varSet = .error e) → Fate classes root strict
  | grown {s : Sapling} :
      (∀ varSet, ∃ m, s.furnish varSet = .ok m ∧
        build classes root strict varSet = .ok (s.tree, m)) → Fate classes root strict

theorem fate_of_build (classes : ClassTable) (root : Text) (strict : Bool) :
    Fate classes root strict := by
  cases hp : classes.find? root with
  | none => exact .unknown hp fun varSet => by simp only [build, hp]
  | some p =>
    obtain ⟨⟨id, seedling⟩, hadd⟩ := Sapling.add_isOk {} p 0 0 []
    obtain ⟨rfl, slots, hseedling⟩ := seedling_of_add hadd
    cases hgrow : Sapling.grow classes strict (classes.size + 1) 0 p seedling with
    | error e => exact .stunted hp hgrow fun varSet => by simp only [build, hp, hadd, hgrow]
    | ok s =>
      refine .grown (s := s) fun varSet => ?_
      cases varSet with
      | none => exact ⟨s.memory.applyDefaults, rfl, by simp only [build, hp, hadd, hgrow]⟩
      | some set =>
        have hbounds : s.InBounds :=
          Sapling.inBounds_grow hseedling.instance? (Sapling.inBounds_seedling hseedling) hgrow
        obtain ⟨m, hseed⟩ := seed_isOk Tree.root set (hbounds.mono fun k =>
          Nat.le_of_eq (Memory.size_applyDefaults s.memory k).symm)
        exact ⟨m, hseed, by simp only [build, hp, hadd, hgrow, hseed]⟩

/-- **Without a cycle a build gives a tree, unless a class is missing**: the root, or in a strict
build any class. -/
theorem build_settles {classes : ClassTable} (hacyclic : classes.Acyclic) (root : Text)
    (strict : Bool) (varSet : Option VarSet) :
    (∃ t m, build classes root strict varSet = .ok (t, m)) ∨
      ∃ name, classes.find? name = none ∧ (name = root ∨ strict = true) ∧
        build classes root strict varSet = .error (.prototypeNotFound name) := by
  cases fate_of_build classes root strict with
  | unknown hnone hbuild => exact .inr ⟨root, hnone, .inl rfl, hbuild varSet⟩
  | @stunted p seedling e hp hgrow hbuild =>
    have hwithin : classes.Within p [] :=
      ⟨fun q hq => ⟨root, by rw [List.mem_singleton.mp hq]; exact hp⟩, List.nodup_singleton _,
        fun q hq => absurd hq List.not_mem_nil⟩
    have hdepth : classes.size ≤ classes.size + 1 + ([] : List Prototype).length :=
      Nat.le_succ _
    rcases Sapling.settles_grow hacyclic strict hwithin hdepth 0 seedling with
      ⟨s, hgrown⟩ | ⟨hstrict, name, hname, hmissed⟩
    · rw [hgrown] at hgrow
      cases hgrow
    · rw [hmissed] at hgrow
      cases hgrow
      exact .inr ⟨name, hname, .inr hstrict, hbuild varSet⟩
  | grown hbuild =>
    obtain ⟨m, -, hm⟩ := hbuild varSet
    exact .inl ⟨_, m, hm⟩

end Tree

end SchemePlayer
