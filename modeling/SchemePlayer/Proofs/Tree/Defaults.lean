import SchemePlayer.Proofs.Tree.Restore

/-!
# Defaults

A variable's default is set in the moment its slot is allocated, and nothing that happens to a tree
afterwards touches it: later slots are new ones, and variable sets write over committed and working
values only.

- `VarDecl.Defaults`: the default that a declaration stands for.
- `cell?_allocate`: reserving slots leaves those that memory has.
- `allocate_defaults`: declared variables get slots with their defaults.
- `Memory.HasDefaults`: slots have the defaults of declarations.
- `Sapling.Primed`: the invariant of a sapling; `primed_grow` carries it through the growth.
- `build_defaults`: **in a built tree every variable has the default of its declaration.**
-/

namespace SchemePlayer

/-- The default that a declaration stands for: what its text says, or the neutral value of its kind
when there is no text or none that can be read. -/
inductive VarDecl.Defaults (decl : VarDecl) : Value → Prop
  | read {v : Value} : decl.dflt ≠ [] → Value.parse decl.type.kind decl.dflt = .ok v →
      Defaults decl v
  | empty : decl.dflt = [] → Defaults decl (Value.zero decl.type.kind)
  | unreadable {e : Value.ParseError} : decl.dflt ≠ [] →
      Value.parse decl.type.kind decl.dflt = .error e → Defaults decl (Value.zero decl.type.kind)

/-! ### Reserving slots -/

theorem Bank.getElem?_allocate {α : Type} {b : Bank α} {i : Nat} (hi : i < b.size) (zero : α)
    (count : Nat) : (b.allocate zero count)[i]? = b[i]? := by
  rw [Bank.allocate, Array.getElem?_append_left hi]

namespace Memory

/-- **Reserving slots leaves those that memory has.** -/
theorem cell?_allocate {m : Memory} {x : Slot} (hx : x.InRange m) (k : Kind) (count : Nat) :
    (m.allocate k count).2.cell? x = m.cell? x := by
  obtain ⟨kind, index⟩ := x
  cases k with
  | float =>
    cases kind with
    | float => exact congrArg (Option.map _) (Bank.getElem?_allocate hx ..)
    | handle => rfl
    | string => rfl
  | handle =>
    cases kind with
    | float => rfl
    | handle => exact congrArg (Option.map _) (Bank.getElem?_allocate hx ..)
    | string => rfl
  | string =>
    cases kind with
    | float => rfl
    | handle => rfl
    | string => exact congrArg (Option.map _) (Bank.getElem?_allocate hx ..)

/-- **A slot that is reserved for a default has it**, and every slot that memory had keeps its own.
-/
theorem readDefault?_reserved {m m' : Memory} {k : Kind} {v : Value}
    (h : (m.allocate k 1).2.setDefault ⟨k, m.size k⟩ v = .ok m') :
    m'.readDefault? ⟨k, m.size k⟩ = some v ∧
      ∀ x : Slot, x.InRange m → x.InRange m' ∧ m'.readDefault? x = m.readDefault? x := by
  have hsize : ∀ k', m'.size k' = m.size k' + if k' = k then 1 else 0 := by
    intro k'
    rw [size_setDefault h, size_allocate]
  constructor
  · have hnew : Slot.InRange (m.allocate k 1).2 ⟨k, m.size k⟩ := by
      show m.size k < (m.allocate k 1).2.size k
      rw [size_allocate, if_pos rfl]
      exact Nat.lt_succ_self _
    obtain ⟨c, hc⟩ := Option.isSome_iff_exists.mp (cell?_isSome hnew)
    rw [readDefault?, cell?_assign h, if_pos rfl, hc]
    rfl
  · intro x hx
    have hold : x ≠ ⟨k, m.size k⟩ := by
      rintro rfl
      exact Nat.lt_irrefl _ hx
    constructor
    · exact hx.mono fun k' => by rw [hsize]; exact Nat.le_add_right ..
    · rw [readDefault?, cell?_assign h, if_neg hold, cell?_allocate hx, readDefault?]

/-- A slot with a default is in range. -/
theorem inRange_of_readDefault? {m : Memory} {x : Slot} {v : Value}
    (h : m.readDefault? x = some v) : x.InRange m := by
  obtain ⟨c, hc, -⟩ := Option.map_eq_some_iff.mp h
  exact inRange_of_isSome (by rw [hc]; rfl)

end Memory

/-- The slots have the defaults of the declarations, one after another. -/
def Memory.HasDefaults (m : Memory) (decls : List VarDecl) (slots : List Slot) : Prop :=
  List.Forall₂ (fun decl x => ∃ d, m.readDefault? x = some d ∧ decl.Defaults d) decls slots

namespace Tree

namespace Sapling

theorem defaults_defaultOf (decl : VarDecl) : decl.Defaults (defaultOf decl) := by
  unfold defaultOf
  dsimp only
  by_cases hempty : decl.dflt = []
  · rw [if_pos hempty]
    exact .empty hempty
  · rw [if_neg hempty]
    cases hparse : Value.parse decl.type.kind decl.dflt with
    | ok v => exact .read hempty hparse
    | error e => exact .unreadable hempty hparse

/-- **Declared variables get slots with their defaults**, and the slots that memory had keep
theirs. -/
theorem allocate_defaults {decls : List VarDecl} {m m' : Memory} {slots : List Slot}
    (h : allocate m decls = .ok (slots, m')) :
    (∀ x : Slot, x.InRange m → m'.readDefault? x = m.readDefault? x) ∧
      m'.HasDefaults decls slots := by
  induction decls generalizing m slots with
  | nil =>
    cases h
    exact ⟨fun _ _ => rfl, .nil⟩
  | cons decl decls ih =>
    simp only [allocate] at h
    split at h
    · cases h
    · rename_i m₁ hdefault
      split at h
      · rename_i rest m₂ hrest
        cases h
        obtain ⟨hkept, hdefaults⟩ := ih hrest
        obtain ⟨hnew, hold⟩ := Memory.readDefault?_reserved hdefault
        have hrange : Slot.InRange m₁ ⟨decl.type.kind, m.size decl.type.kind⟩ :=
          Memory.inRange_of_readDefault? hnew
        constructor
        · intro x hx
          exact (hkept x (hold x hx).1).trans (hold x hx).2
        · have hfirst := (hkept _ hrange).trans hnew
          exact .cons ⟨_, hfirst, defaults_defaultOf decl⟩ hdefaults
      · cases h

/-! ### Growing -/

/-- The variables of all instances so far have their defaults. -/
def Primed (s : Sapling) : Prop :=
  ∀ id inst, s.tree.instance? id = some inst →
    s.memory.HasDefaults inst.proto.vars inst.slots.toList

theorem primed_plant {s s' : Sapling} {p : Prototype} {parent child : Nat} {handle : Int}
    {name : Text} (hs : s.Primed) (h : s.add p parent handle name = .ok (child, s')) :
    (s'.adopt parent child).Primed := by
  obtain ⟨slots, memory, hslots, rfl, rfl⟩ := add_eq_ok h
  obtain ⟨hkept, hdefaults⟩ := allocate_defaults hslots
  intro id inst hid
  obtain ⟨before, more, rfl, rfl | hbefore⟩ := eq_of_planted hid
  · exact hdefaults
  · refine (hs id before hbefore).imp fun decl x hx => ?_
    obtain ⟨d, hd, hdecl⟩ := hx
    exact ⟨d, (hkept x (Memory.inRange_of_readDefault? hd)).trans hd, hdecl⟩

theorem primed_attachLinks {s : Sapling} (hs : s.Primed) (id : Nat) (p : Prototype) :
    (s.attachLinks id p).Primed := by
  intro j inst hj
  rw [instance?, instances_attachLinks] at hj
  rw [memory_attachLinks]
  exact hs j inst hj

theorem primed_seedling {p : Prototype} {s : Sapling} {slots : List Slot} (h : Seedling p s slots) :
    s.Primed := by
  intro id inst hid
  rw [instance?, h.instances] at hid
  obtain ⟨hlt, rfl⟩ := Array.getElem?_eq_some_iff.mp hid
  have hzero : id = 0 := Nat.lt_one_iff.mp hlt
  subst hzero
  exact (allocate_defaults h.slots).2

/-- **Everything that grows has its defaults.** -/
theorem primed_grow {classes : ClassTable} {strict : Bool} {depth id : Nat} {inst : Instance}
    {s s' : Sapling} (hid : s.tree.instance? id = some inst) (hs : s.Primed)
    (h : grow classes strict depth id inst.proto s = .ok s') : s'.Primed :=
  (grow_induct (P := Primed) (fun hs _ hadd => primed_plant hs hadd) (fun _ _ hs => hs)
    (fun hs _ => primed_attachLinks hs _ _) hid hs h).1

end Sapling

/-- **In a built tree every variable has the default of its declaration**, whatever the variable
set is. -/
theorem build_defaults {classes : ClassTable} {root : Text} {strict : Bool} {varSet : Option VarSet}
    {t : Tree} {m : Memory} (h : build classes root strict varSet = .ok (t, m)) {id : Nat}
    {inst : Instance} (hid : t.instance? id = some inst) :
    m.HasDefaults inst.proto.vars inst.slots.toList := by
  obtain ⟨p, seedling, slots, s, -, hseedling, hgrow, rfl, hm⟩ := build_eq_ok h
  have hprimed : s.Primed :=
    Sapling.primed_grow hseedling.instance? (Sapling.primed_seedling hseedling) hgrow
  refine (hprimed id inst hid).imp fun decl x hx => ?_
  obtain ⟨d, hd, hdecl⟩ := hx
  exact ⟨d, (sameDefaults_furnish hm x).trans hd, hdecl⟩

end Tree

end SchemePlayer
