import SchemePlayer.Proofs.Tree.Containment
import SchemePlayer.Proofs.Tree.Defaults
import SchemePlayer.Proofs.Tree.Postorder

/-!
# Applying a variable set

A tree grows along the declarations of classes, and a variable set is applied along its own
children, which are looked up by handle in the tree. What is written is said here slot by slot,
without either recursion:

- `Memory.Overlays`: one memory is another one with some values written over it. The values are
  given as a relation, so that writing again and again is a disjunction (`Overlays.trans`), and
  memory is determined if no slot is given two values (`Overlays.unique`).
- `Meets`: an instance and the part of a variable set that is for it.
- `Gives`, `gives_iff`: what a set has for a slot, of an instance or further below.
- `overlays_seed`: **applying a set writes exactly what it has for slots**, in whatever order.
-/

namespace SchemePlayer

/-! ### Writing values over a memory -/

/-- A variable that has been set to a value. -/
def Cell.setTo {α : Type} (x : α) (c : Cell α) : Cell α := { c with old := x, new := x }

namespace Memory

/-- `m'` is `m` with given values written over it: each slot that values are given for has one of
them, and the others are as they were. -/
def Overlays (m m' : Memory) (given : Slot → Value → Prop) : Prop :=
  ∀ x, (∃ v, given x v ∧ m'.cell? x = (m.cell? x).map (Cell.setTo v)) ∨
    (∀ v, ¬given x v) ∧ m'.cell? x = m.cell? x

variable {m m' m'' : Memory} {given given' : Slot → Value → Prop}

theorem Overlays.refl (m : Memory) (h : ∀ x v, ¬given x v) : m.Overlays m given :=
  fun x => .inr ⟨h x, rfl⟩

/-- What is written later stands over what is written first. -/
theorem Overlays.trans (h : m.Overlays m' given) (h' : m'.Overlays m'' given') :
    m.Overlays m'' fun x v => given x v ∨ given' x v := by
  intro x
  rcases h' x with ⟨v, hv, hcell'⟩ | ⟨hnone', hcell'⟩
  · refine .inl ⟨v, .inr hv, ?_⟩
    rcases h x with ⟨w, -, hcell⟩ | ⟨-, hcell⟩
    · rw [hcell', hcell, Option.map_map]
      rfl
    · rw [hcell', hcell]
  · rcases h x with ⟨w, hw, hcell⟩ | ⟨hnone, hcell⟩
    · exact .inl ⟨w, .inl hw, hcell'.trans hcell⟩
    · exact .inr ⟨fun v hv => hv.elim (hnone v) (hnone' v), hcell'.trans hcell⟩

theorem Overlays.congr (h : m.Overlays m' given) (hiff : ∀ x v, given x v ↔ given' x v) :
    m.Overlays m' given' := by
  have hsame : given = given' := funext₂ fun x v => propext (hiff x v)
  exact hsame ▸ h

/-- **A memory is determined by what is written over it**, if no slot is given two values. -/
theorem Overlays.unique (honce : ∀ x v w, given x v → given x w → v = w)
    (h : m.Overlays m' given) (h' : m.Overlays m'' given) : m' = m'' := by
  refine ext_cell? fun x => ?_
  rcases h x with ⟨v, hv, hcell⟩ | ⟨hnone, hcell⟩ <;>
    rcases h' x with ⟨w, hw, hcell'⟩ | ⟨hnone', hcell'⟩
  · rw [hcell, hcell', honce x v w hv hw]
  · exact absurd hv (hnone' v)
  · exact absurd hw (hnone w)
  · rw [hcell, hcell']

theorem overlays_writeBoth {s : Slot} {v : Value} (h : m.writeBoth s v = .ok m') :
    m.Overlays m' fun x w => x = s ∧ w = v := by
  intro x
  have hcell := cell?_assign h x
  by_cases hx : x = s
  · rw [if_pos hx] at hcell
    exact .inl ⟨v, ⟨hx, rfl⟩, hcell⟩
  · rw [if_neg hx] at hcell
    exact .inr ⟨fun w hw => hx hw.1, hcell⟩

end Memory

/-! ### Reaching into a variable set -/

namespace Tree

variable {t : Tree}

/-- A part of a variable set is of the class of an instance. -/
def Fits (t : Tree) (id : Nat) (set : VarSet) : Prop :=
  ∃ inst, t.instance? id = some inst ∧ Text.equalFold set.className inst.proto.name = true

/-- From an instance and a part of a variable set to a child of the instance and one of the part,
under the same handle and of the same class. -/
def Descends (t : Tree) (a b : Nat × VarSet) : Prop :=
  b.1 ∈ t.childrenOf a.1 ∧ b.2 ∈ a.2.children ∧ t.handleOf b.1 = some b.2.handle ∧ t.Fits b.1 b.2

/-- The part of a variable set that is for an instance: it is reached by following handles from
the root, and the classes agree at every level. -/
def Meets (t : Tree) (set : VarSet) (id : Nat) (node : VarSet) : Prop :=
  t.Fits root set ∧ Relation.ReflTransGen t.Descends (root, set) (id, node)

/-- What entries have for the slots of an instance. -/
def EntriesGive (inst : Instance) (values : List (Text × Text)) (x : Slot) (v : Value) : Prop :=
  ∃ entry ∈ values, inst.slot? entry.1 = some x ∧ Value.parse x.kind entry.2 = .ok v

/-- What a variable set that is applied to an instance has for a slot, there or further below. -/
def Gives (t : Tree) (id : Nat) (set : VarSet) (x : Slot) (v : Value) : Prop :=
  t.Fits id set ∧ ∃ j node inst, Relation.ReflTransGen t.Descends (id, set) (j, node) ∧
    t.instance? j = some inst ∧ EntriesGive inst node.values x v

/-- **A set has values for the instance itself and, by its children, for what is below.** -/
theorem gives_iff {id : Nat} {inst : Instance} {set : VarSet} {x : Slot} {v : Value}
    (hid : t.instance? id = some inst) (hfits : t.Fits id set) :
    t.Gives id set x v ↔ EntriesGive inst set.values x v ∨
      ∃ sub ∈ set.children, ∃ c ∈ t.childrenOf id, t.handleOf c = some sub.handle ∧
        t.Gives c sub x v := by
  constructor
  · rintro ⟨-, j, node, i, hreaches, hj, hgives⟩
    rcases Relation.ReflTransGen.cases_head hreaches with heq | ⟨⟨c, sub⟩, hstep, hreaches⟩
    · cases heq
      cases Option.some.inj (hid.symm.trans hj)
      exact .inl hgives
    · obtain ⟨hc, hsub, hhandle, hfits'⟩ := hstep
      exact .inr ⟨sub, hsub, c, hc, hhandle, hfits', j, node, i, hreaches, hj, hgives⟩
  · rintro (hgives | ⟨sub, hsub, c, hc, hhandle, hfits', j, node, i, hreaches, hj, hgives⟩)
    · exact ⟨hfits, id, set, inst, .refl, hid, hgives⟩
    · exact ⟨hfits, j, node, i, .head ⟨hc, hsub, hhandle, hfits'⟩ hreaches, hj, hgives⟩

/-- A child is what its handle finds. -/
theorem child?_eq_some_iff (hhandles : t.DistinctHandles) {id c : Nat} {handle : Int} :
    t.child? id handle = some c ↔ c ∈ t.childrenOf id ∧ t.handleOf c = some handle := by
  constructor
  · intro h
    obtain ⟨hmem, i, hc, hhandle⟩ := mem_of_child? h
    refine ⟨hmem, ?_⟩
    rw [handleOf, hc, Option.map_some, hhandle]
  · rintro ⟨hmem, hhandle⟩
    obtain ⟨i, hc, rfl⟩ := Option.map_eq_some_iff.mp hhandle
    exact hhandles.child? hmem hc

/-! ### Applying a variable set -/

theorem overlays_seedValue {inst : Instance} {m m' : Memory} {entry : Text × Text}
    (h : seedValue inst m entry.1 entry.2 = .ok m') :
    m.Overlays m' (EntriesGive inst [entry]) := by
  unfold seedValue at h
  split at h
  · rename_i hslot
    cases h
    refine .refl _ fun x v => ?_
    rintro ⟨e, he, hx, -⟩
    rw [List.mem_singleton.mp he, hslot] at hx
    cases hx
  · rename_i s hslot
    split at h
    · rename_i v hparse
      refine (Memory.overlays_writeBoth h).congr fun x w => ?_
      constructor
      · rintro ⟨rfl, rfl⟩
        exact ⟨entry, List.mem_singleton.mpr rfl, hslot, hparse⟩
      · rintro ⟨e, he, hx, hw⟩
        rw [List.mem_singleton.mp he] at hx hw
        cases Option.some.inj (hslot.symm.trans hx)
        exact ⟨rfl, Except.ok.inj (hw.symm.trans hparse)⟩
    · rename_i e hparse
      cases h
      refine .refl _ fun x v => ?_
      rintro ⟨e', he, hx, hv⟩
      rw [List.mem_singleton.mp he] at hx hv
      cases Option.some.inj (hslot.symm.trans hx)
      cases hv.symm.trans hparse

/-- What a first entry and others give. -/
theorem entriesGive_cons {inst : Instance} {entry : Text × Text} {values : List (Text × Text)}
    {x : Slot} {v : Value} : EntriesGive inst (entry :: values) x v ↔
      EntriesGive inst [entry] x v ∨ EntriesGive inst values x v := by
  simp only [EntriesGive, List.mem_cons, List.not_mem_nil, or_false, or_and_right, exists_or,
    exists_eq_left]

theorem overlays_seedValues {inst : Instance} {values : List (Text × Text)} {m m' : Memory}
    (h : values.foldlM (fun m (name, text) => seedValue inst m name text) m = .ok m') :
    m.Overlays m' (EntriesGive inst values) := by
  induction values generalizing m with
  | nil =>
    cases h
    exact .refl _ fun x v ⟨_, hmem, _⟩ => absurd hmem List.not_mem_nil
  | cons entry values ih =>
    rw [List.foldlM_cons] at h
    cases hv : seedValue inst m entry.1 entry.2 with
    | error e => simp [hv, bind, Except.bind] at h
    | ok m₁ =>
      simp only [hv, bind, Except.bind] at h
      exact ((overlays_seedValue hv).trans (ih h)).congr fun _ _ => entriesGive_cons.symm

mutual

/-- **Applying a set writes exactly what it has for slots.** -/
theorem overlays_seed (hhandles : t.DistinctHandles) :
    ∀ {id : Nat} {m m' : Memory} (set : VarSet), t.seed id m set = .ok m' →
      m.Overlays m' (t.Gives id set)
  | id, m, m', .mk className handle values children, h => by
    simp only [seed] at h
    split at h
    · rename_i hnone
      cases h
      refine .refl _ fun x v ⟨⟨inst, hid, _⟩, _⟩ => ?_
      cases hnone.symm.trans hid
    · rename_i inst hid
      split at h
      · rename_i hname
        split at h
        · rename_i m₁ hvalues
          refine ((overlays_seedValues hvalues).trans
            (overlays_seedChildren hhandles children h)).congr fun x v => ?_
          have hfits : t.Fits id (.mk className handle values children) := ⟨inst, hid, hname⟩
          exact (gives_iff hid hfits).symm
        · cases h
      · rename_i hname
        cases h
        refine .refl _ fun x v ⟨⟨inst', hid', hname'⟩, _⟩ => ?_
        cases Option.some.inj (hid.symm.trans hid')
        exact hname hname'

theorem overlays_seedChildren (hhandles : t.DistinctHandles) :
    ∀ {id : Nat} {m m' : Memory} (sets : List VarSet), t.seedChildren id m sets = .ok m' →
      m.Overlays m' fun x v => ∃ sub ∈ sets, ∃ c ∈ t.childrenOf id,
        t.handleOf c = some sub.handle ∧ t.Gives c sub x v
  | _, _, _, [], h => by
    cases h
    exact .refl _ fun x v ⟨_, hmem, _⟩ => absurd hmem List.not_mem_nil
  | id, m, m', set :: sets, h => by
    simp only [seedChildren] at h
    split at h
    · rename_i hnone
      refine (overlays_seedChildren hhandles sets h).congr fun x v => ?_
      rw [List.exists_mem_cons_iff]
      refine (or_iff_right ?_).symm
      rintro ⟨c, hc, hhandle, -⟩
      cases hnone.symm.trans ((child?_eq_some_iff hhandles).mpr ⟨hc, hhandle⟩)
    · rename_i c hc
      split at h
      · rename_i m₁ hseed
        refine ((overlays_seed hhandles set hseed).trans
          (overlays_seedChildren hhandles sets h)).congr fun x v => ?_
        rw [List.exists_mem_cons_iff]
        refine or_congr_left ?_
        obtain ⟨hmem, hhandle⟩ := (child?_eq_some_iff hhandles).mp hc
        constructor
        · exact fun hgives => ⟨c, hmem, hhandle, hgives⟩
        · rintro ⟨c', hmem', hhandle', hgives⟩
          have hc' := (child?_eq_some_iff hhandles).mpr ⟨hmem', hhandle'⟩
          cases Option.some.inj (hc.symm.trans hc')
          exact hgives
      · cases h

end

end Tree

end SchemePlayer
