import SchemePlayer.Proofs.Tree.Seeding

/-!
# Initial values

What a variable holds when a tree has just been built depends on its declaration and on one entry
of the variable set, if the set does not say two things of it:

- `Unambiguous`: no two values of one name, no two children of one handle.
- `Tree.Sets`: the entry of a variable, found along the handles above it.
- `gives_unique`: no slot is given two values; `givesIn_iff_sets`: what is given is the entry.
- `gives_reordered_iff`: the order of the values does not matter.
- `Tree.Initial`: every variable has its initial value.
- `build_initial`: **the initial values of variables, in whatever order values are applied.**
-/

namespace SchemePlayer

/-- No two entries name the same variable of a class. -/
def Prototype.NamedOnce (p : Prototype) (values : List (Text × Text)) : Prop :=
  values.Pairwise fun a b => p.varIndex? a.1 = p.varIndex? b.1 → p.varIndex? a.1 = none

instance (p : Prototype) (values : List (Text × Text)) : Decidable (p.NamedOnce values) :=
  inferInstanceAs (Decidable (values.Pairwise fun a b =>
    p.varIndex? a.1 = p.varIndex? b.1 → p.varIndex? a.1 = none))

/-- What a variable set must not leave open: at no level two values name the same variable of the
class that is named there, and no two children have the same handle. -/
inductive VarSet.Unambiguous (classes : ClassTable) : VarSet → Prop
  | mk {className : Text} {handle : Int} {values : List (Text × Text)} {children : List VarSet} :
    (∀ p, classes.Has p → Text.equalFold className p.name = true → p.NamedOnce values) →
    (children.map VarSet.handle).Nodup → (∀ sub ∈ children, Unambiguous classes sub) →
    Unambiguous classes (.mk className handle values children)

/-- An entry is told by the variable that it names. -/
theorem Prototype.NamedOnce.eq {p : Prototype} {values : List (Text × Text)}
    (h : p.NamedOnce values) {a b : Text × Text} (ha : a ∈ values) (hb : b ∈ values) {i : Nat}
    (hai : p.varIndex? a.1 = some i) (hbi : p.varIndex? b.1 = some i) : a = b := by
  by_contra hne
  have hsymm : Std.Symm fun a b : Text × Text =>
      p.varIndex? a.1 = p.varIndex? b.1 → p.varIndex? a.1 = none :=
    ⟨fun a b hab hba => hba.trans (hab hba.symm)⟩
  cases hai.symm.trans (h.forall ha hb hne (hai.trans hbi.symm))

namespace Tree

variable {t : Tree} {classes : ClassTable} {name : Text}

/-! ### What is given once -/

/-- What is reached is unambiguous and of the class of its instance, as the beginning is. -/
theorem reached {a b : Nat × VarSet} (h : Relation.ReflTransGen t.Descends a b)
    (hset : a.2.Unambiguous classes) (hfits : t.Fits a.1 a.2) :
    b.2.Unambiguous classes ∧ t.Fits b.1 b.2 := by
  induction h with
  | refl => exact ⟨hset, hfits⟩
  | @tail b c _ hstep ih =>
    obtain ⟨-, hsub, -, hfits'⟩ := hstep
    obtain ⟨id, node⟩ := b
    cases ih.1 with
    | mk _ _ hchildren => exact ⟨hchildren c.2 hsub, hfits'⟩

/-- **An instance meets one part of an unambiguous set**, since it is the child of one other and the
handles on the way down tell the parts apart. -/
theorem meets_unique (ht : t.Numbered classes name) {set node node' : VarSet} {id : Nat}
    (hset : set.Unambiguous classes) (h : t.Meets set id node) (h' : t.Meets set id node') :
    node = node' := by
  obtain ⟨hfits, hreaches⟩ := h
  obtain ⟨-, hreaches'⟩ := h'
  have hroot : ∀ {a}, root ∉ t.childrenOf a := by
    intro a hmem
    obtain ⟨inst, ha, hchild⟩ := mem_childrenOf.mp hmem
    exact ht.root_not_child ha hchild
  generalize hb : (id, node) = b at hreaches
  -- up along the first way; the second one goes through the same instances
  induction hreaches generalizing id node node' with
  | refl =>
    cases hb
    rcases Relation.ReflTransGen.cases_tail hreaches' with heq | ⟨a, -, hstep⟩
    · cases heq
      rfl
    · exact absurd hstep.1 hroot
  | @tail a b hway hstep ih =>
    cases hb
    rcases Relation.ReflTransGen.cases_tail hreaches' with heq | ⟨a', hway', hstep'⟩
    · cases heq
      exact absurd hstep.1 hroot
    · obtain ⟨i, above⟩ := a
      obtain ⟨i', above'⟩ := a'
      obtain ⟨hchild, hsub, hhandle, -⟩ := hstep
      obtain ⟨hchild', hsub', hhandle', -⟩ := hstep'
      obtain ⟨p, hi, hmem⟩ := mem_childrenOf.mp hchild
      obtain ⟨p', hi', hmem'⟩ := mem_childrenOf.mp hchild'
      obtain rfl : i = i' := ht.rooted _ i i' p p' hi hi' hmem hmem'
      obtain rfl : above = above' := ih hway' rfl
      have hsame : node.handle = node'.handle := Option.some.inj (hhandle.symm.trans hhandle')
      cases (reached hway hset hfits).1 with
      | mk _ hhandles _ => exact List.inj_on_of_nodup_map hhandles hsub hsub' hsame

/-- A slot that an instance gives a name to is that of a variable. -/
theorem slotAt?_of_slot? {id : Nat} {inst : Instance} (hid : t.instance? id = some inst)
    {key : Text} {x : Slot} (h : inst.slot? key = some x) :
    ∃ i, inst.proto.varIndex? key = some i ∧ t.slotAt? (id, i) = some x := by
  unfold Instance.slot? at h
  split at h
  · rename_i i hi
    exact ⟨i, hi, by rw [slotAt?, hid]; exact h⟩
  · cases h

/-- **No slot is given two values.** -/
theorem gives_unique {m : Memory} (ht : t.Numbered classes name) (hm : t.Partitioned m)
    {set : VarSet} (hset : set.Unambiguous classes) {x : Slot} (hx : x.InRange m) {v w : Value}
    (hv : t.Gives root set x v) (hw : t.Gives root set x w) : v = w := by
  obtain ⟨hfits, j, node, inst, hreaches, hj, entry, hentry, hslot, hparse⟩ := hv
  obtain ⟨-, j', node', inst', hreaches', hj', entry', hentry', hslot', hparse'⟩ := hw
  obtain ⟨i, hindex, howner⟩ := slotAt?_of_slot? hj hslot
  obtain ⟨i', hindex', howner'⟩ := slotAt?_of_slot? hj' hslot'
  -- 1. the variable is the same
  cases (hm.owners x hx).unique howner howner'
  cases Option.some.inj (hj.symm.trans hj')
  -- 2. so is the part of the set
  obtain rfl := meets_unique ht hset ⟨hfits, hreaches⟩ ⟨hfits, hreaches'⟩
  -- 3. so is the entry
  obtain ⟨hnode, i₁, hi₁, hclass⟩ := reached hreaches hset hfits
  cases Option.some.inj (hj.symm.trans hi₁)
  cases hnode with
  | mk hvalues _ _ =>
    obtain rfl := (hvalues _ (ht.proto hj) hclass).eq hentry hentry' hindex hindex'
    exact Except.ok.inj (hparse.symm.trans hparse')

/-- What an optional variable set has for a slot of a tree. -/
def GivesIn (t : Tree) (varSet : Option VarSet) (x : Slot) (v : Value) : Prop :=
  ∃ set ∈ varSet, t.Gives root set x v

/-- The value that a variable set has for a variable of an instance: that of an entry of its name,
in the part of the set that is for the instance, which can be read as a value of its kind. -/
def Sets (t : Tree) (varSet : Option VarSet) (id : Nat) (decl : VarDecl) (v : Value) : Prop :=
  ∃ set ∈ varSet, ∃ node, t.Meets set id node ∧ ∃ entry ∈ node.values,
    Text.equalFold decl.name entry.1 = true ∧ Value.parse decl.type.kind entry.2 = .ok v

/-- **What a set has for a slot is what it has for the variable of the slot.** -/
theorem givesIn_iff_sets {m : Memory} (hm : t.Partitioned m) {varSet : Option VarSet} {id i : Nat}
    {inst : Instance} (hnames : inst.proto.DistinctNames) (hid : t.instance? id = some inst)
    {decl : VarDecl} (hdecl : inst.proto.vars[i]? = some decl) {x : Slot} (hx : x.InRange m)
    (hkind : x.kind = decl.type.kind) (howner : t.slotAt? (id, i) = some x) {v : Value} :
    t.GivesIn varSet x v ↔ t.Sets varSet id decl v := by
  constructor
  · rintro ⟨set, hset, hfits, j, node, inst', hreaches, hj, entry, hentry, hslot, hparse⟩
    obtain ⟨i', hindex, howner'⟩ := slotAt?_of_slot? hj hslot
    cases (hm.owners x hx).unique howner howner'
    cases Option.some.inj (hid.symm.trans hj)
    have hname := (varIndex?_eq_some_iff hnames hdecl).mp hindex
    exact ⟨set, hset, node, ⟨hfits, hreaches⟩, entry, hentry, hname, hkind ▸ hparse⟩
  · rintro ⟨set, hset, node, ⟨hfits, hreaches⟩, entry, hentry, hname, hparse⟩
    have hslot : inst.slot? entry.1 = some x := by
      rw [Instance.slot?, (varIndex?_eq_some_iff hnames hdecl).mpr hname]
      rw [slotAt?, hid] at howner
      exact howner
    exact ⟨set, hset, hfits, id, node, inst, hreaches, hid, entry, hentry, hslot, hkind ▸ hparse⟩

end Tree

/-! ### The order of values -/

mutual

theorem VarSet.Reordered.symm : ∀ {set set' : VarSet}, set.Reordered set' → set'.Reordered set
  | .mk _ _ _ _, _, .mk hvalues hchildren =>
    .mk hvalues.symm (VarSet.Reordered.symm_children hchildren)

theorem VarSet.Reordered.symm_children : ∀ {sets sets' : List VarSet},
    List.Forall₂ VarSet.Reordered sets sets' → List.Forall₂ VarSet.Reordered sets' sets
  | [], _, .nil => .nil
  | _ :: _, _, .cons hset hsets =>
    .cons (VarSet.Reordered.symm hset) (VarSet.Reordered.symm_children hsets)

end

/-- A reordered set agrees with the set in everything but the order of values. -/
theorem VarSet.Reordered.parts {set set' : VarSet} (h : set.Reordered set') :
    set.className = set'.className ∧ set.handle = set'.handle ∧ set.values.Perm set'.values ∧
      List.Forall₂ VarSet.Reordered set.children set'.children := by
  cases h with
  | mk hvalues hchildren => exact ⟨rfl, rfl, hvalues, hchildren⟩

namespace Tree

variable {t : Tree}

theorem fits_of_reordered {set set' : VarSet} (h : set.Reordered set') {id : Nat}
    (hfits : t.Fits id set) : t.Fits id set' := by
  obtain ⟨inst, hid, hname⟩ := hfits
  exact ⟨inst, hid, h.parts.1 ▸ hname⟩

/-- What is reached in a set is reached in a reordered one. -/
theorem reaches_of_reordered {a b : Nat × VarSet} {set' : VarSet} (h : a.2.Reordered set')
    (hway : Relation.ReflTransGen t.Descends a b) :
    ∃ node', b.2.Reordered node' ∧
      Relation.ReflTransGen t.Descends (a.1, set') (b.1, node') := by
  induction hway with
  | refl => exact ⟨set', h, .refl⟩
  | @tail b c _ hstep ih =>
    obtain ⟨above', habove, hway'⟩ := ih
    obtain ⟨hchild, hsub, hhandle, hfits⟩ := hstep
    obtain ⟨sub', hsub', hreordered⟩ := exists_of_forall₂ habove.parts.2.2.2 hsub
    refine ⟨sub', hreordered, hway'.tail ⟨hchild, hsub', ?_, fits_of_reordered hreordered hfits⟩⟩
    exact hhandle.trans (congrArg some hreordered.parts.2.1)

theorem gives_of_reordered {set set' : VarSet} (h : set.Reordered set') {id : Nat} {x : Slot}
    {v : Value} (hgives : t.Gives id set x v) : t.Gives id set' x v := by
  obtain ⟨hfits, j, node, inst, hreaches, hj, entry, hentry, hslot, hparse⟩ := hgives
  obtain ⟨node', hnode, hreaches'⟩ := reaches_of_reordered h hreaches
  have hentry' : entry ∈ node'.values := hnode.parts.2.2.1.mem_iff.mp hentry
  exact ⟨fits_of_reordered h hfits, j, node', inst, hreaches', hj, entry, hentry', hslot, hparse⟩

/-- **The order of values does not change what a set has for a slot.** -/
theorem gives_reordered_iff {set set' : VarSet} (h : set.Reordered set') {id : Nat} {x : Slot}
    {v : Value} : t.Gives id set x v ↔ t.Gives id set' x v :=
  ⟨gives_of_reordered h, gives_of_reordered h.symm⟩

/-! ### Built trees -/

theorem overlays_furnish {s : Sapling} (hhandles : s.tree.DistinctHandles)
    {varSet : Option VarSet} {m : Memory} (h : s.furnish varSet = .ok m) :
    s.memory.applyDefaults.Overlays m (s.tree.GivesIn varSet) := by
  cases varSet with
  | none =>
    cases h
    exact .refl _ fun x v ⟨_, hmem, _⟩ => by cases hmem
  | some set =>
    refine (overlays_seed hhandles set h).congr fun x v => ?_
    simp only [GivesIn, Option.mem_some_iff, exists_eq_left']

/-- In the memory of a built tree no slot is given two values. -/
theorem givesIn_unique {classes : ClassTable} {name : Text} {strict : Bool}
    {varSet varSet' : Option VarSet} {m : Memory}
    (h : build classes name strict varSet' = .ok (t, m))
    (hset : ∀ set ∈ varSet, set.Unambiguous classes) {x : Slot} {v w : Value}
    (hv : t.GivesIn varSet x v) (hw : t.GivesIn varSet x w) : v = w := by
  obtain ⟨hnumbered, hpartitioned, -⟩ := build_shape h
  obtain ⟨set, hmem, hgives⟩ := hv
  obtain ⟨set', hmem', hgives'⟩ := hw
  obtain rfl : set = set' := Option.mem_unique hmem hmem'
  have hx : x.InRange m := by
    obtain ⟨-, j, node, inst, -, hj, entry, -, hslot, -⟩ := hgives
    have hfound : t.slot? j entry.1 = some x := by
      rw [Tree.slot?, hj]
      exact hslot
    exact (build_inBounds h).slot? hfound
  exact gives_unique hnumbered hpartitioned (hset set hmem) hx hgives hgives'

/-- Every variable of every instance has its initial value, as the committed and as the working
one: that of its entry in the variable set, and otherwise its default. -/
def Initial (t : Tree) (m : Memory) (varSet : Option VarSet) : Prop :=
  ∀ id inst i decl, t.instance? id = some inst → inst.proto.vars[i]? = some decl →
    ∃ x v d, t.slotAt? (id, i) = some x ∧ m.cell? x = some ⟨v, v, d⟩ ∧ decl.Defaults d ∧
      (∀ w, t.Sets varSet id decl w → v = w) ∧ ((∀ w, ¬t.Sets varSet id decl w) → v = d)

/-- **In a built tree every variable has its initial value**, if the variable set is unambiguous. -/
theorem initial_of_build {classes : ClassTable} {root : Text} {strict : Bool}
    {varSet : Option VarSet} {t : Tree} {m : Memory}
    (h : build classes root strict varSet = .ok (t, m)) (hnames : t.DistinctNames)
    (hhandles : t.DistinctHandles) (hset : ∀ set ∈ varSet, set.Unambiguous classes) :
    t.Initial m varSet := by
  intro id inst i decl hid hdecl
  obtain ⟨-, hpartitioned, -⟩ := build_shape h
  -- 1. the slot of the variable, its kind and its default
  obtain ⟨x, hslot, d, hd, hdefault⟩ := getElem?_of_forall₂ (build_defaults h hid) hdecl
  obtain ⟨decl', hdecl', hkind, hx⟩ := getElem?_of_forall₂ (hpartitioned.slots id inst hid) hslot
  cases Option.some.inj (hdecl.symm.trans hdecl')
  have howner : t.slotAt? (id, i) = some x := by
    rw [slotAt?, hid]
    rwa [Array.getElem?_toList] at hslot
  have hdistinct := hnames inst (Array.mem_of_getElem? hid)
  have hsets : ∀ w, t.GivesIn varSet x w ↔ t.Sets varSet id decl w := fun w =>
    givesIn_iff_sets hpartitioned hdistinct hid hdecl hx hkind howner
  -- 2. what was there when the defaults had been applied
  obtain ⟨p, seedling, slots, s, -, -, -, rfl, hm⟩ := build_eq_ok h
  have hbefore : s.memory.applyDefaults.cell? x = some ⟨d, d, d⟩ := by
    rw [sameDefaults_furnish hm x] at hd
    obtain ⟨c, hc, rfl⟩ := Option.map_eq_some_iff.mp hd
    rw [Memory.cell?_applyDefaults, hc]
    rfl
  -- 3. what is written over it
  rcases overlays_furnish hhandles hm x with ⟨v, hv, hcell⟩ | ⟨hnone, hcell⟩
  · rw [hbefore] at hcell
    refine ⟨x, v, d, howner, hcell, hdefault, fun w hw => ?_, fun hnot => ?_⟩
    · exact givesIn_unique h hset hv ((hsets w).mpr hw)
    · exact absurd ((hsets v).mp hv) (hnot v)
  · rw [hbefore] at hcell
    refine ⟨x, d, d, howner, hcell, hdefault, fun w hw => ?_, fun _ => rfl⟩
    exact absurd ((hsets w).mpr hw) (hnone w)

/-- **In whatever order values are applied, the same is built.** -/
theorem build_reordered {classes : ClassTable} {root : Text} {strict : Bool}
    {varSet varSet' : Option VarSet} (hset : ∀ set ∈ varSet, set.Unambiguous classes)
    (hhandles : ∀ t m, build classes root strict varSet = .ok (t, m) → t.DistinctHandles)
    (hreordered : Option.Rel VarSet.Reordered varSet varSet') :
    build classes root strict varSet' = build classes root strict varSet := by
  cases fate_of_build classes root strict with
  | unknown _ hbuild => rw [hbuild, hbuild]
  | stunted _ _ hbuild => rw [hbuild, hbuild]
  | @grown s hbuild =>
    obtain ⟨m, hm, hbuilt⟩ := hbuild varSet
    obtain ⟨m', hm', hbuilt'⟩ := hbuild varSet'
    have htree := hhandles _ _ hbuilt
    have hsame : ∀ x v, s.tree.GivesIn varSet x v ↔ s.tree.GivesIn varSet' x v := by
      intro x v
      cases hreordered with
      | none => exact Iff.rfl
      | some horder =>
        simp only [GivesIn, Option.mem_some_iff, exists_eq_left', gives_reordered_iff horder]
    have hoverlays := (overlays_furnish htree hm).congr hsame
    have honce : ∀ x v w, s.tree.GivesIn varSet' x v → s.tree.GivesIn varSet' x w → v = w :=
      fun x v w hv hw => givesIn_unique hbuilt hset ((hsame x v).mpr hv) ((hsame x w).mpr hw)
    rw [hbuilt, hbuilt', Memory.Overlays.unique honce hoverlays (overlays_furnish htree hm')]

/-- **The initial values of variables.** From classes that do not contain themselves, with distinct
names of variables, a build with an unambiguous variable set gives a tree in which every variable
has its initial value, unless a class is missing; and it gives the same with the values of the set
in any other order. -/
theorem build_initial {classes : ClassTable} {root : Text} {strict : Bool}
    {varSet : Option VarSet} (hacyclic : classes.Acyclic)
    (hnames : ∀ p, classes.Has p → p.DistinctNames)
    (hset : ∀ set ∈ varSet, set.Unambiguous classes)
    (hhandles : ∀ t m, build classes root strict varSet = .ok (t, m) → t.DistinctHandles) :
    ((∃ t m, build classes root strict varSet = .ok (t, m) ∧ t.Initial m varSet) ∨
      ∃ name, classes.find? name = none ∧ (name = root ∨ strict = true) ∧
        build classes root strict varSet = .error (.prototypeNotFound name)) ∧
    ∀ varSet', Option.Rel VarSet.Reordered varSet varSet' →
      build classes root strict varSet' = build classes root strict varSet := by
  constructor
  · rcases build_settles hacyclic root strict varSet with ⟨t, m, hbuild⟩ | hmissing
    · have hdistinct : t.DistinctNames := by
        intro inst hinst
        obtain ⟨id, hid⟩ := Array.getElem?_of_mem hinst
        exact hnames _ ((build_shape hbuild).1.proto hid)
      exact .inl ⟨t, m, hbuild, initial_of_build hbuild hdistinct (hhandles t m hbuild) hset⟩
    · exact .inr hmissing
  · exact fun varSet' => build_reordered hset hhandles

/-- A room with two lamps and a clock; the number of the room has a default that is no number. -/
def room : ClassTable := .ofList
  [{ name := "Room"
     vars := [{ name := "X", type := .float, dflt := "1.5" },
       { name := "S", type := .string, dflt := "hi" },
       { name := "N", type := .handle, dflt := "no" }]
     children := [{ className := "Lamp", handle := 3 }, { className := "lamp", handle := 4 },
       { className := "Clock", handle := 5 }] },
   { name := "Lamp"
     vars := [{ name := "H", type := .handle, dflt := "4" }, { name := "On", type := .float }] },
   { name := "Clock", vars := [{ name := "T", type := .float, dflt := "2" }] }]

/-- Values for the room, one of which names nothing and one of which is no number; for one lamp and
one that is not there; and for the clock, but as a lamp. -/
def roomSet : VarSet :=
  .mk "ROOM" 0 [("x", "9"), ("Unknown", "1"), ("S", "set"), ("N", "seven")]
    [.mk "Lamp" 3 [("h", "12")] [], .mk "Lamp" 99 [("H", "13")] [], .mk "Lamp" 5 [("T", "7")] []]

/-- What the variables hold, from the room to the clock. -/
def roomValues : List (Option Text) :=
  [some "9", some "set", some "0", some "12", some "0", some "4", some "0", some "2"]

theorem acyclic_room : room.Acyclic := by
  have hlevels : ∀ p ∈ room.entries.map (·.2), ∀ decl ∈ p.children,
      ∀ q ∈ room.find? decl.className, q.children.length < p.children.length := by decide +kernel
  refine ClassTable.acyclic_of_rank (fun p => p.children.length) fun p q hcontains => ?_
  obtain ⟨hp, decl, hdecl, hq⟩ := hcontains
  exact hlevels p hp.mem decl hdecl q hq

theorem unambiguous_roomSet : roomSet.Unambiguous room := by
  have hvalues : ∀ p ∈ room.entries.map (·.2), p.NamedOnce roomSet.values := by decide +kernel
  refine .mk (fun p hp _ => hvalues p hp.mem) (by decide +kernel) fun sub hsub => ?_
  have hsubs : sub.children = [] ∧ sub.values.length = 1 := by
    revert sub
    decide +kernel
  obtain ⟨className, handle, values, children⟩ := sub
  obtain ⟨rfl, hone⟩ := hsubs
  obtain ⟨entry, rfl⟩ := List.length_eq_one_iff.mp hone
  exact .mk (fun _ _ _ => List.pairwise_singleton _ _) List.nodup_nil
    fun sub hmem => absurd hmem List.not_mem_nil

/-- The values of the room and of the first lamp are set where they can be read; the other lamp and
the clock have their defaults, and so has the number, which is zero. -/
theorem build_initial_room :
    ∃ t m, build room "room" true (some roomSet) = .ok (t, m) ∧ t.Initial m (some roomSet) ∧
      t.slots.map (fun x => (m.readOld? x).map Value.format) = roomValues ∧
      build room "room" true (some (.mk "ROOM" 0 roomSet.values.reverse roomSet.children)) =
        .ok (t, m) := by
  have heval : (build room "room" true (some roomSet)).toOption.any (fun (t, m) =>
      decide (t.DistinctHandles ∧
        t.slots.map (fun x => (m.readOld? x).map Value.format) = roomValues)) = true := by
    decide +kernel
  have hhandles : ∀ t m, build room "room" true (some roomSet) = .ok (t, m) →
      t.DistinctHandles := by
    intro t m hbuild
    rw [hbuild] at heval
    exact (of_decide_eq_true heval).1
  have hnames : ∀ p ∈ room.entries.map (·.2), p.DistinctNames := by decide +kernel
  obtain ⟨hbuilt | hmissing, horder⟩ := build_initial acyclic_room (fun p hp => hnames p hp.mem)
    (fun set hset => Option.some.inj hset ▸ unambiguous_roomSet) hhandles
  · obtain ⟨t, m, hbuild, hinitial⟩ := hbuilt
    have hreordered : roomSet.Reordered
        (.mk "ROOM" 0 roomSet.values.reverse roomSet.children) :=
      .mk roomSet.values.reverse_perm.symm (VarSet.Reordered.refl_children _)
    refine ⟨t, m, hbuild, hinitial, ?_, (horder _ (.some hreordered)).trans hbuild⟩
    rw [hbuild] at heval
    exact (of_decide_eq_true heval).2
  · obtain ⟨name, -, -, hbuild⟩ := hmissing
    rw [hbuild] at heval
    cases heval

end Tree

end SchemePlayer
