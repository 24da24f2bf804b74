import SchemePlayer.Proofs.Memory.Restore
import SchemePlayer.Proofs.Number.RoundTrip
import SchemePlayer.Proofs.Tree.Shape

/-!
# Restoring a snapshot

A snapshot is written by slot, with the exact names of variables; a variable set is applied by the
name of a class, the handle of a child and the name of a variable up to case. The two agree on
trees in which these names tell everything apart:

- `Reordered`: a variable set in which the values of each instance stand in another order.
- `DistinctNames`, `DistinctHandles`: what tells variables and children apart.
- `ownValues_recalls`: each value of a snapshot belongs to the slot it was read from.
- `Preorder.restores`: applying the snapshots of some instances restores everything below them.
- `build_snapshot`: **a tree that is built again with a snapshot is the same tree, and its memory
  has what was committed.**
-/

namespace SchemePlayer

/-- The values of each instance stand in another order. -/
inductive VarSet.Reordered : VarSet → VarSet → Prop
  | mk {className : Text} {handle : Int} {values values' : List (Text × Text)}
      {children children' : List VarSet} : values.Perm values' →
      List.Forall₂ Reordered children children' →
      Reordered (.mk className handle values children) (.mk className handle values' children')

mutual

/-- A variable set as it stands is one of its orders. -/
theorem VarSet.Reordered.refl : ∀ set : VarSet, set.Reordered set
  | .mk _ _ _ children => .mk (.refl _) (VarSet.Reordered.refl_children children)

theorem VarSet.Reordered.refl_children :
    ∀ sets : List VarSet, List.Forall₂ VarSet.Reordered sets sets
  | [] => .nil
  | set :: sets => .cons (VarSet.Reordered.refl set) (VarSet.Reordered.refl_children sets)

end

/-- No two variables of a class have the same name up to case. -/
def Prototype.DistinctNames (p : Prototype) : Prop :=
  p.vars.Pairwise fun v w => Text.equalFold v.name w.name = false

instance (p : Prototype) : Decidable p.DistinctNames :=
  inferInstanceAs (Decidable (p.vars.Pairwise fun v w => Text.equalFold v.name w.name = false))

namespace Tree

/-- In no class of an instance two variables have the same name up to case. -/
def DistinctNames (t : Tree) : Prop := ∀ inst ∈ t.instances, inst.proto.DistinctNames

instance (t : Tree) : Decidable t.DistinctNames :=
  inferInstanceAs (Decidable (∀ inst ∈ t.instances, inst.proto.DistinctNames))

/-- The handle of an instance. -/
def handleOf (t : Tree) (id : Nat) : Option Int := (t.instance? id).map Instance.handle

/-- No two children of an instance have the same handle. -/
def DistinctHandles (t : Tree) : Prop :=
  ∀ inst ∈ t.instances, (inst.children.map t.handleOf).Nodup

instance (t : Tree) : Decidable t.DistinctHandles :=
  inferInstanceAs (Decidable (∀ inst ∈ t.instances, (inst.children.map t.handleOf).Nodup))

/-! ### Own values -/

/-- With distinct names, a name up to case stands for one variable. -/
theorem varIndex?_eq_some_iff {p : Prototype} (hnames : p.DistinctNames) {name : Text} {i : Nat}
    {decl : VarDecl} (hdecl : p.vars[i]? = some decl) :
    p.varIndex? name = some i ↔ Text.equalFold decl.name name = true := by
  obtain ⟨hlt, rfl⟩ := List.getElem?_eq_some_iff.mp hdecl
  unfold Prototype.varIndex?
  rw [List.findIdx?_eq_some_iff_getElem]
  constructor
  · rintro ⟨_, hname, -⟩
    exact hname
  · intro hname
    refine ⟨hlt, hname, fun j hj hearlier => ?_⟩
    have hdistinct := List.pairwise_iff_getElem.mp hnames j i (by omega) hlt hj
    simp only [Text.equalFold, beq_iff_eq, beq_eq_false_iff_ne] at hname hearlier hdistinct
    exact hdistinct (hearlier.trans hname.symm)

/-- A variable is found by its name, if no two have the same up to case. -/
theorem slot?_of_getElem? {inst : Instance} (hnames : inst.proto.DistinctNames) {i : Nat}
    {decl : VarDecl} {x : Slot} (hdecl : inst.proto.vars[i]? = some decl)
    (hx : inst.slots[i]? = some x) : inst.slot? decl.name = some x := by
  rw [Instance.slot?, (varIndex?_eq_some_iff hnames hdecl).mpr (Text.equalFold_refl _)]
  exact hx

theorem setValue_of_new {values : List (Text × Text)} {name : Text}
    (h : ∀ p ∈ values, p.1 ≠ name) (text : Text) :
    VarSet.setValue values name text = values ++ [(name, text)] := by
  unfold VarSet.setValue
  rw [List.filter_eq_self.mpr fun p hp => by simpa using h p hp]

/-- The entry of a variable in a snapshot. -/
def entry (m : Memory) (p : VarDecl × Slot) : Text × Text :=
  (p.1.name, ((m.readOld? p.2).map Value.format).getD [])

/-- With distinct names no entry takes the place of another. -/
theorem foldl_setValue {m : Memory} {ps : List (VarDecl × Slot)} {values : List (Text × Text)}
    (hps : ps.Pairwise fun p p' => p.1.name ≠ p'.1.name)
    (hvalues : ∀ q ∈ values, ∀ p ∈ ps, q.1 ≠ p.1.name) :
    ps.foldl (fun values (decl, s) =>
      VarSet.setValue values decl.name (((m.readOld? s).map Value.format).getD [])) values =
      values ++ ps.map (entry m) := by
  induction ps generalizing values with
  | nil => simp
  | cons p ps ih =>
    obtain ⟨decl, s⟩ := p
    obtain ⟨hfirst, hrest⟩ := List.pairwise_cons.mp hps
    have hnew : ∀ q ∈ values, q.1 ≠ decl.name := fun q hq => hvalues q hq _ List.mem_cons_self
    rw [List.foldl_cons]
    dsimp only
    rw [setValue_of_new hnew, ih hrest, List.map_cons, List.append_assoc]
    · rfl
    · intro q hq p' hp'
      rcases List.mem_append.mp hq with hq | hq
      · exact hvalues q hq p' (List.mem_cons_of_mem _ hp')
      · obtain rfl := List.mem_singleton.mp hq
        exact hfirst p' hp'

theorem ownValues_eq {inst : Instance} (hfurnished : inst.Furnished)
    (hnames : inst.proto.DistinctNames) (m : Memory) :
    ownValues inst m = (inst.proto.vars.zip inst.slots.toList).map (entry m) := by
  have hlength : inst.proto.vars.length = inst.slots.toList.length := by
    simpa using (congrArg List.length hfurnished.kinds).symm
  have hdistinct : (inst.proto.vars.zip inst.slots.toList).Pairwise
      fun p p' => p.1.name ≠ p'.1.name := by
    have hvars : inst.proto.vars.Pairwise fun v w => v.name ≠ w.name := by
      refine hnames.imp fun {v w} hne heq => ?_
      rw [heq, Text.equalFold_refl] at hne
      cases hne
    rw [← List.map_fst_zip hlength.le, List.pairwise_map] at hvars
    exact hvars
  exact foldl_setValue hdistinct fun q hq => absurd hq List.not_mem_nil

/-- An entry of a variable set names the variable in a slot, and has what is committed there. -/
def Recalls (inst : Instance) (source : Memory) (p : Text × Text) (x : Slot) : Prop :=
  inst.slot? p.1 = some x ∧ ∃ v, source.readOld? x = some v ∧ p.2 = v.format

/-- **Each value of a snapshot belongs to the slot it was read from.** -/
theorem ownValues_recalls {inst : Instance} {source : Memory} (hfurnished : inst.Furnished)
    (hnames : inst.proto.DistinctNames) (hslots : ∀ x ∈ inst.slots, x.InRange source) :
    List.Forall₂ (Recalls inst source) (ownValues inst source) inst.slots.toList := by
  have hlength : inst.proto.vars.length = inst.slots.toList.length := by
    simpa using (congrArg List.length hfurnished.kinds).symm
  rw [ownValues_eq hfurnished hnames, List.forall₂_iff_get]
  refine ⟨by simp [hlength], fun i hi hi' => ?_⟩
  have hvar : i < inst.proto.vars.length := hlength ▸ hi'
  have hslot : i < inst.slots.size := by simpa using hi'
  obtain ⟨c, hc⟩ := Option.isSome_iff_exists.mp
    (Memory.cell?_isSome (hslots inst.slots[i] (Array.getElem_mem hslot)))
  have hold : source.readOld? inst.slots[i] = some c.old := by rw [Memory.readOld?, hc]; rfl
  simp only [List.get_eq_getElem, List.getElem_map, List.getElem_zip, Array.getElem_toList]
  refine ⟨slot?_of_getElem? hnames (List.getElem?_eq_getElem hvar)
    (Array.getElem?_eq_getElem hslot), c.old, hold, ?_⟩
  rw [entry, hold]
  rfl

/-- A value that was committed is read back. -/
theorem seedValue_restores {inst : Instance} {source m : Memory} {p : Text × Text} {x : Slot}
    (hp : Recalls inst source p x) (hm : source.SameDefaults m) :
    ∃ m', seedValue inst m p.1 p.2 = .ok m' ∧ source.Restores m m' [x] := by
  obtain ⟨hslot, v, hv, htext⟩ := hp
  have hkind : v.kind = x.kind := by
    obtain ⟨c, hc, rfl⟩ := Option.map_eq_some_iff.mp hv
    exact Memory.kind_of_cell? hc
  have hparse : Value.parse x.kind p.2 = .ok v := by rw [htext, ← hkind, Value.parse_format]
  obtain ⟨m', hm', hrestores⟩ := Memory.restores_writeBoth hm hv
  refine ⟨m', ?_, hrestores⟩
  simp only [seedValue, hslot, hparse, hm']

/-- Values in any order restore the slots that they belong to. -/
theorem seedValues_restores {inst : Instance} {source m : Memory} {values : List (Text × Text)}
    {xs : List Slot} (hvalues : List.Forall₂ (Recalls inst source) values xs)
    (hm : source.SameDefaults m) :
    ∃ m', values.foldlM (fun m (name, text) => seedValue inst m name text) m = .ok m' ∧
      source.Restores m m' xs := by
  induction hvalues generalizing m with
  | nil => exact ⟨m, rfl, .refl hm⟩
  | @cons p x values xs hp _ ih =>
    obtain ⟨m₁, hm₁, hfirst⟩ := seedValue_restores hp hm
    obtain ⟨m', hm', hrest⟩ := ih hfirst.defaults
    refine ⟨m', ?_, hfirst.trans hrest⟩
    simp only [List.foldlM_cons, hm₁, bind, Except.bind]
    exact hm'

/-! ### Everything below an instance -/

/-- A tree whose snapshots can be told apart by names and handles, in memory that it fits. -/
structure Legible (t : Tree) (m : Memory) : Prop where
  slots : ∀ id inst, t.instance? id = some inst → ∀ x ∈ inst.slots, x.InRange m
  furnished : ∀ id inst, t.instance? id = some inst → inst.Furnished
  names : t.DistinctNames
  handles : t.DistinctHandles

/-- The slots of an instance. -/
def slotsOf (t : Tree) (id : Nat) : List Slot :=
  ((t.instance? id).map fun inst => inst.slots.toList).getD []

/-- A child is found by its handle. -/
theorem DistinctHandles.child? {t : Tree} (h : t.DistinctHandles) {id c : Nat} {inst : Instance}
    (hc : c ∈ t.childrenOf id) (hinst : t.instance? c = some inst) :
    t.child? id inst.handle = some c := by
  have hnodup : ((t.childrenOf id).map t.handleOf).Nodup := by
    cases hid : t.instance? id with
    | none => simp [childrenOf, hid]
    | some parent =>
      rw [childrenOf_eq hid]
      exact h parent (Array.mem_of_getElem? hid)
  cases hfind : t.child? id inst.handle with
  | none =>
    have hnone := List.find?_eq_none.mp hfind c hc
    simp [hinst] at hnone
  | some c' =>
    obtain ⟨hmem, i, hi, hsame⟩ := mem_of_child? hfind
    have hhandle : t.handleOf c' = t.handleOf c := by
      rw [handleOf, handleOf, hi, hinst, Option.map_some, Option.map_some, hsame]
    rw [List.inj_on_of_nodup_map hnodup hmem hc hhandle]

theorem Preorder.subset {t : Tree} {roots order : List Nat} (h : t.Preorder roots order) :
    ∀ r ∈ roots, r ∈ order := by
  induction h with
  | nil => exact fun _ hr => hr
  | cons _ _ _ _ ihbeside =>
    intro r hr
    rcases List.mem_cons.mp hr with rfl | hr
    · exact List.mem_cons_self
    · exact List.mem_cons_of_mem _ (List.mem_append_right _ (ihbeside r hr))

/-- An instance is restored if everything below it is. -/
theorem seed_restores {t : Tree} {source m : Memory} {id depth : Nat} {inst : Instance}
    {set : VarSet} {xs : List Slot} (ht : t.Legible source) (hid : t.instance? id = some inst)
    (hbelow : ∀ {m sets}, source.SameDefaults m →
      List.Forall₂ VarSet.Reordered (inst.children.map (t.snapshotFrom source depth)) sets →
      ∃ m', t.seedChildren id m sets = .ok m' ∧ source.Restores m m' xs)
    (hm : source.SameDefaults m) (hset : (t.snapshotFrom source (depth + 1) id).Reordered set) :
    ∃ m', t.seed id m set = .ok m' ∧ source.Restores m m' (t.slotsOf id ++ xs) := by
  simp only [snapshotFrom, hid] at hset
  cases hset with
  | @mk _ _ _ values _ children hvalues hchildren =>
    -- 1. its own values, in whatever order they stand
    have hrecalls := ownValues_recalls (ht.furnished id inst hid)
      (ht.names inst (Array.mem_of_getElem? hid)) (ht.slots id inst hid)
    obtain ⟨ys, hys, hperm⟩ := List.perm_comp_forall₂ hvalues.symm hrecalls
    obtain ⟨m₁, hm₁, hown⟩ := seedValues_restores hys hm
    have hslots : source.Restores m m₁ (t.slotsOf id) := by
      refine hown.mono fun x hx => hperm.mem_iff.mpr ?_
      simpa [slotsOf, hid] using hx
    -- 2. then everything below
    obtain ⟨m', hm', hrest⟩ := hbelow hown.defaults hchildren
    refine ⟨m', ?_, hslots.trans hrest⟩
    simp only [seed, hid, Text.equalFold_refl, if_true, hm₁, hm']

/-- **Applying the snapshots of some children restores everything below them.** -/
theorem Preorder.restores {t : Tree} {source : Memory} {roots order : List Nat}
    (h : t.Preorder roots order) (ht : t.Legible source) (hsorted : order.Pairwise (· < ·))
    {depth parent : Nat} {m : Memory} {sets : List VarSet}
    (hroots : ∀ r ∈ roots, r ∈ t.childrenOf parent)
    (hdepth : ∀ r ∈ roots, t.instances.size ≤ depth + r) (hm : source.SameDefaults m)
    (hsets : List.Forall₂ VarSet.Reordered (roots.map (t.snapshotFrom source depth)) sets) :
    ∃ m', t.seedChildren parent m sets = .ok m' ∧
      source.Restores m m' (order.flatMap t.slotsOf) := by
  induction h generalizing depth parent m sets with
  | nil =>
    cases hsets
    exact ⟨m, by simp only [seedChildren], .refl hm⟩
  | @cons id inst below siblings beside hid hbelow _ ihbelow ihbeside =>
    obtain ⟨hfirst, hrest⟩ := List.pairwise_cons.mp hsorted
    obtain ⟨hsortedBelow, hsortedBeside, -⟩ := List.pairwise_append.mp hrest
    have hlt : id < t.instances.size := (Array.getElem?_eq_some_iff.mp hid).1
    -- what is below has greater numbers, and so needs less depth
    obtain ⟨depth, rfl⟩ : ∃ d, depth = d + 1 :=
      Nat.exists_eq_add_one.mpr (by have := hdepth id List.mem_cons_self; omega)
    rw [List.map_cons] at hsets
    cases hsets with
    | @cons _ set _ sets hset hsets =>
      have hlower : ∀ c ∈ inst.children, t.instances.size ≤ depth + c := by
        intro c hc
        have hroot := hdepth id List.mem_cons_self
        have hgreater := hfirst c (List.mem_append_left _ (hbelow.subset c hc))
        omega
      obtain ⟨m₁, hm₁, hown⟩ := seed_restores ht hid
        (ihbelow hsortedBelow (fun c hc => by rwa [childrenOf_eq hid]) hlower) hm hset
      obtain ⟨m', hm', hothers⟩ := ihbeside hsortedBeside
        (fun r hr => hroots r (List.mem_cons_of_mem _ hr))
        (fun r hr => hdepth r (List.mem_cons_of_mem _ hr)) hown.defaults hsets
      refine ⟨m', ?_, ?_⟩
      · have hhandle : set.handle = inst.handle := by
          simp only [snapshotFrom, hid] at hset
          cases hset
          rfl
        have hchild := ht.handles.child? (hroots id List.mem_cons_self) hid
        simp only [seedChildren, hhandle, hchild, hm₁, hm']
      · rw [List.flatMap_cons, List.flatMap_append, ← List.append_assoc]
        exact hown.trans hothers

/-! ### The whole tree -/

theorem sameDefaults_furnish {s : Sapling} {varSet : Option VarSet} {m : Memory}
    (h : s.furnish varSet = .ok m) : s.memory.SameDefaults m := by
  cases varSet with
  | none =>
    cases h
    exact Memory.sameDefaults_applyDefaults _
  | some set =>
    have hclosed : WriteClosed Memory.SameDefaults := ⟨.refl, .trans, Memory.sameDefaults_writeBoth⟩
    exact (Memory.sameDefaults_applyDefaults _).trans (hclosed.seed _ set h)

/-- A memory with the right defaults is restored when the slots of all instances are. -/
theorem eq_restored {t : Tree} {source m m' : Memory}
    (howners : ∀ x : Slot, x.InRange source → ∃ owner, t.slotAt? owner = some x)
    (h : source.Restores m m' ((List.range t.instances.size).flatMap t.slotsOf)) :
    m' = source.restored := by
  refine Memory.ext_cell? fun x => ?_
  by_cases hx : (source.cell? x).isSome
  · obtain ⟨⟨id, v⟩, howner⟩ := howners x (Memory.inRange_of_isSome hx)
    obtain ⟨inst, hid, hslot⟩ := Option.bind_eq_some_iff.mp howner
    have hlt : id < t.instances.size := (Array.getElem?_eq_some_iff.mp hid).1
    refine h.slots x (List.mem_flatMap.mpr ⟨id, List.mem_range.mpr hlt, ?_⟩)
    simpa [slotsOf, hid] using Array.mem_of_getElem? hslot
  · have hx' : ¬(m'.cell? x).isSome := by rwa [h.defaults.isSome]
    rw [Option.not_isSome_iff_eq_none] at hx hx'
    rw [hx', Memory.cell?_restored, hx]
    rfl

/-- The snapshot of a whole tree restores every slot of it. -/
theorem seed_root_restores {t : Tree} {source m : Memory} {set : VarSet} (ht : t.Legible source)
    (hpreorder : t.Preorder [root] (List.range t.instances.size)) (hm : source.SameDefaults m)
    (hset : (t.snapshot source).Reordered set) :
    ∃ m', t.seed root m set = .ok m' ∧
      source.Restores m m' ((List.range t.instances.size).flatMap t.slotsOf) := by
  have hsorted : (List.range t.instances.size).Pairwise (· < ·) := List.pairwise_lt_range
  rw [snapshot] at hset
  generalize horder : List.range t.instances.size = order at hpreorder hsorted ⊢
  cases hpreorder with
  | @cons _ inst below _ beside hroot hbelow hbeside =>
    cases hbeside
    rw [List.append_nil] at hsorted ⊢
    obtain ⟨hfirst, hsortedBelow⟩ := List.pairwise_cons.mp hsorted
    have hlt : root < t.instances.size := (Array.getElem?_eq_some_iff.mp hroot).1
    obtain ⟨depth, hdepth⟩ : ∃ d, t.instances.size = d + 1 := Nat.exists_eq_add_one.mpr hlt
    have hlower : ∀ c ∈ inst.children, t.instances.size ≤ depth + c := by
      intro c hc
      have hgreater := hfirst c (hbelow.subset c hc)
      omega
    rw [hdepth] at hset
    exact seed_restores ht hroot (hbelow.restores ht hsortedBelow
      (fun c hc => by rwa [childrenOf_eq hroot]) hlower) hm hset

/-- **A tree that is built again with a snapshot is the same tree, and in its memory every variable
has the value that was committed.** -/
theorem build_snapshot {classes : ClassTable} {name : Text} {strict : Bool}
    {varSet : Option VarSet} {t : Tree} {m source : Memory} {set : VarSet}
    (h : build classes name strict varSet = .ok (t, m)) (hsource : m.SameDefaults source)
    (hnames : t.DistinctNames) (hhandles : t.DistinctHandles)
    (hset : (t.snapshot source).Reordered set) :
    build classes name strict (some set) = .ok (t, source.restored) := by
  have hbounds := build_inBounds h
  obtain ⟨p, seedling, slots, s, hp, hseedling, hgrow, rfl, hm, hagain⟩ := build_grown h
  have htiled := Sapling.tiled_grow hseedling.instance? (Sapling.tiled_seedling hseedling) hgrow
  have hgrown : s.memory.SameDefaults source := (sameDefaults_furnish hm).trans hsource
  -- 1. the tree fits the memory it was taken from
  have hlegible : s.tree.Legible source := by
    refine ⟨fun id inst hid x hx => Memory.inRange_of_isSome ?_, htiled.furnished, hnames, hhandles⟩
    rw [hsource.isSome]
    exact Memory.cell?_isSome (hbounds.slots id inst hid x hx)
  -- 2. every slot is some instance's
  have howners : ∀ x : Slot, x.InRange source → ∃ owner, s.tree.slotAt? owner = some x := by
    intro x hx
    have hrange : x.InRange s.memory := Memory.inRange_of_isSome <| by
      rw [← hgrown.isSome]
      exact Memory.cell?_isSome hx
    exact (existsUnique_owner htiled.indices hrange).exists
  obtain ⟨m', hseed, hrestores⟩ := seed_root_restores hlegible
    (numbered_grow hp hseedling hgrow).preorder
    (hgrown.symm.trans (Memory.sameDefaults_applyDefaults _)) hset
  rw [← eq_restored howners hrestores]
  exact hagain hseed

end Tree

end SchemePlayer
