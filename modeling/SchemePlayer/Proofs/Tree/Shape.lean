import SchemePlayer.Proofs.Tree.Numbering
import SchemePlayer.Proofs.Tree.Slots

/-!
# The shape of a built tree

Three things hold of every tree that a build gives back, whatever the table, the root and the
options are:

- `Numbered`: its numbers are the depth-first pre-order, and parents and children agree.
- `Partitioned`: its slots are a partition of memory, each of the kind its variable declares.
- `Declares`: every link was declared by an instance and joins variables of that instance or of
  its direct children.

`build_shape` assembles them.
-/

namespace SchemePlayer.Tree

/-! ### Links -/

/-- An instance that a handle of a link refers to: the declaring instance itself, or a child of
it under that handle. -/
def Endpoint (t : Tree) (id : Nat) (inst : Instance) (handle : Int) (e : Nat) : Prop :=
  (handle = 0 ∧ e = id) ∨ (e ∈ inst.children ∧ ∃ i, t.instance? e = some i ∧ i.handle = handle)

/-- A link comes from a declaration of the instance `id`: it joins two variables that the
declaration names, of the two endpoints that it names. -/
def Declares (t : Tree) (id : Nat) (l : Link) : Prop :=
  ∃ inst decl names first second, t.instance? id = some inst ∧
    decl ∈ inst.proto.links ∧ decl.isDisabled = false ∧ names ∈ decl.vars ∧
    t.Endpoint id inst decl.handle1 first ∧ t.Endpoint id inst decl.handle2 second ∧
    if decl.isReversed then
      t.slot? second names.2 = some ⟨l.kind, l.src⟩ ∧ t.slot? first names.1 = some ⟨l.kind, l.dst⟩
    else
      t.slot? first names.1 = some ⟨l.kind, l.src⟩ ∧ t.slot? second names.2 = some ⟨l.kind, l.dst⟩

namespace Sapling

/-- The slots of an instance stay. -/
theorem Keeps.slot? {s s' : Sapling} (hkept : s.Keeps s') {id : Nat} {name : Text} {x : Slot}
    (h : s.tree.slot? id name = some x) : s'.tree.slot? id name = some x := by
  obtain ⟨inst, hid, hx⟩ := Option.bind_eq_some_iff.mp h
  obtain ⟨more, hid'⟩ := hkept id inst hid
  rw [Tree.slot?, hid']
  exact hx

theorem Keeps.endpoint {s s' : Sapling} (hkept : s.Keeps s') {id e : Nat} {inst : Instance}
    {handle : Int} (h : s.tree.Endpoint id inst handle e) (more : List Nat) :
    s'.tree.Endpoint id { inst with children := inst.children ++ more } handle e := by
  rcases h with hself | ⟨hchild, i, hi, hhandle⟩
  · exact .inl hself
  · obtain ⟨_, hi'⟩ := hkept e i hi
    exact .inr ⟨List.mem_append_left _ hchild, _, hi', hhandle⟩

/-- A link stays declared while the tree grows. -/
theorem Keeps.declares {s s' : Sapling} (hkept : s.Keeps s') {id : Nat} {l : Link}
    (h : s.tree.Declares id l) : s'.tree.Declares id l := by
  obtain ⟨inst, decl, names, first, second, hid, hdecl, hlive, hnames, hfirst, hsecond, hslots⟩ := h
  obtain ⟨more, hid'⟩ := hkept id inst hid
  refine ⟨_, decl, names, first, second, hid', hdecl, hlive, hnames, hkept.endpoint hfirst more,
    hkept.endpoint hsecond more, ?_⟩
  split
  · rename_i hreversed
    rw [if_pos hreversed] at hslots
    exact ⟨hkept.slot? hslots.1, hkept.slot? hslots.2⟩
  · rename_i hforward
    rw [if_neg hforward] at hslots
    exact ⟨hkept.slot? hslots.1, hkept.slot? hslots.2⟩

/-- Every link so far is declared. -/
def Wired (s : Sapling) : Prop := ∀ l ∈ s.tree.links, ∃ id, s.tree.Declares id l

/-- Links stay declared when instances stay and no link is new. -/
theorem Wired.mono {s s' : Sapling} (hs : s.Wired) (hkept : s.Keeps s')
    (hlinks : s'.tree.links = s.tree.links) : s'.Wired := by
  intro l hl
  rw [hlinks] at hl
  obtain ⟨id, hdeclares⟩ := hs l hl
  exact ⟨id, hkept.declares hdeclares⟩

theorem endpoint_of_endpoint? {s : Sapling} {id e : Nat} {inst : Instance} {handle : Int}
    (hid : s.tree.instance? id = some inst) (h : s.endpoint? id handle = some e) :
    s.tree.Endpoint id inst handle e := by
  unfold endpoint? at h
  split at h
  · rename_i hzero
    exact .inl ⟨hzero, (Option.some.inj h).symm⟩
  · obtain ⟨hmem, hhandle⟩ := mem_of_child? h
    exact .inr ⟨childrenOf_eq hid ▸ hmem, hhandle⟩

/-- Attaching a pair of variables adds at most one link, between their slots. -/
theorem mem_links_attachPair {owner : Text} {src dst : Nat} {s : Sapling} {srcName dstName : Text}
    {l : Link} (h : l ∈ (attachPair owner src dst s srcName dstName).tree.links) :
    l ∈ s.tree.links ∨
      (s.tree.slot? src srcName = some ⟨l.kind, l.src⟩ ∧
        s.tree.slot? dst dstName = some ⟨l.kind, l.dst⟩) := by
  unfold attachPair at h
  split at h
  · exact .inl h
  · exact .inl h
  · rename_i a b ha hb
    split at h
    · rename_i hkind
      rcases List.mem_append.mp h with hold | hnew
      · exact .inl hold
      · obtain rfl := List.mem_singleton.mp hnew
        refine .inr ⟨ha, ?_⟩
        rw [hb, hkind]
    · exact .inl h

/-- Attaching a pair of variables keeps links declared if the new one is. -/
theorem wired_attachPair {owner : Text} {src dst : Nat} {s : Sapling} {srcName dstName : Text}
    (hs : s.Wired)
    (hnew : ∀ l : Link, s.tree.slot? src srcName = some ⟨l.kind, l.src⟩ →
      s.tree.slot? dst dstName = some ⟨l.kind, l.dst⟩ → ∃ id, s.tree.Declares id l) :
    (attachPair owner src dst s srcName dstName).Wired := by
  have hkept : s.Keeps (attachPair owner src dst s srcName dstName) :=
    .of_instances (attachPair_keeps ..).1
  intro l hl
  rcases mem_links_attachPair hl with hold | ⟨hsrc, hdst⟩
  · obtain ⟨j, hj⟩ := hs l hold
    exact ⟨j, hkept.declares hj⟩
  · obtain ⟨j, hj⟩ := hnew l hsrc hdst
    exact ⟨j, hkept.declares hj⟩

theorem wired_attachLink {s : Sapling} {id : Nat} {inst : Instance} {decl : LinkDecl}
    (hs : s.Wired) (hid : s.tree.instance? id = some inst) (hdecl : decl ∈ inst.proto.links)
    (owner : Text) : (attachLink id owner s decl).Wired := by
  unfold attachLink
  split
  · exact hs
  · rename_i hlive
    have hlive : decl.isDisabled = false := Bool.eq_false_iff.mpr hlive
    split
    · rename_i first second hfirst hsecond
      -- the instances stay the same from pair to pair, and so do the endpoints
      refine (List.foldlRecOn (motive := fun s' : Sapling =>
        s'.tree.instances = s.tree.instances ∧ s'.Wired) decl.vars _ ⟨rfl, hs⟩
        fun s' hs' names hnames => ?_).2
      obtain ⟨hsame, hwired⟩ := hs'
      have hinstance : ∀ j, s'.tree.instance? j = s.tree.instance? j := by
        intro j
        rw [Tree.instance?, hsame]
        rfl
      have hid' := (hinstance id).trans hid
      have hends : ∀ {handle e}, s.tree.Endpoint id inst handle e →
          s'.tree.Endpoint id inst handle e := by
        rintro handle e (hself | ⟨hchild, i, hi, hhandle⟩)
        · exact .inl hself
        · exact .inr ⟨hchild, i, (hinstance e).trans hi, hhandle⟩
      have hfirst := hends (endpoint_of_endpoint? hid hfirst)
      have hsecond := hends (endpoint_of_endpoint? hid hsecond)
      dsimp only
      split
      · rename_i hreversed
        refine ⟨(attachPair_keeps ..).1.trans hsame, wired_attachPair hwired fun l hsrc hdst => ?_⟩
        refine ⟨id, inst, decl, names, first, second, hid', hdecl, hlive, hnames, hfirst, hsecond,
          ?_⟩
        rw [if_pos hreversed]
        exact ⟨hsrc, hdst⟩
      · rename_i hforward
        refine ⟨(attachPair_keeps ..).1.trans hsame, wired_attachPair hwired fun l hsrc hdst => ?_⟩
        refine ⟨id, inst, decl, names, first, second, hid', hdecl, hlive, hnames, hfirst, hsecond,
          ?_⟩
        rw [if_neg hforward]
        exact ⟨hsrc, hdst⟩
    · exact hs.mono (.of_instances rfl) rfl

/-- Attaching the links of an instance adds only links that its class declares. -/
theorem wired_attachLinks {s : Sapling} {id : Nat} {inst : Instance} (hs : s.Wired)
    (hid : s.tree.instance? id = some inst) : (s.attachLinks id inst.proto).Wired := by
  refine (List.foldlRecOn (motive := fun s' : Sapling => s'.tree.instances = s.tree.instances ∧
    s'.Wired) inst.proto.links _ ⟨rfl, hs⟩ fun s' hs' decl hdecl => ?_).2
  have hid' : s'.tree.instance? id = some inst := by
    rw [Tree.instance?, hs'.1]
    exact hid
  exact ⟨(attachLink_keeps ..).1.trans hs'.1, wired_attachLink hs'.2 hid' hdecl _⟩

/-- **Every link of everything that grows is declared.** -/
theorem wired_grow {classes : ClassTable} {strict : Bool} {depth id : Nat} {inst : Instance}
    {s s' : Sapling} (hid : s.tree.instance? id = some inst) (hs : s.Wired)
    (h : grow classes strict depth id inst.proto s = .ok s') : s'.Wired := by
  refine (grow_induct (P := Wired) (fun hs _ hadd => ?_) (fun _ _ hs => ?_)
    (fun hs hid => wired_attachLinks hs hid) hid hs h).1
  · refine hs.mono (keeps_plant hadd) ?_
    obtain ⟨_, _, -, -, rfl⟩ := add_eq_ok hadd
    rfl
  · exact hs.mono (.of_instances rfl) rfl

end Sapling

/-! ### The whole tree -/

/-- The numbers of a tree are its depth-first pre-order, with children in the order in which
they are declared; the root is its own parent, and every other instance occurs exactly once in
the list of children of its parent, and in no other list. -/
structure Numbered (classes : ClassTable) (name : Text) (t : Tree) : Prop where
  preorder : t.Preorder [root] (List.range t.instances.size)
  follows : ∀ id inst, t.instance? id = some inst → Follows classes t id inst
  atRoot : ∃ inst, t.instance? root = some inst ∧ inst.parent = root ∧
    classes.find? name = some inst.proto ∧ inst.handle = 0 ∧ inst.name = []
  atRest : ∀ id inst, t.instance? id = some inst → id ≠ root →
    (t.childrenOf inst.parent).count id = 1 ∧
      ∀ other, other ≠ inst.parent → id ∉ t.childrenOf other

/-- The slots of a tree are a partition of memory: every slot of an instance is in range and of
the kind of its declared type, and every slot of memory is that of exactly one variable. -/
structure Partitioned (t : Tree) (m : Memory) : Prop where
  slots : ∀ id inst, t.instance? id = some inst →
    List.Forall₂ (fun x decl => x.kind = decl.type.kind ∧ x.InRange m)
      inst.slots.toList inst.proto.vars
  owners : ∀ x : Slot, x.InRange m → ∃! owner, t.slotAt? owner = some x

/-- Of lists that are related element by element, each element of the first has one in its place
in the second. -/
theorem getElem?_of_forall₂ {α β : Type} {R : α → β → Prop} {as : List α} {bs : List β}
    (h : List.Forall₂ R as bs) {i : Nat} {a : α} (ha : as[i]? = some a) :
    ∃ b, bs[i]? = some b ∧ R a b := by
  induction h generalizing i with
  | nil => cases ha
  | @cons a' b as bs hab _ ih =>
    cases i with
    | zero =>
      cases ha
      exact ⟨b, rfl, hab⟩
    | succ i => exact ih ha

theorem exists_of_forall₂ {α β : Type} {R : α → β → Prop} {as : List α} {bs : List β}
    (h : List.Forall₂ R as bs) {a : α} (ha : a ∈ as) : ∃ b ∈ bs, R a b := by
  obtain ⟨i, hi⟩ := List.getElem?_of_mem ha
  obtain ⟨b, hb, hab⟩ := getElem?_of_forall₂ h hi
  exact ⟨b, List.mem_of_getElem? hb, hab⟩

/-- A child of an instance is placed by a declaration. -/
theorem Follows.places {classes : ClassTable} {t : Tree} {id child : Nat} {inst : Instance}
    (h : Follows classes t id inst) (hmem : child ∈ inst.children) :
    ∃ decl ∈ inst.proto.children, Places classes t id child decl := by
  obtain ⟨decl, hdecl, hplaces⟩ := exists_of_forall₂ h hmem
  exact ⟨decl, List.mem_of_mem_filter hdecl, hplaces⟩

/-- A child that is placed knows its parent. -/
theorem Follows.parent {classes : ClassTable} {t : Tree} {id child : Nat} {inst i : Instance}
    (h : Follows classes t id inst) (hmem : child ∈ inst.children)
    (hchild : t.instance? child = some i) : i.parent = id := by
  obtain ⟨-, -, i', hi', hparent, -⟩ := h.places hmem
  rw [hchild] at hi'
  cases hi'
  exact hparent

/-- What grows from the root alone is numbered. -/
theorem numbered_grow {classes : ClassTable} {strict : Bool} {depth : Nat} {name : Text}
    {p : Prototype} {seedling s : Sapling} {slots : List Slot} (hp : classes.find? name = some p)
    (hseedling : Seedling p seedling slots)
    (h : Sapling.grow classes strict depth 0 p seedling = .ok s) :
    Numbered classes name s.tree := by
  have hroot := hseedling.instance?
  obtain ⟨new, hbranch⟩ := Sapling.branch_grow hroot h
  have hroot' := hbranch.own _ hroot
  have hone : seedling.tree.instances.size = 1 := by rw [hseedling.instances]; rfl
  have hsize := hbranch.size
  have horder := hbranch.order
  rw [hone] at hsize horder
  -- 1. the root, then everything below it
  have hpreorder : s.tree.Preorder [root] (List.range s.tree.instances.size) := by
    have hrange : List.range s.tree.instances.size =
        0 :: (List.range' 1 (s.tree.instances.size - 1) ++ []) := by
      obtain ⟨n, hn⟩ := Nat.exists_eq_add_of_le' hsize
      rw [hn, List.range_eq_range', List.range'_succ, Nat.add_sub_cancel, List.append_nil]
    rw [hrange]
    exact .cons hroot' horder .nil
  have hfollows : ∀ id inst, s.tree.instance? id = some inst → Follows classes s.tree id inst := by
    intro id inst hid
    by_cases hzero : id = 0
    · subst hzero
      rw [hroot'] at hid
      cases hid
      exact hbranch.placed
    · exact hbranch.follows id inst (by omega) hid
  refine ⟨hpreorder, hfollows, ⟨_, hroot', rfl, hp, rfl, rfl⟩, fun id inst hid hne => ?_⟩
  -- 2. all children lists together hold every number but the root's, once
  have hperm := hpreorder.perm
  have hnodup : (root :: (List.range s.tree.instances.size).flatMap s.tree.childrenOf).Nodup :=
    hperm.nodup_iff.mp List.nodup_range
  have hparent : ∀ other, id ∈ s.tree.childrenOf other → inst.parent = other := by
    intro other hmem
    obtain ⟨i, hother, hchild⟩ := mem_childrenOf.mp hmem
    exact (hfollows other i hother).parent hchild hid
  have hmem : id ∈ (List.range s.tree.instances.size).flatMap s.tree.childrenOf := by
    have hin : id ∈ root :: (List.range s.tree.instances.size).flatMap s.tree.childrenOf :=
      hperm.mem_iff.mp (List.mem_range.mpr (Sapling.lt_size_of_instance? hid))
    exact (List.mem_cons.mp hin).resolve_left hne
  obtain ⟨other, hother, hchild⟩ := List.mem_flatMap.mp hmem
  refine ⟨?_, fun other' hne' hmem' => hne' (hparent other' hmem').symm⟩
  rw [hparent other hchild]
  have honce := (List.nodup_flatMap.mp (List.nodup_cons.mp hnodup).2).1 other hother
  exact List.count_eq_one_of_mem honce hchild

/-- Code can go about in a tree: the root and all children are instances of it, and what disables
an instance is a number among its variables. -/
structure Closed (t : Tree) : Prop where
  root : (t.instance? root).isSome = true
  children : ∀ id inst, t.instance? id = some inst → ∀ c ∈ inst.children,
    (t.instance? c).isSome = true
  disable : ∀ id inst, t.instance? id = some inst → ∀ x, inst.disable = some x →
    x ∈ inst.slots ∧ x.kind = .float

theorem Numbered.children {classes : ClassTable} {name : Text} {t : Tree}
    (h : t.Numbered classes name) {id : Nat} {inst : Instance} (hid : t.instance? id = some inst)
    {c : Nat} (hc : c ∈ inst.children) : (t.instance? c).isSome = true := by
  obtain ⟨-, -, i, hi, -⟩ := (h.follows id inst hid).places hc
  rw [hi]
  rfl

/-- **All instances are of classes of the table.** -/
theorem Numbered.proto {classes : ClassTable} {name : Text} {t : Tree} (h : t.Numbered classes name)
    {id : Nat} {inst : Instance} (hid : t.instance? id = some inst) :
    ∃ className, classes.find? className = some inst.proto := by
  by_cases hroot : id = root
  · obtain ⟨i, hi, -, hproto, -⟩ := h.atRoot
    rw [← hroot, hid] at hi
    cases hi
    exact ⟨name, hproto⟩
  · -- every other instance is a child of its parent
    have hmem : id ∈ t.childrenOf inst.parent := by
      rw [← List.count_pos_iff, (h.atRest id inst hid hroot).1]
      exact Nat.one_pos
    obtain ⟨i, hparent, hchild⟩ := mem_childrenOf.mp hmem
    obtain ⟨decl, -, inst', hid', -, hproto, -⟩ := (h.follows _ i hparent).places hchild
    rw [hid] at hid'
    cases hid'
    exact ⟨decl.className, hproto⟩

theorem build_closed {classes : ClassTable} {name : Text} {strict : Bool} {varSet : Option VarSet}
    {t : Tree} {m : Memory} (h : build classes name strict varSet = .ok (t, m)) : t.Closed := by
  obtain ⟨p, seedling, slots, s, hp, hseedling, hgrow, rfl, -⟩ := build_eq_ok h
  have hnumbered := numbered_grow hp hseedling hgrow
  have htiled := Sapling.tiled_grow hseedling.instance? (Sapling.tiled_seedling hseedling) hgrow
  obtain ⟨inst, hroot, -⟩ := hnumbered.atRoot
  refine ⟨by rw [hroot]; rfl, fun id inst hid c hc => hnumbered.children hid hc, ?_⟩
  exact fun id inst hid => (htiled.furnished id inst hid).disable

/-- **The shape of a built tree.** Whatever the table, the root and the options are, a tree that
is built is numbered in depth-first pre-order, its slots are a partition of the memory built with
it, and every link joins two slots of its kind that memory has, of variables which the declaring
instance and its direct children have. -/
theorem build_shape {classes : ClassTable} {name : Text} {strict : Bool}
    {varSet : Option VarSet} {t : Tree} {m : Memory}
    (h : build classes name strict varSet = .ok (t, m)) :
    t.Numbered classes name ∧ t.Partitioned m ∧
      ∀ l ∈ t.links, l.InRange m ∧ ∃ id, t.Declares id l := by
  have hbounds := build_inBounds h
  obtain ⟨p, seedling, slots, s, hp, hseedling, hgrow, rfl, hm⟩ := build_eq_ok h
  have htiled := Sapling.tiled_grow hseedling.instance? (Sapling.tiled_seedling hseedling) hgrow
  have hwired := Sapling.wired_grow hseedling.instance?
    (fun l hl => by rw [hseedling.links] at hl; cases hl) hgrow
  refine ⟨numbered_grow hp hseedling hgrow, ⟨fun id inst hid => ?_, fun x hx => ?_⟩,
    fun l hl => ⟨hbounds.links l hl, hwired l hl⟩⟩
  · have hkinds := (htiled.furnished id inst hid).kinds
    rw [List.forall₂_iff_get]
    refine ⟨by simpa using congrArg List.length hkinds, fun v hv hv' => ⟨?_, ?_⟩⟩
    · have hkind := congrArg (·[v]?) hkinds
      simpa [List.getElem?_eq_getElem hv, List.getElem?_eq_getElem hv'] using hkind
    · exact hbounds.slots id inst hid _ (Array.mem_toList_iff.mp (List.get_mem ..))
  · refine existsUnique_owner (fun k => ?_) hx
    rw [htiled.indices k, size_furnish hm k]

/-- A class that holds two instances of another one, joined by a link, and in between one of a
class that is missing; each of the two holds a third. -/
def nestedPair : ClassTable := .ofList
  [{ name := "a"
     vars := [{ name := "x", type := .float }]
     children := [{ className := "b", handle := 1 }, { className := "z", handle := 2 },
       { className := "B", handle := 3 }]
     links := [{ handle1 := 1, handle2 := 3, vars := [("s", "s")] }] },
   { name := "b"
     vars := [{ name := "s", type := .string }, { name := "y", type := .float }]
     children := [{ className := "c", handle := 1 }] },
   { name := "c", vars := [{ name := "n", type := .handle }] }]

/-- Five instances, with the numbers of a pre-order, and seven slots. -/
theorem build_shape_nestedPair :
    ∃ t m, build nestedPair "a" false none = .ok (t, m) ∧
      (List.range 6).map t.childrenOf = [[1, 3], [2], [], [4], [], []] ∧
      t.links = [⟨.string, 0, 1⟩] ∧ m.size .float + m.size .string + m.size .handle = 7 ∧
      t.Numbered nestedPair "a" ∧ t.Partitioned m ∧ ∃ id, t.Declares id ⟨.string, 0, 1⟩ := by
  have heval : (build nestedPair "a" false none).toOption.any (fun (t, m) =>
      decide ((List.range 6).map t.childrenOf = [[1, 3], [2], [], [4], [], []] ∧
        t.links = [⟨.string, 0, 1⟩] ∧
        m.size .float + m.size .string + m.size .handle = 7)) = true := by decide +kernel
  cases hbuild : build nestedPair "a" false none with
  | error e =>
    rw [hbuild] at heval
    cases heval
  | ok built =>
    obtain ⟨t, m⟩ := built
    rw [hbuild] at heval
    obtain ⟨hchildren, hlinks, hsize⟩ := of_decide_eq_true heval
    obtain ⟨hnumbered, hpartitioned, hdeclares⟩ := build_shape hbuild
    refine ⟨t, m, rfl, hchildren, hlinks, hsize, hnumbered, hpartitioned, ?_⟩
    exact (hdeclares _ (by rw [hlinks]; exact List.mem_singleton.mpr rfl)).2

end SchemePlayer.Tree
