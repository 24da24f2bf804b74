import SchemePlayer.Proofs.Memory.Size
import SchemePlayer.Proofs.Tree.Growth

/-!
# Addresses in a built tree

Building a tree hands out addresses: a slot for every declared variable of every instance,
and links between slots. The memory that is built along with the tree has all of them.

The invariant `Sapling.InBounds` holds of a sapling that is the root alone, and every way to
extend a sapling keeps it (`inBounds_plant`, `inBounds_recordMissing`, `inBounds_attachLinks`),
because memory only grows (`allocate_inRange`). So it holds of everything that grows
(`inBounds_grow`); `build_inBounds` is the result for finished trees, whose memory is as large
as the one that grew with them (`size_furnish`). Hence no access to memory goes wrong while a
tree is built (`build_ne_crash`).
-/

namespace SchemePlayer

namespace Slot

theorem InRange.mono {m m' : Memory} {x : Slot} (h : x.InRange m)
    (hle : ∀ k, m.size k ≤ m'.size k) : x.InRange m' :=
  Nat.lt_of_lt_of_le h (hle x.kind)

end Slot

namespace Link

theorem InRange.mono {m m' : Memory} {l : Link} (h : l.InRange m)
    (hle : ∀ k, m.size k ≤ m'.size k) : l.InRange m' :=
  ⟨Nat.lt_of_lt_of_le h.1 (hle l.kind), Nat.lt_of_lt_of_le h.2 (hle l.kind)⟩

end Link

namespace Memory

/-- Reserving slots adds to the bank of their kind and leaves the others. -/
theorem size_allocate (m : Memory) (kind : Kind) (count : Nat) (k : Kind) :
    (m.allocate kind count).2.size k = m.size k + if k = kind then count else 0 := by
  cases kind <;> cases k <;> simp [allocate, size, Bank.allocate]

end Memory

namespace Tree

/-- Every slot of every instance and both ends of every link are addresses of memory. -/
structure InBounds (t : Tree) (m : Memory) : Prop where
  slots : ∀ id inst, t.instance? id = some inst → ∀ x ∈ inst.slots, x.InRange m
  links : ∀ l ∈ t.links, l.InRange m

theorem InBounds.mono {t : Tree} {m m' : Memory} (h : t.InBounds m)
    (hle : ∀ k, m.size k ≤ m'.size k) : t.InBounds m' where
  slots id inst hid x hx := (h.slots id inst hid x hx).mono hle
  links l hl := (h.links l hl).mono hle

/-- A slot that is found by name is one of the instance's. -/
theorem InBounds.slot? {t : Tree} {m : Memory} (h : t.InBounds m) {id : Nat} {name : Text}
    {x : Slot} (hx : t.slot? id name = some x) : x.InRange m := by
  unfold Tree.slot? at hx
  obtain ⟨inst, hinst, hslot⟩ := Option.bind_eq_some_iff.mp hx
  unfold Instance.slot? at hslot
  split at hslot
  · exact h.slots id inst hinst x (Array.mem_of_getElem? hslot)
  · cases hslot

namespace Sapling

/-! ### Slots of one instance -/

/-- Declared variables get slots that memory has from then on. -/
theorem allocate_inRange {decls : List VarDecl} {m m' : Memory} {slots : List Slot}
    (h : allocate m decls = .ok (slots, m')) :
    (∀ k, m.size k ≤ m'.size k) ∧ ∀ x ∈ slots, x.InRange m' := by
  induction decls generalizing m slots with
  | nil =>
    cases h
    exact ⟨fun _ => Nat.le_refl _, fun x hx => absurd hx List.not_mem_nil⟩
  | cons decl decls ih =>
    simp only [allocate] at h
    split at h
    · cases h
    · rename_i m₁ hdefault
      split at h
      · rename_i rest m₂ hrest
        cases h
        obtain ⟨hle, hrange⟩ := ih hrest
        -- one slot more of the variable's kind, and setting its default changes no size
        have hsize : ∀ k, m₁.size k = m.size k + if k = decl.type.kind then 1 else 0 := by
          intro k
          rw [Memory.size_setDefault hdefault, Memory.size_allocate]
        refine ⟨fun k => ?_, fun x hx => ?_⟩
        · have := hle k
          rw [hsize k] at this
          omega
        · rcases List.mem_cons.mp hx with rfl | hx
          · have := hle decl.type.kind
            rw [hsize, if_pos rfl] at this
            exact this
          · exact hrange x hx
      · cases h

/-! ### Extending a sapling -/

/-- The invariant of a sapling. -/
abbrev InBounds (s : Sapling) : Prop := s.tree.InBounds s.memory

theorem inBounds_plant {s s' : Sapling} {p : Prototype} {parent child : Nat} {handle : Int}
    {name : Text} (hs : s.InBounds) (h : s.add p parent handle name = .ok (child, s')) :
    (s'.adopt parent child).InBounds := by
  obtain ⟨slots, memory, hslots, rfl, rfl⟩ := add_eq_ok h
  obtain ⟨hle, hrange⟩ := allocate_inRange hslots
  refine ⟨fun id inst hid x hx => ?_, fun l hl => (hs.links l hl).mono hle⟩
  obtain ⟨before, more, rfl, rfl | hbefore⟩ := eq_of_planted hid
  · exact hrange x (by simpa [newcomer] using hx)
  · exact (hs.slots id before hbefore x hx).mono hle

theorem inBounds_recordMissing {s : Sapling} (hs : s.InBounds) (name className : Text) :
    (s.recordMissing name className).InBounds :=
  ⟨hs.slots, hs.links⟩

theorem inBounds_attachPair {s : Sapling} (hs : s.InBounds) (owner : Text) (src dst : Nat)
    (srcName dstName : Text) : (attachPair owner src dst s srcName dstName).InBounds := by
  unfold attachPair
  split
  · exact inBounds_recordMissing hs _ _
  · exact inBounds_recordMissing hs _ _
  · rename_i a b ha hb
    split
    · rename_i hkind
      refine ⟨hs.slots, fun l hl => ?_⟩
      rcases List.mem_append.mp hl with hl | hl
      · exact hs.links l hl
      · obtain rfl := List.mem_singleton.mp hl
        exact ⟨hs.slot? ha, by rw [hkind]; exact hs.slot? hb⟩
    · exact inBounds_recordMissing hs _ _

theorem inBounds_attachLink {s : Sapling} (hs : s.InBounds) (id : Nat) (owner : Text)
    (l : LinkDecl) : (attachLink id owner s l).InBounds := by
  unfold attachLink
  split
  · exact hs
  · split
    · rename_i first second _ _
      refine List.foldlRecOn l.vars _ hs fun s hs pair _ => ?_
      dsimp only
      split
      · exact inBounds_attachPair hs _ _ _ _ _
      · exact inBounds_attachPair hs _ _ _ _ _
    · exact inBounds_recordMissing hs _ _

theorem inBounds_attachLinks {s : Sapling} (hs : s.InBounds) (id : Nat) (p : Prototype) :
    (s.attachLinks id p).InBounds :=
  List.foldlRecOn p.links _ hs fun _ hs l _ => inBounds_attachLink hs id p.name l

/-! ### Growing a sapling -/

theorem inBounds_seedling {p : Prototype} {s : Sapling} {slots : List Slot}
    (h : Seedling p s slots) : s.InBounds := by
  refine ⟨fun id inst hid x hx => ?_, fun l hl => ?_⟩
  · rw [instance?, h.instances] at hid
    obtain ⟨hlt, rfl⟩ := Array.getElem?_eq_some_iff.mp hid
    have hx : x ∈ slots.toArray := by simpa [newcomer] using hx
    exact (allocate_inRange h.slots).2 x (by simpa using hx)
  · rw [h.links] at hl
    cases hl

theorem inBounds_grow {classes : ClassTable} {strict : Bool} {depth id : Nat} {inst : Instance}
    {s s' : Sapling} (hid : s.tree.instance? id = some inst) (hs : s.InBounds)
    (h : grow classes strict depth id inst.proto s = .ok s') : s'.InBounds :=
  (grow_induct (P := InBounds) (fun hs _ hadd => inBounds_plant hs hadd)
    (fun name owner hs => inBounds_recordMissing hs name owner)
    (fun hs _ => inBounds_attachLinks hs _ _) hid hs h).1

end Sapling

/-! ### Seeding -/

/-- A relation of memory before and after that holds of a written value, of nothing at all and of
one thing after another. -/
structure WriteClosed (R : Memory → Memory → Prop) : Prop where
  refl : ∀ m, R m m
  trans : ∀ {m m' m''}, R m m' → R m' m'' → R m m''
  write : ∀ {m m' : Memory} {x v}, m.writeBoth x v = .ok m' → R m m'

theorem WriteClosed.seedValue {R : Memory → Memory → Prop} (hR : WriteClosed R) {inst : Instance}
    {m m' : Memory} {name text : Text} (h : seedValue inst m name text = .ok m') : R m m' := by
  unfold Tree.seedValue at h
  split at h
  · cases h
    exact hR.refl _
  · split at h
    · exact hR.write h
    · cases h
      exact hR.refl _

theorem WriteClosed.seedValues {R : Memory → Memory → Prop} (hR : WriteClosed R)
    {inst : Instance} {values : List (Text × Text)} {m m' : Memory}
    (h : values.foldlM (fun m (name, text) => Tree.seedValue inst m name text) m = .ok m') :
    R m m' := by
  induction values generalizing m with
  | nil =>
    cases h
    exact hR.refl _
  | cons pair values ih =>
    rw [List.foldlM_cons] at h
    cases hv : Tree.seedValue inst m pair.1 pair.2 with
    | error e => simp [hv, bind, Except.bind] at h
    | ok m₁ =>
      simp only [hv, bind, Except.bind] at h
      exact hR.trans (hR.seedValue hv) (ih h)

mutual

/-- **What holds of written values holds of a variable set that is applied.** -/
theorem WriteClosed.seed {R : Memory → Memory → Prop} (hR : WriteClosed R) (t : Tree) :
    ∀ {id : Nat} {m m' : Memory} (set : VarSet), t.seed id m set = .ok m' → R m m'
  | id, m, m', .mk className handle values children, h => by
    simp only [Tree.seed] at h
    split at h
    · cases h
      exact hR.refl _
    · split at h
      · split at h
        · rename_i m₁ hvalues
          exact hR.trans (hR.seedValues hvalues) (WriteClosed.seedChildren hR t children h)
        · cases h
      · cases h
        exact hR.refl _

theorem WriteClosed.seedChildren {R : Memory → Memory → Prop} (hR : WriteClosed R) (t : Tree) :
    ∀ {id : Nat} {m m' : Memory} (sets : List VarSet), t.seedChildren id m sets = .ok m' → R m m'
  | _, _, _, [], h => by
    cases h
    exact hR.refl _
  | id, m, m', set :: sets, h => by
    simp only [Tree.seedChildren] at h
    split at h
    · exact WriteClosed.seedChildren hR t sets h
    · split at h
      · rename_i c hc m₁ hseed
        exact hR.trans (WriteClosed.seed hR t set hseed) (WriteClosed.seedChildren hR t sets h)
      · cases h

end

/-- Writing assigns and does not allocate. -/
theorem writeClosed_size (k : Kind) : WriteClosed fun m m' => m'.size k = m.size k where
  refl _ := rfl
  trans h h' := h'.trans h
  write h := Memory.size_writeBoth h k

/-! ### Built trees -/

/-- Neither defaults nor seeds change how much memory there is. -/
theorem size_furnish {s : Sapling} {varSet : Option VarSet} {m : Memory}
    (h : s.furnish varSet = .ok m) (k : Kind) : m.size k = s.memory.size k := by
  cases varSet with
  | none =>
    cases h
    exact Memory.size_applyDefaults ..
  | some set => rw [(writeClosed_size k).seed _ _ h, Memory.size_applyDefaults]

/-- **All addresses of a built tree are in range of the memory built with it.** -/
theorem build_inBounds {classes : ClassTable} {root : Text} {strict : Bool}
    {varSet : Option VarSet} {t : Tree} {m : Memory}
    (h : build classes root strict varSet = .ok (t, m)) : t.InBounds m := by
  obtain ⟨p, seedling, slots, s, -, hseedling, hgrow, rfl, hm⟩ := build_eq_ok h
  have hs : s.InBounds :=
    Sapling.inBounds_grow hseedling.instance? (Sapling.inBounds_seedling hseedling) hgrow
  exact hs.mono fun k => Nat.le_of_eq (size_furnish hm k).symm

/-! ### Nothing goes wrong in memory -/

namespace Sapling

/-- The default of a variable is of the variable's kind, whatever its text is. -/
theorem kind_defaultOf (decl : VarDecl) : (defaultOf decl).kind = decl.type.kind := by
  unfold defaultOf
  dsimp only
  split
  · exact Value.kind_zero _
  · split
    · rename_i hparse
      exact Value.kind_of_parse hparse
    · exact Value.kind_zero _

/-- Slots for any variables can be allocated, and their defaults set. -/
theorem allocate_isOk (m : Memory) (decls : List VarDecl) : ∃ r, allocate m decls = .ok r := by
  induction decls generalizing m with
  | nil => exact ⟨_, rfl⟩
  | cons decl decls ih =>
    have hrange : Slot.InRange (m.allocate decl.type.kind 1).2
        ⟨decl.type.kind, (m.allocate decl.type.kind 1).1⟩ := by
      show m.size decl.type.kind < (m.allocate decl.type.kind 1).2.size decl.type.kind
      rw [Memory.size_allocate, if_pos rfl]
      exact Nat.lt_succ_self _
    obtain ⟨m₁, hdefault⟩ :=
      Memory.assign_isOk hrange (kind_defaultOf decl) "SetDefault" { dflt := true }
    obtain ⟨⟨slots, m₂⟩, hrest⟩ := ih m₁
    refine ⟨(⟨decl.type.kind, m.size decl.type.kind⟩ :: slots, m₂), ?_⟩
    simp only [allocate, Memory.setDefault, hdefault, hrest]
    rfl

theorem add_isOk (s : Sapling) (p : Prototype) (parent : Nat) (handle : Int) (name : Text) :
    ∃ r, s.add p parent handle name = .ok r := by
  obtain ⟨⟨slots, memory⟩, hslots⟩ := allocate_isOk s.memory p.vars
  simp only [add, hslots]
  exact ⟨_, rfl⟩

theorem sprout_ne_crash {classes : ClassTable} {strict : Bool} {cause : MemoryCrash}
    {grow : Nat → Prototype → Sapling → Except BuildError Sapling}
    (hgrow : ∀ id p s, grow id p s ≠ .error (.crash cause)) (id : Nat) (owner : Text)
    (decls : List ChildDecl) (s : Sapling) :
    sprout classes strict grow id owner decls s ≠ .error (.crash cause) := by
  induction decls generalizing s with
  | nil => simp [sprout]
  | cons decl decls ih =>
    simp only [sprout]
    split
    · split
      · simp
      · exact ih _
    · rename_i p _
      obtain ⟨⟨child, s₁⟩, hadd⟩ := add_isOk s p id decl.handle decl.name
      rw [hadd]
      dsimp only
      split
      · rename_i hgrown
        exact fun herror => hgrow _ _ _ (hgrown.trans herror)
      · exact ih _

theorem grow_ne_crash (classes : ClassTable) (strict : Bool) (cause : MemoryCrash)
    (depth id : Nat) (p : Prototype) (s : Sapling) :
    grow classes strict depth id p s ≠ .error (.crash cause) := by
  induction depth generalizing id p s with
  | zero => simp [grow]
  | succ depth ih =>
    simp only [grow]
    split
    · rename_i hsprout
      exact fun herror => sprout_ne_crash ih _ _ _ _ (hsprout.trans herror)
    · simp

end Sapling

theorem seedValue_isOk {t : Tree} {id : Nat} {inst : Instance} {m : Memory} (h : t.InBounds m)
    (hid : t.instance? id = some inst) (name text : Text) :
    ∃ m', seedValue inst m name text = .ok m' := by
  unfold seedValue
  split
  · exact ⟨m, rfl⟩
  · rename_i x hx
    split
    · rename_i v hparse
      have hslot : t.slot? id name = some x := by
        rw [Tree.slot?, hid]
        exact hx
      exact Memory.assign_isOk (h.slot? hslot) (Value.kind_of_parse hparse) ..
    · exact ⟨m, rfl⟩

theorem seedValues_isOk {t : Tree} {id : Nat} {inst : Instance} {m : Memory} (h : t.InBounds m)
    (hid : t.instance? id = some inst) (values : List (Text × Text)) :
    ∃ m', values.foldlM (fun m (name, text) => seedValue inst m name text) m = .ok m' := by
  induction values generalizing m with
  | nil => exact ⟨m, rfl⟩
  | cons pair values ih =>
    obtain ⟨m₁, hvalue⟩ := seedValue_isOk h hid pair.1 pair.2
    obtain ⟨m', hrest⟩ := ih <|
      h.mono fun k => Nat.le_of_eq ((writeClosed_size k).seedValue hvalue).symm
    refine ⟨m', ?_⟩
    rw [List.foldlM_cons]
    simp only [hvalue, bind, Except.bind]
    exact hrest

mutual

/-- Any variable set can be applied. -/
theorem seed_isOk {t : Tree} :
    ∀ (id : Nat) {m : Memory} (set : VarSet), t.InBounds m → ∃ m', t.seed id m set = .ok m'
  | id, m, .mk className handle values children, h => by
    simp only [seed]
    split
    · exact ⟨m, rfl⟩
    · rename_i inst hid
      split
      · obtain ⟨m₁, hvalues⟩ := seedValues_isOk h hid values
        rw [hvalues]
        exact seedChildren_isOk id children
          (h.mono fun k => Nat.le_of_eq ((writeClosed_size k).seedValues hvalues).symm)
      · exact ⟨m, rfl⟩

theorem seedChildren_isOk {t : Tree} :
    ∀ (id : Nat) {m : Memory} (sets : List VarSet), t.InBounds m →
      ∃ m', t.seedChildren id m sets = .ok m'
  | _, m, [], _ => ⟨m, by simp only [seedChildren]⟩
  | id, m, set :: sets, h => by
    simp only [seedChildren]
    split
    · exact seedChildren_isOk id sets h
    · rename_i c _
      obtain ⟨m₁, hseed⟩ := seed_isOk c set h
      rw [hseed]
      exact seedChildren_isOk id sets
        (h.mono fun k => Nat.le_of_eq ((writeClosed_size k).seed t set hseed).symm)

end

/-- **No access to memory goes wrong while a tree is built**, whatever its variables, their
defaults and the variable set are. -/
theorem build_ne_crash (classes : ClassTable) (root : Text) (strict : Bool)
    (varSet : Option VarSet) (cause : MemoryCrash) :
    build classes root strict varSet ≠ .error (.crash cause) := by
  unfold build
  split
  · simp
  · rename_i p hp
    obtain ⟨⟨id, seedling⟩, hadd⟩ := Sapling.add_isOk {} p 0 0 []
    rw [hadd]
    dsimp only
    split
    · rename_i e hgrow
      rintro herror
      cases herror
      exact Sapling.grow_ne_crash _ _ _ _ _ _ _ hgrow
    · rename_i s hgrow
      obtain ⟨rfl, slots, hseedling⟩ := seedling_of_add hadd
      have hbounds : s.InBounds :=
        Sapling.inBounds_grow hseedling.instance? (Sapling.inBounds_seedling hseedling) hgrow
      split
      · simp
      · rename_i set
        obtain ⟨m, hseed⟩ := seed_isOk Tree.root set (hbounds.mono fun k =>
          Nat.le_of_eq (Memory.size_applyDefaults s.memory k).symm)
        rw [hseed]
        simp

end Tree

end SchemePlayer
