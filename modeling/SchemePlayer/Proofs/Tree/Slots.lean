import Mathlib.Data.List.Forall2
import Mathlib.Data.List.Nodup
import SchemePlayer.Proofs.Tree.Bounds

/-!
# The slots of a tree

Every declared variable of every instance gets a slot of its own, and nothing else does: the
slots of a built tree are a partition of memory. Slots are handed out in the order in which
instances are planted, so the indices of one kind, read off instance after instance, simply
count up:

- `indices`: the indices of the slots of one kind.
- `Furnished`: each instance has one slot for each variable, of the variable's kind.
- `Sapling.Tiled`: the invariant of a sapling; `tiled_grow` carries it through the growth.
- `existsUnique_owner`: a slot that memory has belongs to one variable of one instance.
-/

namespace SchemePlayer

/-- The indices of the slots of one kind, in order. -/
def indices (k : Kind) (slots : List Slot) : List Nat :=
  (slots.filter fun x => x.kind = k).map Slot.index

@[simp] theorem indices_append (k : Kind) (xs ys : List Slot) :
    indices k (xs ++ ys) = indices k xs ++ indices k ys := by
  simp only [indices, List.filter_append, List.map_append]

theorem mem_indices {x : Slot} {slots : List Slot} :
    x.index ∈ indices x.kind slots ↔ x ∈ slots := by
  simp only [indices, List.mem_map, List.mem_filter, decide_eq_true_eq]
  constructor
  · rintro ⟨⟨k, i⟩, ⟨hmem, rfl⟩, rfl⟩
    exact hmem
  · intro hmem
    exact ⟨x, ⟨hmem, rfl⟩, rfl⟩

/-- Slots are distinct if the indices of each kind are. -/
theorem nodup_of_indices {slots : List Slot} (h : ∀ k, (indices k slots).Nodup) : slots.Nodup := by
  rw [List.nodup_iff_count_le_one]
  intro x
  have hkind := List.nodup_iff_count_le_one.mp (List.Nodup.of_map Slot.index (h x.kind)) x
  rwa [List.count_filter (by simp)] at hkind

/-- An instance has one slot for each variable that its class declares, of the kind of the
variable's type; and what disables it is one of the slots that hold numbers. -/
structure Instance.Furnished (inst : Instance) : Prop where
  kinds : inst.slots.toList.map Slot.kind = inst.proto.vars.map fun decl => decl.type.kind
  disable : ∀ x, inst.disable = some x → x ∈ inst.slots ∧ x.kind = .float

namespace Tree

/-- The slots of all instances, one after another. -/
def slots (t : Tree) : List Slot :=
  (t.instances.toList.map Instance.slots).flatMap Array.toList

/-- The slot of a variable, by the number of its instance and its place among the variables. -/
def slotAt? (t : Tree) (owner : Nat × Nat) : Option Slot :=
  (t.instance? owner.1).bind fun inst => inst.slots[owner.2]?

/-- Slots depend only on what each instance has. -/
theorem slots_congr {t t' : Tree}
    (h : ∀ id, (t'.instance? id).map Instance.slots = (t.instance? id).map Instance.slots) :
    t'.slots = t.slots := by
  have hlist : t'.instances.toList.map Instance.slots = t.instances.toList.map Instance.slots := by
    refine List.ext_getElem? fun id => ?_
    simp only [List.getElem?_map, Array.getElem?_toList]
    exact h id
  rw [slots, hlist, slots]

theorem mem_slots {t : Tree} {x : Slot} : x ∈ t.slots ↔ ∃ owner, t.slotAt? owner = some x := by
  simp only [slots, List.mem_flatMap, List.mem_map, slotAt?, Option.bind_eq_some_iff, Prod.exists]
  constructor
  · rintro ⟨_, ⟨inst, hinst, rfl⟩, hx⟩
    obtain ⟨id, hid⟩ := List.getElem?_of_mem hinst
    obtain ⟨v, hv⟩ := List.getElem?_of_mem hx
    rw [Array.getElem?_toList] at hid hv
    exact ⟨id, v, inst, hid, hv⟩
  · rintro ⟨id, v, inst, hid, hv⟩
    refine ⟨inst.slots, ⟨inst, ?_, rfl⟩, ?_⟩
    · exact Array.mem_toList_iff.mpr (Array.mem_of_getElem? hid)
    · exact Array.mem_toList_iff.mpr (Array.mem_of_getElem? hv)

/-- Distinct slots have one owner each. -/
theorem owner_unique {t : Tree} (hnodup : t.slots.Nodup) {x : Slot} {a b : Nat × Nat}
    (ha : t.slotAt? a = some x) (hb : t.slotAt? b = some x) : a = b := by
  obtain ⟨id, v⟩ := a
  obtain ⟨id', v'⟩ := b
  obtain ⟨inst, hid, hv⟩ := Option.bind_eq_some_iff.mp ha
  obtain ⟨inst', hid', hv'⟩ := Option.bind_eq_some_iff.mp hb
  dsimp only at hid hv hid' hv'
  obtain ⟨hown, hdisjoint⟩ := List.nodup_flatMap.mp hnodup
  have hslots : ∀ {j : Nat} {i : Instance}, t.instance? j = some i →
      (t.instances.toList.map Instance.slots)[j]? = some i.slots := by
    intro j i hj
    rw [List.getElem?_map, Array.getElem?_toList]
    exact congrArg (Option.map Instance.slots) hj
  -- 1. two instances that share a slot are one
  have hshared : ∀ {j j' : Nat} {i i' : Instance}, t.instance? j = some i →
      t.instance? j' = some i' → x ∈ i.slots.toList → x ∈ i'.slots.toList → ¬j < j' := by
    intro j j' i i' hj hj' hx hx' hlt
    obtain ⟨hjlt, hjeq⟩ := List.getElem?_eq_some_iff.mp (hslots hj)
    obtain ⟨hjlt', hjeq'⟩ := List.getElem?_eq_some_iff.mp (hslots hj')
    have hdis : List.Disjoint (t.instances.toList.map Instance.slots)[j].toList
        (t.instances.toList.map Instance.slots)[j'].toList :=
      List.pairwise_iff_getElem.mp hdisjoint j j' hjlt hjlt' hlt
    rw [hjeq, hjeq'] at hdis
    exact hdis hx hx'
  have hx : x ∈ inst.slots.toList := Array.mem_toList_iff.mpr (Array.mem_of_getElem? hv)
  have hx' : x ∈ inst'.slots.toList := Array.mem_toList_iff.mpr (Array.mem_of_getElem? hv')
  have hsame : id = id' := by
    have hle := hshared hid hid' hx hx'
    have hge := hshared hid' hid hx' hx
    omega
  -- 2. within an instance no two variables share a slot
  subst hsame
  rw [hid] at hid'
  cases hid'
  have hnodup' := hown inst.slots (List.mem_of_getElem? (hslots hid))
  rw [← Array.getElem?_toList] at hv hv'
  obtain ⟨hlt, hv⟩ := List.getElem?_eq_some_iff.mp hv
  obtain ⟨hlt', hv'⟩ := List.getElem?_eq_some_iff.mp hv'
  rw [(List.Nodup.getElem_inj_iff hnodup').mp (hv.trans hv'.symm)]

/-- **A slot that memory has belongs to one variable of one instance**, when the indices of
each kind count up to the size of memory. -/
theorem existsUnique_owner {t : Tree} {m : Memory}
    (htiled : ∀ k, indices k t.slots = List.range (m.size k)) {x : Slot} (hx : x.InRange m) :
    ∃! owner, t.slotAt? owner = some x := by
  have hmem : x ∈ t.slots := by
    rw [← mem_indices, htiled]
    exact List.mem_range.mpr hx
  have hnodup : t.slots.Nodup := nodup_of_indices fun k => by
    rw [htiled]
    exact List.nodup_range
  obtain ⟨owner, howner⟩ := mem_slots.mp hmem
  exact ⟨owner, howner, fun other hother => owner_unique hnodup hother howner⟩

namespace Sapling

/-! ### Allocating -/

/-- **Declared variables get the next slots of their kinds, in order.** -/
theorem allocate_indices {decls : List VarDecl} {m m' : Memory} {slots : List Slot}
    (h : allocate m decls = .ok (slots, m')) :
    slots.map Slot.kind = decls.map (fun decl => decl.type.kind) ∧
      ∀ k, List.range (m.size k) ++ indices k slots = List.range (m'.size k) := by
  induction decls generalizing m slots with
  | nil =>
    cases h
    exact ⟨rfl, fun k => List.append_nil _⟩
  | cons decl decls ih =>
    simp only [allocate] at h
    split at h
    · cases h
    · rename_i m₁ hdefault
      split at h
      · rename_i rest m₂ hrest
        cases h
        obtain ⟨hkinds, hindices⟩ := ih hrest
        refine ⟨by rw [List.map_cons, List.map_cons, hkinds], fun k => ?_⟩
        rw [← hindices k, Memory.size_setDefault hdefault, Memory.size_allocate]
        by_cases hk : k = decl.type.kind
        · subst hk
          rw [if_pos rfl, List.range_succ, List.append_assoc]
          simp [indices, Memory.allocate]
        · rw [if_neg hk, Nat.add_zero]
          simp [indices, Ne.symm hk]
      · cases h

/-- What disables an instance is one of its slots. -/
theorem disableSlot_mem {vars : List VarDecl} {slots : List Slot} {x : Slot}
    (h : disableSlot vars slots = some x) : x ∈ slots ∧ x.kind = .float := by
  obtain ⟨⟨decl, y⟩, hlast, rfl⟩ := Option.map_eq_some_iff.mp h
  obtain ⟨hzip, htest⟩ := List.mem_filter.mp (List.mem_of_getLast? hlast)
  refine ⟨(List.of_mem_zip hzip).2, ?_⟩
  simp only [Bool.and_eq_true, decide_eq_true_eq] at htest
  exact htest.1

theorem furnished_newcomer {m m' : Memory} {p : Prototype} {slots : List Slot}
    (h : allocate m p.vars = .ok (slots, m')) (id parent : Nat) (handle : Int) (name : Text) :
    (newcomer id p parent handle name slots).Furnished where
  kinds := (allocate_indices h).1
  disable x hx := by
    obtain ⟨hmem, hkind⟩ := disableSlot_mem hx
    exact ⟨by simpa [newcomer] using hmem, hkind⟩

/-! ### Growing -/

/-- The slots of the instances so far are all of memory, in order. -/
structure Tiled (s : Sapling) : Prop where
  indices : ∀ k, indices k s.tree.slots = List.range (s.memory.size k)
  furnished : ∀ id inst, s.tree.instance? id = some inst → inst.Furnished

theorem tiled_plant {s s' : Sapling} {p : Prototype} {parent child : Nat} {handle : Int}
    {name : Text} (hs : s.Tiled) (h : s.add p parent handle name = .ok (child, s')) :
    (s'.adopt parent child).Tiled := by
  obtain ⟨slots, memory, hslots, rfl, rfl⟩ := add_eq_ok h
  -- becoming a parent changes neither an instance's slots nor what disables it
  have hadopted : ∀ (s : Sapling) (child id : Nat), ((s.adopt parent child).tree.instance? id).map
      Instance.slots = (s.tree.instance? id).map Instance.slots := by
    intro s child id
    rw [instance?_adopt]
    split
    · rw [Option.map_map]
      rfl
    · rfl
  refine ⟨fun k => ?_, fun id inst hid => ?_⟩
  · rw [slots_congr (hadopted _ _)]
    simp only [Tree.slots, Array.toList_push, List.map_append, List.flatMap_append, indices_append]
    have hnew : SchemePlayer.indices k (List.flatMap Array.toList (List.map Instance.slots
        [newcomer s.tree.instances.size p parent handle name slots])) =
        SchemePlayer.indices k slots := by
      simp [newcomer]
    have hold := hs.indices k
    rw [Tree.slots] at hold
    rw [hnew, hold]
    exact (allocate_indices hslots).2 k
  · obtain ⟨before, more, rfl, rfl | hbefore⟩ := eq_of_planted hid
    · obtain ⟨hkinds, hdisable⟩ :=
        furnished_newcomer hslots s.tree.instances.size parent handle name
      exact ⟨hkinds, hdisable⟩
    · obtain ⟨hkinds, hdisable⟩ := hs.furnished id before hbefore
      exact ⟨hkinds, hdisable⟩

theorem tiled_attachLinks {s : Sapling} (hs : s.Tiled) (id : Nat) (p : Prototype) :
    (s.attachLinks id p).Tiled := by
  refine ⟨fun k => ?_, fun j inst hj => ?_⟩
  · rw [memory_attachLinks, Tree.slots, instances_attachLinks]
    exact hs.indices k
  · rw [instance?, instances_attachLinks] at hj
    exact hs.furnished j inst hj

theorem tiled_seedling {p : Prototype} {s : Sapling} {slots : List Slot} (h : Seedling p s slots) :
    s.Tiled := by
  refine ⟨fun k => ?_, fun id inst hid => ?_⟩
  · have hroot : s.tree.slots = slots := by
      rw [Tree.slots, h.instances]
      simp [newcomer]
    rw [hroot, ← (allocate_indices h.slots).2 k]
    cases k <;> rfl
  · rw [instance?, h.instances] at hid
    obtain ⟨hlt, rfl⟩ := Array.getElem?_eq_some_iff.mp hid
    have hzero : id = 0 := Nat.lt_one_iff.mp hlt
    subst hzero
    exact furnished_newcomer h.slots ..

/-- **Everything that grows has the slots of memory, each once.** -/
theorem tiled_grow {classes : ClassTable} {strict : Bool} {depth id : Nat} {inst : Instance}
    {s s' : Sapling} (hid : s.tree.instance? id = some inst) (hs : s.Tiled)
    (h : grow classes strict depth id inst.proto s = .ok s') : s'.Tiled :=
  (grow_induct (P := Tiled) (fun hs _ hadd => tiled_plant hs hadd)
    (fun _ _ hs => ⟨hs.indices, hs.furnished⟩) (fun hs _ => tiled_attachLinks hs _ _) hid hs h).1

end Sapling

end Tree

end SchemePlayer
