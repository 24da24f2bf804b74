import SchemePlayer.Proofs.Memory.Size

/-!
# Memory restored

Defaults are set while a tree is built and never again: whatever is written, copied or committed
afterwards leaves them (`SameDefaults`). Applying a variable set writes committed and working
values together, slot by slot, so a memory comes nearer to another one with every value that is
taken from it:

- `cell?_assign`: what an assignment does to every cell.
- `ext_cell?`: memories with the same cells are the same.
- `SameDefaults`: two memories have the same slots with the same defaults.
- `Memory.restored`: the memory whose variables have what was committed, and nothing else.
- `Nears`: some slots have been restored and the others are as they were.
- `Restores`: which ones have been, at least.
-/

namespace SchemePlayer

/-- The committed value becomes the working one. -/
def Cell.restore {α : Type} (c : Cell α) : Cell α := { c with new := c.old }

namespace Bank

variable {α : Type}

theorem getElem?_modify {b b' : Bank α} {i : Nat} {f : Cell α → Cell α}
    (h : b.modify i f = .ok b') (j : Nat) : b'[j]? = if j = i then b[j]?.map f else b[j]? := by
  unfold modify at h
  split at h
  · rename_i hi
    cases h
    by_cases hij : j = i
    · subst hij
      rw [if_pos rfl, Array.getElem?_set_self hi, Array.getElem?_eq_getElem hi]
      rfl
    · rw [if_neg hij, Array.getElem?_set_ne hi (Ne.symm hij)]
  · cases h

/-- Copying a working value leaves the defaults. -/
theorem dflt_forward [BEq α] {b b' : Bank α} {src dst : Nat} {changed : Bool}
    (h : b.forward src dst = .ok (b', changed)) (j : Nat) :
    b'[j]?.map Cell.dflt = b[j]?.map Cell.dflt := by
  unfold forward at h
  split at h
  · rename_i hdst
    split at h
    · split at h
      · cases h
        rfl
      · cases h
        by_cases hj : dst = j
        · subst hj
          rw [Array.getElem?_set_self hdst, Array.getElem?_eq_getElem hdst]
          rfl
        · rw [Array.getElem?_set_ne hdst hj]
    · cases h
  · cases h

end Bank

namespace Memory

/-! ### Cells -/

/-- An assignment in one bank, seen through values. -/
theorem map_modify {α : Type} {b b' : Bank α} {i : Nat} {t : Target} {x : α} (f : α → Value)
    (h : b.modify i (t.apply x) = .ok b') (j : Nat) :
    b'[j]?.map (Cell.map f) =
      if j = i then (b[j]?.map (Cell.map f)).map (t.apply (f x)) else b[j]?.map (Cell.map f) := by
  rw [Bank.getElem?_modify h]
  split
  · rw [Option.map_map, Option.map_map]
    congr 1
    funext c
    simp only [Function.comp_apply, Cell.map, Target.apply, apply_ite f]
  · rfl

/-- **An assignment changes the cell of its slot and no other.** -/
theorem cell?_assign {operation : String} {t : Target} {m m' : Memory} {s : Slot} {v : Value}
    (h : assign operation t m s v = .ok m') (y : Slot) :
    m'.cell? y = if y = s then (m.cell? y).map (t.apply v) else m.cell? y := by
  obtain ⟨kind, index⟩ := s
  obtain ⟨kind', index'⟩ := y
  simp only [Slot.mk.injEq]
  unfold assign at h
  split at h
  · rename_i hkind
    obtain rfl : kind = .float := hkind
    obtain ⟨b, hb, rfl⟩ := eq_ok_of_map h
    cases kind' <;> simp only [reduceCtorEq, false_and, true_and, if_false] <;>
      first | rfl | exact map_modify .float hb index'
  · rename_i hkind
    obtain rfl : kind = .handle := hkind
    obtain ⟨b, hb, rfl⟩ := eq_ok_of_map h
    cases kind' <;> simp only [reduceCtorEq, false_and, true_and, if_false] <;>
      first | rfl | exact map_modify .handle hb index'
  · rename_i hkind
    obtain rfl : kind = .string := hkind
    obtain ⟨b, hb, rfl⟩ := eq_ok_of_map h
    cases kind' <;> simp only [reduceCtorEq, false_and, true_and, if_false] <;>
      first | rfl | exact map_modify .string hb index'
  · cases h

theorem cell?_applyDefaults (m : Memory) (s : Slot) :
    m.applyDefaults.cell? s = (m.cell? s).map Cell.reset := by
  unfold cell? applyDefaults
  cases s.kind <;> simp only [Array.getElem?_map, Option.map_map] <;> rfl

theorem map_injective {α β : Type} {f : α → β} (hf : ∀ a b, f a = f b → a = b) {c d : Cell α}
    (h : Cell.map f c = Cell.map f d) : c = d := by
  obtain ⟨old, new, dflt⟩ := c
  obtain ⟨old', new', dflt'⟩ := d
  simp only [Cell.map, Cell.mk.injEq] at h ⊢
  exact ⟨hf _ _ h.1, hf _ _ h.2.1, hf _ _ h.2.2⟩

/-- Banks with the same values are the same. -/
theorem bank_ext {α : Type} {b b' : Bank α} {f : α → Value} (hf : ∀ x y, f x = f y → x = y)
    (h : ∀ i : Nat, b[i]?.map (Cell.map f) = b'[i]?.map (Cell.map f)) : b = b' := by
  refine Array.ext_getElem? fun i => ?_
  exact Option.map_injective (fun _ _ => map_injective hf) (h i)

/-- **Memories with the same cells are the same.** -/
theorem ext_cell? {m m' : Memory} (h : ∀ s, m.cell? s = m'.cell? s) : m = m' := by
  obtain ⟨floats, handles, strings⟩ := m
  obtain ⟨floats', handles', strings'⟩ := m'
  have hfloats : floats = floats' :=
    bank_ext (fun _ _ => Value.float.inj) fun i => h ⟨.float, i⟩
  have hhandles : handles = handles' :=
    bank_ext (fun _ _ => Value.handle.inj) fun i => h ⟨.handle, i⟩
  have hstrings : strings = strings' :=
    bank_ext (fun _ _ => Value.string.inj) fun i => h ⟨.string, i⟩
  rw [hfloats, hhandles, hstrings]

/-- What is in a cell is of the kind of its slot. -/
theorem kind_of_cell? {m : Memory} {s : Slot} {c : Cell Value} (h : m.cell? s = some c) :
    c.old.kind = s.kind := by
  obtain ⟨kind, index⟩ := s
  cases kind <;> obtain ⟨c', -, rfl⟩ := Option.map_eq_some_iff.mp h <;> rfl

/-- A slot with a cell is in range. -/
theorem inRange_of_isSome {m : Memory} {s : Slot} (h : (m.cell? s).isSome = true) :
    s.InRange m := by
  obtain ⟨kind, index⟩ := s
  cases kind <;> simpa [cell?, Slot.InRange, size] using h

/-! ### Defaults -/

/-- Two memories have the same slots, with the same defaults. -/
def SameDefaults (m m' : Memory) : Prop := ∀ s, m'.readDefault? s = m.readDefault? s

theorem SameDefaults.refl (m : Memory) : m.SameDefaults m := fun _ => rfl

theorem SameDefaults.symm {m m' : Memory} (h : m.SameDefaults m') : m'.SameDefaults m :=
  fun s => (h s).symm

theorem SameDefaults.trans {m m' m'' : Memory} (h : m.SameDefaults m') (h' : m'.SameDefaults m'') :
    m.SameDefaults m'' := fun s => (h' s).trans (h s)

/-- Assigning to anything but the default leaves it. -/
theorem sameDefaults_assign {operation : String} {t : Target} {m m' : Memory} {s : Slot} {v : Value}
    (ht : t.dflt = false) (h : assign operation t m s v = .ok m') : m.SameDefaults m' := by
  intro y
  unfold readDefault?
  rw [cell?_assign h]
  split
  · rw [Option.map_map]
    congr 1
    funext c
    simp only [Function.comp_apply, Target.apply, ht, Bool.false_eq_true, if_false]
  · rfl

theorem sameDefaults_write {m m' : Memory} {s : Slot} {v : Value} (h : m.write s v = .ok m') :
    m.SameDefaults m' := sameDefaults_assign rfl h

theorem sameDefaults_writeBoth {m m' : Memory} {s : Slot} {v : Value}
    (h : m.writeBoth s v = .ok m') : m.SameDefaults m' := sameDefaults_assign rfl h

theorem sameDefaults_commit (m : Memory) : m.SameDefaults m.commit := by
  intro s
  unfold readDefault? cell? commit
  cases s.kind <;> simp only [Array.getElem?_map, Option.map_map] <;> rfl

theorem sameDefaults_applyDefaults (m : Memory) : m.SameDefaults m.applyDefaults := by
  intro s
  rw [readDefault?, cell?_applyDefaults, Option.map_map]
  rfl

theorem readDefault?_eq (m : Memory) (s : Slot) :
    m.readDefault? s =
      match s.kind with
      | .float => (m.floats[s.index]?.map Cell.dflt).map .float
      | .handle => (m.handles[s.index]?.map Cell.dflt).map .handle
      | .string => (m.strings[s.index]?.map Cell.dflt).map .string := by
  unfold readDefault? cell?
  cases s.kind <;> simp only [Option.map_map] <;> rfl

theorem sameDefaults_forward {m m' : Memory} {kind : Kind} {src dst : Nat} {changed : Bool}
    (h : m.forward kind src dst = .ok (m', changed)) : m.SameDefaults m' := by
  intro s
  rw [readDefault?_eq, readDefault?_eq]
  cases kind with
  | float =>
    obtain ⟨⟨b, c⟩, hb, heq⟩ := eq_ok_of_map h
    cases heq
    simp only [Bank.dflt_forward hb]
  | handle =>
    obtain ⟨⟨b, c⟩, hb, heq⟩ := eq_ok_of_map h
    cases heq
    simp only [Bank.dflt_forward hb]
  | string =>
    obtain ⟨⟨b, c⟩, hb, heq⟩ := eq_ok_of_map h
    cases heq
    simp only [Bank.dflt_forward hb]

theorem sameDefaults_propagate {links : List Link} {m m' : Memory}
    (h : Tree.propagate links m = .ok m') : m.SameDefaults m' := by
  induction links generalizing m with
  | nil =>
    cases h
    exact .refl _
  | cons l links ih =>
    rw [Tree.propagate, List.foldlM_cons] at h
    cases hl : (m.forward l.kind l.src l.dst).map (·.1) with
    | error e => simp [hl, bind, Except.bind] at h
    | ok m₁ =>
      obtain ⟨⟨m₂, changed⟩, hforward, rfl⟩ := eq_ok_of_map hl
      simp only [hl, bind, Except.bind] at h
      exact (sameDefaults_forward hforward).trans (ih h)

/-- The same slots are in range. -/
theorem SameDefaults.isSome {m m' : Memory} (h : m.SameDefaults m') (s : Slot) :
    (m'.cell? s).isSome = (m.cell? s).isSome := by
  have hs := congrArg Option.isSome (h s)
  rwa [readDefault?, readDefault?, Option.isSome_map, Option.isSome_map] at hs

/-! ### Restoring -/

/-- The memory in which every variable has the value that was committed. -/
def restored (m : Memory) : Memory :=
  ⟨m.floats.map Cell.restore, m.handles.map Cell.restore, m.strings.map Cell.restore⟩

theorem cell?_restored (m : Memory) (s : Slot) :
    m.restored.cell? s = (m.cell? s).map Cell.restore := by
  unfold cell? restored
  cases s.kind <;> simp only [Array.getElem?_map, Option.map_map] <;> rfl

/-- A slot of `m` has what is committed in `source`, and the same default. -/
def Restored (source m : Memory) (s : Slot) : Prop := m.cell? s = source.restored.cell? s

/-- Some slots are restored, and the others are as they were. -/
def Nears (source m m' : Memory) : Prop := ∀ s, m'.cell? s = m.cell? s ∨ Restored source m' s

theorem Nears.refl (source m : Memory) : Nears source m m := fun _ => .inl rfl

theorem Nears.restored {source m m' : Memory} (h : Nears source m m') {s : Slot}
    (hs : Restored source m s) : Restored source m' s :=
  (h s).elim (fun heq => heq.trans hs) id

theorem Nears.trans {source m m' m'' : Memory} (h : Nears source m m') (h' : Nears source m' m'') :
    Nears source m m'' := fun s =>
  (h' s).elim (fun heq => (h s).imp heq.trans fun hs => heq.trans hs) .inr

/-- **Writing what is committed elsewhere restores the slot.** -/
theorem nears_writeBoth {source m m' : Memory} {s : Slot} {v : Value}
    (hdefaults : source.SameDefaults m) (hv : source.readOld? s = some v)
    (h : m.writeBoth s v = .ok m') : Nears source m m' ∧ Restored source m' s := by
  have hcell := cell?_assign h
  have hrestored : Restored source m' s := by
    obtain ⟨c, hc, rfl⟩ := Option.map_eq_some_iff.mp hv
    have hdflt := hdefaults s
    rw [readDefault?, readDefault?, hc] at hdflt
    obtain ⟨d, hd, hdc⟩ := Option.map_eq_some_iff.mp hdflt
    rw [Restored, cell?_restored, hcell, if_pos rfl, hc, hd]
    have hsame : d.dflt = c.dflt := hdc
    simp [Target.apply, Cell.restore, hsame]
  refine ⟨fun y => ?_, hrestored⟩
  by_cases hy : y = s
  · subst hy
    exact .inr hrestored
  · exact .inl (by rw [hcell, if_neg hy])

/-- From `m` to `m'` the slots `xs` are restored: others may be too, the rest is as it was. -/
structure Restores (source m m' : Memory) (xs : List Slot) : Prop where
  nears : Nears source m m'
  defaults : source.SameDefaults m'
  slots : ∀ x ∈ xs, Restored source m' x

theorem Restores.refl {source m : Memory} (h : source.SameDefaults m) : source.Restores m m [] :=
  ⟨.refl _ _, h, fun _ hx => absurd hx List.not_mem_nil⟩

/-- What is restored stays so while other slots are. -/
theorem Restores.trans {source m m' m'' : Memory} {xs ys : List Slot}
    (h : source.Restores m m' xs) (h' : source.Restores m' m'' ys) :
    source.Restores m m'' (xs ++ ys) := by
  refine ⟨h.nears.trans h'.nears, h'.defaults, fun x hx => ?_⟩
  rcases List.mem_append.mp hx with hx | hx
  · exact h'.nears.restored (h.slots x hx)
  · exact h'.slots x hx

theorem Restores.mono {source m m' : Memory} {xs ys : List Slot} (h : source.Restores m m' xs)
    (hsub : ∀ x ∈ ys, x ∈ xs) : source.Restores m m' ys :=
  { h with slots := fun x hx => h.slots x (hsub x hx) }

/-- **What is committed elsewhere can be written, and restores its slot.** -/
theorem restores_writeBoth {source m : Memory} {s : Slot} {v : Value}
    (hdefaults : source.SameDefaults m) (hv : source.readOld? s = some v) :
    ∃ m', m.writeBoth s v = .ok m' ∧ source.Restores m m' [s] := by
  obtain ⟨c, hc, rfl⟩ := Option.map_eq_some_iff.mp hv
  have hrange : s.InRange m := inRange_of_isSome (by rw [hdefaults.isSome, hc]; rfl)
  obtain ⟨m', hm'⟩ := assign_isOk hrange (kind_of_cell? hc) "Write" { old := true, new := true }
  obtain ⟨hnears, hrestored⟩ := nears_writeBoth hdefaults hv hm'
  refine ⟨m', hm', hnears, hdefaults.trans (sameDefaults_writeBoth hm'), fun x hx => ?_⟩
  obtain rfl := List.mem_singleton.mp hx
  exact hrestored

end Memory

end SchemePlayer
