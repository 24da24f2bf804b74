import SchemePlayer.Tree.Basic

/-!
# The size of memory

Slots are only ever added, and only while a tree is built. Everything else that touches
memory changes what is in it and never how much there is (`size_assign`, `size_forward`,
`size_commit`, …), so a slot or a link that is in range once is in range for ever:

- `Slot.InRange`, `Link.InRange`: an address that memory has.
- `cell?_isSome`, `assign_isOk`: a slot in range can be read, and set to a value of its kind.
- `forward_isOk`, `propagate_isOk`: copying along links in range cannot fail.
-/

namespace SchemePlayer

/-- A slot that memory has. -/
def Slot.InRange (m : Memory) (s : Slot) : Prop := s.index < m.size s.kind

/-- A link whose two ends memory has. -/
def Link.InRange (m : Memory) (l : Link) : Prop := l.src < m.size l.kind ∧ l.dst < m.size l.kind

/-- What is computed from a success came from one. -/
theorem eq_ok_of_map {ε α β : Type} {x : Except ε α} {f : α → β} {b : β}
    (h : x.map f = .ok b) : ∃ a, x = .ok a ∧ f a = b := by
  cases x with
  | error _ => cases h
  | ok a =>
    cases h
    exact ⟨a, rfl, rfl⟩

namespace Bank

variable {α : Type}

theorem size_modify {b b' : Bank α} {i : Nat} {f : Cell α → Cell α}
    (h : b.modify i f = .ok b') : b'.size = b.size := by
  unfold modify at h
  split at h
  · cases h
    exact Array.size_set ..
  · cases h

theorem modify_isOk {b : Bank α} {i : Nat} (hi : i < b.size) (f : Cell α → Cell α) :
    ∃ b', b.modify i f = .ok b' := by
  unfold modify
  rw [dif_pos hi]
  exact ⟨_, rfl⟩

theorem size_forward [BEq α] {b b' : Bank α} {src dst : Nat} {changed : Bool}
    (h : b.forward src dst = .ok (b', changed)) : b'.size = b.size := by
  unfold forward at h
  split at h
  · split at h
    · split at h <;> cases h
      · rfl
      · exact Array.size_set ..
    · cases h
  · cases h

theorem forward_isOk [BEq α] {b : Bank α} {src dst : Nat} (hsrc : src < b.size)
    (hdst : dst < b.size) : ∃ b' changed, b.forward src dst = .ok (b', changed) := by
  unfold forward
  rw [dif_pos hdst, dif_pos hsrc]
  split
  · exact ⟨_, _, rfl⟩
  · exact ⟨_, _, rfl⟩

end Bank

namespace Memory

/-! ### What keeps the size -/

/-- An assignment to a slot leaves the sizes of all banks. -/
theorem size_assign {operation : String} {t : Target} {m m' : Memory} {s : Slot} {v : Value}
    (h : assign operation t m s v = .ok m') (k : Kind) : m'.size k = m.size k := by
  unfold assign at h
  split at h
  · obtain ⟨b, hb, rfl⟩ := eq_ok_of_map h
    cases k <;> first | rfl | exact Bank.size_modify hb
  · obtain ⟨b, hb, rfl⟩ := eq_ok_of_map h
    cases k <;> first | rfl | exact Bank.size_modify hb
  · obtain ⟨b, hb, rfl⟩ := eq_ok_of_map h
    cases k <;> first | rfl | exact Bank.size_modify hb
  · cases h

theorem size_write {m m' : Memory} {s : Slot} {v : Value} (h : m.write s v = .ok m') (k : Kind) :
    m'.size k = m.size k := size_assign h k

theorem size_writeBoth {m m' : Memory} {s : Slot} {v : Value} (h : m.writeBoth s v = .ok m')
    (k : Kind) : m'.size k = m.size k := size_assign h k

theorem size_setDefault {m m' : Memory} {s : Slot} {v : Value} (h : m.setDefault s v = .ok m')
    (k : Kind) : m'.size k = m.size k := size_assign h k

@[simp] theorem size_commit (m : Memory) (k : Kind) : m.commit.size k = m.size k := by
  cases k <;> exact Array.size_map ..

@[simp] theorem size_applyDefaults (m : Memory) (k : Kind) :
    m.applyDefaults.size k = m.size k := by
  cases k <;> exact Array.size_map ..

theorem size_forward {m m' : Memory} {kind : Kind} {src dst : Nat} {changed : Bool}
    (h : m.forward kind src dst = .ok (m', changed)) (k : Kind) : m'.size k = m.size k := by
  cases kind with
  | float =>
    obtain ⟨⟨b, c⟩, hb, heq⟩ := eq_ok_of_map h
    cases heq
    cases k <;> first | rfl | exact Bank.size_forward hb
  | handle =>
    obtain ⟨⟨b, c⟩, hb, heq⟩ := eq_ok_of_map h
    cases heq
    cases k <;> first | rfl | exact Bank.size_forward hb
  | string =>
    obtain ⟨⟨b, c⟩, hb, heq⟩ := eq_ok_of_map h
    cases heq
    cases k <;> first | rfl | exact Bank.size_forward hb

/-! ### What cannot fail -/

/-- A slot in range has a cell. -/
theorem cell?_isSome {m : Memory} {x : Slot} (h : x.InRange m) : (m.cell? x).isSome = true := by
  obtain ⟨kind, index⟩ := x
  cases kind with
  | float =>
    have hlt : index < m.floats.size := h
    simp only [cell?, Array.getElem?_eq_getElem hlt, Option.map_some, Option.isSome_some]
  | handle =>
    have hlt : index < m.handles.size := h
    simp only [cell?, Array.getElem?_eq_getElem hlt, Option.map_some, Option.isSome_some]
  | string =>
    have hlt : index < m.strings.size := h
    simp only [cell?, Array.getElem?_eq_getElem hlt, Option.map_some, Option.isSome_some]

/-- What is read from a slot in range is of the slot's kind. -/
theorem exists_read? {m : Memory} {x : Slot} (h : x.InRange m) :
    ∃ v, m.read? x = some v ∧ v.kind = x.kind := by
  obtain ⟨c, hc⟩ := Option.isSome_iff_exists.mp (cell?_isSome h)
  refine ⟨c.new, by rw [read?, hc]; rfl, ?_⟩
  obtain ⟨kind, index⟩ := x
  cases kind with
  | float =>
    obtain ⟨c', -, rfl⟩ := Option.map_eq_some_iff.mp hc
    rfl
  | handle =>
    obtain ⟨c', -, rfl⟩ := Option.map_eq_some_iff.mp hc
    rfl
  | string =>
    obtain ⟨c', -, rfl⟩ := Option.map_eq_some_iff.mp hc
    rfl

/-- **A slot in range can be set to any value of its kind.** -/
theorem assign_isOk {m : Memory} {x : Slot} {v : Value} (h : x.InRange m) (hv : v.kind = x.kind)
    (operation : String) (t : Target) : ∃ m', assign operation t m x v = .ok m' := by
  obtain ⟨kind, index⟩ := x
  cases v with
  | float a =>
    subst hv
    obtain ⟨b, hb⟩ := Bank.modify_isOk (b := m.floats) h (t.apply a)
    exact ⟨_, congrArg (Except.map _) hb⟩
  | handle a =>
    subst hv
    obtain ⟨b, hb⟩ := Bank.modify_isOk (b := m.handles) h (t.apply a)
    exact ⟨_, congrArg (Except.map _) hb⟩
  | string a =>
    subst hv
    obtain ⟨b, hb⟩ := Bank.modify_isOk (b := m.strings) h (t.apply a)
    exact ⟨_, congrArg (Except.map _) hb⟩

theorem forward_isOk {m : Memory} {l : Link} (h : l.InRange m) :
    ∃ m' changed, m.forward l.kind l.src l.dst = .ok (m', changed) := by
  obtain ⟨kind, src, dst⟩ := l
  cases kind with
  | float =>
    obtain ⟨b, c, hb⟩ := Bank.forward_isOk h.1 h.2
    exact ⟨_, _, congrArg (Except.map _) hb⟩
  | handle =>
    obtain ⟨b, c, hb⟩ := Bank.forward_isOk h.1 h.2
    exact ⟨_, _, congrArg (Except.map _) hb⟩
  | string =>
    obtain ⟨b, c, hb⟩ := Bank.forward_isOk h.1 h.2
    exact ⟨_, _, congrArg (Except.map _) hb⟩

end Memory

namespace Tree

/-- One pass along links keeps the sizes. -/
theorem size_propagate {links : List Link} {m m' : Memory} (h : propagate links m = .ok m')
    (k : Kind) : m'.size k = m.size k := by
  induction links generalizing m with
  | nil =>
    cases h
    rfl
  | cons l links ih =>
    rw [propagate, List.foldlM_cons] at h
    cases hl : (m.forward l.kind l.src l.dst).map (·.1) with
    | error e => simp [hl, bind, Except.bind] at h
    | ok m₁ =>
      obtain ⟨⟨m₂, changed⟩, hforward, rfl⟩ := eq_ok_of_map hl
      simp only [hl, bind, Except.bind] at h
      rw [ih h, Memory.size_forward hforward]

/-- **One pass along links in range succeeds.** -/
theorem propagate_isOk {links : List Link} {m : Memory} (h : ∀ l ∈ links, l.InRange m) :
    ∃ m', propagate links m = .ok m' := by
  induction links generalizing m with
  | nil => exact ⟨m, rfl⟩
  | cons l links ih =>
    obtain ⟨m₁, changed, hl⟩ := Memory.forward_isOk (h l (List.mem_cons_self ..))
    have hrest : ∀ l' ∈ links, l'.InRange m₁ := by
      intro l' hl'
      have := h l' (List.mem_cons_of_mem _ hl')
      rw [Link.InRange, Memory.size_forward hl]
      exact this
    obtain ⟨m', hm'⟩ := ih hrest
    refine ⟨m', ?_⟩
    rw [propagate, List.foldlM_cons, hl]
    exact hm'

end Tree

end SchemePlayer
