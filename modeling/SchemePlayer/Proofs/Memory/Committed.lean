import SchemePlayer.Proofs.Memory.Size
import SchemePlayer.Tree.VarSet

/-!
# Committed values

Code writes working values only. What was committed stays as it is until the next commit
(`SameOld`), whatever is written (`sameOld_write`); a commit makes every committed value the
working one (`readOld?_commit`). A snapshot of a tree shows nothing but committed values
(`snapshot_congr`).
-/

namespace SchemePlayer

namespace Bank

variable {α : Type}

/-- The committed value of a cell. -/
def old? (b : Bank α) (i : Nat) : Option α := b[i]?.map Cell.old

theorem old?_set {b : Bank α} {i : Nat} (hi : i < b.size) {c : Cell α} (hc : c.old = b[i].old)
    (j : Nat) : old? (b.set i c) j = b.old? j := by
  unfold old?
  by_cases hij : i = j
  · subst hij
    rw [Array.getElem?_set_self hi, Array.getElem?_eq_getElem hi]
    exact congrArg some hc
  · rw [Array.getElem?_set_ne hi hij]

theorem old?_modify {b b' : Bank α} {i : Nat} {f : Cell α → Cell α}
    (h : b.modify i f = .ok b') (hf : ∀ c, (f c).old = c.old) (j : Nat) : b'.old? j = b.old? j := by
  unfold modify at h
  split at h
  · cases h
    exact old?_set _ (hf _) j
  · cases h

end Bank

namespace Memory

/-- Two memories hold the same committed values. -/
def SameOld (m m' : Memory) : Prop := ∀ s, m'.readOld? s = m.readOld? s

theorem SameOld.refl (m : Memory) : m.SameOld m := fun _ => rfl

theorem SameOld.trans {m m' m'' : Memory} (h : m.SameOld m') (h' : m'.SameOld m'') :
    m.SameOld m'' := fun s => (h' s).trans (h s)

theorem readOld?_eq (m : Memory) (s : Slot) :
    m.readOld? s =
      match s.kind with
      | .float => (m.floats.old? s.index).map .float
      | .handle => (m.handles.old? s.index).map .handle
      | .string => (m.strings.old? s.index).map .string := by
  unfold readOld? cell? Bank.old?
  cases s.kind <;> simp only [Option.map_map] <;> rfl

/-- Committed values are the same if they are so in every bank. -/
theorem SameOld.of_banks {m m' : Memory} (hfloats : ∀ i, m'.floats.old? i = m.floats.old? i)
    (hhandles : ∀ i, m'.handles.old? i = m.handles.old? i)
    (hstrings : ∀ i, m'.strings.old? i = m.strings.old? i) : m.SameOld m' := by
  intro s
  rw [readOld?_eq, readOld?_eq, hfloats, hhandles, hstrings]

/-- **Writing a working value keeps what is committed.** -/
theorem sameOld_write {m m' : Memory} {s : Slot} {v : Value} (h : m.write s v = .ok m') :
    m.SameOld m' := by
  unfold write assign at h
  split at h
  · obtain ⟨b, hb, rfl⟩ := eq_ok_of_map h
    exact .of_banks (Bank.old?_modify hb fun _ => rfl) (fun _ => rfl) fun _ => rfl
  · obtain ⟨b, hb, rfl⟩ := eq_ok_of_map h
    exact .of_banks (fun _ => rfl) (Bank.old?_modify hb fun _ => rfl) fun _ => rfl
  · obtain ⟨b, hb, rfl⟩ := eq_ok_of_map h
    exact .of_banks (fun _ => rfl) (fun _ => rfl) (Bank.old?_modify hb fun _ => rfl)
  · cases h

theorem cell?_commit (m : Memory) (s : Slot) : m.commit.cell? s = (m.cell? s).map Cell.commit := by
  unfold cell? commit
  cases s.kind <;> simp only [Array.getElem?_map, Option.map_map] <;> rfl

/-- A commit makes the working values the committed ones. -/
theorem readOld?_commit (m : Memory) (s : Slot) : m.commit.readOld? s = m.read? s := by
  rw [readOld?, cell?_commit, Option.map_map]
  rfl

theorem read?_commit (m : Memory) (s : Slot) : m.commit.read? s = m.read? s := by
  rw [read?, cell?_commit, Option.map_map]
  rfl

end Memory

namespace Tree

/-- A snapshot shows committed values only. -/
theorem snapshot_congr {t : Tree} {m m' : Memory} (h : m.SameOld m') :
    t.snapshot m' = t.snapshot m := by
  have hown : ∀ inst, ownValues inst m' = ownValues inst m := fun inst => by
    unfold ownValues
    simp only [h _]
  have hfrom : ∀ depth id, t.snapshotFrom m' depth id = t.snapshotFrom m depth id := by
    intro depth
    induction depth with
    | zero => exact fun _ => rfl
    | succ depth ih =>
      intro id
      unfold snapshotFrom
      simp only [hown, funext ih]
  exact hfrom _ _

end Tree

end SchemePlayer
