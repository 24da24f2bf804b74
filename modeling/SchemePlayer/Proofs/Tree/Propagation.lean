import Mathlib
import SchemePlayer.Proofs.Memory.Committed
import SchemePlayer.Proofs.Memory.Restore

/-!
# Values on their way along links

A pass goes along every link once, in the order of the links, and reads what earlier links of the
same pass have written. How far a value travels in one pass is thus a matter of that order. That it
travels at least one link is not, and where no slot is the end of two links it stays where it has
come to:

- `Value.Agrees`: what a bank takes for equal, with not-a-number equal to itself.
- `Carries`, `carries_forward`: **what going along one link does**, to every cell.
- `carries_pass`: what a pass does to the cells that no link ends at, and to committed values and
  defaults; `ends_agree`: which links have equal ends afterwards.
- `Leads`, `Source`, `Acyclic`: chains of links.
- `settled_pass`: one pass takes values one link further, and leaves those that have arrived.
- `propagation_converges`: **after as many passes as the longest chain has links, every value has
  arrived, and nothing changes any more.**
-/

namespace SchemePlayer

/-! ### What a bank takes for equal -/

/-- Two values that a bank takes for equal, with not-a-number equal to itself. -/
def Value.Agrees : Value → Value → Prop
  | .float x, .float y => (x == y) = true ∨ (x.isNaN = true ∧ y.isNaN = true)
  | .handle a, .handle b => a = b
  | .string s, .string t => s = t
  | _, _ => False

namespace Value

theorem float_agrees_iff {x y : Float} :
    (float x).Agrees (.float y) ↔ x = y ∨ x = 0 ∧ y = -0 ∨ x = -0 ∧ y = 0 := by
  have hzero : (0 : Float) ≠ .nan := by decide
  have hnegative : (-0 : Float) ≠ .nan := by decide
  show (x == y) = true ∨ (x.isNaN = true ∧ y.isNaN = true) ↔ _
  rw [Float.beq_iff_ne_nan_and_eq, Float.isNaN_eq_decide_eq_nan, Float.isNaN_eq_decide_eq_nan,
    decide_eq_true_eq, decide_eq_true_eq]
  constructor
  · rintro (⟨-, -, heq⟩ | ⟨rfl, rfl⟩)
    · exact heq
    · exact .inl rfl
  · rintro (rfl | ⟨rfl, rfl⟩ | ⟨rfl, rfl⟩)
    · by_cases hx : x = .nan
      · exact .inr ⟨hx, hx⟩
      · exact .inl ⟨hx, hx, .inl rfl⟩
    · exact .inl ⟨hzero, hnegative, .inr (.inl ⟨rfl, rfl⟩)⟩
    · exact .inl ⟨hnegative, hzero, .inr (.inr ⟨rfl, rfl⟩)⟩

theorem Agrees.refl (v : Value) : v.Agrees v := by
  cases v with
  | float x => exact float_agrees_iff.mpr (.inl rfl)
  | handle a => exact rfl
  | string s => exact rfl

theorem Agrees.symm {v w : Value} (h : v.Agrees w) : w.Agrees v := by
  cases v <;> cases w <;> first | exact h.elim | skip
  · rw [float_agrees_iff] at h ⊢
    rcases h with rfl | ⟨rfl, rfl⟩ | ⟨rfl, rfl⟩
    · exact .inl rfl
    · exact .inr (.inr ⟨rfl, rfl⟩)
    · exact .inr (.inl ⟨rfl, rfl⟩)
  · exact Eq.symm h
  · exact Eq.symm h

theorem Agrees.trans {u v w : Value} (h : u.Agrees v) (h' : v.Agrees w) : u.Agrees w := by
  cases u <;> cases v <;> first | exact h.elim | skip
  · cases w with
    | float z =>
      rw [float_agrees_iff] at h h' ⊢
      rcases h with rfl | ⟨rfl, rfl⟩ | ⟨rfl, rfl⟩
      · exact h'
      · rcases h' with rfl | ⟨-, rfl⟩ | ⟨-, rfl⟩
        · exact .inr (.inl ⟨rfl, rfl⟩)
        · exact .inr (.inl ⟨rfl, rfl⟩)
        · exact .inl rfl
      · rcases h' with rfl | ⟨-, rfl⟩ | ⟨-, rfl⟩
        · exact .inr (.inr ⟨rfl, rfl⟩)
        · exact .inl rfl
        · exact .inr (.inr ⟨rfl, rfl⟩)
    | handle => exact h'.elim
    | string => exact h'.elim
  · obtain rfl : _ = _ := h
    exact h'
  · obtain rfl : _ = _ := h
    exact h'

end Value

/-! ### One link -/

namespace Link

/-- The slot that a link begins at. -/
def source (l : Link) : Slot := ⟨l.kind, l.src⟩

/-- The slot that a link ends at. -/
def target (l : Link) : Slot := ⟨l.kind, l.dst⟩

end Link

namespace Bank

variable {α : Type} [BEq α]

/-- What copying a working value does to a bank. -/
theorem forward_cases {b b' : Bank α} {src dst : Nat} {changed : Bool}
    (h : b.forward src dst = .ok (b', changed)) :
    ∃ c d, b[src]? = some c ∧ b[dst]? = some d ∧
      ((d.new == c.new) = true ∧ b' = b ∨ (d.new == c.new) = false ∧
        ∀ j : Nat, b'[j]? = if j = dst then some { d with new := c.new } else b[j]?) := by
  unfold forward at h
  split at h
  · rename_i hdst
    split at h
    · rename_i hsrc
      refine ⟨b[src], b[dst], Array.getElem?_eq_getElem hsrc, Array.getElem?_eq_getElem hdst, ?_⟩
      split at h
      · rename_i hequal
        cases h
        exact .inl ⟨hequal, rfl⟩
      · rename_i hdiffer
        cases h
        refine .inr ⟨Bool.eq_false_iff.mpr hdiffer, fun j => ?_⟩
        by_cases hj : j = dst
        · subst hj
          rw [if_pos rfl, Array.getElem?_set_self hdst]
        · rw [if_neg hj, Array.getElem?_set_ne hdst (Ne.symm hj)]
    · cases h
  · cases h

end Bank

namespace Memory

/-- The working values of two slots, each of its memory, agree. -/
def Agree (m : Memory) (x : Slot) (m' : Memory) (y : Slot) : Prop :=
  ∃ v w, m.read? x = some v ∧ m'.read? y = some w ∧ v.Agrees w

variable {m m' m'' : Memory} {x y z : Slot}

theorem Agree.refl (h : x.InRange m) : m.Agree x m x := by
  obtain ⟨v, hv, -⟩ := exists_read? h
  exact ⟨v, v, hv, hv, .refl v⟩

theorem Agree.symm (h : m.Agree x m' y) : m'.Agree y m x := by
  obtain ⟨v, w, hv, hw, hvw⟩ := h
  exact ⟨w, v, hw, hv, hvw.symm⟩

theorem Agree.trans (h : m.Agree x m' y) (h' : m'.Agree y m'' z) : m.Agree x m'' z := by
  obtain ⟨v, w, hv, hw, hvw⟩ := h
  obtain ⟨w', u, hw', hu, hwu⟩ := h'
  obtain rfl : w = w' := Option.some.inj (hw.symm.trans hw')
  exact ⟨v, u, hv, hu, hvw.trans hwu⟩

/-- A value stays in a cell that stays. -/
theorem Agree.stay (h : m.Agree x m' y) (hstays : m''.cell? y = m'.cell? y) : m.Agree x m'' y := by
  obtain ⟨v, w, hv, hw, hvw⟩ := h
  exact ⟨v, w, hv, by rw [read?, hstays]; exact hw, hvw⟩

/-- What going along a link does. -/
structure Carries (l : Link) (m m' : Memory) : Prop where
  /-- only the slot at its end may change, -/
  others : ∀ y, y ≠ l.target → m'.cell? y = m.cell? y
  /-- and of that only the working value, -/
  old : m.SameOld m'
  dflt : m.SameDefaults m'
  /-- which then agrees with the one at its beginning -/
  ends : m.Agree l.source m' l.target
  /-- nothing changes if it did before -/
  still : m.Agree l.source m l.target → m' = m

/-- Going along a link, seen from the cells. -/
theorem Carries.of_cells {l : Link} {c d : Cell Value} (hc : m.cell? l.source = some c)
    (hd : m.cell? l.target = some d)
    (h : d.new.Agrees c.new ∧ m' = m ∨ (d.new.Agrees c.new → d.new = c.new) ∧
      ∀ y, m'.cell? y = if y = l.target then some { d with new := c.new } else m.cell? y) :
    Carries l m m' := by
  have hsource : m.read? l.source = some c.new := by rw [read?, hc]; rfl
  rcases h with ⟨hagree, rfl⟩ | ⟨hsame, hcells⟩
  · refine ⟨fun _ _ => rfl, .refl _, .refl _, ⟨c.new, d.new, hsource, ?_, hagree.symm⟩,
      fun _ => rfl⟩
    rw [read?, hd]
    rfl
  · refine ⟨fun y hy => ?_, fun y => ?_, fun y => ?_, ⟨c.new, c.new, hsource, ?_, .refl _⟩, ?_⟩
    · rw [hcells, if_neg hy]
    · rw [readOld?, readOld?, hcells]
      split
      · rename_i hy
        rw [hy, hd]
        rfl
      · rfl
    · rw [readDefault?, readDefault?, hcells]
      split
      · rename_i hy
        rw [hy, hd]
        rfl
      · rfl
    · rw [read?, hcells, if_pos rfl]
      rfl
    · -- the value that is written is the one that was there
      rintro ⟨v, w, hv, hw, hvw⟩
      obtain rfl : v = c.new := Option.some.inj (hv.symm.trans hsource)
      rw [read?, hd] at hw
      obtain rfl : w = d.new := (Option.some.inj hw).symm
      refine ext_cell? fun y => ?_
      rw [hcells]
      split
      · rename_i hy
        rw [hy, hd, ← hsame hvw.symm]
      · rfl

/-- **What going along one link does**, to every cell. -/
theorem carries_forward {l : Link} {changed : Bool}
    (h : m.forward l.kind l.src l.dst = .ok (m', changed)) : Carries l m m' := by
  obtain ⟨kind, src, dst⟩ := l
  cases kind with
  | float =>
    obtain ⟨⟨b, c⟩, hb, heq⟩ := eq_ok_of_map h
    cases heq
    obtain ⟨c, d, hc, hd, hcases⟩ := Bank.forward_cases hb
    refine .of_cells (c := c.map .float) (d := d.map .float) (congrArg (Option.map _) hc)
      (congrArg (Option.map _) hd) ?_
    rcases hcases with ⟨hequal, rfl⟩ | ⟨hdiffer, hcells⟩
    · exact .inl ⟨.inl hequal, rfl⟩
    · refine .inr ⟨fun hagree => ?_, fun y => ?_⟩
      · -- numbers that differ agree only if neither is one
        rcases hagree with hequal | ⟨hd, hc⟩
        · rw [hdiffer] at hequal
          cases hequal
        · rw [Float.isNaN_eq_decide_eq_nan, decide_eq_true_eq] at hd hc
          exact congrArg Value.float (hd.trans hc.symm)
      · obtain ⟨kind, index⟩ := y
        cases kind <;> simp only [cell?, Link.target, Slot.mk.injEq, reduceCtorEq, false_and,
          true_and, if_false, hcells]
        split <;> rfl
  | handle =>
    obtain ⟨⟨b, c⟩, hb, heq⟩ := eq_ok_of_map h
    cases heq
    obtain ⟨c, d, hc, hd, hcases⟩ := Bank.forward_cases hb
    refine .of_cells (c := c.map .handle) (d := d.map .handle) (congrArg (Option.map _) hc)
      (congrArg (Option.map _) hd) ?_
    rcases hcases with ⟨hequal, rfl⟩ | ⟨hdiffer, hcells⟩
    · exact .inl ⟨eq_of_beq hequal, rfl⟩
    · refine .inr ⟨congrArg Value.handle, fun y => ?_⟩
      obtain ⟨kind, index⟩ := y
      cases kind <;> simp only [cell?, Link.target, Slot.mk.injEq, reduceCtorEq, false_and,
        true_and, if_false, hcells]
      split <;> rfl
  | string =>
    obtain ⟨⟨b, c⟩, hb, heq⟩ := eq_ok_of_map h
    cases heq
    obtain ⟨c, d, hc, hd, hcases⟩ := Bank.forward_cases hb
    refine .of_cells (c := c.map .string) (d := d.map .string) (congrArg (Option.map _) hc)
      (congrArg (Option.map _) hd) ?_
    rcases hcases with ⟨hequal, rfl⟩ | ⟨hdiffer, hcells⟩
    · exact .inl ⟨eq_of_beq hequal, rfl⟩
    · refine .inr ⟨congrArg Value.string, fun y => ?_⟩
      obtain ⟨kind, index⟩ := y
      cases kind <;> simp only [cell?, Link.target, Slot.mk.injEq, reduceCtorEq, false_and,
        true_and, if_false, hcells]
      split <;> rfl

end Memory

namespace Tree

/-! ### One pass -/

/-- A pass goes along the first link, and then along the others. -/
theorem propagate_cons {l : Link} {links : List Link} {m m' : Memory}
    (h : propagate (l :: links) m = .ok m') :
    ∃ m₁, m.Carries l m₁ ∧ propagate links m₁ = .ok m' := by
  rw [propagate, List.foldlM_cons] at h
  cases hl : (m.forward l.kind l.src l.dst).map (·.1) with
  | error e => simp [hl, bind, Except.bind] at h
  | ok m₁ =>
    obtain ⟨⟨m₂, changed⟩, hforward, rfl⟩ := eq_ok_of_map hl
    simp only [hl, bind, Except.bind] at h
    exact ⟨m₂, Memory.carries_forward hforward, h⟩

/-- **What a pass leaves alone**: slots at which no link ends, committed values and defaults. -/
theorem carries_pass {links : List Link} {m m' : Memory} (h : propagate links m = .ok m') :
    (∀ y, y ∉ links.map Link.target → m'.cell? y = m.cell? y) ∧ m.SameOld m' ∧
      m.SameDefaults m' := by
  induction links generalizing m with
  | nil =>
    cases h
    exact ⟨fun _ _ => rfl, .refl _, .refl _⟩
  | cons l links ih =>
    obtain ⟨m₁, hfirst, hrest⟩ := propagate_cons h
    obtain ⟨hcells, hold, hdflt⟩ := ih hrest
    refine ⟨fun y hy => ?_, hfirst.old.trans hold, hfirst.dflt.trans hdflt⟩
    rw [List.map_cons, List.mem_cons, not_or] at hy
    rw [hcells y hy.2, hfirst.others y hy.1]

/-- **A link has equal ends after a pass**, unless a later link ends at one of them. -/
theorem ends_agree {before after : List Link} {l : Link} {m m' : Memory}
    (h : propagate (before ++ l :: after) m = .ok m')
    (hsource : l.source ∉ after.map Link.target) (htarget : l.target ∉ after.map Link.target) :
    m'.Agree l.source m' l.target := by
  induction before generalizing m with
  | nil =>
    obtain ⟨m₁, hfirst, hrest⟩ := propagate_cons h
    obtain ⟨hcells, -, -⟩ := carries_pass hrest
    -- a link from a slot to itself has but one end
    have hequal : m₁.Agree l.source m₁ l.target := by
      by_cases hloop : l.source = l.target
      · obtain ⟨v, w, -, hw, -⟩ := hfirst.ends
        rw [hloop]
        exact ⟨w, w, hw, hw, .refl w⟩
      · exact ((hfirst.ends.symm.stay (hfirst.others _ hloop)).symm)
    exact ((hequal.stay (hcells _ htarget)).symm.stay (hcells _ hsource)).symm
  | cons l' before ih =>
    obtain ⟨m₁, -, hrest⟩ := propagate_cons h
    exact ih hrest

/-! ### Chains -/

/-- `Leads links n a b`: `n` links, each beginning where the one before ends, lead from `a` to
`b`. -/
inductive Leads (links : List Link) (a : Slot) : Nat → Slot → Prop where
  | refl : Leads links a 0 a
  | step {n : Nat} {l : Link} : Leads links a n l.source → l ∈ links →
      Leads links a (n + 1) l.target

/-- No chain of links leads back to where it begins. -/
def Acyclic (links : List Link) : Prop := ∀ n a, ¬Leads links a (n + 1) a

/-- The first slot of a chain that cannot be longer: no link ends there. -/
def Source (links : List Link) (a : Slot) : Prop := a ∉ links.map Link.target

variable {links : List Link} {a x : Slot} {n : Nat} {m m' start : Memory}

/-- A chain can be made longer at its beginning. -/
theorem Leads.prepend {l : Link} (hl : l ∈ links) (h : Leads links l.target n x) :
    Leads links l.source (n + 1) x := by
  induction h with
  | refl => exact .step .refl hl
  | step _ hl' ih => exact .step ih hl'

/-- The ends of the links of a chain are distinct, if no chain is cyclic. -/
theorem Leads.ends (hacyclic : Acyclic links) (h : Leads links a n x) :
    ∃ ends : List Slot, ends.length = n ∧ ends.Nodup ∧ ends ⊆ links.map Link.target ∧
      ∀ y ∈ ends, ∃ k, Leads links y k x := by
  induction h with
  | refl =>
    exact ⟨[], rfl, List.nodup_nil, List.nil_subset _, fun y hy => absurd hy List.not_mem_nil⟩
  | @step n l _ hl ih =>
    obtain ⟨ends, hlength, hnodup, hsub, hleads⟩ := ih
    refine ⟨l.target :: ends, by rw [List.length_cons, hlength], List.nodup_cons.mpr ⟨?_, hnodup⟩,
      List.cons_subset.mpr ⟨List.mem_map_of_mem hl, hsub⟩, fun y hy => ?_⟩
    · intro hmem
      obtain ⟨k, hk⟩ := hleads l.target hmem
      exact hacyclic k l.target (.step hk hl)
    · rcases List.mem_cons.mp hy with rfl | hy
      · exact ⟨0, .refl⟩
      · obtain ⟨k, hk⟩ := hleads y hy
        exact ⟨k + 1, .step hk hl⟩

/-- No chain has more links than there are. -/
theorem Leads.le_length (hacyclic : Acyclic links) (h : Leads links a n x) :
    n ≤ links.length := by
  obtain ⟨ends, rfl, hnodup, hsub, -⟩ := h.ends hacyclic
  have hle := (List.subperm_of_subset hnodup hsub).length_le
  rwa [List.length_map] at hle

/-- **There is a longest chain.** -/
theorem exists_longest (hacyclic : Acyclic links) :
    ∃ n ≤ links.length, IsGreatest {n | ∃ a x, Leads links a n x} n := by
  have hbound : ∀ k ∈ {n | ∃ a x, Leads links a n x}, k ≤ links.length :=
    fun k ⟨_, _, hk⟩ => hk.le_length hacyclic
  have hnonempty : {n | ∃ a x, Leads links a n x}.Nonempty := ⟨0, ⟨.float, 0⟩, _, .refl⟩
  have hgreatest : ∃ n, IsGreatest {n | ∃ a x, Leads links a n x} n :=
    ⟨_, Nat.sSup_mem hnonempty ⟨_, hbound⟩, fun k hk => le_csSup ⟨_, hbound⟩ hk⟩
  obtain ⟨n, hn⟩ := hgreatest
  exact ⟨n, hbound n hn.1, hn⟩

/-- Every slot is on a chain that begins at a source. -/
theorem exists_source (hacyclic : Acyclic links) (x : Slot) :
    ∃ a n, Source links a ∧ Leads links a n x := by
  -- going back from `x`, what is still to be gone is no more than the links that are not used yet
  have hback : ∀ left y k, Leads links y k x → links.length ≤ k + left →
      ∃ a n, Source links a ∧ Leads links a n x := by
    intro left
    induction left with
    | zero =>
      intro y k hy hle
      refine ⟨y, k, fun hmem => ?_, hy⟩
      obtain ⟨l, hl, rfl⟩ := List.mem_map.mp hmem
      have := (hy.prepend hl).le_length hacyclic
      omega
    | succ left ih =>
      intro y k hy hle
      by_cases hsource : Source links y
      · exact ⟨y, k, hsource, hy⟩
      · obtain ⟨l, hl, rfl⟩ := List.mem_map.mp (not_not.mp hsource)
        exact ih l.source (k + 1) (hy.prepend hl) (by omega)
  exact hback links.length x 0 .refl (by omega)

/-- Where no two links have one end, a chain that ends with a link goes through its beginning. -/
theorem Leads.through (hone : (links.map Link.target).Nodup) {l : Link} (hl : l ∈ links)
    (hsource : Source links a) (h : Leads links a n l.target) :
    ∃ k, n = k + 1 ∧ Leads links a k l.source := by
  generalize htarget : l.target = y at h
  cases h with
  | refl =>
    subst htarget
    exact absurd (List.mem_map_of_mem hl) hsource
  | @step k l' hleads hl' =>
    obtain rfl : l = l' := List.inj_on_of_nodup_map hone hl hl' htarget
    exact ⟨k, rfl, hleads⟩

/-! ### Values on their way -/

/-- What has arrived in some slots: each has the value that the first slot of its chain had at the
start. -/
def Settled (links : List Link) (start : Memory) (D : Slot → Prop) (m : Memory) : Prop :=
  ∀ x, D x → ∀ a n, Source links a → Leads links a n x → start.Agree a m x

/-- One link takes a value further, and leaves those that have arrived: what it writes has arrived
if what it reads has. -/
theorem Settled.carry {D : Slot → Prop} {l : Link} (hone : (links.map Link.target).Nodup)
    (hclosed : ∀ l ∈ links, D l.target → D l.source) (hl : l ∈ links)
    (hcarries : m.Carries l m') (h : Settled links start D m) :
    Settled links start (fun x => D x ∨ x = l.target ∧ D l.source) m' := by
  intro x hx a n hsource hleads
  by_cases htarget : x = l.target
  · subst htarget
    have hD : D l.source := hx.elim (hclosed l hl) (·.2)
    obtain ⟨k, -, hthrough⟩ := hleads.through hone hl hsource
    exact (h l.source hD a k hsource hthrough).trans hcarries.ends
  · have hD : D x := hx.resolve_right fun hboth => htarget hboth.1
    exact (h x hD a n hsource hleads).stay (hcarries.others x htarget)

/-- **One pass takes values one link further**, and leaves those that have arrived. -/
theorem settled_pass {D : Slot → Prop} (hone : (links.map Link.target).Nodup)
    (hclosed : ∀ l ∈ links, D l.target → D l.source) {part : List Link} (hpart : part ⊆ links)
    (h : Settled links start D m) (hpass : propagate part m = .ok m') :
    Settled links start D m' ∧
      ∀ l ∈ part, D l.source → Settled links start (· = l.target) m' := by
  induction part generalizing D m with
  | nil =>
    cases hpass
    exact ⟨h, fun l hl => absurd hl List.not_mem_nil⟩
  | cons l part ih =>
    obtain ⟨hl, hrest⟩ := List.cons_subset.mp hpart
    obtain ⟨m₁, hcarries, hpass⟩ := propagate_cons hpass
    have hnext := h.carry hone hclosed hl hcarries
    -- what has arrived after the first link is again closed under going back
    have hclosed' : ∀ l' ∈ links, (D l'.target ∨ l'.target = l.target ∧ D l.source) →
        D l'.source ∨ l'.source = l.target ∧ D l.source := by
      rintro l' hl' (hD | ⟨heq, hD⟩)
      · exact .inl (hclosed l' hl' hD)
      · obtain rfl : l' = l := List.inj_on_of_nodup_map hone hl' hl heq
        exact .inl hD
    obtain ⟨hkept, hfurther⟩ := ih hclosed' hrest hnext hpass
    refine ⟨fun x hx => hkept x (.inl hx), fun l' hl' hD => ?_⟩
    rcases List.mem_cons.mp hl' with rfl | hl'
    · rintro x rfl
      exact hkept l'.target (.inr ⟨rfl, hD⟩)
    · exact hfurther l' hl' (.inl hD)

/-! ### Many passes -/

/-- A number of passes, one after another. -/
def passes (links : List Link) : Nat → Memory → Except MemoryCrash Memory
  | 0, m => .ok m
  | n + 1, m => (propagate links m).bind (passes links n)

/-- The last pass of several. -/
theorem passes_succ (links : List Link) (n : Nat) (m : Memory) :
    passes links (n + 1) m = (passes links n m).bind (propagate links) := by
  induction n generalizing m with
  | zero =>
    show (propagate links m).bind .ok = propagate links m
    cases propagate links m <;> rfl
  | succ n ih =>
    rw [passes]
    cases hpass : propagate links m with
    | error e =>
      rw [passes, hpass]
      rfl
    | ok m₁ =>
      rw [passes, hpass]
      exact ih m₁

/-- The slots of memory that no more than `n` links lead to from a source. -/
def Within (links : List Link) (start : Memory) (n : Nat) (x : Slot) : Prop :=
  x.InRange start ∧ ∃ a, ∃ k ≤ n, Source links a ∧ Leads links a k x

theorem Within.back (hone : (links.map Link.target).Nodup) {l : Link} (hl : l ∈ links)
    (hrange : l.InRange start) (h : Within links start n l.target) :
    Within links start n l.source := by
  obtain ⟨-, a, k, hle, hsource, hleads⟩ := h
  obtain ⟨i, rfl, hthrough⟩ := hleads.through hone hl hsource
  exact ⟨hrange.1, a, i, Nat.le_of_succ_le hle, hsource, hthrough⟩

/-- **A value travels one link in each pass**, or further. -/
theorem settled_passes (hone : (links.map Link.target).Nodup)
    (hrange : ∀ l ∈ links, l.InRange start) (n : Nat) :
    ∃ m, passes links n start = .ok m ∧ (∀ k, m.size k = start.size k) ∧
      Settled links start (Within links start n) m := by
  induction n with
  | zero =>
    refine ⟨start, rfl, fun _ => rfl, ?_⟩
    rintro x ⟨hx, b, k, hle, hb, hleads⟩ a n ha hleads'
    -- a slot that is reached without a link is a source itself
    obtain rfl := Nat.le_zero.mp hle
    cases hleads
    cases hleads' with
    | refl => exact .refl hx
    | step _ hl => exact absurd (List.mem_map_of_mem hl) hb
  | succ n ih =>
    obtain ⟨m, hpasses, hsize, hsettled⟩ := ih
    have hrange' : ∀ l ∈ links, l.InRange m := by
      intro l hl
      rw [Link.InRange, hsize]
      exact hrange l hl
    obtain ⟨m', hpass⟩ := propagate_isOk hrange'
    have hback : ∀ l ∈ links, Within links start n l.target → Within links start n l.source :=
      fun l hl h => h.back hone hl (hrange l hl)
    obtain ⟨-, hfurther⟩ := settled_pass hone hback (List.Subset.refl links) hsettled hpass
    refine ⟨m', ?_, fun k => (size_propagate hpass k).trans (hsize k), ?_⟩
    · rw [passes_succ, hpasses]
      exact hpass
    · rintro x ⟨hx, b, k, hle, hb, hleads⟩ a i ha hleads'
      cases hleads with
      | refl =>
        cases hleads' with
        | refl =>
          have hstays := (carries_pass hpass).1 x hb
          exact (hsettled x ⟨hx, x, 0, Nat.zero_le n, hb, .refl⟩ x 0 hb .refl).stay hstays
        | step _ hl => exact absurd (List.mem_map_of_mem hl) hb
      | @step k l hleads hl =>
        have hwithin : Within links start n l.source :=
          ⟨(hrange l hl).1, b, k, Nat.le_of_succ_le_succ hle, hb, hleads⟩
        exact hfurther l hl hwithin l.target rfl a i ha hleads'

/-- Going along links whose ends agree changes nothing. -/
theorem propagate_still {part : List Link} (hrange : ∀ l ∈ part, l.InRange m)
    (h : ∀ l ∈ part, m.Agree l.source m l.target) : propagate part m = .ok m := by
  induction part with
  | nil => rfl
  | cons l part ih =>
    obtain ⟨m₁, changed, hl⟩ := Memory.forward_isOk (hrange l (List.mem_cons_self ..))
    have hsame : m₁ = m :=
      (Memory.carries_forward hl).still (h l (List.mem_cons_self ..))
    subst hsame
    rw [propagate, List.foldlM_cons, hl]
    exact ih (fun l' hl' => hrange l' (List.mem_cons_of_mem _ hl'))
      fun l' hl' => h l' (List.mem_cons_of_mem _ hl')

/-- **Values go along links, one link in each pass.**

1. A pass along any links that memory has changes no committed value, no default and no slot at
   which no link ends; and each link at whose ends no later link ends has equal ends afterwards.
2. Let no slot be the end of two links and no chain be cyclic. Then there is a longest chain, and
   after as many passes as it has links, the end of every link has the value that the first slot of
   its chain had before. Another pass changes nothing. -/
theorem propagation_converges (links : List Link) :
    (∀ m, (∀ l ∈ links, l.InRange m) → ∃ m', propagate links m = .ok m' ∧
      (∀ x, m'.readOld? x = m.readOld? x) ∧ (∀ x, m'.readDefault? x = m.readDefault? x) ∧
      (∀ x, x ∉ links.map Link.target → m'.cell? x = m.cell? x) ∧
      ∀ before l after, links = before ++ l :: after → l.source ∉ after.map Link.target →
        l.target ∉ after.map Link.target → m'.Agree l.source m' l.target) ∧
    ((links.map Link.target).Nodup → Acyclic links →
      ∃ n, IsGreatest {n | ∃ a x, Leads links a n x} n ∧
        ∀ m, (∀ l ∈ links, l.InRange m) → ∃ m', passes links n m = .ok m' ∧
          (∀ l ∈ links, ∃ a k, Source links a ∧ Leads links a k l.target) ∧
          (∀ l ∈ links, ∀ a k, Source links a → Leads links a k l.target →
            m.Agree a m' l.target) ∧
          propagate links m' = .ok m') := by
  constructor
  · intro m hrange
    obtain ⟨m', hpass⟩ := propagate_isOk hrange
    obtain ⟨hcells, hold, hdflt⟩ := carries_pass hpass
    refine ⟨m', hpass, hold, hdflt, hcells, ?_⟩
    rintro before l after rfl hsource htarget
    exact ends_agree hpass hsource htarget
  · intro hone hacyclic
    obtain ⟨n, -, hlongest⟩ := exists_longest hacyclic
    refine ⟨n, hlongest, fun m hrange => ?_⟩
    obtain ⟨m', hpasses, hsize, hsettled⟩ := settled_passes hone hrange n
    -- every slot of memory has been reached
    have hall : ∀ x, x.InRange m → ∀ a k, Source links a → Leads links a k x → m.Agree a m' x := by
      intro x hx a k hsource hleads
      exact hsettled x ⟨hx, a, k, hlongest.2 ⟨a, x, hleads⟩, hsource, hleads⟩ a k hsource hleads
    refine ⟨m', hpasses, fun l _ => exists_source hacyclic l.target,
      fun l hl => hall l.target (hrange l hl).2, propagate_still (fun l hl => ?_) fun l hl => ?_⟩
    · rw [Link.InRange, hsize]
      exact hrange l hl
    · obtain ⟨a, k, hsource, hleads⟩ := exists_source hacyclic l.source
      exact (hall l.source (hrange l hl).1 a k hsource hleads).symm.trans
        (hall l.target (hrange l hl).2 a (k + 1) hsource (.step hleads hl))

/-- A chain along which some rank rises is no longer than the rank rises along it. -/
theorem Leads.rank {rank : Slot → Nat} (hrises : ∀ l ∈ links, rank l.source < rank l.target)
    (h : Leads links a n x) : rank a + n ≤ rank x := by
  induction h with
  | refl => exact Nat.le_refl _
  | step _ hl ih => exact Nat.le_trans (Nat.succ_le_succ ih) (hrises _ hl)

/-- Two links that make one chain, the second of which is declared first. -/
def crossed : List Link := [⟨.float, 1, 2⟩, ⟨.float, 0, 1⟩]

/-- A number at the beginning of the chain, and zero elsewhere. -/
def atBeginning : Memory := { floats := #[.uniform 3, .uniform 0, .uniform 0] }

/-- It takes two passes. -/
theorem propagation_converges_crossed :
    ((passes crossed 1 atBeginning).toOption.bind (·.read? ⟨.float, 2⟩)) = some (.float 0) ∧
      ∃ m, passes crossed 2 atBeginning = .ok m ∧ propagate crossed m = .ok m ∧
        atBeginning.Agree ⟨.float, 0⟩ m ⟨.float, 2⟩ := by
  have hrises : ∀ l ∈ crossed, Slot.index l.source < Slot.index l.target := by decide
  have hacyclic : Acyclic crossed := fun n a h => by
    have := h.rank hrises
    omega
  obtain ⟨n, hlongest, hpasses⟩ := (propagation_converges crossed).2 (by decide) hacyclic
  have hchain : Leads crossed ⟨.float, 0⟩ 2 ⟨.float, 2⟩ :=
    .step (l := ⟨.float, 1, 2⟩) (.step (l := ⟨.float, 0, 1⟩) .refl (by decide)) (by decide)
  -- no chain is longer, since no link ends behind the third slot
  have hn : n = 2 := by
    refine Nat.le_antisymm ?_ (hlongest.2 ⟨_, _, hchain⟩)
    obtain ⟨a, x, hleads⟩ := hlongest.1
    cases hleads with
    | refl => exact Nat.zero_le 2
    | @step k l hleads hl =>
      have hrank := (hleads.step hl).rank hrises
      have hlast : ∀ l ∈ crossed, Slot.index l.target ≤ 2 := by decide
      have := hlast l hl
      omega
  subst hn
  have hrange : ∀ l ∈ crossed, l.InRange atBeginning := by
    simp [crossed, atBeginning, Link.InRange, Memory.size]
  obtain ⟨m, hm, -, hagree, hstill⟩ := hpasses atBeginning hrange
  have hsource : Source crossed ⟨.float, 0⟩ := by
    show _ ∉ _
    decide
  refine ⟨by decide +kernel, m, hm, hstill, ?_⟩
  exact hagree ⟨.float, 1, 2⟩ (by decide) ⟨.float, 0⟩ 2 hsource hchain

end Tree

end SchemePlayer
