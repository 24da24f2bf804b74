import SchemePlayer.Proofs.Machine.Nesting

/-!
# Nested executions are those of the machine

A tick of the machine and the visit by nested executions do the same: they begin the same
instructions in the same order, leave the same memory, host and counts behind, and end in the same
way. What the machine drops when a tick yields or fails, the nested executions unwind one by one.

- `Machine.Course`: the way of a tick to its end, with the instructions that are begun on it.
- `Guarded.After`: what is left of a course when an execution or a visit has reported its verdict.
  It goes on below the execution, or the tick is over and the verdict says how.
- `Guarded.loop_follows`, `Guarded.execute_follows`, `Guarded.visit_follows`: runs of code,
  executions and visits along a course. The level is always the number of executions of the
  machine.
- `Guarded.visit_eq_run`: **the visit of the whole tree is the tick.**
-/

namespace SchemePlayer

variable {σ : Type} {h : Host σ} {s : Setting}

/-! ### Courses -/

namespace Machine

/-- The instruction that the next step begins, if it begins one. -/
def site? (m : Machine σ) : Option CallSite :=
  match m.frames with
  | [] => none
  | f :: _ => if f.targets = [] then f.site? else none

/-- The instructions that a run begins, in order. -/
def sites (h : Host σ) (s : Setting) : Nat → Machine σ → List CallSite
  | 0, _ => []
  | budget + 1, m =>
    m.site?.toList ++
      match m.step h s with
      | (m', none) => sites h s budget m'
      | (_, some _) => []

/-- `Course h s budget m sites last how`: within the budget, the tick comes from `m` to its end
`how` at `last`, and begins the instructions `sites` on its way. -/
inductive Course (h : Host σ) (s : Setting) :
    Nat → Machine σ → List CallSite → Machine σ → TickEnd → Prop where
  | ends {budget : Nat} {m last : Machine σ} {how : TickEnd} : m.step h s = (last, some how) →
      Course h s (budget + 1) m m.site?.toList last how
  | goes {budget : Nat} {m m' : Machine σ} {sites : List CallSite} {last : Machine σ}
      {how : TickEnd} : m.step h s = (m', none) → Course h s budget m' sites last how →
      Course h s (budget + 1) m (m.site?.toList ++ sites) last how

/-- A run that ends in time is a course. -/
theorem course_of_run {budget : Nat} {m : Machine σ}
    (hends : (m.run h s budget).2 ≠ .failed .exhausted) :
    Course h s budget m (m.sites h s budget) (m.run h s budget).1 (m.run h s budget).2 := by
  induction budget generalizing m with
  | zero => exact absurd rfl hends
  | succ budget ih =>
    unfold run at hends ⊢
    unfold sites
    rcases hstep : m.step h s with ⟨m', _ | how⟩
    · rw [hstep] at hends
      exact .goes hstep (ih hends)
    · dsimp only
      rw [List.append_nil]
      exact .ends hstep

/-- An execution stays one of its instance. -/
theorem inst_of_turn {m m' : Machine σ} {f f' : Frame} (hturn : m.turn h s f = .on m' f') :
    f'.inst = f.inst := by
  unfold turn at hturn
  dsimp only at hturn
  split at hturn
  · cases hturn
  · split at hturn
    · cases hturn
    · cases hturn
    · split at hturn
      · cases hturn
      · rename_i e _
        cases e with
        | finish => cases hturn
        | store slot value stack =>
          dsimp only [turnOf] at hturn
          split at hturn
          · cases hturn
            rfl
          · cases hturn
        | ask call stack =>
          dsimp only [turnOf, turnOfCall] at hturn
          split at hturn
          · cases hturn
            rfl
          · cases hturn
          · cases hturn
            rfl
          · split at hturn
            · cases hturn
            · cases hturn
              rfl
          · cases hturn
        | _ =>
          cases hturn
          rfl

end Machine

open Machine

namespace Guarded

/-- What is left of a course when an execution or a visit that began with the log `before` has
reported its verdict, and has left the machine and the log as given. -/
inductive After (h : Host σ) (s : Setting) (budget : Nat) (before sites : List CallSite)
    (last : Machine σ) (how : TickEnd) (agenda : List Visit) (outer : List Frame)
    (base : Machine σ) (log : List CallSite) (verdict : Verdict) : Prop where
  /-- the tick goes on with what is left of the visit and the executions around it -/
  | on {left : Nat} {rest : List CallSite} (hgoes : verdict.end? = none) (hle : left ≤ budget)
      (hcourse : Course h s left (base.within agenda outer) rest last how)
      (hlog : log ++ rest = before ++ sites)
  /-- the tick is over -/
  | stops {visits : List Visit} {frames : List Frame} (hends : verdict.end? = some how)
      (hlast : last = base.within visits frames) (hlog : log = before ++ sites)

variable {budget fuel : Nat} {before sites : List CallSite} {last : Machine σ} {how : TickEnd}
  {agenda : List Visit} {outer : List Frame} {base : Machine σ} {log : List CallSite}
  {verdict : Verdict} {w : Guarded σ}

/-- What comes after a part of a course comes after the whole. -/
theorem After.earlier {left : Nat} {middle rest : List CallSite}
    (hafter : After h s left middle rest last how agenda outer base log verdict)
    (hle : left ≤ budget) (hlog : middle ++ rest = before ++ sites) :
    After h s budget before sites last how agenda outer base log verdict := by
  cases hafter with
  | on hgoes hless hcourse hmore =>
    exact .on hgoes (Nat.le_trans hless hle) hcourse (hmore.trans hlog)
  | stops hends hlast hmore => exact .stops hends hlast (hmore.trans hlog)

/-- Code that follows the machine along every course that is no longer than the fuel. -/
def Follows (h : Host σ) (s : Setting) (fuel : Nat) (code : Code σ) : Prop :=
  ∀ {budget : Nat} {w : Guarded σ} {f : Frame} {agenda : List Visit} {outer : List Frame}
    {sites : List CallSite} {last : Machine σ} {how : TickEnd} (offset : Nat), budget ≤ fuel →
    w.level = outer.length + 1 →
    Course h s budget (w.base.within agenda (f :: outer)) sites last how →
    ∃ w' offset' exit, code w f offset = some (w', offset', exit) ∧
      After h s budget w.log sites last how agenda outer w'.base w'.log
        (exit.verdict f.inst.proto.name offset')

/-- An execution follows the machine if its code does. -/
theorem executeWith_follows {code : Code σ} (hcode : Follows h s fuel code) {id : Nat}
    (hle : budget ≤ fuel) (hlevel : w.level = outer.length)
    (hcourse : Course h s budget ((w.base.within agenda outer).begin s id) sites last how) :
    ∃ w' verdict, executeWith code s w id = some (w', verdict) ∧
      After h s budget w.log sites last how agenda outer w'.base w'.log verdict := by
  have hframes : (w.base.within agenda outer).frames = outer := rfl
  unfold begin at hcourse
  unfold executeWith
  rw [hframes, ← hlevel] at hcourse
  by_cases hroom : w.level < s.maxDepth
  · rw [if_pos hroom] at hcourse ⊢
    cases hid : s.tree.instance? id with
    | none =>
      rw [hid] at hcourse
      exact ⟨w, .done, rfl, .on rfl (Nat.le_refl _) hcourse rfl⟩
    | some inst =>
      rw [hid] at hcourse
      obtain ⟨w', offset, exit, hrun, hafter⟩ := hcode (w := { w with level := w.level + 1 })
        (f := { id, inst }) 0 hle (by rw [← hlevel]) hcourse
      dsimp only
      rw [hrun]
      exact ⟨_, _, rfl, hafter⟩
  · rw [if_neg hroom] at hcourse ⊢
    exact ⟨w.deny 1, .denied, rfl, .on rfl (Nat.le_refl _) hcourse rfl⟩

/-- A message is brought to its next target. The execution of the target is over after that, or it
has ended the tick. -/
theorem loop_follows_target (ih : Follows h s fuel (loop h s fuel)) {f : Frame} {target : Nat}
    {targets : List Nat} (htargets : f.targets = target :: targets) (offset : Nat)
    (hle : budget ≤ fuel + 1) (hlevel : w.level = outer.length + 1)
    (hcourse : Course h s budget (w.base.within agenda (f :: outer)) sites last how) :
    ∃ w' offset' exit, loop h s (fuel + 1) w f offset = some (w', offset', exit) ∧
      After h s budget w.log sites last how agenda outer w'.base w'.log
        (exit.verdict f.inst.proto.name offset') := by
  have hstep : (w.base.within agenda (f :: outer)).step h s =
      goesOn ((w.base.within agenda ({ f with targets } :: outer)).begin s target) := by
    simp only [step, within, Machine.execute, htargets]
  have hsite : (w.base.within agenda (f :: outer)).site? = none := by
    simp [site?, within, htargets]
  cases hcourse with
  | ends hend => cases hstep.symm.trans hend
  | @goes left _ _ rest _ _ hgo hrest =>
    cases hstep.symm.trans hgo
    rw [hsite, Option.toList_none, List.nil_append]
    have hless : left ≤ fuel := Nat.le_of_succ_le_succ hle
    obtain ⟨w₁, verdict, hrun, hafter⟩ := executeWith_follows ih hless hlevel hrest
    have hkeeps : w₁.level = w.level :=
      level_executeWith (fun _ _ _ _ _ _ hcode => level_loop hcode) hrun
    simp only [loop, htargets, hrun]
    cases hafter with
    | @on least more hgoes hleft hcourse hlog =>
      have hmore : ∃ w' offset' exit,
          loop h s fuel w₁ { f with targets } offset = some (w', offset', exit) ∧
            After h s (left + 1) w.log rest last how agenda outer w'.base w'.log
              (exit.verdict f.inst.proto.name offset') := by
        obtain ⟨w', offset', exit, hloop, hafter⟩ :=
          ih offset (Nat.le_trans hleft hless) (hkeeps.trans hlevel) hcourse
        exact ⟨w', offset', exit, hloop, hafter.earlier (Nat.le_succ_of_le hleft) hlog⟩
      cases verdict with
      | done => exact hmore
      | denied => exact hmore
      | yielded => cases hgoes
      | failed cause => cases hgoes
    | stops hends hlast hlog =>
      cases verdict with
      | done => cases hends
      | denied => cases hends
      | yielded => exact ⟨w₁, offset, .yielded, rfl, .stops hends hlast hlog⟩
      | failed cause => exact ⟨w₁, offset, .thrown (.located cause), rfl, .stops hends hlast hlog⟩

/-- An instruction is executed. -/
theorem loop_follows_turn (ih : Follows h s fuel (loop h s fuel)) {f : Frame}
    (htargets : f.targets = []) (offset : Nat) (hle : budget ≤ fuel + 1)
    (hlevel : w.level = outer.length + 1)
    (hcourse : Course h s budget (w.base.within agenda (f :: outer)) sites last how) :
    ∃ w' offset' exit, loop h s (fuel + 1) w f offset = some (w', offset', exit) ∧
      After h s budget w.log sites last how agenda outer w'.base w'.log
        (exit.verdict f.inst.proto.name offset') := by
  have hstep : (w.base.within agenda (f :: outer)).step h s =
      ofTurn agenda f outer (w.base.turn h s f) := step_eq_ofTurn htargets
  have hsite : (w.base.within agenda (f :: outer)).site? = f.site? := by
    simp [site?, within, htargets]
  simp only [loop, htargets]
  cases hcourse with
  | @goes left _ _ rest _ _ hgo hrest =>
    rw [hsite]
    cases hturn : w.base.turn h s f with
    | on base f' =>
      rw [hturn] at hstep
      cases hstep.symm.trans hgo
      obtain ⟨w', offset', exit, hloop, hafter⟩ :=
        ih (w := { w with base, log := w.log ++ f.site?.toList }) f.pc
          (Nat.le_of_succ_le_succ hle) hlevel hrest
      rw [inst_of_turn hturn] at hafter
      exact ⟨w', offset', exit, hloop, hafter.earlier (Nat.le_succ _) (List.append_assoc ..)⟩
    | ended base =>
      rw [hturn] at hstep
      cases hstep.symm.trans hgo
      exact ⟨_, _, _, rfl, .on rfl (Nat.le_succ _) hrest (List.append_assoc ..)⟩
    | yielded base =>
      rw [hturn] at hstep
      cases hstep.symm.trans hgo
    | raised base fault =>
      rw [hturn] at hstep
      cases hstep.symm.trans hgo
  | ends hend =>
    rw [hsite]
    cases hturn : w.base.turn h s f with
    | on base f' =>
      rw [hturn] at hstep
      cases hstep.symm.trans hend
    | ended base =>
      rw [hturn] at hstep
      cases hstep.symm.trans hend
    | yielded base =>
      rw [hturn] at hstep
      cases hstep.symm.trans hend
      exact ⟨_, _, _, rfl, .stops rfl rfl rfl⟩
    | raised base fault =>
      -- the fault is located here, where it was raised
      rw [hturn] at hstep
      cases hstep.symm.trans hend
      exact ⟨_, _, _, rfl, .stops rfl rfl rfl⟩

/-- **A run of code follows the machine.** -/
theorem loop_follows : Follows h s fuel (loop h s fuel) := by
  -- every step of the machine takes a unit of fuel away, at whatever depth
  induction fuel with
  | zero =>
    intro budget w f agenda outer sites last how offset hle hlevel hcourse
    cases hcourse with
    | ends hstep => cases hle
    | goes hstep hrest => cases hle
  | succ fuel ih =>
    intro budget w f agenda outer sites last how offset hle hlevel hcourse
    cases htargets : f.targets with
    | cons target targets => exact loop_follows_target ih htargets offset hle hlevel hcourse
    | nil => exact loop_follows_turn ih htargets offset hle hlevel hcourse

/-- **An execution follows the machine**, with everything that messages reach from it. -/
theorem execute_follows {id : Nat} (hle : budget ≤ fuel) (hlevel : w.level = outer.length)
    (hcourse : Course h s budget ((w.base.within agenda outer).begin s id) sites last how) :
    ∃ w' verdict, w.execute h s fuel id = some (w', verdict) ∧
      After h s budget w.log sites last how agenda outer w'.base w'.log verdict :=
  executeWith_follows loop_follows hle hlevel hcourse

/-! ### Visits -/

/-- Visits that follow the machine along every course that is no longer than the fuel. -/
def VisitFollows (h : Host σ) (s : Setting) (fuel : Nat)
    (visit : Guarded σ → Nat → Option (Guarded σ × Verdict)) : Prop :=
  ∀ {budget : Nat} {w : Guarded σ} {id : Nat} {agenda : List Visit} {sites : List CallSite}
    {last : Machine σ} {how : TickEnd}, budget ≤ fuel → w.level = 0 →
    Course h s budget (w.base.within (.enter id :: agenda) []) sites last how →
    ∃ w' verdict, visit w id = some (w', verdict) ∧ w'.level = 0 ∧
      After h s budget w.log sites last how agenda [] w'.base w'.log verdict

/-- Visits one after the other follow the machine if every single one does. -/
theorem visitAll_follows {visit : Guarded σ → Nat → Option (Guarded σ × Verdict)}
    (hvisit : VisitFollows h s fuel visit) {ids : List Nat} (hle : budget ≤ fuel)
    (hlevel : w.level = 0)
    (hcourse : Course h s budget (w.base.within (ids.map .enter ++ agenda) []) sites last how) :
    ∃ w' verdict, visitAll visit ids w = some (w', verdict) ∧ w'.level = 0 ∧ verdict ≠ .denied ∧
      After h s budget w.log sites last how agenda [] w'.base w'.log verdict := by
  induction ids generalizing budget w sites with
  | nil => exact ⟨w, .done, rfl, hlevel, Verdict.noConfusion, .on rfl (Nat.le_refl _) hcourse rfl⟩
  | cons id ids ih =>
    obtain ⟨w₁, verdict, hfirst, hlevel₁, hafter⟩ := hvisit hle hlevel hcourse
    simp only [visitAll, hfirst]
    cases hafter with
    | @on left rest hgoes hleft hcourse hlog =>
      have hmore : ∃ w' verdict, visitAll visit ids w₁ = some (w', verdict) ∧ w'.level = 0 ∧
          verdict ≠ .denied ∧
          After h s budget w.log sites last how agenda [] w'.base w'.log verdict := by
        obtain ⟨w', verdict, hrun, hlevel', hnot, hafter⟩ :=
          ih (Nat.le_trans hleft hle) hlevel₁ hcourse
        exact ⟨w', verdict, hrun, hlevel', hnot, hafter.earlier hleft hlog⟩
      cases verdict with
      | done => exact hmore
      | denied => exact hmore
      | yielded => cases hgoes
      | failed cause => cases hgoes
    | stops hends hlast hlog =>
      cases verdict with
      | done => cases hends
      | denied => cases hends
      | yielded => exact ⟨w₁, _, rfl, hlevel₁, Verdict.noConfusion, .stops hends hlast hlog⟩
      | failed cause => exact ⟨w₁, _, rfl, hlevel₁, Verdict.noConfusion, .stops hends hlast hlog⟩

/-- When everything below an instance has been visited, the instance itself follows the machine. -/
theorem run_follows {id : Nat} (hle : budget ≤ fuel) (hlevel : w.level = 0)
    (hcourse : Course h s budget (w.base.within (.run id :: agenda) []) sites last how) :
    ∃ w' verdict, w.execute h s fuel id = some (w', verdict) ∧ w'.level = 0 ∧
      After h s budget w.log sites last how agenda [] w'.base w'.log verdict := by
  have hstep : (w.base.within (.run id :: agenda) []).step h s =
      goesOn ((w.base.within agenda []).begin s id) := rfl
  cases hcourse with
  | ends hend => cases hstep.symm.trans hend
  | goes hgo hrest =>
    cases hstep.symm.trans hgo
    obtain ⟨w', verdict, hrun, hafter⟩ :=
      execute_follows (Nat.le_of_succ_le hle) hlevel hrest
    exact ⟨w', verdict, hrun, (level_execute hrun).trans hlevel,
      hafter.earlier (Nat.le_succ _) rfl⟩

/-- **A visit follows the machine.** -/
theorem visit_follows : VisitFollows h s fuel (visit h s fuel) := by
  induction fuel with
  | zero =>
    intro budget w id agenda sites last how hle hlevel hcourse
    cases hcourse with
    | ends hstep => cases hle
    | goes hstep hrest => cases hle
  | succ fuel ih =>
    intro budget w id agenda sites last how hle hlevel hcourse
    have hstep : (w.base.within (.enter id :: agenda) []).step h s =
        goesOn ((w.base.within agenda []).visit s (.enter id)) := rfl
    cases hcourse with
    | ends hend => cases hstep.symm.trans hend
    | @goes left _ _ rest _ _ hgo hrest =>
      cases hstep.symm.trans hgo
      have hless : left ≤ fuel := Nat.le_of_succ_le_succ hle
      have hsites : (w.base.within (.enter id :: agenda) []).site?.toList ++ rest = rest := rfl
      rw [hsites]
      unfold visit
      unfold Machine.visit at hrest
      dsimp only at hrest
      cases hid : s.tree.instance? id with
      | none =>
        rw [hid] at hrest
        exact ⟨w, .done, rfl, hlevel, .on rfl (Nat.le_succ _) hrest rfl⟩
      | some inst =>
        rw [hid] at hrest
        have hswitch : (w.base.within agenda []).isDisabled inst = w.base.isDisabled inst := rfl
        dsimp only at hrest ⊢
        rw [hswitch] at hrest
        cases hdisabled : w.base.isDisabled inst with
        | true =>
          rw [hdisabled] at hrest
          exact ⟨w, .done, rfl, hlevel, .on rfl (Nat.le_succ _) hrest rfl⟩
        | false =>
          rw [hdisabled] at hrest
          obtain ⟨w₁, verdict, hbelow, hlevel₁, hnot, hafter⟩ :=
            visitAll_follows ih hless hlevel hrest
          simp only [hbelow, Bool.false_eq_true, if_false]
          cases hafter with
          | @on least more hgoes hleft hcourse hlog =>
            obtain rfl : verdict = .done := by
              cases verdict with
              | done => rfl
              | denied => exact absurd rfl hnot
              | yielded => cases hgoes
              | failed cause => cases hgoes
            obtain ⟨w', verdict, hrun, hlevel', hafter⟩ :=
              run_follows (Nat.le_trans hleft hless) hlevel₁ hcourse
            exact ⟨w', verdict, hrun, hlevel', hafter.earlier (Nat.le_succ_of_le hleft) hlog⟩
          | stops hends hlast hlog =>
            cases verdict with
            | done => cases hends
            | denied => cases hends
            | yielded => exact ⟨w₁, _, rfl, hlevel₁, .stops hends hlast hlog⟩
            | failed cause => exact ⟨w₁, _, rfl, hlevel₁, .stops hends hlast hlog⟩

/-- **The visit of the whole tree is the tick**: where the machine begins with nothing but the visit
of the root and ends in time, the visit ends at the level at which it began, in the same way, with
the same memory, host and counts, and has begun the same instructions. -/
theorem visit_eq_run {m : Machine σ} (hagenda : m.agenda = [.enter Tree.root])
    (hframes : m.frames = []) (hends : (m.run h s budget).2 ≠ .failed .exhausted) :
    ∃ w verdict visits frames, visit h s budget { base := m } Tree.root = some (w, verdict) ∧
      w.level = 0 ∧ (m.run h s budget).2 = verdict.end?.getD .completed ∧
      (m.run h s budget).1 = w.base.within visits frames ∧ w.log = m.sites h s budget := by
  have hcourse := course_of_run hends
  have hfirst : ({ base := m } : Guarded σ).base.within [.enter Tree.root] [] = m := by
    show { m with agenda := [.enter Tree.root], frames := [] } = m
    rw [← hagenda, ← hframes]
  generalize m.sites h s budget = sites at hcourse ⊢
  generalize m.run h s budget = ended at hcourse ⊢
  obtain ⟨last, how⟩ := ended
  obtain ⟨w, verdict, hvisit, hlevel, hafter⟩ :=
    visit_follows (Nat.le_refl budget) rfl (hfirst.symm ▸ hcourse)
  cases hafter with
  | stops hstops hlast hlog =>
    exact ⟨w, verdict, _, _, hvisit, hlevel, by rw [hstops]; rfl, hlast, hlog⟩
  | on hgoes hle hrest hlog =>
    -- nothing is left to visit
    have hstep : (w.base.within [] []).step h s = (w.base.within [] [], some .completed) := rfl
    cases hrest with
    | goes hgo hmore => cases hstep.symm.trans hgo
    | ends hend =>
      cases hstep.symm.trans hend
      refine ⟨w, verdict, [], [], hvisit, hlevel, by rw [hgoes]; rfl, rfl, ?_⟩
      have hnone : w.log ++ [] = sites := hlog
      rwa [List.append_nil] at hnone

end Guarded

end SchemePlayer
