import SchemePlayer.Executor.Trial

/-!
# Runners in use

Anybody may tell a runner to run or to stop, at any time, and all loops that were ever started move
beside that, each at its own speed. A command gets hold of the runner, tells the current loop to
stop, puts a new loop in its place or none, and lets go of the runner again. Other commands have to
wait for that; loops do not.

- `Usage`: a runner, and the command that has hold of it. `Usage.step?`: what a move makes of it, if
  the move is possible; `Usage.after?`: what several moves make of it, one after another.
- `Usage.Step`: what moves there are, one constructor for each kind (`step?_eq_some_iff`).
- A command that nobody gets in the way of does what `Runner.run` and `Runner.stop` say
  (`after?_run`, `after?_stop`), and a loop does what `Runner.drive` says (`leads_drive`). So
  **whatever comes out of a trial comes out of some sequence of moves** (`leads_inTurn`,
  `leads_trialStop`, `leads_trialReplace`).
-/

namespace SchemePlayer

/-! ### Turns -/

namespace Loop

variable {pace : Pace} {l : Loop} {t : Turn}

/-- Where a loop is before a turn. -/
def Turn.source : Turn → LoopPhase
  | heeds | commits | givesUp => .looking
  | calls => .committed
  | returns _ => .calling
  | finishes => .leaving

/-- Where it is afterwards. -/
def Turn.target : Turn → LoopPhase
  | heeds | givesUp => .leaving
  | commits => .committed
  | calls => .calling
  | returns goesOn => if goesOn then .looking else .leaving
  | finishes => .ended

theorem phase_of_fits (h : t.Fits pace l) : l.phase = t.source := by
  cases t with
  | heeds | commits => exact h.2.1
  | givesUp => exact h.2
  | calls | returns _ | finishes => exact h

theorem phase_take (h : t.Fits pace l) : (t.take l).phase = t.target := by
  have hsource := phase_of_fits h
  cases t with
  | heeds => exact congrArg phase (if_pos ⟨hsource, h.2.2⟩)
  | commits | givesUp | calls | returns _ | finishes => exact congrArg phase (if_pos hsource)

/-- A turn that begins somewhere else changes nothing. -/
theorem take_eq_self (h : l.phase ≠ t.source) : t.take l = l := by
  cases t with
  | heeds => exact if_neg fun hlooking => h hlooking.1
  | commits | givesUp | calls | returns _ | finishes => exact if_neg h

end Loop

/-! ### Runners move by move -/

namespace Runner

/-- What a runner can be told. -/
inductive Command where
  | run
  | stop
  deriving DecidableEq, Repr

/-- What a command does to a runner whose current loop has been told to stop. -/
def settle (r : Runner) : Command → Runner
  | .run => r.put
  | .stop => r.drop

variable (r : Runner) (i j : Nat) (t : Loop.Turn)

@[simp] theorem current_tellCurrent : r.tellCurrent.current = r.current := by
  unfold tellCurrent
  split <;> rfl

@[simp] theorem size_tellCurrent : r.tellCurrent.loops.size = r.loops.size := by
  unfold tellCurrent
  split
  · rfl
  · exact Array.size_modify

theorem getElem?_tellCurrent : r.tellCurrent.loops[i]? =
    if r.current = some i then r.loops[i]?.map Loop.tell else r.loops[i]? := by
  unfold tellCurrent
  cases hcurrent : r.current with
  | none => rfl
  | some k =>
    show (r.loops.modify k Loop.tell)[i]? = _
    rw [Array.getElem?_modify]
    simp only [Option.some.injEq]

@[simp] theorem size_turn : (r.turn i t).loops.size = r.loops.size := Array.size_modify

theorem getElem?_turn : (r.turn i t).loops[j]? =
    if i = j then r.loops[j]?.map t.take else r.loops[j]? := Array.getElem?_modify

theorem getElem?_put : r.put.loops[i]? = if i = r.loops.size then some {} else r.loops[i]? :=
  Array.getElem?_push

variable {r i}

theorem size_settle (command : Command) : (r.settle command).loops.size =
    r.loops.size + if command = .run then 1 else 0 := by
  cases command with
  | run => exact Array.size_push ..
  | stop => rfl

/-- A command leaves the loops that are there as they are. -/
theorem getElem?_settle (h : i < r.loops.size) (command : Command) :
    (r.settle command).loops[i]? = r.loops[i]? := by
  cases command with
  | run => rw [settle, getElem?_put, if_neg (Nat.ne_of_lt h)]
  | stop => rfl

/-- None of them is the current one then. -/
theorem current_settle_ne (h : i < r.loops.size) (command : Command) :
    (r.settle command).current ≠ some i := by
  cases command with
  | run => exact fun hsame => Nat.ne_of_gt h (Option.some.inj hsame)
  | stop => nofun

/-- A loop that is there after a command was there before, or it is the new one. -/
theorem settle_cases {command : Command} {l : Loop}
    (h : (r.settle command).loops[i]? = some l) :
    r.loops[i]? = some l ∧ (r.settle command).current ≠ some i ∨
      l = {} ∧ (r.settle command).current = some i := by
  by_cases hi : i < r.loops.size
  · rw [getElem?_settle hi] at h
    exact .inl ⟨h, current_settle_ne hi command⟩
  · cases command with
    | run =>
      rw [settle, getElem?_put] at h
      split at h
      · rename_i hnew
        cases h
        exact .inr ⟨rfl, congrArg some hnew.symm⟩
      · exact absurd (Array.getElem?_eq_some_iff.mp h).1 hi
    | stop => exact absurd (Array.getElem?_eq_some_iff.mp h).1 hi

theorem running_iff : r.running = true ↔
    ∃ i l, r.current = some i ∧ r.loops[i]? = some l ∧ l.phase ≠ .ended := by
  unfold running
  cases hcurrent : r.current with
  | none => simp
  | some i => cases hl : r.loops[i]? <;> simp [hl]

/-- A runner does not change if no loop does. -/
theorem modify_eq_self {change : Loop → Loop}
    (h : ∀ l, r.loops[i]? = some l → change l = l) :
    { r with loops := r.loops.modify i change } = r := by
  have hsame : r.loops.modify i change = r.loops := by
    refine Array.ext_getElem? fun j => ?_
    rw [Array.getElem?_modify]
    split
    · rename_i hij
      subst hij
      cases hl : r.loops[i]? with
      | none => rfl
      | some l => exact congrArg some (h l hl)
    · rfl
  rw [hsame]

end Runner

/-- A runner in use. -/
structure Usage where
  runner : Runner := {}
  /-- the command that has hold of the runner -/
  holder : Option Runner.Command := none
  deriving DecidableEq, Repr

namespace Usage

/-- A move of somebody who uses a runner, or of one of its loops. -/
inductive Move where
  /-- a command gets hold of the runner and tells the current loop to stop -/
  | asks (command : Runner.Command)
  /-- it puts a new loop in the place of that, or none, and lets go -/
  | settles (command : Runner.Command)
  /-- a loop takes a turn -/
  | turns (i : Nat) (turn : Loop.Turn)
  deriving DecidableEq, Repr

/-- A runner with loops of this pace after a move, if the move is possible. -/
def step? (pace : Pace) (u : Usage) : Move → Option Usage
  | .asks command =>
    if u.holder = none then some { runner := u.runner.tellCurrent, holder := some command }
    else none
  | .settles command =>
    if u.holder = some command then some { runner := u.runner.settle command } else none
  | .turns i turn =>
    (u.runner.loops[i]?).bind fun l =>
      if turn.Fits pace l then some { u with runner := u.runner.turn i turn } else none

/-- What is left after moves one after another, if they are possible. -/
def after? (pace : Pace) (u : Usage) (moves : List Move) : Option Usage :=
  moves.foldlM (step? pace) u

/-- The moves that are possible. -/
inductive Step (pace : Pace) (u : Usage) : Move → Usage → Prop where
  | asks {command : Runner.Command} (hfree : u.holder = none) :
      Step pace u (.asks command) { runner := u.runner.tellCurrent, holder := some command }
  | settles {command : Runner.Command} (hholder : u.holder = some command) :
      Step pace u (.settles command) { runner := u.runner.settle command }
  | turns {i : Nat} {turn : Loop.Turn} {l : Loop} (hl : u.runner.loops[i]? = some l)
      (hfits : turn.Fits pace l) :
      Step pace u (.turns i turn) { u with runner := u.runner.turn i turn }

variable {pace : Pace} {u u' u'' : Usage} {m : Move} {moves moves' : List Move}

theorem step?_eq_some_iff : u.step? pace m = some u' ↔ Step pace u m u' := by
  constructor
  · intro h
    cases m with
    | asks command =>
      obtain ⟨hfree, hu'⟩ := Option.ite_none_right_eq_some.mp h
      cases hu'
      exact .asks hfree
    | settles command =>
      obtain ⟨hholder, hu'⟩ := Option.ite_none_right_eq_some.mp h
      cases hu'
      exact .settles hholder
    | turns i turn =>
      obtain ⟨l, hl, hstep⟩ := Option.bind_eq_some_iff.mp h
      obtain ⟨hfits, hu'⟩ := Option.ite_none_right_eq_some.mp hstep
      cases hu'
      exact .turns hl hfits
  · intro h
    cases h with
    | asks hfree => exact if_pos hfree
    | settles hholder => exact if_pos hholder
    | turns hl hfits =>
      rw [step?, hl]
      exact if_pos hfits

theorem after?_cons : u.after? pace (m :: moves) = some u'' ↔
    ∃ u', Step pace u m u' ∧ u'.after? pace moves = some u'' := by
  rw [after?, List.foldlM_cons]
  simp only [Option.bind_eq_bind, Option.bind_eq_some_iff, step?_eq_some_iff]
  rfl

theorem after?_append : u.after? pace (moves ++ moves') = some u'' ↔
    ∃ u', u.after? pace moves = some u' ∧ u'.after? pace moves' = some u'' := by
  rw [after?, List.foldlM_append]
  exact Option.bind_eq_some_iff

/-! ### Without interference -/

/-- A command to run that nobody gets in the way of. -/
theorem after?_run (r : Runner) :
    ({ runner := r } : Usage).after? pace [.asks .run, .settles .run] = some { runner := r.run } :=
  rfl

/-- A command to stop that nobody gets in the way of. -/
theorem after?_stop (r : Runner) :
    ({ runner := r } : Usage).after? pace [.asks .stop, .settles .stop] =
      some { runner := r.stop } :=
  rfl

/-- Some moves lead from one state to another. -/
def Leads (pace : Pace) (u u' : Usage) : Prop := ∃ moves, u.after? pace moves = some u'

theorem Leads.refl (u : Usage) : u.Leads pace u := ⟨[], rfl⟩

theorem Leads.trans (h : u.Leads pace u') (h' : u'.Leads pace u'') : u.Leads pace u'' := by
  obtain ⟨moves, hmoves⟩ := h
  obtain ⟨moves', hmoves'⟩ := h'
  exact ⟨moves ++ moves', after?_append.mpr ⟨u', hmoves, hmoves'⟩⟩

theorem Step.leads (h : Step pace u m u') : u.Leads pace u' := ⟨[m], after?_cons.mpr ⟨u', h, rfl⟩⟩

variable {r : Runner}

/-- A turn leads on if it is possible for a loop that is where the turn begins. -/
theorem leads_turn {i : Nat} {t : Loop.Turn}
    (h : ∀ l, r.loops[i]? = some l → l.phase = t.source → t.Fits pace l) :
    ({ runner := r } : Usage).Leads pace { runner := r.turn i t } := by
  by_cases hsource : ∃ l, r.loops[i]? = some l ∧ l.phase = t.source
  · obtain ⟨l, hl, hphase⟩ := hsource
    exact (Step.turns hl (h l hl hphase)).leads
  · have hsame : r.turn i t = r := Runner.modify_eq_self fun l hl =>
      Loop.take_eq_self fun hphase => hsource ⟨l, hl, hphase⟩
    rw [hsame]
    exact .refl _

/-- A loop that looks at its signal heeds it or decides to call back. -/
theorem leads_look (hpace : pace ≠ .smooth 0) (i : Nat) :
    ({ runner := r } : Usage).Leads pace { runner := r.look i } := by
  refine leads_turn fun l hl hphase => ?_
  rw [hl, Option.any_some] at hphase ⊢
  by_cases htold : l.isTold = true
  · rw [if_pos htold] at hphase ⊢
    exact ⟨hpace, hphase, htold⟩
  · rw [if_neg htold] at hphase ⊢
    exact ⟨hpace, hphase, fun _ => Bool.eq_false_iff.mpr htold⟩

theorem leads_call (i : Nat) : ({ runner := r } : Usage).Leads pace { runner := r.call i } :=
  leads_turn fun _ _ hcommitted => hcommitted

theorem leads_back (i : Nat) (goesOn : Bool) :
    ({ runner := r } : Usage).Leads pace { runner := r.back i goesOn } :=
  leads_turn fun _ _ hcalling => hcalling

theorem leads_finish (i : Nat) : ({ runner := r } : Usage).Leads pace { runner := r.finish i } :=
  leads_turn fun _ _ hleaving => hleaving

/-- A loop goes round. -/
theorem leads_round (hpace : pace ≠ .smooth 0) (answer : Nat → Bool) (i : Nat) :
    ({ runner := r } : Usage).Leads pace { runner := r.round answer i } :=
  (((leads_look hpace i).trans (leads_call i)).trans (leads_back i _)).trans (leads_finish i)

/-- **A loop that is driven takes turns**, and nobody else does anything. -/
theorem leads_drive (hpace : pace ≠ .smooth 0) (answer : Nat → Bool) :
    ({ runner := r } : Usage).Leads pace { runner := r.drive answer } := by
  suffices h : ∀ rounds r, ({ runner := r } : Usage).Leads pace
      { runner := r.driveFor answer rounds } from h _ r
  intro rounds
  induction rounds with
  | zero => exact fun r => .refl _
  | succ rounds ih =>
    intro r
    rw [Runner.driveFor]
    split
    · exact .refl _
    · split
      · exact (leads_round hpace answer _).trans (ih _)
      · exact .refl _

/-! ### Trials -/

theorem leads_run : ({ runner := r } : Usage).Leads pace { runner := r.run } :=
  ⟨_, after?_run r⟩

theorem leads_stop : ({ runner := r } : Usage).Leads pace { runner := r.stop } :=
  ⟨_, after?_stop r⟩

theorem leads_begun (hpace : pace ≠ .smooth 0) :
    ({} : Usage).Leads pace { runner := Trial.begun } :=
  (leads_run.trans (leads_look hpace 0)).trans (leads_call 0)

/-- Runs one after another. -/
theorem leads_inTurn (hpace : pace ≠ .smooth 0) (times limit : Nat) :
    ({} : Usage).Leads pace { runner := (Trial.inTurn times limit).runner } := by
  show ({} : Usage).Leads pace
    { runner := times.repeat (fun r => r.run.drive (Trial.upTo limit)) {} }
  induction times with
  | zero => exact .refl _
  | succ times ih => exact (ih.trans leads_run).trans (leads_drive hpace _)

/-- A runner that is told to stop while a callback is held up. -/
theorem leads_trialStop (hpace : pace ≠ .smooth 0) :
    ({} : Usage).Leads pace { runner := Trial.stop.runner } :=
  ((((leads_begun hpace).trans leads_stop).trans (leads_back 0 true)).trans
    (leads_look hpace 0)).trans (leads_finish 0)

/-- A runner that is given another run while a callback is held up. -/
theorem leads_trialReplace (hpace : pace ≠ .smooth 0) :
    ({} : Usage).Leads pace { runner := Trial.replace.runner } :=
  (((((leads_begun hpace).trans leads_run).trans (leads_back 0 true)).trans
    (leads_look hpace 0)).trans (leads_finish 0)).trans (leads_drive hpace (Trial.upTo 3))

end Usage

end SchemePlayer
