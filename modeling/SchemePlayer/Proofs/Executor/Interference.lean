import SchemePlayer.Proofs.Executor.Usage

/-!
# Runs do not get in each other's way

Whatever commands a runner is given, and however far each of its loops has got by then, every run is
left to itself:

- `Loop.alone?`: what becomes of a loop by its own turns and the commands that come meanwhile. **The
  other loops make no difference to that** (`Sound.alone?`), so what a loop can do after it was told
  to stop is a matter of that loop alone (`count_calls_le`).
- `Usage.Sound`: exactly the loops that have been replaced have been told to stop, and the current
  one too while a command has hold of the runner.
- `Usage.Since`: what has happened since a run.
- `undisturbed`: **any sequence of moves keeps the runs apart.**

Nothing is said about how soon a loop that was told to stop ends. If it waits for a clock, not even
the number of its callbacks is bounded (`exists_calls_of_smooth`).
-/

namespace SchemePlayer

/-! ### One loop -/

namespace Loop

variable {pace : Pace} {l l' : Loop} {t : Turn}

@[simp] theorem phase_tell (l : Loop) : l.tell.phase = l.phase := by
  unfold tell
  split <;> rfl

theorem tell_of_isTold (h : l.isTold = true) : l.tell = l := if_pos h

@[simp] theorem isTold_tell (l : Loop) : l.tell.isTold = true := by
  by_cases h : l.isTold = true
  · rw [tell_of_isTold h, h]
  · rw [tell, if_neg h]
    rfl

theorem signals_tell_le (h : l.signals ≤ 1) : l.tell.signals ≤ 1 := by
  by_cases htold : l.isTold = true
  · rwa [tell_of_isTold htold]
  · have hnone : l.signals = 0 := by
      simpa [isTold] using htold
    have hone : l.tell.signals = 1 := by
      simp [tell, htold, hnone]
    exact Nat.le_of_eq hone

/-- A loop does not touch its stop signal. -/
@[simp] theorem signals_take (t : Turn) (l : Loop) : (t.take l).signals = l.signals := by
  cases t <;> simp only [Turn.take, heed, commit, giveUp, call, back, finish] <;> split <;> rfl

@[simp] theorem isTold_take (t : Turn) (l : Loop) : (t.take l).isTold = l.isTold := by
  rw [isTold, signals_take, isTold]

/-- A loop that has ended takes no turn. -/
theorem ne_ended_of_fits (h : t.Fits pace l) : l.phase ≠ .ended := by
  rw [phase_of_fits h]
  cases t <;> nofun

/-- A loop is ended by its last turn, and by no other. -/
theorem ended_take_iff (h : t.Fits pace l) : (t.take l).phase = .ended ↔ t = .finishes := by
  rw [phase_take h]
  cases t with
  | returns goesOn => cases goesOn <;> decide
  | _ => decide

/-- The callbacks that a loop will still begin if it is told to stop: the one that it has decided
on. -/
def due (l : Loop) : Nat := if l.phase = .committed then 1 else 0

theorem due_le_one (l : Loop) : l.due ≤ 1 := by
  unfold due
  split <;> omega

/-- A loop that was told to stop decides on no further callback, if it looks at its signal before
each. -/
theorem due_take (hpace : pace = .fastest) (htold : l.isTold = true) (h : t.Fits pace l) :
    (if t = .calls then 1 else 0) + (t.take l).due ≤ l.due := by
  rw [due, due, phase_of_fits h, phase_take h]
  cases t with
  | commits =>
    have hfresh : l.isTold = false := h.2.2 hpace
    rw [htold] at hfresh
    cases hfresh
  | returns goesOn => cases goesOn <;> decide
  | _ => decide

/-! ### One loop among moves -/

/-- What a move is to the loop `i`: a command tells it to stop, and its own turns are its own. -/
def meet? (pace : Pace) (i : Nat) (l : Loop) : Usage.Move → Option Loop
  | .asks _ => some l.tell
  | .settles _ => some l
  | .turns j t => if j = i then if t.Fits pace l then some (t.take l) else none else some l

/-- What becomes of the loop `i`, whatever the other loops do. -/
def alone? (pace : Pace) (i : Nat) (l : Loop) (moves : List Usage.Move) : Option Loop :=
  moves.foldlM (meet? pace i) l

variable {i : Nat} {m : Usage.Move} {moves : List Usage.Move}

theorem alone?_cons : l.alone? pace i (m :: moves) = some l' ↔
    ∃ l₁, l.meet? pace i m = some l₁ ∧ l₁.alone? pace i moves = some l' := by
  rw [alone?, List.foldlM_cons]
  exact Option.bind_eq_some_iff

theorem meet?_own (h : t.Fits pace l) : l.meet? pace i (.turns i t) = some (t.take l) := by
  rw [meet?, if_pos rfl, if_pos h]

theorem meet?_other {j : Nat} (h : j ≠ i) : l.meet? pace i (.turns j t) = some l := if_neg h

/-- What a move can be to a loop. -/
theorem meet?_cases (h : l.meet? pace i m = some l') :
    (∃ command, m = .asks command ∧ l' = l.tell) ∨
      (∃ t : Turn, m = .turns i t ∧ t.Fits pace l ∧ l' = t.take l) ∨
      (∀ command, m ≠ .asks command) ∧ (∀ t, m ≠ .turns i t) ∧ l' = l := by
  cases m with
  | asks command =>
    cases h
    exact .inl ⟨command, rfl, rfl⟩
  | settles command =>
    cases h
    exact .inr (.inr ⟨nofun, nofun, rfl⟩)
  | turns j t =>
    by_cases hij : j = i
    · subst hij
      rw [meet?, if_pos rfl] at h
      obtain ⟨hfits, hl'⟩ := Option.ite_none_right_eq_some.mp h
      cases hl'
      exact .inr (.inl ⟨t, rfl, hfits, rfl⟩)
    · rw [meet?_other hij] at h
      cases h
      refine .inr (.inr ⟨nofun, fun t' hsame => ?_, rfl⟩)
      cases hsame
      exact hij rfl

/-- A loop has been told to stop if a command has come. -/
theorem isTold_alone (h : l.alone? pace i moves = some l') :
    l'.isTold = true ↔ l.isTold = true ∨ ∃ command, .asks command ∈ moves := by
  induction moves generalizing l with
  | nil =>
    cases h
    simp
  | cons m moves ih =>
    obtain ⟨l₁, hmeet, hrest⟩ := alone?_cons.mp h
    rw [ih hrest]
    rcases meet?_cases hmeet with ⟨command, rfl, rfl⟩ | ⟨t, rfl, -, rfl⟩ | ⟨hasks, -, rfl⟩
    · simp only [isTold_tell, true_or, true_iff]
      exact .inr ⟨command, .head _⟩
    · simp only [isTold_take, List.mem_cons, reduceCtorEq, false_or]
    · simp only [List.mem_cons, (hasks _).symm, false_or]

/-- A loop has ended if it has taken its last turn. -/
theorem ended_alone (h : l.alone? pace i moves = some l') :
    l'.phase = .ended ↔ l.phase = .ended ∨ .turns i .finishes ∈ moves := by
  induction moves generalizing l with
  | nil =>
    cases h
    simp
  | cons m moves ih =>
    obtain ⟨l₁, hmeet, hrest⟩ := alone?_cons.mp h
    rw [ih hrest]
    rcases meet?_cases hmeet with ⟨command, rfl, rfl⟩ | ⟨t, rfl, hfits, rfl⟩ | ⟨-, hturns, rfl⟩
    · simp only [phase_tell, List.mem_cons, reduceCtorEq, false_or]
    · have hbefore : l.phase ≠ .ended := ne_ended_of_fits hfits
      rw [ended_take_iff hfits, List.mem_cons]
      simp only [hbefore, false_or, Usage.Move.turns.injEq, true_and, eq_comm]
    · simp only [List.mem_cons, (hturns _).symm, false_or]

/-- **A loop that looks at its signal before each callback begins no more than the one that is due**
when it was told to stop. -/
theorem count_calls_le (hpace : pace = .fastest) (htold : l.isTold = true)
    (h : l.alone? pace i moves = some l') : moves.count (.turns i .calls) ≤ l.due := by
  -- what is due pays for each callback, and no move adds to it
  induction moves generalizing l with
  | nil => exact Nat.zero_le _
  | cons m moves ih =>
    obtain ⟨l₁, hmeet, hrest⟩ := alone?_cons.mp h
    rcases meet?_cases hmeet with ⟨command, rfl, rfl⟩ | ⟨t, rfl, hfits, rfl⟩ | ⟨-, hturns, rfl⟩
    · have hrest' := ih (isTold_tell l) hrest
      rw [tell_of_isTold htold] at hrest'
      rwa [List.count_cons_of_ne (by nofun)]
    · have hrest' := ih (by rwa [isTold_take]) hrest
      have hdue := due_take hpace htold hfits
      rw [List.count_cons]
      by_cases hcalls : t = .calls
      · subst hcalls
        simp only [beq_self_eq_true, if_true] at hdue ⊢
        omega
      · have hne : ((.turns i t : Usage.Move) == .turns i .calls) = false := by
          simp [hcalls]
        rw [if_neg hcalls] at hdue
        rw [hne]
        simp only [Bool.false_eq_true, if_false]
        omega
    · rw [List.count_cons_of_ne (hturns _)]
      exact ih htold hrest

end Loop

/-! ### All loops -/

namespace Usage

variable {pace : Pace} {u u' : Usage} {m : Move} {moves : List Move}

/-- Who has been told to stop: all loops that have been replaced, and the current one too while a
command has hold of the runner. -/
structure Sound (u : Usage) : Prop where
  current : ∀ i : Nat, u.runner.current = some i → i < u.runner.loops.size
  told : ∀ (i : Nat) (l : Loop), u.runner.loops[i]? = some l →
    (l.isTold = true ↔ u.runner.current ≠ some i ∨ u.holder ≠ none)
  once : ∀ (i : Nat) (l : Loop), u.runner.loops[i]? = some l → l.signals ≤ 1

theorem sound_start : ({} : Usage).Sound where
  current := nofun
  told := nofun
  once := nofun

/-- A command gets hold of the runner. -/
theorem Sound.asks (h : u.Sound) (command : Runner.Command) :
    ({ runner := u.runner.tellCurrent, holder := some command } : Usage).Sound := by
  constructor
  · intro i hi
    rw [Runner.current_tellCurrent] at hi
    rw [Runner.size_tellCurrent]
    exact h.current i hi
  · intro i l' hl'
    refine ⟨fun _ => .inr nofun, fun _ => ?_⟩
    rw [Runner.getElem?_tellCurrent] at hl'
    by_cases hi : u.runner.current = some i
    · rw [if_pos hi] at hl'
      obtain ⟨l, -, rfl⟩ := Option.map_eq_some_iff.mp hl'
      exact l.isTold_tell
    · rw [if_neg hi] at hl'
      exact (h.told i l' hl').mpr (.inl hi)
  · intro i l' hl'
    rw [Runner.getElem?_tellCurrent] at hl'
    split at hl'
    · obtain ⟨l, hl, rfl⟩ := Option.map_eq_some_iff.mp hl'
      exact Loop.signals_tell_le (h.once i l hl)
    · exact h.once i l' hl'

/-- A command puts a new loop in place, or none. -/
theorem Sound.settles (h : u.Sound) {command : Runner.Command} (hholder : u.holder = some command) :
    ({ runner := u.runner.settle command } : Usage).Sound := by
  constructor
  · intro i hi
    show i < (u.runner.settle command).loops.size
    rw [Runner.size_settle]
    cases command with
    | run =>
      cases hi
      exact Nat.lt_succ_self _
    | stop => cases hi
  · intro i l hl
    rcases Runner.settle_cases hl with ⟨hbefore, hgone⟩ | ⟨rfl, hnew⟩
    · refine ⟨fun _ => .inl hgone, fun _ => (h.told i l hbefore).mpr (.inr ?_)⟩
      rw [hholder]
      nofun
    · exact ⟨nofun, fun hwho => hwho.elim (absurd hnew) (absurd rfl)⟩
  · intro i l hl
    rcases Runner.settle_cases hl with ⟨hbefore, -⟩ | ⟨rfl, -⟩
    · exact h.once i l hbefore
    · exact Nat.zero_le 1

/-- A loop takes a turn. -/
theorem Sound.turns (h : u.Sound) (i : Nat) (t : Loop.Turn) :
    ({ u with runner := u.runner.turn i t } : Usage).Sound := by
  have hsame : ∀ (j : Nat) (l' : Loop), (u.runner.turn i t).loops[j]? = some l' →
      ∃ l, u.runner.loops[j]? = some l ∧ l'.signals = l.signals := by
    intro j l' hl'
    rw [Runner.getElem?_turn] at hl'
    split at hl'
    · obtain ⟨l, hl, rfl⟩ := Option.map_eq_some_iff.mp hl'
      exact ⟨l, hl, Loop.signals_take t l⟩
    · exact ⟨l', hl', rfl⟩
  constructor
  · intro j hj
    show j < (u.runner.turn i t).loops.size
    rw [Runner.size_turn]
    exact h.current j hj
  · intro j l' hl'
    obtain ⟨l, hl, hsignals⟩ := hsame j l' hl'
    rw [Loop.isTold, hsignals]
    exact h.told j l hl
  · intro j l' hl'
    obtain ⟨l, hl, hsignals⟩ := hsame j l' hl'
    rw [hsignals]
    exact h.once j l hl

theorem Sound.step (h : u.Sound) (hstep : Step pace u m u') : u'.Sound := by
  cases hstep with
  | asks _ => exact h.asks _
  | settles hholder => exact h.settles hholder
  | turns _ _ => exact h.turns _ _

theorem Sound.after? (h : u.Sound) (hmoves : u.after? pace moves = some u') : u'.Sound := by
  induction moves generalizing u with
  | nil =>
    cases hmoves
    exact h
  | cons m moves ih =>
    obtain ⟨v, hstep, hrest⟩ := after?_cons.mp hmoves
    exact ih (h.step hstep) hrest

/-! ### A loop among the others -/

/-- A move is to a loop what it would be without the other loops. -/
theorem Sound.meet? (h : u.Sound) (hstep : Step pace u m u') {i : Nat} {l : Loop}
    (hl : u.runner.loops[i]? = some l) :
    ∃ l', l.meet? pace i m = some l' ∧ u'.runner.loops[i]? = some l' := by
  cases hstep with
  | asks hfree =>
    refine ⟨l.tell, rfl, ?_⟩
    rw [Runner.getElem?_tellCurrent, hl]
    split
    · rfl
    · rename_i hi
      -- it has been replaced, so it was told before
      rw [Loop.tell_of_isTold ((h.told i l hl).mpr (.inl hi))]
  | settles hholder =>
    have hi : i < u.runner.loops.size := (Array.getElem?_eq_some_iff.mp hl).1
    exact ⟨l, rfl, (Runner.getElem?_settle hi _).trans hl⟩
  | @turns j t k hk hfits =>
    by_cases hij : j = i
    · subst hij
      rw [hl] at hk
      cases hk
      refine ⟨t.take l, Loop.meet?_own hfits, ?_⟩
      rw [Runner.getElem?_turn, if_pos rfl, hl]
      rfl
    · refine ⟨l, Loop.meet?_other hij, ?_⟩
      rw [Runner.getElem?_turn, if_neg hij, hl]

/-- **What becomes of a loop is what would become of it without the other loops.** -/
theorem Sound.alone? (h : u.Sound) (hmoves : u.after? pace moves = some u') {i : Nat} {l : Loop}
    (hl : u.runner.loops[i]? = some l) :
    ∃ l', l.alone? pace i moves = some l' ∧ u'.runner.loops[i]? = some l' := by
  induction moves generalizing u l with
  | nil =>
    cases hmoves
    exact ⟨l, rfl, hl⟩
  | cons m moves ih =>
    obtain ⟨v, hstep, hrest⟩ := after?_cons.mp hmoves
    obtain ⟨l₁, hmeet, hl₁⟩ := h.meet? hstep hl
    obtain ⟨l', halone, hl'⟩ := ih (h.step hstep) hrest hl₁
    exact ⟨l', Loop.alone?_cons.mpr ⟨l₁, hmeet, halone⟩, hl'⟩

/-- A move that changes a loop changes no other one, nor which one is current. -/
theorem Step.others (hstep : Step pace u m u') {i j : Nat} {k l : Loop} (hij : i ≠ j)
    (hk : u.runner.loops[i]? = some k) (hl : u.runner.loops[j]? = some l)
    (hchanged : u'.runner.loops[i]? ≠ some k) :
    u'.runner.loops[j]? = some l ∧ u'.runner.current = u.runner.current := by
  cases hstep with
  | asks hfree =>
    have hi : u.runner.current = some i := by
      by_cases hi : u.runner.current = some i
      · exact hi
      · rw [Runner.getElem?_tellCurrent, if_neg hi] at hchanged
        exact absurd hk hchanged
    have hj : u.runner.current ≠ some j := by
      rw [hi]
      exact fun hsame => hij (Option.some.inj hsame)
    rw [Runner.getElem?_tellCurrent, if_neg hj]
    exact ⟨hl, Runner.current_tellCurrent _⟩
  | settles hholder =>
    have hi : i < u.runner.loops.size := (Array.getElem?_eq_some_iff.mp hk).1
    exact absurd ((Runner.getElem?_settle hi _).trans hk) hchanged
  | @turns i' t l' hl' hfits =>
    have hi : i' = i := by
      by_cases hi : i' = i
      · exact hi
      · rw [Runner.getElem?_turn, if_neg hi] at hchanged
        exact absurd hk hchanged
    subst hi
    rw [Runner.getElem?_turn, if_neg hij]
    exact ⟨hl, rfl⟩

/-! ### Since a run -/

/-- These moves came after the run `i`. -/
def Since (moves : List Move) (i : Nat) (later : List Move) : Prop :=
  ∃ before, moves = before ++ .settles .run :: later ∧ before.count (.settles .run) = i

theorem exists_since {i : Nat} (h : i < moves.count (.settles .run)) :
    ∃ later, Since moves i later := by
  induction moves generalizing i with
  | nil => exact absurd h (Nat.not_lt_zero i)
  | cons m moves ih =>
    by_cases hm : m = .settles .run
    · subst hm
      cases i with
      | zero => exact ⟨moves, [], rfl, rfl⟩
      | succ i =>
        rw [List.count_cons_self] at h
        obtain ⟨later, before, hmoves, hcount⟩ := ih (Nat.lt_of_succ_lt_succ h)
        exact ⟨later, .settles .run :: before, by rw [hmoves, List.cons_append],
          by rw [List.count_cons_self, hcount]⟩
    · rw [List.count_cons_of_ne hm] at h
      obtain ⟨later, before, hmoves, hcount⟩ := ih h
      exact ⟨later, m :: before, by rw [hmoves, List.cons_append],
        by rw [List.count_cons_of_ne hm, hcount]⟩

theorem Step.size (h : Step pace u m u') :
    u'.runner.loops.size = u.runner.loops.size + [m].count (.settles .run) := by
  cases h with
  | asks hfree => exact Runner.size_tellCurrent _
  | @settles command hholder =>
    rw [Runner.size_settle]
    cases command <;> rfl
  | turns hl hfits => exact Runner.size_turn ..

theorem Step.lt_size (h : Step pace u m u') {i : Nat} (hi : i < u.runner.loops.size) :
    i < u'.runner.loops.size := by
  rw [h.size]
  exact Nat.lt_add_right _ hi

theorem size_after? (h : u.after? pace moves = some u') :
    u'.runner.loops.size = u.runner.loops.size + moves.count (.settles .run) := by
  induction moves generalizing u with
  | nil =>
    cases h
    rfl
  | cons m moves ih =>
    obtain ⟨v, hstep, hrest⟩ := after?_cons.mp h
    show _ = _ + ([m] ++ moves).count _
    rw [ih hrest, hstep.size, List.count_append, Nat.add_assoc]

/-- There are as many loops as runs. -/
theorem size_eq_count (h : ({} : Usage).after? pace moves = some u) :
    u.runner.loops.size = moves.count (.settles .run) :=
  (size_after? h).trans (Nat.zero_add _)

/-- A loop that is there is current as long as it is not replaced. -/
theorem Step.current_iff (h : Step pace u m u') {i : Nat} (hi : i < u.runner.loops.size) :
    u'.runner.current = some i ↔ u.runner.current = some i ∧ ∀ command, m ≠ .settles command := by
  cases h with
  | asks hfree =>
    rw [Runner.current_tellCurrent]
    exact ⟨fun hcurrent => ⟨hcurrent, nofun⟩, And.left⟩
  | @settles command hholder =>
    constructor
    · intro hcurrent
      exact absurd hcurrent (Runner.current_settle_ne hi command)
    · rintro ⟨-, hnone⟩
      exact absurd rfl (hnone command)
  | turns hl hfits => exact ⟨fun hcurrent => ⟨hcurrent, nofun⟩, And.left⟩

theorem current_after?_iff {i : Nat} (hi : i < u.runner.loops.size)
    (h : u.after? pace moves = some u') : u'.runner.current = some i ↔
      u.runner.current = some i ∧ ∀ command, .settles command ∉ moves := by
  induction moves generalizing u with
  | nil =>
    cases h
    simp
  | cons m moves ih =>
    obtain ⟨v, hstep, hrest⟩ := after?_cons.mp h
    rw [ih (hstep.lt_size hi) hrest, hstep.current_iff hi, and_assoc, ← forall_and]
    simp only [List.mem_cons, not_or, ne_eq, eq_comm]

/-- What there is of a run that came to be after any moves. -/
theorem loop_of_since (h : ({} : Usage).after? pace moves = some u) {i : Nat} {later : List Move}
    (hsince : Since moves i later) :
    ∃ l : Loop, u.runner.loops[i]? = some l ∧ ({} : Loop).alone? pace i later = some l ∧
      (u.runner.current = some i ↔ ∀ command, .settles command ∉ later) := by
  obtain ⟨before, rfl, hcount⟩ := hsince
  -- the loop is put in place fresh, and from then on it is as if alone
  obtain ⟨u₁, hbefore, hthen⟩ := after?_append.mp h
  obtain ⟨u₂, hstep, hlater⟩ := after?_cons.mp hthen
  have hsize : u₁.runner.loops.size = i := (size_eq_count hbefore).trans hcount
  have hsound : u₂.Sound := (sound_start.after? hbefore).step hstep
  cases hstep with
  | settles hholder =>
    have hnew : u₁.runner.put.loops[i]? = some {} := by
      rw [Runner.getElem?_put, if_pos hsize.symm]
    obtain ⟨l, halone, hl⟩ := hsound.alone? hlater hnew
    refine ⟨l, hl, halone, ?_⟩
    rw [current_after?_iff (Array.getElem?_eq_some_iff.mp hnew).1 hlater]
    exact and_iff_right (congrArg some hsize)

/-- A runner runs until a command settles or the loop of the latest run ends. -/
theorem running_after?_iff (h : ({} : Usage).after? pace moves = some u) :
    u.runner.running = true ↔ ∃ i later, Since moves i later ∧
      .settles .run ∉ later ∧ .settles .stop ∉ later ∧ .turns i .finishes ∉ later := by
  rw [Runner.running_iff]
  constructor
  · rintro ⟨i, l, hcurrent, hl, hphase⟩
    have hi : i < u.runner.loops.size := (sound_start.after? h).current i hcurrent
    rw [size_eq_count h] at hi
    obtain ⟨later, hsince⟩ := exists_since hi
    obtain ⟨l', hl', halone, hcurrent_iff⟩ := loop_of_since h hsince
    rw [hl] at hl'
    cases hl'
    have hnone := hcurrent_iff.mp hcurrent
    exact ⟨i, later, hsince, hnone .run, hnone .stop,
      fun hfinishes => hphase ((Loop.ended_alone halone).mpr (.inr hfinishes))⟩
  · rintro ⟨i, later, hsince, hrun, hstop, hfinishes⟩
    obtain ⟨l, hl, halone, hcurrent_iff⟩ := loop_of_since h hsince
    refine ⟨i, l, hcurrent_iff.mpr ?_, hl, fun hphase => ?_⟩
    · rintro (_ | _)
      · exact hrun
      · exact hstop
    · exact ((Loop.ended_alone halone).mp hphase).elim nofun hfinishes

/-! ### Loops with a clock -/

/-- A loop takes a turn that is possible. -/
theorem exists_step_turns {i : Nat} {t : Loop.Turn} {l : Loop} (hl : u.runner.loops[i]? = some l)
    (hfits : t.Fits pace l) :
    ∃ u', Step pace u (.turns i t) u' ∧ u'.runner.loops[i]? = some (t.take l) := by
  refine ⟨_, .turns hl hfits, ?_⟩
  rw [Runner.getElem?_turn, if_pos rfl, hl]
  rfl

/-- **A loop that waits for a clock may call back any number of times**, also if it was told to
stop: the clock may come first again and again. -/
theorem exists_calls_of_smooth {interval : Nat} (hpos : 0 < interval) {i : Nat} {l : Loop}
    (hl : u.runner.loops[i]? = some l) (hlooking : l.phase = .looking) (n : Nat) :
    ∃ later u', u.after? (.smooth interval) later = some u' ∧
      later.count (.turns i .calls) = n := by
  induction n generalizing u l with
  | zero => exact ⟨[], u, rfl, rfl⟩
  | succ n ih =>
    have hclock : Pace.smooth interval ≠ .smooth 0 := by
      intro hsame
      cases hsame
      exact Nat.lt_irrefl 0 hpos
    have hcommit : Loop.Turn.commits.Fits (.smooth interval) l := ⟨hclock, hlooking, nofun⟩
    obtain ⟨u₁, hcommits, hl₁⟩ := exists_step_turns hl hcommit
    have hcall : Loop.Turn.calls.Fits (.smooth interval) _ := Loop.phase_take hcommit
    obtain ⟨u₂, hcalls, hl₂⟩ := exists_step_turns hl₁ hcall
    have hreturn : (Loop.Turn.returns true).Fits (.smooth interval) _ := Loop.phase_take hcall
    obtain ⟨u₃, hreturns, hl₃⟩ := exists_step_turns hl₂ hreturn
    obtain ⟨later, u', hlater, hcount⟩ := ih hl₃ (Loop.phase_take hreturn)
    refine ⟨.turns i .commits :: .turns i .calls :: .turns i (.returns true) :: later, u', ?_, ?_⟩
    · exact after?_cons.mpr ⟨u₁, hcommits, after?_cons.mpr ⟨u₂, hcalls,
        after?_cons.mpr ⟨u₃, hreturns, hlater⟩⟩⟩
    · rw [List.count_cons_of_ne (by nofun), List.count_cons_self,
        List.count_cons_of_ne (by nofun), hcount]

/-! ### Runs -/

/-- What holds of a runner after these moves. -/
structure Undisturbed (pace : Pace) (moves : List Move) (u : Usage) : Prop where
  /-- there is a loop for every run -/
  runs : u.runner.loops.size = moves.count (.settles .run)
  /-- all loops but the current one have been told to stop, and that one has not, unless a command
  has hold of the runner -/
  told : ∀ (i : Nat) (l : Loop), u.runner.loops[i]? = some l →
    (l.isTold = true ↔ u.runner.current ≠ some i ∨ u.holder ≠ none)
  /-- no stop signal was given twice -/
  once : ∀ (i : Nat) (l : Loop), u.runner.loops[i]? = some l → l.signals ≤ 1
  /-- the runner runs exactly if no stop came after the latest run and the loop of that has not
  ended -/
  running : u.runner.running = true ↔ ∃ i later, Since moves i later ∧
    .settles .run ∉ later ∧ .settles .stop ∉ later ∧ .turns i .finishes ∉ later
  /-- a loop is what its own turns and the commands since its run have made of it: it was told to
  stop if there was such a command, and it has ended if it has taken that turn itself -/
  apart : ∀ i later, Since moves i later → ∃ l : Loop, u.runner.loops[i]? = some l ∧
    ({} : Loop).alone? pace i later = some l ∧
    (l.isTold = true ↔ ∃ command, .asks command ∈ later) ∧
    (l.phase = .ended ↔ .turns i .finishes ∈ later)
  /-- what changes a loop next, such as telling it to stop or ending it, changes no other one, nor
  which one is current -/
  others : ∀ m u', u.step? pace m = some u' → ∀ (i j : Nat) (k l : Loop), i ≠ j →
    u.runner.loops[i]? = some k → u.runner.loops[j]? = some l →
    u'.runner.loops[i]? ≠ some k →
    u'.runner.loops[j]? = some l ∧ u'.runner.current = u.runner.current
  /-- a loop that is as fast as it can, and was told to stop, begins one more callback at most, and
  none unless it has decided to -/
  last : pace = .fastest → ∀ (i : Nat) (l : Loop), u.runner.loops[i]? = some l → l.isTold = true →
    ∀ later u', u.after? pace later = some u' → later.count (.turns i .calls) ≤ 1 ∧
      (l.phase ≠ .committed → .turns i .calls ∉ later)

/-- **Runs do not get in each other's way**, whatever a runner is told and whenever its loops take
their turns. -/
theorem undisturbed (h : ({} : Usage).after? pace moves = some u) : Undisturbed pace moves u := by
  have hsound : u.Sound := sound_start.after? h
  refine ⟨size_eq_count h, hsound.told, hsound.once, running_after?_iff h, ?_, ?_, ?_⟩
  · intro i later hsince
    obtain ⟨l, hl, halone, -⟩ := loop_of_since h hsince
    refine ⟨l, hl, halone, ?_, ?_⟩
    · rw [Loop.isTold_alone halone]
      exact or_iff_right nofun
    · rw [Loop.ended_alone halone]
      exact or_iff_right nofun
  · intro m u' hstep i j k l hij hk hl hchanged
    exact (step?_eq_some_iff.mp hstep).others hij hk hl hchanged
  · intro hpace i l hl htold later u' hlater
    obtain ⟨l', halone, -⟩ := hsound.alone? hlater hl
    have hcount := Loop.count_calls_le hpace htold halone
    refine ⟨Nat.le_trans hcount l.due_le_one, fun hphase => ?_⟩
    rw [Loop.due, if_neg hphase] at hcount
    exact List.count_eq_zero.mp (Nat.le_zero.mp hcount)

/-- A run is asked for while the loop of another one has decided to call back. That loop begins the
callback while the command has hold of the runner, and ends in its own time; the new one has begun
its first callback by then, and still runs. -/
def handover : List Move :=
  [.asks .run, .settles .run, .turns 0 .commits, .asks .run, .turns 0 .calls, .settles .run,
    .turns 1 .commits, .turns 0 (.returns true), .turns 1 .calls, .turns 0 .heeds,
    .turns 0 .finishes]

/-- Of two loops the older one has ended after its last callback, and the newer one runs. -/
theorem undisturbed_handover : ∃ u, ({} : Usage).after? .fastest handover = some u ∧
    u.runner.loops = #[⟨.ended, 1, 1⟩, ⟨.calling, 0, 1⟩] ∧ u.runner.running = true ∧
    Undisturbed .fastest handover u := by
  have hafter : ({} : Usage).after? .fastest handover =
      some ⟨⟨#[⟨.ended, 1, 1⟩, ⟨.calling, 0, 1⟩], some 1⟩, none⟩ := by
    decide
  exact ⟨_, hafter, rfl, rfl, undisturbed hafter⟩

end Usage

end SchemePlayer
