import SchemePlayer.Host.Scripted
import SchemePlayer.Proofs.Project.Outcome

/-!
# Executors and their callbacks

A project that plays is driven by an executor, which was handed a callback when it was run. The
callback bears the generation of that run, and every start and stop opens a new generation, so
that the callbacks of earlier runs are stale. Executors may call any callback that they ever
got, at any time.

- `Shift`: what one move can mean to executors. Every move is one (`shift_perform`).
- `Conducted`: the invariant. The generations of runs rise, only the run of a project that plays
  has the generation of the project, and it is the last call that the executor of the project
  got; every other executor was stopped last.
- `callback_of_run`: **a callback ticks iff its run is the latest one, nothing has called it off
  since, and the project plays.**
-/

namespace SchemePlayer

/-- Whether an act is a call to an executor. -/
def Act.isFor (e : Nat) : Act → Bool
  | .run e' _ => e' = e
  | .stop e' => e' = e
  | _ => false

/-- The last call that an executor got. -/
def lastCall? (e : Nat) (acts : List Act) : Option Act := (acts.filter (·.isFor e)).getLast?

/-- Of two runs, the first has the smaller generation. -/
def Act.Precedes (a b : Act) : Prop :=
  ∀ e g e' g', a = .run e g → b = .run e' g' → g < g'

/-- Whether a move calls off the run that drives a project. -/
def Move.callsOff {σ : Type} : Move σ → Bool
  | .pause => true
  | .setExecutor _ => true
  | .close => true
  | _ => false

/-! ### Last calls -/

theorem Act.eq_of_isFor {e : Nat} {a : Act} (ha : a.isFor e = true) :
    (∃ g, a = .run e g) ∨ a = .stop e := by
  cases a with
  | run e' g =>
    obtain rfl : e' = e := of_decide_eq_true ha
    exact .inl ⟨g, rfl⟩
  | stop e' =>
    obtain rfl : e' = e := of_decide_eq_true ha
    exact .inr rfl
  | _ => cases ha

theorem lastCall?_append (e : Nat) (acts new : List Act) :
    lastCall? e (acts ++ new) = (lastCall? e new).or (lastCall? e acts) := by
  rw [lastCall?, List.filter_append, List.getLast?_append]
  rfl

theorem mem_of_lastCall? {e : Nat} {acts : List Act} {a : Act} (hlast : lastCall? e acts = some a) :
    a ∈ acts :=
  (List.mem_filter.mp (List.mem_of_getLast? hlast)).1

/-- An executor that got a call got a last one. -/
theorem lastCall?_of_mem {e : Nat} {acts : List Act} {a : Act} (hmem : a ∈ acts)
    (ha : a.isFor e = true) :
    (∃ g, lastCall? e acts = some (.run e g)) ∨ lastCall? e acts = some (.stop e) := by
  have hne : acts.filter (·.isFor e) ≠ [] :=
    List.ne_nil_of_mem (List.mem_filter.mpr ⟨hmem, ha⟩)
  rw [lastCall?, List.getLast?_eq_some_getLast hne]
  obtain ⟨-, hfor⟩ := List.mem_filter.mp (List.getLast_mem hne)
  rcases Act.eq_of_isFor hfor with ⟨g, heq⟩ | heq
  · exact .inl ⟨g, congrArg some heq⟩
  · exact .inr (congrArg some heq)

/-- Acts on others do not count. -/
theorem lastCall?_append_of_not_isFor {e : Nat} {acts new : List Act}
    (hnew : ∀ a ∈ new, a.isFor e = false) : lastCall? e (acts ++ new) = lastCall? e acts := by
  have hnil : new.filter (·.isFor e) = [] :=
    List.filter_eq_nil_iff.mpr fun a ha => by rw [hnew a ha]; exact Bool.false_ne_true
  rw [lastCall?_append, lastCall?, hnil]
  rfl

theorem lastCall?_append_run (e g : Nat) (acts : List Act) :
    lastCall? e (acts ++ [.run e g]) = some (.run e g) := by
  have hrun : lastCall? e [.run e g] = some (.run e g) := by
    simp only [lastCall?, List.filter_cons, Act.isFor, decide_true, if_true, List.filter_nil,
      List.getLast?_singleton]
  rw [lastCall?_append, hrun]
  rfl

/-- An executor that was stopped and not run again was stopped last. -/
theorem lastCall?_append_of_stop {e : Nat} {acts new : List Act} (hruns : ∀ e g, .run e g ∉ new)
    (hstop : .stop e ∈ new) : lastCall? e (acts ++ new) = some (.stop e) := by
  rw [lastCall?_append]
  rcases lastCall?_of_mem hstop (decide_eq_true rfl) with ⟨g, hlast⟩ | hlast
  · exact absurd (mem_of_lastCall? hlast) (hruns e g)
  · rw [hlast]
    rfl

namespace Playback

variable {σ : Type} {h : Host σ} {p p' : Playback σ}

/-! ### One move -/

/-- A project goes on as it did, as far as executors are concerned. -/
structure Steady (p p' : Playback σ) : Prop where
  acts : p'.acts = p.acts
  lifecycle : p'.project.lifecycle = p.project.lifecycle
  executor : p'.project.executor = p.project.executor
  generation : p'.project.generation = p.project.generation

/-- A project stops playing, and its executor is stopped. -/
structure Halts (p p' : Playback σ) : Prop where
  still : p'.project.lifecycle ≠ .playing
  executor : p'.project.executor = p.project.executor
  generation : p.project.generation < p'.project.generation
  acts : ∃ new, p'.acts = p.acts ++ new ∧ (∀ e g, .run e g ∉ new) ∧
    .stop p.project.executor ∈ new ∧ ∀ e, .stop e ∈ new → e = p.project.executor

/-- What moves can mean to executors: the project goes on, stops, starts, or gets another
executor while it does not play. -/
inductive Shift : Playback σ → Playback σ → Prop where
  | steady {p p' : Playback σ} : p.Steady p' → Shift p p'
  | halts {p p' : Playback σ} : p.Halts p' → Shift p p'
  | starts {p p' : Playback σ} : p.project.lifecycle ≠ .playing →
    p'.project.lifecycle = .playing → p'.project.generation = p.project.generation + 1 →
    p'.acts = p.acts ++ [.run p'.project.executor p'.project.generation] → Shift p p'
  | trades {p p' : Playback σ} : p.project.lifecycle ≠ .playing →
    p'.project.lifecycle ≠ .playing → p'.project.generation = p.project.generation →
    p'.acts = p.acts → Shift p p'
  | trans {p p' p'' : Playback σ} : Shift p p' → Shift p' p'' → Shift p p''

theorem steady_refl (p : Playback σ) : p.Steady p := ⟨rfl, rfl, rfl, rfl⟩

theorem Steady.shut (hs : p.Steady p') : p.Halts p'.shut where
  still := Lifecycle.noConfusion
  executor := hs.executor
  generation := by
    rw [project_shut, ← hs.generation]
    exact Nat.lt_succ_self _
  acts := by
    refine ⟨[.stop p.project.executor], ?_, ?_, List.mem_singleton_self _, ?_⟩
    · rw [acts_shut, hs.acts, hs.executor]
    · exact fun e g hmem => Act.noConfusion (List.mem_singleton.mp hmem)
    · exact fun e hmem => Act.stop.inj (List.mem_singleton.mp hmem)

theorem Steady.fail (hs : p.Steady p') (cause : Failure) : p.Halts (p'.fail cause) where
  still := Lifecycle.noConfusion
  executor := hs.executor
  generation := by
    rw [project_fail, ← hs.generation]
    exact Nat.lt_succ_self _
  acts := by
    refine ⟨[.stop p.project.executor, .report cause], ?_, ?_, List.mem_cons_self, ?_⟩
    · rw [acts_fail, hs.acts, hs.executor]
    · simp only [List.mem_cons, List.not_mem_nil, reduceCtorEq, or_self, not_false_eq_true,
        implies_true]
    · simp only [List.mem_cons, List.not_mem_nil, Act.stop.injEq, reduceCtorEq, or_self, or_false,
        imp_self, implies_true]

/-- Whatever subscribers do when they are told, a project that has ended stays stopped. -/
theorem Halts.deliverAll (hh : p.Halts p') (hended : p'.project.lifecycle.isTerminal = true) :
    p.Halts (p'.deliverAll h) := by
  have hepi := epilogue_deliverAll (h := h) hended
  obtain ⟨new, hnew, hruns, hstop, hstops⟩ := hh.acts
  obtain ⟨more, hmore, hmoreRuns, hmoreStops, -⟩ := hepi.acts
  refine ⟨fun hplaying => ?_, hepi.executor.trans hh.executor,
    Nat.lt_of_lt_of_le hh.generation hepi.generation, new ++ more, ?_, fun e g hmem => ?_,
    List.mem_append_left _ hstop, fun e hmem => ?_⟩
  · have hterminal := hepi.ended
    rw [hplaying] at hterminal
    cases hterminal
  · rw [hmore, hnew, List.append_assoc]
  · exact (List.mem_append.mp hmem).elim (hruns e g) (hmoreRuns e g)
  · exact (List.mem_append.mp hmem).elim (hstops e)
      fun hmem => (hmoreStops e hmem).trans hh.executor

theorem steady_poll (ht : p.takesOff h = true) : p.Steady (p.poll h) := by
  obtain ⟨hacts, hlifecycle, hexecutor, hgeneration⟩ := poll_of_takesOff ht
  exact ⟨hacts, hlifecycle, hexecutor, hgeneration⟩

/-- A tick leaves the executor running, or the project ends. -/
theorem shift_tick (hs : p.project.Sound) (hlive : p.project.lifecycle.isTerminal = false) :
    p.Shift ((p.tick h).deliverAll h) := by
  -- a project that goes on has nothing to tell
  have hgoes : p.Steady (p.tick h) → p.Shift ((p.tick h).deliverAll h) := fun hsteady => by
    rw [deliverAll_of_live (sound_tick hs) (by rw [hsteady.lifecycle]; exact hlive)]
    exact .steady hsteady
  have hout := tick_outcome (h := h) hs hlive
  generalize p.tick h = t at hgoes hout ⊢
  cases hout with
  | waits host => exact hgoes ⟨rfl, rfl, rfl, rfl⟩
  | refuses call cause =>
    have hrelieved : p.Steady (p.relieved h call) := ⟨rfl, rfl, rfl, rfl⟩
    exact .halts ((hrelieved.fail cause).deliverAll rfl)
  | fails cause ht =>
    have hadopt : p.Steady ((p.poll h).adopt ((p.poll h).walk h).1) := { steady_poll ht with }
    exact .halts ((hadopt.fail cause).deliverAll rfl)
  | lands memory yielded ht =>
    have hlanded : p.Steady ((p.poll h).landed ((p.poll h).walk h).1 memory yielded) :=
      { steady_poll ht with }
    cases hclosing : ((p.poll h).walk h).1.closing with
    | true => exact .halts (hlanded.shut.deliverAll rfl)
    | false =>
      rw [hclosing] at hgoes
      exact hgoes hlanded

/-- A project that plays is paused. -/
theorem halts_pause (p : Playback σ) :
    p.Halts (p.update fun q => { q with lifecycle := .paused }).halt where
  still := Lifecycle.noConfusion
  executor := rfl
  generation := Nat.lt_succ_self _
  acts := by
    refine ⟨[.stop p.project.executor], rfl, ?_, List.mem_singleton_self _, ?_⟩
    · exact fun e g hmem => Act.noConfusion (List.mem_singleton.mp hmem)
    · exact fun e hmem => Act.stop.inj (List.mem_singleton.mp hmem)

/-- **What a move means to executors.** -/
theorem shift_perform (hs : p.project.Sound) (m : Move σ) : p.Shift (p.perform h m) := by
  cases hm : m.asksTick p.project with
  | true =>
    rw [perform_of_asksTick hm]
    exact shift_tick hs (live_of_asksTick hm)
  | false =>
    have haside := aside_perform (h := h) hm
    generalize p.perform h m = p' at haside ⊢
    cases haside with
    | drifts host => exact .steady ⟨rfl, rfl, rfl, rfl⟩
    | starts host hnot => exact .starts hnot rfl rfl rfl
    | rests => exact .halts (halts_pause p)
    | swaps executor =>
      -- the project is taken over as if it were paused for it
      let paused := (p.update fun q => { q with lifecycle := .paused }).halt
      let traded := paused.update fun q => { q with executor }
      have htrade : paused.Shift traded :=
        .trades Lifecycle.noConfusion Lifecycle.noConfusion rfl rfl
      refine .trans (.halts (halts_pause p)) (htrade.trans ?_)
      exact .starts Lifecycle.noConfusion (by assumption) rfl rfl
    | trades executor hnot => exact .trades hnot hnot rfl rfl
    | writes x v memory => exact .steady ⟨rfl, rfl, rfl, rfl⟩
    | notes keys subscriptions nextSubscription => exact .steady ⟨rfl, rfl, rfl, rfl⟩
    | ends => exact .halts ((steady_refl p).shut.deliverAll rfl)

/-! ### Whole runs -/

/-- What holds of the acts of a project at any time. -/
structure Conducted (p : Playback σ) : Prop where
  rising : p.acts.Pairwise Act.Precedes
  runs : ∀ e g, .run e g ∈ p.acts → g < p.project.generation ∨
    g = p.project.generation ∧ p.project.lifecycle = .playing
  last : ∀ e g, lastCall? e p.acts = some (.run e g) ↔
    p.project.lifecycle = .playing ∧ e = p.project.executor ∧ g = p.project.generation

theorem Conducted.le_generation (hc : p.Conducted) {e g : Nat} (hrun : .run e g ∈ p.acts) :
    g ≤ p.project.generation :=
  (hc.runs e g hrun).elim Nat.le_of_lt fun hnow => Nat.le_of_eq hnow.1

/-- All runs of a project that does not play are stale. -/
theorem Conducted.lt_generation (hc : p.Conducted) (hnot : p.project.lifecycle ≠ .playing)
    {e g : Nat} (hrun : .run e g ∈ p.acts) : g < p.project.generation :=
  (hc.runs e g hrun).elim id fun hnow => absurd hnow.2 hnot

/-- Acts that run no executor keep the order of runs. -/
theorem Conducted.rising_append (hc : p.Conducted) {new : List Act}
    (hnew : new.Pairwise Act.Precedes)
    (hruns : ∀ e g, .run e g ∈ new → p.project.generation < g) :
    (p.acts ++ new).Pairwise Act.Precedes := by
  refine List.pairwise_append.mpr ⟨hc.rising, hnew, ?_⟩
  rintro a ha b hb e g e' g' rfl rfl
  exact Nat.lt_of_le_of_lt (hc.le_generation ha) (hruns e' g' hb)

theorem Conducted.halts (hc : p.Conducted) (hh : p.Halts p') : p'.Conducted := by
  obtain ⟨new, hnew, hruns, hstop, hstops⟩ := hh.acts
  refine ⟨?_, fun e g hmem => ?_, fun e g => ?_⟩
  · rw [hnew]
    refine hc.rising_append ?_ fun e g hmem => absurd hmem (hruns e g)
    refine List.pairwise_iff_forall_sublist.mpr ?_
    rintro a b hsub e g e' g' rfl -
    exact absurd (hsub.subset List.mem_cons_self) (hruns e g)
  · rw [hnew] at hmem
    rcases List.mem_append.mp hmem with hmem | hmem
    · exact .inl (Nat.lt_of_le_of_lt (hc.le_generation hmem) hh.generation)
    · exact absurd hmem (hruns e g)
  · -- nobody was run last: not the executor that was stopped, nor any other
    refine iff_of_false (fun hlast => ?_) fun hplaying => hh.still hplaying.1
    rw [hnew] at hlast
    by_cases he : e = p.project.executor
    · subst he
      rw [lastCall?_append_of_stop hruns hstop] at hlast
      cases hlast
    · rw [lastCall?_append_of_not_isFor] at hlast
      · exact he ((hc.last e g).mp hlast).2.1
      · intro a ha
        refine Bool.eq_false_iff.mpr fun hfor => ?_
        rcases Act.eq_of_isFor hfor with ⟨g', rfl⟩ | rfl
        · exact hruns e g' ha
        · exact he (hstops e ha)

theorem Conducted.starts (hc : p.Conducted) (hnot : p.project.lifecycle ≠ .playing)
    (hplaying : p'.project.lifecycle = .playing)
    (hgen : p'.project.generation = p.project.generation + 1)
    (hacts : p'.acts = p.acts ++ [.run p'.project.executor p'.project.generation]) :
    p'.Conducted := by
  have hlt : p.project.generation < p'.project.generation := by
    rw [hgen]
    exact Nat.lt_succ_self _
  refine ⟨?_, fun e g hmem => ?_, fun e g => ?_⟩
  · rw [hacts]
    refine hc.rising_append (List.pairwise_singleton ..) fun e g hmem => ?_
    cases List.mem_singleton.mp hmem
    exact hlt
  · rw [hacts] at hmem
    rcases List.mem_append.mp hmem with hmem | hmem
    · exact .inl (Nat.lt_of_le_of_lt (hc.le_generation hmem) hlt)
    · cases List.mem_singleton.mp hmem
      exact .inr ⟨rfl, hplaying⟩
  · rw [hacts]
    by_cases he : e = p'.project.executor
    · subst he
      rw [lastCall?_append_run]
      refine ⟨fun hlast => ?_, fun hnow => by rw [hnow.2.2]⟩
      cases hlast
      exact ⟨hplaying, rfl, rfl⟩
    · -- nobody else was run last, since the project did not play
      refine iff_of_false (fun hlast => ?_) fun hnow => he hnow.2.1
      rw [lastCall?_append_of_not_isFor] at hlast
      · exact hnot ((hc.last e g).mp hlast).1
      · intro a ha
        cases List.mem_singleton.mp ha
        exact decide_eq_false fun heq => he heq.symm

theorem Conducted.trades (hc : p.Conducted) (hnot : p.project.lifecycle ≠ .playing)
    (hnot' : p'.project.lifecycle ≠ .playing)
    (hgen : p'.project.generation = p.project.generation) (hacts : p'.acts = p.acts) :
    p'.Conducted := by
  refine ⟨?_, fun e g hmem => ?_, fun e g => ?_⟩
  · rw [hacts]
    exact hc.rising
  · rw [hacts] at hmem
    rw [hgen]
    exact .inl (hc.lt_generation hnot hmem)
  · rw [hacts, hc.last]
    exact iff_of_false (fun hnow => hnot hnow.1) fun hnow => hnot' hnow.1

/-- **Whatever moves mean to executors, the invariant is kept.** -/
theorem Shift.conducted (hshift : p.Shift p') (hc : p.Conducted) : p'.Conducted := by
  induction hshift with
  | steady hs =>
    refine ⟨?_, ?_, ?_⟩
    · rw [hs.acts]
      exact hc.rising
    · rw [hs.acts, hs.generation, hs.lifecycle]
      exact hc.runs
    · rw [hs.acts, hs.generation, hs.lifecycle, hs.executor]
      exact hc.last
  | halts hh => exact hc.halts hh
  | starts hnot hplaying hgen hacts => exact hc.starts hnot hplaying hgen hacts
  | trades hnot hnot' hgen hacts => exact hc.trades hnot hnot' hgen hacts
  | trans _ _ ih ih' => exact ih' (ih hc)

/-- Acts are never taken back, and generations never come back. -/
theorem Shift.onward (hshift : p.Shift p') :
    (∃ new, p'.acts = p.acts ++ new) ∧ p.project.generation ≤ p'.project.generation := by
  induction hshift with
  | steady hs => exact ⟨⟨[], by rw [hs.acts, List.append_nil]⟩, Nat.le_of_eq hs.generation.symm⟩
  | halts hh =>
    obtain ⟨new, hnew, -⟩ := hh.acts
    exact ⟨⟨new, hnew⟩, Nat.le_of_lt hh.generation⟩
  | starts _ _ hgen hacts => exact ⟨⟨_, hacts⟩, by rw [hgen]; exact Nat.le_succ _⟩
  | trades _ _ hgen hacts =>
    exact ⟨⟨[], by rw [hacts, List.append_nil]⟩, Nat.le_of_eq hgen.symm⟩
  | trans _ _ ih ih' =>
    obtain ⟨⟨new, hnew⟩, hle⟩ := ih
    obtain ⟨⟨more, hmore⟩, hle'⟩ := ih'
    exact ⟨⟨new ++ more, by rw [hmore, hnew, List.append_assoc]⟩, Nat.le_trans hle hle'⟩

theorem conducted_create {o : ProjectOptions} {q : Project} (hq : Project.create o = .ok q)
    (host : σ) : ({ project := q, host } : Playback σ).Conducted := by
  unfold Project.create at hq
  split at hq
  · cases hq
  · cases hq
    refine ⟨.nil, fun _ _ hmem => absurd hmem List.not_mem_nil, fun e g => ?_⟩
    exact iff_of_false (fun hlast => absurd (mem_of_lastCall? hlast) List.not_mem_nil)
      fun hnow => Lifecycle.noConfusion hnow.1

/-- A run is one shift after the other. -/
theorem shift_performs (hs : p.project.Sound) (ms : List (Move σ)) : p.Shift (p.performs h ms) := by
  induction ms generalizing p with
  | nil => exact .steady (steady_refl p)
  | cons m ms ih => exact .trans (shift_perform hs m) (ih (sound_perform hs m))

/-! ### Stale callbacks -/

/-- A move that calls off the run of a project makes all runs so far stale. -/
theorem Conducted.lt_of_callsOff (hs : p.project.Sound) (hc : p.Conducted) {m : Move σ}
    (hm : m.callsOff = true) {e g : Nat} (hrun : .run e g ∈ p.acts) :
    g < (p.perform h m).project.generation := by
  by_cases hplaying : p.project.lifecycle = .playing
  · refine Nat.lt_of_le_of_lt (hc.le_generation hrun) ?_
    cases m with
    | pause =>
      show _ < p.pause.project.generation
      rw [pause, if_pos hplaying]
      exact Nat.lt_succ_self _
    | setExecutor executor =>
      show _ < (p.setExecutor executor).project.generation
      rw [setExecutor, if_pos hplaying]
      exact Nat.lt_succ_of_lt (Nat.lt_succ_self _)
    | close =>
      show _ < (p.close h).project.generation
      rw [Playback.close, if_neg (by rw [hplaying]; exact Lifecycle.noConfusion)]
      have hepi : p.shut.Epilogue (p.shut.deliverAll h) := epilogue_deliverAll rfl
      exact Nat.lt_of_lt_of_le (Nat.lt_succ_self _) hepi.generation
    | _ => cases hm
  · exact Nat.lt_of_lt_of_le (hc.lt_generation hplaying hrun)
      (shift_perform (h := h) hs m).onward.2

/-- The `n`-th act of a run of moves is the run of an executor that drives the project: it is
the latest one, since it happened the project was not called off and did not fail, and the
project plays. -/
structure IsCurrent (h : Host σ) (start : Playback σ) (ms : List (Move σ)) (n : Nat) : Prop where
  latest : ∀ k e g, n < k → (start.performs h ms).acts[k]? ≠ some (.run e g)
  undisturbed : ∀ before after, ms = before ++ after →
    n < (start.performs h before).acts.length →
    (start.performs h before).project.lifecycle ≠ .error ∧ ∀ m ∈ after, m.callsOff = false
  playing : (start.performs h ms).project.lifecycle = .playing

theorem performs_append (h : Host σ) (p : Playback σ) (ms ms' : List (Move σ)) :
    p.performs h (ms ++ ms') = (p.performs h ms).performs h ms' :=
  List.foldl_append

/-- A run that is stale at some time is so for ever. -/
theorem generation_le_performs (hs : p.project.Sound) (before after : List (Move σ)) :
    (p.performs h before).project.generation ≤
      (p.performs h (before ++ after)).project.generation := by
  rw [performs_append]
  exact (shift_performs (sound_performs hs before) after).onward.2

/-- An act stays where it was recorded. -/
theorem getElem?_performs (hs : p.project.Sound) {before : List (Move σ)} {n : Nat}
    (hn : n < (p.performs h before).acts.length) (after : List (Move σ)) :
    (p.performs h (before ++ after)).acts[n]? = (p.performs h before).acts[n]? := by
  obtain ⟨⟨new, hnew⟩, -⟩ :=
    (shift_performs (h := h) (sound_performs (h := h) hs before) after).onward
  rw [performs_append, hnew, List.getElem?_append_left hn]

theorem Conducted.lt_of_getElem? (hc : p.Conducted) {n k e g e' g' : Nat} (hlt : n < k)
    (hn : p.acts[n]? = some (.run e g)) (hk : p.acts[k]? = some (.run e' g')) : g < g' := by
  obtain ⟨hn', hn⟩ := List.getElem?_eq_some_iff.mp hn
  obtain ⟨hk', hk⟩ := List.getElem?_eq_some_iff.mp hk
  exact List.pairwise_iff_getElem.mp hc.rising n k hn' hk' hlt e g e' g' hn hk

/-- **The run of an executor drives the project iff the generation is still that of the run and
the project plays.** -/
theorem isCurrent_iff {start : Playback σ} {ms : List (Move σ)} (hs : start.project.Sound)
    (hc : start.Conducted) {n e g : Nat}
    (hn : (start.performs h ms).acts[n]? = some (.run e g)) :
    IsCurrent h start ms n ↔ g = (start.performs h ms).project.generation ∧
      (start.performs h ms).project.lifecycle = .playing := by
  have hend : (start.performs h ms).Conducted := (shift_performs hs ms).conducted hc
  constructor
  · intro hcur
    refine ⟨?_, hcur.playing⟩
    -- the executor was run last with the generation of now, and no run came after ours
    have hmem := mem_of_lastCall? ((hend.last _ _).mpr ⟨hcur.playing, rfl, rfl⟩)
    obtain ⟨k, hk⟩ := List.mem_iff_getElem?.mp hmem
    rcases Nat.lt_trichotomy n k with hlt | rfl | hlt
    · exact absurd hk (hcur.latest k _ _ hlt)
    · rw [hn] at hk
      cases hk
      rfl
    · exact absurd (hend.lt_of_getElem? hlt hk hn)
        (Nat.not_lt.mpr (hend.le_generation (List.mem_of_getElem? hn)))
  · rintro ⟨hgen, hplaying⟩
    refine ⟨fun k e' g' hlt hk => ?_, fun before after heq hlen => ?_, hplaying⟩
    · have hrise := hend.lt_of_getElem? hlt hn hk
      have hbound := hend.le_generation (List.mem_of_getElem? hk)
      omega
    · subst heq
      have hrun : ∀ more rest, after = more ++ rest →
          .run e g ∈ (start.performs h (before ++ more)).acts := by
        rintro more rest rfl
        refine List.mem_of_getElem? (i := n) ?_
        rw [getElem?_performs hs hlen more, ← getElem?_performs hs hlen (more ++ rest)]
        exact hn
      refine ⟨fun herror => ?_, fun m hm => ?_⟩
      · -- a project that failed does not play, so that the run was stale by then
        have hstale := ((shift_performs hs before).conducted hc).lt_generation
          (by rw [herror]; exact Lifecycle.noConfusion) (by simpa using hrun [] after rfl)
        have hle := generation_le_performs (h := h) hs before after
        omega
      · refine Bool.eq_false_iff.mpr fun hoff => ?_
        obtain ⟨more, rest, rfl⟩ := List.append_of_mem hm
        have hstale := Conducted.lt_of_callsOff (h := h) (sound_performs hs (before ++ more))
          ((shift_performs hs (before ++ more)).conducted hc) hoff (hrun more (m :: rest) rfl)
        have hle := (shift_performs (h := h)
          (sound_perform (h := h) (sound_performs (h := h) hs (before ++ more)) m) rest).onward.2
        rw [← performs_cons, ← performs_append, List.append_assoc] at hle
        omega

/-- **Stale callbacks never tick.** After any moves whatsoever, a callback that an executor was
handed by a run makes the project tick if that is the run that drives the project; any other
callback returns false and changes nothing. The last call to the executor of the project was to
run it exactly when the project plays, and every other executor that was ever called was stopped
last. -/
theorem callback_of_run {h : Host σ} {o : ProjectOptions} {q : Project}
    (hq : Project.create o = .ok q) (host : σ) (ms : List (Move σ)) :
    let start : Playback σ := { project := q, host }
    let p := start.performs h ms
    (∀ n e g, p.acts[n]? = some (.run e g) →
      (IsCurrent h start ms n → p.callback h g =
        (decide ((p.tick h).project.lifecycle = .playing), (p.tick h).deliverAll h)) ∧
      (¬IsCurrent h start ms n → p.callback h g = (false, p))) ∧
    ((∃ g, lastCall? p.project.executor p.acts = some (.run p.project.executor g)) ↔
      p.project.lifecycle = .playing) ∧
    ∀ e, e ≠ p.project.executor → (∃ a ∈ p.acts, a.isFor e = true) →
      lastCall? e p.acts = some (.stop e) := by
  intro start p
  have hs : start.project.Sound := Project.sound_create hq
  have hc : start.Conducted := conducted_create hq host
  have hend : p.Conducted := (shift_performs hs ms).conducted hc
  refine ⟨fun n e g hn => ⟨fun hcur => ?_, fun hnot => ?_⟩, ⟨fun hlast => ?_, fun hplaying => ?_⟩,
    fun e hother hcalled => ?_⟩
  · rw [callback, if_pos ((isCurrent_iff hs hc hn).mp hcur)]
  · rw [callback, if_neg fun hnow => hnot ((isCurrent_iff hs hc hn).mpr hnow)]
  · obtain ⟨g, hlast⟩ := hlast
    exact ((hend.last _ g).mp hlast).1
  · exact ⟨p.project.generation, (hend.last _ _).mpr ⟨hplaying, rfl, rfl⟩⟩
  · obtain ⟨a, ha, hfor⟩ := hcalled
    rcases lastCall?_of_mem ha hfor with ⟨g, hlast⟩ | hlast
    · exact absurd ((hend.last e g).mp hlast).2.1 hother
    · exact hlast

/-- A project is paused and resumed, taken over by a second executor and given back, and a
callback of the first run comes late. -/
def handedOver : List (Move ScriptedHost) :=
  [.play [], .pause, .resume, .setExecutor 7, .setExecutor 0, .callback 1]

/-- After that, the callback of the second run is refused although its executor drives the
project again, and the callback of the last run ticks. -/
theorem callback_of_run_handedOver :
    ∃ q, Project.create (.solo [] #[] #[]) = .ok q ∧
      let p := ({ project := q, host := {} } : Playback ScriptedHost).performs
        ScriptedHost.host handedOver
      p.acts = [.run 0 1, .stop 0, .run 0 3, .stop 0, .run 7 5, .stop 7, .run 0 7] ∧
        p.callback ScriptedHost.host 3 = (false, p) ∧
        p.callback ScriptedHost.host 7 =
          (decide ((p.tick ScriptedHost.host).project.lifecycle = .playing),
            (p.tick ScriptedHost.host).deliverAll ScriptedHost.host) ∧
        lastCall? 7 p.acts = some (.stop 7) := by
  obtain ⟨q, hq, heval⟩ := Project.exists_create
    (o := .solo [] #[] #[])
    (P := fun q =>
      let p := ({ project := q, host := {} } : Playback ScriptedHost).performs
        ScriptedHost.host handedOver
      decide (p.acts = [.run 0 1, .stop 0, .run 0 3, .stop 0, .run 7 5, .stop 7, .run 0 7] ∧
        p.project.lifecycle = .playing ∧ p.project.generation = 7 ∧ p.project.executor = 0))
    (by decide +kernel)
  obtain ⟨hacts, hplaying, hgen, hexecutor⟩ := of_decide_eq_true heval
  obtain ⟨hcallback, -, hlast⟩ :=
    callback_of_run (h := ScriptedHost.host) hq {} handedOver
  have hsecond := congrArg (·[2]?) hacts
  have hfourth := congrArg (·[6]?) hacts
  refine ⟨q, hq, hacts, ?_, ?_, ?_⟩
  · exact (hcallback 2 0 3 hsecond).2 fun hcur => hcur.latest 6 0 7 (by decide) hfourth
  · refine (hcallback 6 0 7 hfourth).1 ?_
    exact (isCurrent_iff (Project.sound_create hq) (conducted_create hq _) hfourth).mpr
      ⟨hgen.symm, hplaying⟩
  · refine hlast 7 ?_ ⟨.run 7 5, ?_, rfl⟩
    · rw [hexecutor]
      decide
    · rw [hacts]
      decide

end Playback

end SchemePlayer
