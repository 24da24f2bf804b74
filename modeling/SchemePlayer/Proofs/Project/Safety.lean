import SchemePlayer.Host.Scripted
import SchemePlayer.Proofs.Machine.Safety
import SchemePlayer.Proofs.Project.Outcome

/-!
# Safety of a project

A project is set up from arbitrary classes: any bytes for code, any literals, any variables with
any defaults, any variable set. Then anything may be done with it, in any order, under any host.
None of it goes wrong in memory or anywhere else where nothing is checked:

- `Project.create_ne_crash`: setting up a project does not.
- `safe_of_mem_ticks`: every tick of every run begins at a safe moment, in a tree that is closed.
- `reports_performs`: all failures that are ever reported have an ordinary cause.
- `executions_safe`: **whatever code is run, everything is there that is looked up without a
  check, and executions fail only with ordinary faults.**
-/

namespace SchemePlayer

/-- A failure that a project may report: an ordinary one, one that a host forces on it with its
reply, or that a tick goes on for ever. -/
def Failure.IsReportable (t : Tree) (cause : Failure) : Prop :=
  cause.IsOrdinary t ∨ cause.IsFatalReply ∨ cause = .exhausted

namespace Project

/-- No access to memory goes wrong while a project is set up. -/
theorem create_ne_crash (o : ProjectOptions) (cause : MemoryCrash) :
    create o ≠ .error (.crash cause) := by
  unfold create
  split
  · rename_i e hbuild
    intro herror
    cases herror
    exact Tree.build_ne_crash _ _ _ _ _ hbuild
  · simp

theorem closed_create {o : ProjectOptions} {q : Project} (h : create o = .ok q) :
    q.tree.Closed := by
  unfold create at h
  split at h
  · cases h
  · rename_i tree memory hbuild
    cases h
    exact Tree.build_closed hbuild

end Project

namespace Playback

variable {σ : Type} {h : Host σ} {p : Playback σ}

/-- A moment of the tick that begins here, once its reply is collected. -/
def Moment (h : Host σ) (p : Playback σ) (m : Machine σ) : Prop :=
  Machine.Reaches h (p.poll h).project.setting
    (Machine.start (p.poll h).project.memory (p.poll h).host (p.poll h).project.pending
      (p.poll h).project.waiting) m

/-- **Every tick of a run begins at a safe moment.** -/
theorem safe_of_mem_ticks {o : ProjectOptions} {q : Project} (hq : Project.create o = .ok q)
    {host : σ} {ms : List (Move σ)} {t : Playback σ}
    (ht : t ∈ ({ project := q, host } : Playback σ).ticks h ms) :
    (t.poll h).project.tree.Closed ∧
      (t.poll h).project.tree.InBounds (t.poll h).project.memory := by
  obtain ⟨before, after, hlog⟩ := List.append_of_mem ht
  obtain ⟨hbegins, hbuild⟩ := begins_of_ticks (Project.sound_create hq) (standing_create hq) hlog
  refine ⟨?_, (departing_of_takesOff hbegins.sound hbegins.takesOff).inBounds⟩
  rw [(hbuild.trans (poll_keeps h t).1).tree]
  exact Project.closed_create hq

/-- At every moment of a tick, the executions are those of instances of the tree. -/
theorem known_of_moment {o : ProjectOptions} {q : Project} (hq : Project.create o = .ok q)
    {host : σ} {ms : List (Move σ)} {t : Playback σ}
    (ht : t ∈ ({ project := q, host } : Playback σ).ticks h ms) {m : Machine σ}
    (hm : t.Moment h m) {f : Frame} (hf : f ∈ m.frames) :
    (t.poll h).project.tree.instance? f.id = some f.inst := by
  obtain ⟨hclosed, hbounds⟩ := safe_of_mem_ticks hq ht
  have hsafe := Machine.Reaches.safe hm hclosed (Machine.safe_start hclosed hbounds _ _ _)
  exact (hsafe.frames f hf).known

/-! ### Reports -/

/-- Subscribers that are told of an end report nothing themselves. -/
theorem acts_deliverAll (p' : Playback σ) {old : List Act} (hacts : p'.acts = p.acts ++ old)
    (hended : p'.project.lifecycle.isTerminal = true) :
    ∃ new, (p'.deliverAll h).acts = p.acts ++ new ∧
      ∀ cause, .report cause ∈ new → .report cause ∈ old := by
  obtain ⟨more, hmore, -, -, hreports⟩ := (epilogue_deliverAll (h := h) hended).acts
  refine ⟨old ++ more, by rw [hmore, hacts, List.append_assoc], fun cause hmem => ?_⟩
  exact (List.mem_append.mp hmem).resolve_right (hreports cause)

/-- A move that asks for no tick reports nothing. -/
theorem acts_of_not_asksTick {m : Move σ} (hm : m.asksTick p.project = false) :
    ∃ new, (p.perform h m).acts = p.acts ++ new ∧ ∀ cause, .report cause ∉ new := by
  have hnone : ∃ new, p.acts = p.acts ++ new ∧ ∀ cause, Act.report cause ∉ new :=
    ⟨[], (List.append_nil _).symm, fun _ => List.not_mem_nil⟩
  have haside := aside_perform (h := h) hm
  generalize p.perform h m = p' at haside ⊢
  cases haside with
  | starts host => exact ⟨[_], rfl, by simp⟩
  | rests => exact ⟨[_], rfl, by simp⟩
  | swaps executor => exact ⟨[_, _], List.append_assoc .., by simp⟩
  | ends =>
    obtain ⟨new, hnew, hreports⟩ := acts_deliverAll (h := h) (p := p) p.shut rfl rfl
    exact ⟨new, hnew, fun cause hmem => absurd (hreports cause hmem) (by simp)⟩
  | _ => exact hnone

/-- A tick reports a failure of its code, a reply that stops the project, or nothing. -/
theorem acts_tick (hs : p.project.Sound) (hclosed : p.project.tree.Closed)
    (hlive : p.project.lifecycle.isTerminal = false) :
    ∃ new, ((p.tick h).deliverAll h).acts = p.acts ++ new ∧
      ∀ cause, .report cause ∈ new → cause.IsReportable p.project.tree := by
  -- a project that goes on has nothing to tell
  have hgoes : ∀ {p' : Playback σ}, p'.project.Sound → p'.acts = p.acts →
      p'.project.lifecycle = p.project.lifecycle → ∃ new, (p'.deliverAll h).acts = p.acts ++ new ∧
        ∀ cause, .report cause ∈ new → cause.IsReportable p.project.tree := by
    intro p' hs' hacts hlifecycle
    rw [deliverAll_of_live hs' (by rw [hlifecycle]; exact hlive)]
    exact ⟨[], by rw [hacts, List.append_nil], fun _ hmem => absurd hmem List.not_mem_nil⟩
  have hfails : ∀ {p' : Playback σ} {cause : Failure}, p'.acts = p.acts →
      cause.IsReportable p.project.tree →
      ∃ new, ((p'.fail cause).deliverAll h).acts = p.acts ++ new ∧
        ∀ cause, .report cause ∈ new → cause.IsReportable p.project.tree := by
    intro p' cause hacts hcause
    obtain ⟨new, hnew, hreports⟩ := acts_deliverAll (h := h) (p := p) (p'.fail cause)
      (by rw [acts_fail, hacts]) rfl
    refine ⟨new, hnew, fun cause' hmem => ?_⟩
    have hold := hreports cause' hmem
    simp only [List.mem_cons, Act.report.injEq, reduceCtorEq, List.not_mem_nil, or_false,
      false_or] at hold
    rw [hold]
    exact hcause
  have hsound := sound_tick (h := h) hs
  have hout := tick_outcome (h := h) hs hlive
  generalize p.tick h = t at hsound hout ⊢
  cases hout with
  | waits host => exact hgoes hsound rfl rfl
  | refuses call cause _ hfatal => exact hfails rfl (.inr (.inl hfatal))
  | fails cause ht hfailed =>
    refine hfails (poll_of_takesOff ht).1 ?_
    have htree := (poll_keeps h p).1.tree
    have hbounds := (departing_of_takesOff hs ht).inBounds
    have hordinary := Machine.ordinary_run (h := h) (s := (p.poll h).project.setting)
      (by rw [← htree] at hclosed; exact hclosed)
      (Machine.safe_start (by rw [← htree] at hclosed; exact hclosed) hbounds _ _ _) hfailed
    rw [← htree]
    exact hordinary.imp_right .inr
  | lands memory yielded ht =>
    obtain ⟨hacts, hlifecycle, -⟩ := poll_of_takesOff ht
    cases hclosing : ((p.poll h).walk h).1.closing with
    | true =>
      obtain ⟨new, hnew, hreports⟩ := acts_deliverAll (h := h) (p := p)
        ((p.poll h).landed ((p.poll h).walk h).1 memory yielded).shut
        (by rw [acts_shut]; exact congrArg (· ++ _) hacts) rfl
      exact ⟨new, hnew, fun cause hmem => absurd (hreports cause hmem) (by simp)⟩
    | false =>
      rw [hclosing] at hsound
      exact hgoes hsound hacts hlifecycle

/-- **All failures that are ever reported have an ordinary cause.** -/
theorem reports_performs (hs : p.project.Sound) (hclosed : p.project.tree.Closed)
    (hacts : ∀ cause, .report cause ∈ p.acts → cause.IsReportable p.project.tree)
    (ms : List (Move σ)) :
    ∀ cause, .report cause ∈ (p.performs h ms).acts → cause.IsReportable p.project.tree := by
  induction ms generalizing p with
  | nil => exact hacts
  | cons m ms ih =>
    have htree := (sameBuild_perform (h := h) hs m).tree
    rw [← htree] at hclosed ⊢
    refine ih (sound_perform hs m) hclosed fun cause hmem => ?_
    rw [htree] at hclosed ⊢
    cases hask : m.asksTick p.project with
    | false =>
      obtain ⟨new, hnew, hreports⟩ := acts_of_not_asksTick (h := h) hask
      rw [hnew] at hmem
      exact hacts cause ((List.mem_append.mp hmem).resolve_right (hreports cause))
    | true =>
      obtain ⟨new, hnew, hreports⟩ := acts_tick (h := h) hs hclosed (live_of_asksTick hask)
      rw [perform_of_asksTick hask, hnew] at hmem
      exact (List.mem_append.mp hmem).elim (hacts cause) (hreports cause)

/-- **Code is safe, whatever it is.** No access to memory goes wrong while a project is set up.
After any moves, all failures that were reported have an ordinary cause, and whatever is set from
outside fits into memory. At every moment of every tick, everything is there that the next step
looks up without a check: bytes, arguments, variables, literals, cells, instances. An execution
that begins then runs on, ends, yields, is denied, or fails with an ordinary fault. Afterwards
values can go along all links. -/
theorem executions_safe (h : Host σ) (o : ProjectOptions) :
    (∀ cause, Project.create o ≠ .error (.crash cause)) ∧
    ∀ q, Project.create o = .ok q → ∀ (host : σ) (ms : List (Move σ)),
      let start : Playback σ := { project := q, host }
      let p := start.performs h ms
      (∀ cause, .report cause ∈ p.acts → cause.IsReportable q.tree) ∧
      (∀ id name x v, p.project.tree.slot? id name = some x → v.kind = x.kind →
        ∃ memory, p.project.memory.write x v = .ok memory) ∧
      ∀ t ∈ start.ticks h ms,
        let s := (t.poll h).project.setting
        (∀ m, t.Moment h m → m.Grounded s ∧
          ∀ id count, (m.executeFor h s count id).IsOrdinary s.tree) ∧
        ∃ memory, Tree.propagate s.tree.links ((t.poll h).walk h).1.memory = .ok memory := by
  refine ⟨Project.create_ne_crash o, fun q hq host ms => ?_⟩
  intro start p
  have hs : start.project.Sound := Project.sound_create hq
  refine ⟨?_, fun id name x v hx hv => ?_, fun t ht => ?_⟩
  · exact reports_performs hs (Project.closed_create hq)
      (fun _ hmem => absurd hmem List.not_mem_nil) ms
  · have hp : p.project.Sound := sound_performs hs ms
    exact Memory.assign_isOk (hp.inBounds.slot? hx) hv ..
  · intro s
    obtain ⟨hclosed, hbounds⟩ := safe_of_mem_ticks hq ht
    have hstart := Machine.safe_start (s := s) hclosed hbounds (t.poll h).host
      (t.poll h).project.pending (t.poll h).project.waiting
    refine ⟨fun m hm => ?_, ?_⟩
    · have hsafe := hm.safe hclosed hstart
      exact ⟨hsafe.grounded hclosed,
        fun id count => Machine.ordinary_executeFor hclosed hsafe count id⟩
    · have hrun := Machine.runs_trace h s (t.poll h).project.budget
        (Machine.start (t.poll h).project.memory (t.poll h).host (t.poll h).project.pending
          (t.poll h).project.waiting)
      exact Tree.propagate_isOk
        (hbounds.mono fun k => Nat.le_of_eq (hrun.size k).symm).links

/-- A project whose code jumps into the operand of its own jump. -/
def backJumper : ProjectOptions := .solo [] #[0x60, 0xFE, 0xFF] #[]

/-- The byte that is found there stands for no operation: an ordinary fault. -/
theorem executions_safe_backJumper :
    ∃ q, Project.create backJumper = .ok q ∧
      let start : Playback ScriptedHost := { project := q, host := {} }
      let m := Machine.start q.memory ({} : ScriptedHost) q.pending q.waiting
      start ∈ start.ticks ScriptedHost.host [.step] ∧ start.Moment ScriptedHost.host m ∧
        m.Grounded q.setting ∧
        m.executeFor ScriptedHost.host q.setting 3 0 =
          .failed (.at "a" 1 (.unknownOpcode 0xFE)) ∧
        (Failure.at "a" 1 (.unknownOpcode 0xFE)).IsOrdinary q.tree := by
  obtain ⟨q, hq, heval⟩ := Project.exists_create
    (o := backJumper)
    (P := fun q =>
      let start : Playback ScriptedHost := { project := q, host := {} }
      let m := Machine.start q.memory ({} : ScriptedHost) q.pending q.waiting
      decide (q.pending = none ∧ start.ticksOn ScriptedHost.host .step = true ∧
        m.executeFor ScriptedHost.host q.setting 3 0 = .failed (.at "a" 1 (.unknownOpcode 0xFE))))
    (by decide +kernel)
  obtain ⟨hpending, hticks, hfate⟩ := of_decide_eq_true heval
  let start : Playback ScriptedHost := { project := q, host := {} }
  have hpoll : start.poll ScriptedHost.host = start := by
    simp only [poll, start, hpending]
  have hmem : start ∈ start.ticks ScriptedHost.host [.step] := by
    rw [ticks, if_pos hticks]
    exact List.mem_cons_self ..
  have hmoment : start.Moment ScriptedHost.host
      (Machine.start q.memory ({} : ScriptedHost) q.pending q.waiting) := by
    rw [Moment, hpoll]
    exact .refl
  obtain ⟨-, -, hsafe⟩ := (executions_safe ScriptedHost.host backJumper).2 q hq {} [.step]
  obtain ⟨hmoments, -⟩ := hsafe start hmem
  obtain ⟨hgrounded, hexecutions⟩ := hmoments _ hmoment
  rw [hpoll] at hgrounded hexecutions
  have hordinary := hexecutions 0 3
  rw [hfate] at hordinary
  exact ⟨q, hq, hmem, hmoment, hgrounded, hfate, hordinary⟩

end Playback

end SchemePlayer
