import SchemePlayer.Project.Playback
import SchemePlayer.Proofs.Machine.Lockstep
import SchemePlayer.Proofs.Tree.Bounds

/-!
# One tick of a project

A tick is asked for, the reply that is awaited is collected if it has come, and only then does
the tick take off, unless the project has ended or still waits. This module says once what
each of these parts can do:

- `Playback.poll_cases`: collecting a reply.
- `Playback.flight`, `Playback.flight_cases`: a tick that takes off.
- `Playback.lockstep_walk`: ticks of one project that begin alike agree or part at a call.
- `Playback.deliver_induct`: what a project that has ended keeps while subscribers are told.
- `Project.Sound`: the invariant of projects that are not in the middle of an operation. Every
  tick preserves it (`sound_tick`), and so does telling subscribers (`sound_deliverAll`).
-/

namespace SchemePlayer

/-- Whether an act is part of telling subscribers that a project has ended. -/
def Act.isTelling : Act → Bool
  | .release => true
  | .notify .. => true
  | _ => false

/-! ### Projects between operations -/

namespace Project

/-- Two states of one project agree on what the project is made of. -/
structure SameBuild (q q' : Project) : Prop where
  id : q'.id = q.id
  dir : q'.dir = q.dir
  classes : q'.classes = q.classes
  tree : q'.tree = q.tree
  maxDepth : q'.maxDepth = q.maxDepth
  budget : q'.budget = q.budget
  root : q'.root = q.root

theorem SameBuild.refl (q : Project) : SameBuild q q := ⟨rfl, rfl, rfl, rfl, rfl, rfl, rfl⟩

theorem SameBuild.trans {q q' q'' : Project} (h : SameBuild q q') (h' : SameBuild q' q'') :
    SameBuild q q'' where
  id := h'.id.trans h.id
  dir := h'.dir.trans h.dir
  classes := h'.classes.trans h.classes
  tree := h'.tree.trans h.tree
  maxDepth := h'.maxDepth.trans h.maxDepth
  budget := h'.budget.trans h.budget
  root := h'.root.trans h.root

theorem SameBuild.symm {q q' : Project} (h : SameBuild q q') : SameBuild q' q :=
  ⟨h.id.symm, h.dir.symm, h.classes.symm, h.tree.symm, h.maxDepth.symm, h.budget.symm, h.root.symm⟩

/-- What holds of a project between two operations. -/
structure Sound (q : Project) : Prop where
  waiting : q.waiting = q.pending.isSome
  ended : q.lifecycle.isTerminal = true → q.pending = none
  queue : q.lifecycle.isTerminal = false → q.queue = []
  inBounds : q.tree.InBounds q.memory

/-- Nothing is awaited when a new project begins. -/
theorem sound_create {o : ProjectOptions} {q : Project} (h : create o = .ok q) : q.Sound := by
  unfold create at h
  split at h
  · cases h
  · rename_i tree memory hbuild
    cases h
    exact ⟨rfl, fun _ => rfl, fun _ => rfl, Tree.build_inBounds hbuild⟩

/-- What holds of a project when the code of a tick begins to run. -/
structure Departing (q : Project) : Prop where
  live : q.lifecycle.isTerminal = false
  pending : q.pending = none
  waiting : q.waiting = false
  queue : q.queue = []
  inBounds : q.tree.InBounds q.memory

end Project

namespace Playback

variable {σ : Type} {h : Host σ} {p : Playback σ}

/-! ### Ending -/

theorem project_fail (p : Playback σ) (cause : Failure) :
    (p.fail cause).project =
      { p.project with
        lifecycle := .error
        generation := p.project.generation + 1
        queue := p.project.queue ++ [⟨.error, cause.notice⟩] } := rfl

theorem project_shut (p : Playback σ) :
    p.shut.project =
      { p.project with
        lifecycle := .closed
        generation := p.project.generation + 1
        pending := none
        waiting := false
        delivered := []
        queue := p.project.queue ++ [⟨.closed, []⟩] } := rfl

/-- A project that has failed is sound if it awaits nothing. -/
theorem sound_fail (hpending : p.project.pending = none) (hwaiting : p.project.waiting = false)
    (hbounds : p.project.tree.InBounds p.project.memory) (cause : Failure) :
    (p.fail cause).project.Sound := by
  rw [project_fail]
  refine ⟨?_, fun _ => hpending, fun hlive => ?_, hbounds⟩
  · rw [hpending, hwaiting]
    rfl
  · cases hlive

/-- Closing a project makes it sound. -/
theorem sound_shut (hbounds : p.project.tree.InBounds p.project.memory) : p.shut.project.Sound := by
  rw [project_shut]
  refine ⟨rfl, fun _ => rfl, fun hlive => ?_, hbounds⟩
  cases hlive

/-! ### Collecting a reply -/

/-- The reply that the project awaits, if it has come. -/
def reply? (h : Host σ) (p : Playback σ) : Option Reply :=
  match p.project.pending with
  | none => none
  | some call => (h.collect p.host call.ticket).1

/-- A playback whose project awaits nothing any more. -/
def relieved (h : Host σ) (p : Playback σ) (call : PendingCall) : Playback σ :=
  { p with
    host := (h.collect p.host call.ticket).2
    project := { p.project with pending := none, waiting := false } }

/-- **What collecting a reply can do.** -/
theorem poll_cases (h : Host σ) (p : Playback σ) :
    (p.project.pending = none ∧ p.poll h = p) ∨
    (∃ call, p.project.pending = some call ∧ p.reply? h = none ∧
      p.poll h = { p with host := (h.collect p.host call.ticket).2 }) ∨
    (∃ call reply, p.project.pending = some call ∧ p.reply? h = some reply ∧
      fatal? reply = none ∧
      p.poll h = (p.relieved h call).update fun q =>
        { q with delivered := q.delivered ++ [(call.key, valueOf call.op reply)] }) ∨
    (∃ call reply cause, p.project.pending = some call ∧ p.reply? h = some reply ∧
      fatal? reply = some cause ∧
      p.poll h = (p.relieved h call).fail
        (.at (classOf p.project call.key.site.inst) call.key.site.offset (.host call.op cause))) := by
  cases hpending : p.project.pending with
  | none => exact .inl ⟨rfl, by simp only [poll, hpending]⟩
  | some call =>
    refine .inr ?_
    rcases hcollect : h.collect p.host call.ticket with ⟨_ | reply, host⟩
    · refine .inl ⟨call, rfl, ?_, ?_⟩
      · simp only [reply?, hpending, hcollect]
      · simp only [poll, hpending, hcollect]
    · refine .inr ?_
      have hreply : p.reply? h = some reply := by simp only [reply?, hpending, hcollect]
      cases hfatal : fatal? reply with
      | none =>
        refine .inl ⟨call, reply, rfl, hreply, hfatal, ?_⟩
        simp only [poll, hpending, hcollect, hfatal, relieved]
        rfl
      | some cause =>
        refine .inr ⟨call, reply, cause, rfl, hreply, hfatal, ?_⟩
        simp only [poll, hpending, hcollect, hfatal, relieved]
        rfl

/-- Collecting a reply leaves alone what code can see. -/
theorem poll_keeps (h : Host σ) (p : Playback σ) :
    p.project.SameBuild (p.poll h).project ∧ (p.poll h).project.memory = p.project.memory ∧
      (p.poll h).project.keys = p.project.keys ∧
      (p.poll h).project.iterations = p.project.iterations := by
  rcases poll_cases h p with ⟨-, heq⟩ | ⟨_, -, -, heq⟩ | ⟨_, _, -, -, -, heq⟩ |
    ⟨_, _, _, -, -, -, heq⟩
  · rw [heq]
    exact ⟨.refl _, rfl, rfl, rfl⟩
  · rw [heq]
    exact ⟨.refl _, rfl, rfl, rfl⟩
  · rw [heq]
    exact ⟨⟨rfl, rfl, rfl, rfl, rfl, rfl, rfl⟩, rfl, rfl, rfl⟩
  · rw [heq, project_fail]
    exact ⟨⟨rfl, rfl, rfl, rfl, rfl, rfl, rfl⟩, rfl, rfl, rfl⟩

/-! ### Taking off -/

/-- Whether a tick that is asked for now runs code. -/
def takesOff (h : Host σ) (p : Playback σ) : Bool :=
  !((p.poll h).project.lifecycle.isTerminal || (p.poll h).project.waiting)

/-- What a tick does once its reply is collected. -/
def flight (h : Host σ) (p : Playback σ) : Playback σ :=
  match p.walk h with
  | (m, .failed cause) => (p.adopt m).fail cause
  | (m, .yielded) => (p.adopt m).conclude m true
  | (m, .completed) => (p.adopt m).conclude m false

theorem tick_of_takesOff (ht : p.takesOff h = true) : p.tick h = (p.poll h).flight h := by
  have hgo : ((p.poll h).project.lifecycle.isTerminal || (p.poll h).project.waiting) = false := by
    simpa only [takesOff, Bool.not_eq_true'] using ht
  simp only [tick, hgo, flight, Bool.false_eq_true, if_false]
  rcases (p.poll h).walk h with ⟨m, how⟩
  cases how <;> rfl

theorem tick_of_not_takesOff (ht : p.takesOff h = false) : p.tick h = p.poll h := by
  have hstay : ((p.poll h).project.lifecycle.isTerminal || (p.poll h).project.waiting) = true := by
    simpa only [takesOff, Bool.not_eq_false'] using ht
  simp only [tick, hstay, if_true]

/-- A sound project whose tick takes off is departing. -/
theorem departing_of_takesOff (hs : p.project.Sound) (ht : p.takesOff h = true) :
    (p.poll h).project.Departing := by
  simp only [takesOff, Bool.not_eq_true', Bool.or_eq_false_iff] at ht
  obtain ⟨hlive, hwait⟩ := ht
  rcases poll_cases h p with ⟨hpending, heq⟩ | ⟨call, hpending, -, heq⟩ |
    ⟨call, reply, hpending, -, -, heq⟩ | ⟨call, reply, cause, hpending, -, -, heq⟩
  · rw [heq] at hlive hwait ⊢
    exact ⟨hlive, hpending, hwait, hs.queue hlive, hs.inBounds⟩
  · rw [heq] at hwait
    have hsome : p.project.waiting = true := by rw [hs.waiting, hpending]; rfl
    exact absurd (hsome.symm.trans hwait) (by decide)
  · rw [heq] at hlive ⊢
    exact ⟨hlive, rfl, rfl, hs.queue hlive, hs.inBounds⟩
  · rw [heq] at hlive
    cases hlive

/-- What a tick that does not take off does to a sound project. -/
theorem stay_of_not_takesOff (hs : p.project.Sound) (hlive : p.project.lifecycle.isTerminal = false)
    (ht : p.takesOff h = false) :
    (∃ call, p.project.pending = some call ∧ p.reply? h = none ∧
      p.poll h = { p with host := (h.collect p.host call.ticket).2 }) ∨
    (∃ call cause, p.project.pending = some call ∧
      p.poll h = (p.relieved h call).fail cause) := by
  -- with nothing awaited any more the tick would take off
  have hnot : ∀ p' : Playback σ, p'.project.lifecycle = p.project.lifecycle →
      p'.project.waiting = false → p.poll h ≠ p' := by
    intro p' hlife hwait heq
    simp only [takesOff, heq, hlife, hlive, hwait] at ht
    cases ht
  rcases poll_cases h p with ⟨hpending, heq⟩ | ⟨call, hpending, hreply, heq⟩ |
    ⟨call, reply, hpending, -, -, heq⟩ | ⟨call, reply, cause, hpending, -, -, heq⟩
  · refine absurd heq (hnot p rfl ?_)
    rw [hs.waiting, hpending]
    rfl
  · exact .inl ⟨call, hpending, hreply, heq⟩
  · refine absurd heq (hnot _ ?_ ?_)
    · rfl
    · rfl
  · exact .inr ⟨call, _, hpending, heq⟩

/-- The project after a tick that did not fail. -/
def landed (p : Playback σ) (m : Machine σ) (memory : Memory) (yielded : Bool) : Playback σ :=
  (p.adopt m).update fun q =>
    { q with
      memory := memory.commit
      iterations := q.iterations + 1
      delivered := if yielded then q.delivered else [] }

/-- **What a tick that takes off can do**: the project fails, or everything is committed, after
which the project may close. -/
theorem flight_cases (hd : p.project.Departing) :
    (∃ cause, (p.walk h).2 = .failed cause ∧ p.flight h = (p.adopt (p.walk h).1).fail cause) ∨
    (∃ memory yielded, ((p.walk h).2 = .yielded ∧ yielded = true ∨
        (p.walk h).2 = .completed ∧ yielded = false) ∧
      Tree.propagate p.project.tree.links (p.walk h).1.memory = .ok memory ∧
      p.flight h =
        if (p.walk h).1.closing then (p.landed (p.walk h).1 memory yielded).shut
        else p.landed (p.walk h).1 memory yielded) := by
  have hrun := Machine.runs_trace h p.project.setting p.project.budget
    (Machine.start p.project.memory p.host p.project.pending p.project.waiting)
  -- code does not shrink memory, so the links still find their slots and propagating succeeds
  have hbounds : p.project.tree.InBounds (p.walk h).1.memory :=
    hd.inBounds.mono fun k => Nat.le_of_eq (hrun.size k).symm
  obtain ⟨memory, hmemory⟩ := Tree.propagate_isOk hbounds.links
  have hconclude : ∀ yielded, (p.adopt (p.walk h).1).conclude (p.walk h).1 yielded =
      if (p.walk h).1.closing then (p.landed (p.walk h).1 memory yielded).shut
      else p.landed (p.walk h).1 memory yielded := by
    intro yielded
    have hadopt : Tree.propagate (p.adopt (p.walk h).1).project.tree.links
        (p.adopt (p.walk h).1).project.memory = .ok memory := hmemory
    simp only [conclude, hadopt]
    rfl
  unfold flight
  rcases hwalk : p.walk h with ⟨m, how⟩
  rw [hwalk] at hconclude hmemory
  -- only a tick that did not fail gets to its conclusion
  cases how with
  | failed cause => exact .inl ⟨cause, rfl, rfl⟩
  | yielded => exact .inr ⟨memory, true, .inl ⟨rfl, rfl⟩, hmemory, hconclude true⟩
  | completed => exact .inr ⟨memory, false, .inr ⟨rfl, rfl⟩, hmemory, hconclude false⟩

/-! ### The calls of a tick -/

/-- The instructions that a tick executes which begins here. -/
def trace (h : Host σ) (p : Playback σ) : List Machine.Entry :=
  (Machine.start p.project.memory p.host p.project.pending p.project.waiting).trace h
    p.project.setting p.project.budget

/-- The calls that a tick makes which begins here. -/
def calls (h : Host σ) (p : Playback σ) : List Machine.Occurrence :=
  Machine.occurrences (p.trace h)

/-- The call that suspends a tick which begins here, and the ticket for its reply. -/
def suspender? (h : Host σ) (p : Playback σ) : Option (Machine.Occurrence × Nat) :=
  match (p.calls h).getLast? with
  | some o =>
    match o.reception with
    | .asked (.pending ticket) => some (o, ticket)
    | _ => none
  | none => none

/-- The walk of a departing project begins with no call pending. -/
theorem walk_runs (hd : p.project.Departing) :
    Machine.Runs h p.project.setting p.project.budget
      (Machine.start p.project.memory p.host none false) (p.trace h) (p.walk h).1 (p.walk h).2 := by
  have hrun := Machine.runs_trace h p.project.setting p.project.budget
    (Machine.start p.project.memory p.host p.project.pending p.project.waiting)
  rw [← hd.pending, ← hd.waiting]
  exact hrun

/-- A call that suspends a tick is one of its calls. -/
theorem mem_of_suspender? {o : Machine.Occurrence} {ticket : Nat}
    (hsus : p.suspender? h = some (o, ticket)) :
    o ∈ p.calls h ∧ o.reception = .asked (.pending ticket) := by
  unfold suspender? at hsus
  split at hsus
  · rename_i o' hlast
    split at hsus
    · rename_i ticket' hasked
      cases hsus
      exact ⟨List.mem_of_getLast? hlast, hasked⟩
    · cases hsus
  · cases hsus

/-- **A tick yields iff a call suspends it**, which is then the pending one. -/
theorem walk_outcome (hd : p.project.Departing) :
    ((p.walk h).2 = .yielded ∧ ∃ o ticket, p.suspender? h = some (o, ticket) ∧
      (p.walk h).1.pending = some ⟨o.key, o.call.op, ticket⟩ ∧ (p.walk h).1.waiting = true) ∨
    ((p.walk h).2 ≠ .yielded ∧ p.suspender? h = none ∧
      (p.walk h).1.pending = none ∧ (p.walk h).1.waiting = false) := by
  rcases (walk_runs hd).outcome rfl with ⟨hyield, before, e, o, ticket, htrace, ho, hasked, hp, hw⟩ |
    ⟨hother, hp, hw, hnone⟩
  · -- the call that is pending is the last one of the trace
    refine .inl ⟨hyield, o, ticket, ?_, hp, hw⟩
    have hcalls : p.calls h = Machine.occurrences before ++ [o] := by
      rw [calls, htrace, Machine.occurrences_append]
      simp only [Machine.occurrences, List.filterMap_cons, ho, List.filterMap_nil]
    simp only [suspender?, hcalls, List.getLast?_concat, hasked]
  · -- no call of the trace was promised a reply, the last one neither
    refine .inr ⟨hother, ?_, hp, hw⟩
    rw [Option.eq_none_iff_forall_not_mem]
    rintro ⟨o, ticket⟩ hsus
    obtain ⟨ho, hasked⟩ := mem_of_suspender? hsus
    exact hnone o ho ticket hasked

/-- Ticks of one project happen in one setting, apart from the time and the record. -/
theorem setting_of_sameBuild {q q' : Project} (hbuild : q.SameBuild q') (hkeys : q'.keys = q.keys) :
    q'.setting = q.setting.rerun q'.iterations q'.delivered := by
  simp only [Project.setting, Setting.rerun, hbuild.id, hbuild.dir, hbuild.classes, hbuild.tree,
    hbuild.maxDepth, hkeys]

/-- **Ticks of one project that begin with the same memory and keyboard agree, or part at a call
that does not get the same value in both**, whatever their hosts are. -/
theorem lockstep_walk {τ : Type} {g : Host τ} {p' : Playback τ} (hd : p.project.Departing)
    (hd' : p'.project.Departing) (hbuild : p.project.SameBuild p'.project)
    (hmemory : p'.project.memory = p.project.memory) (hkeys : p'.project.keys = p.project.keys)
    (hsys : ∀ e ∈ p.trace h, e.op ≠ .system) :
    Machine.Agreement (p.trace h) (p'.trace g) (p.walk h) (p'.walk g) ∨
      Nonempty (Machine.Parting (p.trace h) (p'.trace g)) := by
  have hcore :
      (Machine.start p.project.memory p.host p.project.pending p.project.waiting).core =
        (Machine.start p'.project.memory p'.host p'.project.pending p'.project.waiting).core := by
    rw [hd.pending, hd.waiting, hd'.pending, hd'.waiting, hmemory]
    rfl
  have hlock := Machine.lockstep (h := h) (g := g) (s := p.project.setting)
    (n := p'.project.iterations) (d := p'.project.delivered) p.project.budget _ _ hcore
    (.inr hsys)
  rw [← setting_of_sameBuild hbuild hkeys] at hlock
  unfold walk
  have htrace : p'.trace g =
      (Machine.start p'.project.memory p'.host p'.project.pending p'.project.waiting).trace g
        p'.project.setting p.project.budget := by
    rw [trace, hbuild.budget]
  rw [htrace, hbuild.budget]
  exact hlock

/-! ### Ticks preserve soundness -/

/-- A tick changes neither what the project is made of nor the keyboard. -/
theorem flight_keeps (hd : p.project.Departing) :
    p.project.SameBuild (p.flight h).project ∧ (p.flight h).project.keys = p.project.keys := by
  rcases flight_cases (h := h) hd with ⟨cause, -, heq⟩ | ⟨memory, yielded, -, -, heq⟩
  · rw [heq, project_fail]
    exact ⟨⟨rfl, rfl, rfl, rfl, rfl, rfl, rfl⟩, rfl⟩
  · rw [heq]
    split
    · rw [project_shut]
      exact ⟨⟨rfl, rfl, rfl, rfl, rfl, rfl, rfl⟩, rfl⟩
    · exact ⟨⟨rfl, rfl, rfl, rfl, rfl, rfl, rfl⟩, rfl⟩

theorem sound_flight (hd : p.project.Departing) : (p.flight h).project.Sound := by
  have hwalk := (walk_runs (h := h) hd).size
  rcases flight_cases (h := h) hd with ⟨cause, hhow, heq⟩ | ⟨memory, yielded, -, hmemory, heq⟩
  · -- a tick that fails has no call pending
    rcases walk_outcome (h := h) hd with ⟨hyield, -⟩ | ⟨-, -, hp, hw⟩
    · rw [hhow] at hyield
      cases hyield
    · rw [heq]
      exact sound_fail (p := p.adopt (p.walk h).1) hp hw
        (hd.inBounds.mono fun k => Nat.le_of_eq (hwalk k).symm) cause
  · have hbounds : p.project.tree.InBounds memory.commit := by
      refine hd.inBounds.mono fun k => Nat.le_of_eq ?_
      rw [Memory.size_commit, Tree.size_propagate hmemory, hwalk]
      rfl
    rw [heq]
    split
    · exact sound_shut hbounds
    · refine ⟨?_, fun hterm => ?_, fun _ => hd.queue, hbounds⟩
      · show (p.walk h).1.waiting = (p.walk h).1.pending.isSome
        rcases walk_outcome (h := h) hd with ⟨-, o, ticket, -, hp, hw⟩ | ⟨-, -, hp, hw⟩
        · rw [hp, hw]
          rfl
        · rw [hp, hw]
          rfl
      · have hlive : p.project.lifecycle.isTerminal = true := hterm
        rw [hd.live] at hlive
        cases hlive

theorem sound_poll (hs : p.project.Sound) : (p.poll h).project.Sound := by
  rcases poll_cases h p with ⟨-, heq⟩ | ⟨_, -, -, heq⟩ | ⟨_, _, -, -, -, heq⟩ |
    ⟨call, _, _, -, -, -, heq⟩
  · rw [heq]
    exact hs
  · rw [heq]
    exact hs
  · rw [heq]
    exact ⟨rfl, fun _ => rfl, hs.queue, hs.inBounds⟩
  · rw [heq]
    exact sound_fail (p := p.relieved h call) rfl rfl hs.inBounds _

/-- **A tick that is asked for preserves soundness, whether or not it takes off.** -/
theorem sound_tick (hs : p.project.Sound) : (p.tick h).project.Sound := by
  cases ht : p.takesOff h with
  | true =>
    rw [tick_of_takesOff ht]
    exact sound_flight (departing_of_takesOff hs ht)
  | false =>
    rw [tick_of_not_takesOff ht]
    exact sound_poll hs

/-! ### Telling subscribers -/

/-- A reaction to the end of a project keeps what taking a subscriber off, closing the project and
telling of it keep. -/
theorem react_induct {P : Playback σ → Prop} {tell : Playback σ → Playback σ}
    (ended : ∀ p, P p → p.project.lifecycle.isTerminal = true)
    (leave : ∀ p id, P p → P (p.update (·.unsubscribe id)))
    (shut : ∀ p, P p → P (tell p.shut)) (self : Nat) (r : Reaction) (hp : P p) :
    P (p.react h tell self r) := by
  induction r generalizing p with
  | nothing => exact hp
  | unsubscribe => exact leave p self hp
  | dismiss id => exact leave p id hp
  | close =>
    rw [react]
    split
    · exact hp
    · exact shut p hp
  | step =>
    -- a project that has ended makes no step
    rw [react, if_pos (ended p hp)]
    exact hp
  | andThen first second ihFirst ihSecond => exact ihSecond (ihFirst hp)

/-- **What telling subscribers can do to a project that has ended.** No reaction makes it tick,
so that a property is kept if recording who is told, clearing the queue, taking a subscriber
off, letting the host go and closing the project keep it. -/
theorem deliver_induct {P : Playback σ → Prop}
    (ended : ∀ p, P p → p.project.lifecycle.isTerminal = true)
    (act : ∀ p a, a.isTelling = true → P p → P (p.act a))
    (clear : ∀ p : Playback σ, P p → P (p.update fun q => { q with queue := [] }))
    (leave : ∀ p id, P p → P (p.update (·.unsubscribe id)))
    (release : ∀ p : Playback σ, P p → P { p with host := h.release p.host p.project.id })
    (shut : ∀ p, P p → P p.shut) (depth : Nat) (hp : P p) : P (p.deliver h depth) := by
  induction depth generalizing p with
  | zero => exact hp
  | succ depth ih =>
    unfold deliver
    refine List.foldlRecOn _ _ (clear p hp) ?_
    rintro p hp ⟨n, audience⟩ -
    -- the host is let go when the project tells that it has closed
    have hrelease : P (p.releaseFor h n) := by
      unfold releaseFor
      split
      · exact act _ _ rfl (release p hp)
      · exact hp
    refine List.foldlRecOn _ _ hrelease ?_
    rintro p hp s -
    have hact := act p (.notify s.id n.event n.message) rfl hp
    exact react_induct ended leave (fun p hp => ih (shut p hp)) s.id s.reaction hact

/-- Without a notice there is nothing to tell. -/
theorem deliverAll_of_queue (hqueue : p.project.queue = []) : p.deliverAll h = p := by
  have hclear : (p.update fun q => { q with queue := [] }) = p := by
    obtain ⟨q, host, acts⟩ := p
    unfold update
    congr 1
    rw [← hqueue]
  simp only [deliverAll, deliver, takeNotices, hqueue, List.map_nil, List.foldl_nil, hclear]

/-- A project that goes on has nothing to tell. -/
theorem deliverAll_of_live (hs : p.project.Sound) (hlive : p.project.lifecycle.isTerminal = false) :
    p.deliverAll h = p :=
  deliverAll_of_queue (hs.queue hlive)

/-- **What a project that has ended keeps while subscribers are told.** -/
theorem deliverAll_of_ended (hs : p.project.Sound)
    (hended : p.project.lifecycle.isTerminal = true) :
    (p.deliverAll h).project.Sound ∧ (p.deliverAll h).project.lifecycle.isTerminal = true ∧
      p.project.SameBuild (p.deliverAll h).project ∧
      (p.deliverAll h).project.memory = p.project.memory := by
  let kept (p' : Playback σ) : Prop :=
    p'.project.Sound ∧ p'.project.lifecycle.isTerminal = true ∧
      p.project.SameBuild p'.project ∧ p'.project.memory = p.project.memory
  refine deliver_induct (P := kept) (fun _ hk => hk.2.1) (fun _ _ _ hk => hk) ?_ ?_ (fun _ hk => hk)
    ?_ 3 ⟨hs, hended, .refl _, rfl⟩
  · rintro p' ⟨hs', hended', hbuild, hmem⟩
    exact ⟨⟨hs'.waiting, hs'.ended, fun _ => rfl, hs'.inBounds⟩, hended', ⟨hbuild.id, hbuild.dir,
      hbuild.classes, hbuild.tree, hbuild.maxDepth, hbuild.budget, hbuild.root⟩, hmem⟩
  · rintro p' id ⟨hs', hended', hbuild, hmem⟩
    exact ⟨⟨hs'.waiting, hs'.ended, hs'.queue, hs'.inBounds⟩, hended', ⟨hbuild.id, hbuild.dir,
      hbuild.classes, hbuild.tree, hbuild.maxDepth, hbuild.budget, hbuild.root⟩, hmem⟩
  · rintro p' ⟨hs', -, hbuild, hmem⟩
    exact ⟨sound_shut hs'.inBounds, rfl, ⟨hbuild.id, hbuild.dir,
      hbuild.classes, hbuild.tree, hbuild.maxDepth, hbuild.budget, hbuild.root⟩, hmem⟩

/-- Subscribers act on the host only by letting it go. -/
theorem deliverAll_host {P : σ → Prop} (hrelease : ∀ x id, P x → P (h.release x id))
    (hs : p.project.Sound) (hp : P p.host) : P (p.deliverAll h).host := by
  cases hended : p.project.lifecycle.isTerminal with
  | true =>
    let kept (p' : Playback σ) : Prop := p'.project.lifecycle.isTerminal = true ∧ P p'.host
    exact (deliver_induct (P := kept) (fun _ hk => hk.1) (fun _ _ _ hk => hk) (fun _ hk => hk)
      (fun _ _ hk => hk) (fun _ hk => ⟨hk.1, hrelease _ _ hk.2⟩) (fun _ hk => ⟨rfl, hk.2⟩) 3
      ⟨hended, hp⟩).2
  | false =>
    rw [deliverAll_of_live hs hended]
    exact hp

theorem sound_deliverAll (hs : p.project.Sound) : (p.deliverAll h).project.Sound := by
  cases hended : p.project.lifecycle.isTerminal with
  | true => exact (deliverAll_of_ended hs hended).1
  | false =>
    rw [deliverAll_of_live hs hended]
    exact hs

end Playback

end SchemePlayer
