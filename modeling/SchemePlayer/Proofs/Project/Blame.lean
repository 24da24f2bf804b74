import SchemePlayer.Proofs.Project.Guard
import SchemePlayer.Proofs.Project.Notification
import SchemePlayer.Proofs.Project.Safety

/-!
# Where a fault is

A fault leaves every execution that is active, the innermost first, and ends the tick. On its way
each of them could put its own class and offset on it, or go on with its own code, and so could the
loops over the targets of a message and over the children of an instance.

- `Machine.Course.raised`: a tick that fails does so in one last turn of the innermost execution,
  and the instruction that raises the fault is the last one that is begun.
- `Playback.notified`: who is told what of a failure.
- `Playback.fault_located`: **a fault is located at the instruction that raised it**, however many
  executions it leaves.
-/

namespace SchemePlayer

variable {σ : Type} {h : Host σ}

namespace Machine

variable {s : Setting} {m last : Machine σ}

/-- Only an instruction raises faults. -/
theorem site?_of_raised {m' : Machine σ} {f : Frame} {fault : Fault}
    (hturn : m.turn h s f = .raised m' fault) : f.site? = some ⟨f.id, f.pc⟩ := by
  unfold turn at hturn
  dsimp only at hturn
  cases hbyte : f.inst.proto.program.bytes[f.pc]? with
  | none =>
    rw [hbyte] at hturn
    cases hturn
  | some b => exact if_pos (Array.getElem?_eq_some_iff.mp hbyte).1

/-- The last moment of a course that fails: the innermost execution raises the fault, and the
executions around it stay as they are. -/
structure Raised (h : Host σ) (s : Setting) (m last : Machine σ) (cause : Failure) (f : Frame)
    (outer : List Frame) (fault : Fault) : Prop where
  frames : m.frames = f :: outer
  ready : f.targets = []
  turn : ∃ m', m.turn h s f = .raised m' fault ∧ last = m'.within m.agenda (f :: outer)
  cause : cause = .at f.inst.proto.name f.pc fault

/-- A step that fails is a turn in which a fault is raised. -/
theorem raised_of_step {cause : Failure} (hstep : m.step h s = (last, some (.failed cause))) :
    ∃ f outer fault, Raised h s m last cause f outer fault := by
  cases hframes : m.frames with
  | nil =>
    -- without an execution, the visit goes on or is complete
    unfold step at hstep
    rw [hframes] at hstep
    dsimp only at hstep
    split at hstep
    · cases hstep
    · cases hstep
  | cons f outer =>
    have hsame : m.within m.agenda (f :: outer) = m := by
      rw [← hframes]
      rfl
    cases htargets : f.targets with
    | cons target targets =>
      simp only [step, hframes, execute, htargets] at hstep
      cases hstep
    | nil =>
      have hturn : (m.within m.agenda (f :: outer)).step h s =
          ofTurn m.agenda f outer (m.turn h s f) := step_eq_ofTurn htargets
      rw [hsame, hstep] at hturn
      cases hthis : m.turn h s f with
      | on m' f' =>
        rw [hthis] at hturn
        cases hturn
      | ended m' =>
        rw [hthis] at hturn
        cases hturn
      | yielded m' =>
        rw [hthis] at hturn
        cases hturn
      | raised m' fault =>
        rw [hthis] at hturn
        cases hturn
        exact ⟨f, outer, fault, hframes, htargets, ⟨m', hthis, rfl⟩, rfl⟩

/-- What is reached from the next moment is reached. -/
theorem Reaches.after_step {m₁ m₂ : Machine σ} (hstep : m.step h s = (m₁, none))
    (hreach : Reaches h s m₁ m₂) : Reaches h s m m₂ := by
  induction hreach with
  | refl => exact .step .refl hstep
  | step _ hlater ih => exact .step ih hlater

/-- **A course that fails** ends with the turn that raises the fault: no instruction is begun after
it. -/
theorem Course.raised {budget : Nat} {sites : List CallSite} {cause : Failure}
    (hcourse : Course h s budget m sites last (.failed cause)) :
    ∃ m₁ f outer fault, Reaches h s m m₁ ∧ Raised h s m₁ last cause f outer fault ∧
      sites.getLast? = some ⟨f.id, f.pc⟩ := by
  generalize hhow : TickEnd.failed cause = how at hcourse
  induction hcourse with
  | @ends budget m last how hstep =>
    subst hhow
    obtain ⟨f, outer, fault, hraised⟩ := raised_of_step hstep
    obtain ⟨m', hturn, -⟩ := hraised.turn
    refine ⟨m, f, outer, fault, .refl, hraised, ?_⟩
    simp [site?, hraised.frames, hraised.ready, site?_of_raised hturn]
  | @goes budget m m' sites last how hstep _ ih =>
    obtain ⟨m₁, f, outer, fault, hreach, hraised, hlast⟩ := ih hhow
    refine ⟨m₁, f, outer, fault, hreach.after_step hstep, hraised, ?_⟩
    rw [List.getLast?_append, hlast]
    rfl

end Machine

namespace Playback

/-- **Who is told what of a failure**: everyone who is subscribed to it is told its notice, whatever
they answer to it. -/
theorem notified {p : Playback σ} (hqueue : p.project.queue = []) (cause : Failure) :
    ∃ new, ((p.fail cause).deliverAll h).acts = p.acts ++ new ∧ .report cause ∈ new ∧
      told .error new = (Event.error.audience p.project.subscriptions).map (·.id) ∧
      ∀ id message, .notify id .error message ∈ new → message = cause.notice := by
  have htellings : ∀ {audience : List Subscription} {id : Nat} {message : Text},
      .notify id .error message ∈ tellings ⟨.error, cause.notice⟩ audience →
        message = cause.notice := by
    intro audience id message hmem
    obtain ⟨s, -, heq⟩ := List.mem_map.mp hmem
    cases heq
    rfl
  rcases settles_fail (h := h) hqueue cause 1 with ⟨R, -, hsettles⟩ |
    ⟨R, before, after, -, -, haudience, hsettles⟩
  · refine ⟨_, hsettles.acts, by simp, by simp, ?_⟩
    intro id message hmem
    rcases List.mem_append.mp hmem with hmem | hmem
    · simp at hmem
    · exact htellings hmem
  · refine ⟨_, hsettles.acts, by simp, ?_, ?_⟩
    · rw [haudience]
      simp [told_closingActs, toTell]
    · -- a closing in between is another event
      intro id message hmem
      simp only [List.mem_append] at hmem
      rcases hmem with hmem | (hmem | hmem) | hmem
      · simp at hmem
      · exact htellings hmem
      · simp [closingActs, tellings] at hmem
      · exact htellings hmem

/-- A tick whose code fails ends with the failure. -/
theorem tick_of_failed {t : Playback σ} (hs : t.project.Sound) (htakes : t.takesOff h = true)
    {cause : Failure} (hfailed : t.ending h = .failed cause) :
    t.tick h = ((t.poll h).adopt ((t.poll h).walk h).1).fail cause := by
  rw [tick_of_takesOff htakes]
  rcases flight_cases (h := h) (departing_of_takesOff hs htakes) with
    ⟨cause', hcause, heq⟩ | ⟨_, _, hhow, -⟩
  · cases hfailed.symm.trans hcause
    exact heq
  · rcases hhow with ⟨hyields, -⟩ | ⟨hdone, -⟩
    · cases hfailed.symm.trans hyields
    · cases hfailed.symm.trans hdone

/-- **A fault is located at the instruction that raised it.** If the code of a tick fails, the tick
has come to a moment at which the innermost execution, of whatever depth, raises a fault in the
instruction that it has come to. The failure has the class of that execution's instance and the
offset of that instruction. This is the last instruction that the tick begins, and the machine is
left as it was then. As nested executions, each of which gets to locate the fault again on its way
out, the tick fails with the same cause and has begun the same instructions. The project has failed,
and its subscribers are told the name of the class and the kind of the fault. -/
theorem fault_located {o : ProjectOptions} {q : Project} (hq : Project.create o = .ok q)
    {host : σ} {ms : List (Move σ)} {t : Playback σ}
    (ht : t ∈ ({ project := q, host } : Playback σ).ticks h ms) {cause : Failure}
    (hfailed : t.ending h = .failed cause) (hends : cause ≠ .exhausted) :
    ∃ (m m' : Machine σ) (f : Frame) (outer : List Frame) (fault : Fault),
      (t.Moment h m ∧ m.frames = f :: outer ∧ f.targets = [] ∧
        q.tree.instance? f.id = some f.inst ∧
        m.turn h (t.poll h).project.setting f = .raised m' fault) ∧
      cause = .at f.inst.proto.name f.pc fault ∧
      ((t.begun h).getLast? = some ⟨f.id, f.pc⟩ ∧
        ((t.poll h).walk h).1 = m'.within m.agenda (f :: outer)) ∧
      (∃ w visits frames, t.nested h 0 = some (w, .failed cause) ∧ w.log = t.begun h ∧
        ((t.poll h).walk h).1 = w.base.within visits frames) ∧
      let text := f.inst.proto.name ++ ": " ++ fault.kindName
      (t.tick h).project.lifecycle = .error ∧ (t.tick h).project.queue = [⟨.error, text⟩] ∧
      ∃ new, ((t.tick h).deliverAll h).acts = t.acts ++ new ∧ .report cause ∈ new ∧
        told .error new = (Event.error.audience t.project.subscriptions).map (·.id) ∧
        ∀ id message, .notify id .error message ∈ new → message = text := by
  obtain ⟨before, after, hlog⟩ := List.append_of_mem ht
  obtain ⟨hbegins, hbuild⟩ := begins_of_ticks (Project.sound_create hq) (standing_create hq) hlog
  have hd := departing_of_takesOff hbegins.sound hbegins.takesOff
  have hcalm := calm_poll (h := h) hbegins.takesOff
  have htree : (t.poll h).project.tree = q.tree := (hbuild.trans (poll_keeps h t).1).tree
  -- 1. the last moment
  have hnot : t.ending h ≠ .failed .exhausted := by
    rw [hfailed]
    rintro heq
    cases heq
    exact hends rfl
  have hcourse : Machine.Course _ _ _ _ _ _ (t.ending h) := Machine.course_of_run hnot
  rw [hfailed] at hcourse
  obtain ⟨m, f, outer, fault, hreach, hraised, hlast⟩ := hcourse.raised
  obtain ⟨m', hturn, hleft⟩ := hraised.turn
  have hknown : q.tree.instance? f.id = some f.inst := by
    rw [← htree]
    exact known_of_moment hq ht hreach (by rw [hraised.frames]; exact List.mem_cons_self ..)
  -- 2. the same as nested executions
  obtain ⟨w, verdict, visits, frames, hnested, -, hverdict, hbase, hbegun⟩ := nested_eq_walk hnot
  obtain rfl : verdict = .failed cause := by
    rw [hfailed] at hverdict
    cases verdict with
    | done => cases hverdict
    | denied => cases hverdict
    | yielded => cases hverdict
    | failed cause' =>
      cases hverdict
      rfl
  -- 3. what becomes of the project
  have htick := tick_of_failed hbegins.sound hbegins.takesOff hfailed
  have htext : cause.notice = f.inst.proto.name ++ ": " ++ fault.kindName := by
    rw [hraised.cause]
    rfl
  obtain ⟨new, hacts, hreport, haudience, hmessages⟩ :=
    notified (h := h) (p := (t.poll h).adopt ((t.poll h).walk h).1) hd.queue cause
  refine ⟨m, m', f, outer, fault,
    ⟨hreach, hraised.frames, hraised.ready, hknown, hturn⟩, hraised.cause, ⟨hlast, hleft⟩,
    ⟨w, visits, frames, hnested, hbegun, hbase⟩, ?_⟩
  intro text
  rw [htick]
  refine ⟨by rw [project_fail], ?_, new, ?_, hreport, ?_, ?_⟩
  · have hqueue : ((t.poll h).adopt ((t.poll h).walk h).1).project.queue = [] := hd.queue
    rw [project_fail, hqueue, htext]
    rfl
  · rw [hacts]
    exact congrArg (· ++ new) (poll_of_takesOff hbegins.takesOff).1
  · rw [haudience, ← hcalm.subscriptions]
    rfl
  · intro id message hmem
    rw [hmessages id message hmem, htext]

/-- The first of three instances sends a message to the second, and the second one to the third,
which takes from an empty stack. -/
def relay : ProjectOptions where
  id := 1
  root := "top"
  classes := .ofList
    [{ name := "top"
       children := [{ className := "a", handle := 1 }, { className := "b", handle := 2 },
         { className := "c", handle := 3 }]
       code := some ⟨#[0x00], #[]⟩ },
     { name := "a"
       code := some ⟨#[0x12, 0, 0, 0x76, 0x00], #["b"]⟩ },
     { name := "b"
       code := some ⟨#[0x12, 0, 0, 0x76, 0x00], #["c"]⟩ },
     { name := "c"
       code := some ⟨#[0x00, 0x01, 0x00], #[]⟩ }]
  keys := { states := #[] }

/-- The fault is located in the third one, and neither of the others goes on. -/
theorem fault_located_relay :
    ∃ q, Project.create relay = .ok q ∧
      let start : Playback ScriptedHost := { project := q, host := {} }
      let t := start.perform ScriptedHost.host (.subscribe "error" .close)
      let cause : Failure := .at "c" 1 (.underflow .pop 1)
      t ∈ start.ticks ScriptedHost.host [.subscribe "error" .close, .step] ∧
        t.ending ScriptedHost.host = .failed cause ∧
        t.begun ScriptedHost.host = [⟨1, 0⟩, ⟨1, 3⟩, ⟨2, 0⟩, ⟨2, 3⟩, ⟨3, 0⟩, ⟨3, 1⟩] ∧
        (∃ m, t.Moment ScriptedHost.host m ∧ m.frames.head?.map Frame.id = some 3) ∧
        (∃ w, t.nested ScriptedHost.host 0 = some (w, .failed cause)) ∧
        (t.tick ScriptedHost.host).project.queue = [⟨.error, "c: operand stack underflow"⟩] := by
  obtain ⟨q, hq, heval⟩ := Project.exists_create
    (o := relay)
    (P := fun q =>
      let start : Playback ScriptedHost := { project := q, host := {} }
      let t := start.perform ScriptedHost.host (.subscribe "error" .close)
      decide (t.ticksOn ScriptedHost.host .step = true ∧
        t.ending ScriptedHost.host = .failed (.at "c" 1 (.underflow .pop 1)) ∧
        t.begun ScriptedHost.host = [⟨1, 0⟩, ⟨1, 3⟩, ⟨2, 0⟩, ⟨2, 3⟩, ⟨3, 0⟩, ⟨3, 1⟩]))
    (by decide +kernel)
  obtain ⟨hticks, hfailed, hbegun⟩ := of_decide_eq_true heval
  let start : Playback ScriptedHost := { project := q, host := {} }
  let t := start.perform ScriptedHost.host (.subscribe "error" .close)
  have hmem : t ∈ start.ticks ScriptedHost.host [.subscribe "error" .close, .step] := by
    refine List.mem_append_right _ ?_
    rw [ticks, if_pos hticks]
    exact List.mem_cons_self ..
  obtain ⟨m, m', f, outer, fault, ⟨hmoment, hframes, -, -, -⟩, hcause, ⟨hlast, -⟩,
    ⟨w, -, -, hnested, -, -⟩, -, hqueue, -⟩ := fault_located hq hmem hfailed (by decide)
  injection hcause with hclass hoffset hfault
  have htext : ("c" : Text) ++ ": " ++ (Fault.underflow .pop 1).kindName =
      "c: operand stack underflow" := by decide
  rw [← hclass, ← hfault, htext] at hqueue
  refine ⟨q, hq, hmem, hfailed, hbegun, ⟨m, hmoment, ?_⟩, ⟨w, hnested⟩, hqueue⟩
  rw [hbegun] at hlast
  have hid : 3 = f.id := congrArg CallSite.inst (Option.some.inj hlast)
  rw [hframes, List.head?_cons, hid]
  rfl

end Playback

end SchemePlayer
