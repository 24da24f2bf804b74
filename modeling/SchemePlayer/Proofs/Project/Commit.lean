import SchemePlayer.Host.Scripted
import SchemePlayer.Proofs.Memory.Committed
import SchemePlayer.Proofs.Project.Outcome

/-!
# Commits

Values are committed at the end of a tick whose code did not fail, and at no other time. Writes
reach memory from code at any depth, along links and from outside, and a tick can end in many
ways; none of them touches what is committed out of turn.

- `commitsOn`: whether a move makes a tick that is committed.
- `Project.Spared`: what holds of every other move (`spared_perform`).
- `committed_perform`: what holds of a committed tick.
- `committed_by_tick`: **what is committed changes only by ticks that do not fail**, and a
  project that has ended never changes again.
-/

namespace SchemePlayer

/-- Whether a tick failed. -/
def TickEnd.isFailed : TickEnd → Bool
  | .failed _ => true
  | _ => false

namespace Project

/-- What is committed stays, and so does everything else once the project has ended. -/
structure Spared (q q' : Project) : Prop where
  old : q.memory.SameOld q'.memory
  iterations : q'.iterations = q.iterations
  ended : q.lifecycle.isTerminal = true → q'.memory = q.memory

/-- A project is spared if its memory is left alone. -/
theorem Spared.of_memory {q q' : Project} (hmemory : q'.memory = q.memory)
    (hiterations : q'.iterations = q.iterations) : q.Spared q' :=
  ⟨by rw [hmemory]; exact .refl _, hiterations, fun _ => hmemory⟩

end Project

namespace Playback

variable {σ : Type} {h : Host σ} {p : Playback σ}

/-- Whether a move makes a tick that is committed: code runs and does not fail. -/
def commitsOn (h : Host σ) (p : Playback σ) (m : Move σ) : Bool :=
  p.ticksOn h m && !((p.poll h).walk h).2.isFailed

/-! ### One move -/

/-- Subscribers that are told change nothing in memory. -/
theorem memory_deliverAll (hs : p.project.Sound) :
    (p.deliverAll h).project.memory = p.project.memory ∧
      (p.deliverAll h).project.iterations = p.project.iterations := by
  cases hended : p.project.lifecycle.isTerminal with
  | true =>
    have hepi := epilogue_deliverAll (h := h) hended
    exact ⟨hepi.memory, hepi.iterations⟩
  | false =>
    rw [deliverAll_of_live hs hended]
    exact ⟨rfl, rfl⟩

/-- A move that asks for no tick commits nothing. -/
theorem spared_of_not_asksTick {m : Move σ} (hs : p.project.Sound)
    (hm : m.asksTick p.project = false) : p.project.Spared (p.perform h m).project := by
  have haside := aside_perform (h := h) hm
  generalize p.perform h m = p' at haside ⊢
  cases haside with
  | writes x v memory hlive hwrite =>
    -- a variable that is set from outside is not committed by that
    refine ⟨Memory.sameOld_write hwrite, rfl, fun hended => ?_⟩
    rw [hlive] at hended
    cases hended
  | ends =>
    obtain ⟨hmemory, hiterations⟩ :=
      memory_deliverAll (h := h) (p := p.shut) (sound_shut hs.inBounds)
    exact .of_memory hmemory hiterations
  | _ => exact .of_memory rfl rfl

/-- Whatever code writes, at whatever depth, what is committed stays until the tick is over. -/
theorem sameOld_walk (h : Host σ) (p : Playback σ) :
    p.project.memory.SameOld (p.walk h).1.memory :=
  (Machine.runs_trace h p.project.setting p.project.budget
      (Machine.start p.project.memory p.host p.project.pending p.project.waiting)).memory
    (P := p.project.memory.SameOld)
    (fun _ _ _ _ hwrite hold => hold.trans (Memory.sameOld_write hwrite))
    (.refl _)

/-- A tick that does not take off or fails commits nothing. -/
theorem spared_tick (hs : p.project.Sound) (hlive : p.project.lifecycle.isTerminal = false)
    (hno : (p.takesOff h && !((p.poll h).walk h).2.isFailed) = false) :
    p.project.Spared (p.tick h).project := by
  have hout := tick_outcome (h := h) hs hlive
  generalize p.tick h = t at hout ⊢
  cases hout with
  | waits host => exact .of_memory rfl rfl
  | refuses call cause => exact .of_memory rfl rfl
  | fails cause =>
    -- what the code wrote before it failed is there, but not committed
    obtain ⟨-, hmemory, -, hiterations⟩ := poll_keeps h p
    refine ⟨?_, hiterations, fun hended => ?_⟩
    · rw [← hmemory]
      exact sameOld_walk h (p.poll h)
    · rw [hlive] at hended
      cases hended
  | lands memory yielded ht hhow =>
    rw [ht, hhow] at hno
    cases yielded <;> cases hno

/-- What holds once a tick is committed. -/
structure Committed (q q' : Project) : Prop where
  iterations : q'.iterations = q.iterations + 1
  inSync : ∀ s, q'.memory.readOld? s = q'.memory.read? s

theorem committed_tick (hs : p.project.Sound) (hlive : p.project.lifecycle.isTerminal = false)
    (ht : p.takesOff h = true) (hok : ((p.poll h).walk h).2.isFailed = false) :
    Committed p.project (p.tick h).project := by
  have hout := tick_outcome (h := h) hs hlive
  generalize p.tick h = t at hout ⊢
  cases hout with
  | waits host hnot =>
    rw [ht] at hnot
    cases hnot
  | refuses call cause hnot =>
    rw [ht] at hnot
    cases hnot
  | fails cause _ hfailed =>
    rw [hfailed] at hok
    cases hok
  | lands memory yielded =>
    have hlanded : Committed p.project
        ((p.poll h).landed ((p.poll h).walk h).1 memory yielded).project := by
      refine ⟨congrArg (· + 1) (poll_keeps h p).2.2.2, fun s => ?_⟩
      exact (memory.readOld?_commit s).trans (memory.read?_commit s).symm
    split
    · exact ⟨hlanded.iterations, hlanded.inSync⟩
    · exact hlanded

/-- **A move that does not commit leaves alone what is committed.** -/
theorem spared_perform {m : Move σ} (hs : p.project.Sound) (hm : p.commitsOn h m = false) :
    p.project.Spared (p.perform h m).project := by
  cases hask : m.asksTick p.project with
  | false => exact spared_of_not_asksTick hs hask
  | true =>
    rw [commitsOn, ticksOn, hask] at hm
    have htick := spared_tick hs (live_of_asksTick hask) hm
    obtain ⟨hmemory, hiterations⟩ := memory_deliverAll (h := h) (sound_tick (h := h) hs)
    rw [perform_of_asksTick hask]
    refine ⟨?_, hiterations.trans htick.iterations,
      fun hended => hmemory.trans (htick.ended hended)⟩
    rw [hmemory]
    exact htick.old

/-- **A move that commits brings every slot in sync, and counts.** -/
theorem committed_perform {m : Move σ} (hs : p.project.Sound) (hm : p.commitsOn h m = true) :
    Committed p.project (p.perform h m).project := by
  obtain ⟨hticks, hok⟩ := Bool.and_eq_true_iff.mp hm
  obtain ⟨hask, ht⟩ := Bool.and_eq_true_iff.mp hticks
  have htick := committed_tick hs (live_of_asksTick hask) ht (Bool.not_eq_true' _ ▸ hok)
  obtain ⟨hmemory, hiterations⟩ := memory_deliverAll (h := h) (sound_tick (h := h) hs)
  rw [perform_of_asksTick hask]
  refine ⟨hiterations.trans htick.iterations, ?_⟩
  rw [hmemory]
  exact htick.inSync

/-! ### Whole runs -/

/-- What has ended has ended for good. -/
theorem ended_perform (hs : p.project.Sound) (hended : p.project.lifecycle.isTerminal = true)
    (m : Move σ) : m.asksTick p.project = false ∧
      (p.perform h m).project.lifecycle.isTerminal = true := by
  have hask : m.asksTick p.project = false := by
    refine Bool.eq_false_iff.mpr fun hask => ?_
    rw [live_of_asksTick hask] at hended
    cases hended
  exact ⟨hask, (idle_perform hs hask).ended hended⟩

/-- **Neither buffer of a project that has ended changes, nor its count.** -/
theorem kept_of_ended (hs : p.project.Sound) (hended : p.project.lifecycle.isTerminal = true)
    (ms : List (Move σ)) :
    (p.performs h ms).project.memory = p.project.memory ∧
      (p.performs h ms).project.iterations = p.project.iterations := by
  induction ms generalizing p with
  | nil => exact ⟨rfl, rfl⟩
  | cons m ms ih =>
    obtain ⟨hask, hended'⟩ := ended_perform (h := h) hs hended m
    have hspared := spared_of_not_asksTick (h := h) hs hask
    obtain ⟨hmemory, hiterations⟩ := ih (sound_perform hs m) hended'
    exact ⟨hmemory.trans (hspared.ended hended), hiterations.trans hspared.iterations⟩

/-- **What is committed changes only by commit.** After any moves, the next one either makes a
tick whose code ran and did not fail, or leaves the committed value of every slot, the snapshot
and the count of ticks as they were; a tick that fails is of the second kind. The tick counts
once, and then the committed value of every slot is its working value. Once the project has
ended, nothing in memory and no count changes any more. -/
theorem committed_by_tick {h : Host σ} {o : ProjectOptions} {q : Project}
    (hq : Project.create o = .ok q) (host : σ) (ms : List (Move σ)) :
    let start : Playback σ := { project := q, host }
    let p := start.performs h ms
    (∀ m,
      let q' := (p.perform h m).project
      (p.commitsOn h m = true →
        q'.iterations = p.project.iterations + 1 ∧
        ∀ s, q'.memory.readOld? s = q'.memory.read? s) ∧
      (p.commitsOn h m = false →
        (∀ s, q'.memory.readOld? s = p.project.memory.readOld? s) ∧
        q'.snapshot = p.project.snapshot ∧ q'.iterations = p.project.iterations)) ∧
    (p.project.lifecycle.isTerminal = true → ∀ more,
      (p.performs h more).project.memory = p.project.memory ∧
      (p.performs h more).project.iterations = p.project.iterations) := by
  intro start p
  have hs : p.project.Sound := sound_performs (Project.sound_create hq) ms
  refine ⟨fun m => ⟨fun hm => ?_, fun hm => ?_⟩, kept_of_ended hs⟩
  · have hcommitted := committed_perform hs hm
    exact ⟨hcommitted.iterations, hcommitted.inSync⟩
  · have hspared := spared_perform hs hm
    refine ⟨hspared.old, ?_, hspared.iterations⟩
    rw [Project.snapshot, (sameBuild_perform hs m).tree]
    exact Tree.snapshot_congr hspared.old

/-- A project that adds a letter to its variable and then looks for a file. -/
def appender : ProjectOptions :=
  .solo ["S"] #[0x20, 0, 0, 0x12, 0, 0, 0x58, 0x22, 0, 0, 0x12, 0, 0, 0x86, 0x01] #["x"]

/-- A host whose second answer stops the project. -/
def failsLater : ScriptedHost :=
  { script := [.ready (.float 1), .failed (.unrecoverable "lost")] }

/-- The first tick is committed. The second one has written when it fails: the working value is
another one, but what was committed is still there. -/
theorem committed_by_tick_appender :
    ∃ q, Project.create appender = .ok q ∧
      let start : Playback ScriptedHost := { project := q, host := failsLater }
      let p := start.performs ScriptedHost.host [.step]
      let p' := p.perform ScriptedHost.host .step
      start.commitsOn ScriptedHost.host .step = true ∧ p.project.iterations = 1 ∧
        p.project.memory.readOld? ⟨.string, 0⟩ = p.project.memory.read? ⟨.string, 0⟩ ∧
        p.commitsOn ScriptedHost.host .step = false ∧ p'.project.lifecycle = .error ∧
        p'.project.var? 0 "S" = some (.string "xx") ∧
        p'.project.memory.readOld? ⟨.string, 0⟩ = p.project.memory.readOld? ⟨.string, 0⟩ ∧
        p'.project.snapshot = p.project.snapshot ∧
        p'.project.iterations = p.project.iterations := by
  obtain ⟨q, hq, heval⟩ := Project.exists_create
    (o := appender)
    (P := fun q =>
      let start : Playback ScriptedHost := { project := q, host := failsLater }
      let p := start.performs ScriptedHost.host [.step]
      let p' := p.perform ScriptedHost.host .step
      decide (q.iterations = 0 ∧ start.commitsOn ScriptedHost.host .step = true ∧
        p.commitsOn ScriptedHost.host .step = false ∧ p'.project.lifecycle = .error ∧
        p'.project.var? 0 "S" = some (.string "xx")))
    (by decide +kernel)
  obtain ⟨hzero, hcommits, hfails, herror, hvar⟩ := of_decide_eq_true heval
  obtain ⟨hfirst, -⟩ := committed_by_tick (h := ScriptedHost.host) hq failsLater []
  obtain ⟨hsecond, -⟩ := committed_by_tick (h := ScriptedHost.host) hq failsLater [.step]
  obtain ⟨hcount, hsync⟩ := (hfirst .step).1 hcommits
  obtain ⟨hold, hsnapshot, hiterations⟩ := (hsecond .step).2 hfails
  refine ⟨q, hq, hcommits, ?_, hsync _, hfails, herror, hvar, hold _, hsnapshot, hiterations⟩
  exact hcount.trans (congrArg (· + 1) hzero)

end Playback

end SchemePlayer
