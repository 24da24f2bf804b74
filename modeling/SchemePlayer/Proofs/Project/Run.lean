import SchemePlayer.Proofs.Project.Tick

/-!
# Runs of a project

A run is a list of moves: everything that callers can do with a project, in any order, and
what the host does by itself in between. The ticks of a run are the moments at which code
begins to run, in order (`Playback.ticks`).

- `Idle`: what a move leaves alone that asks for no tick.
- `sound_performs`: the invariant of `Project/Tick` holds along every run.
- `Standing`: what a project has in store between two ticks is decided by the earlier one:
  after a tick that yielded, the call that suspended it is pending and the replies recorded
  for it stay recorded; after any other tick, nothing is pending and nothing recorded.
- `begins_of_ticks`: every tick of a run begins as the one before it left the project.
-/

namespace SchemePlayer

/-- Something that happens to a project, or to its host alone. -/
inductive Move (σ : Type) where
  | play (target : Text)
  | pause
  | resume
  | step
  | compute
  /-- an executor calls back, perhaps one of an earlier generation -/
  | callback (generation : Nat)
  | setVar (id : Nat) (name : Text) (value : Value)
  | setKeys (keys : Keyboard)
  | setExecutor (executor : Nat)
  | subscribe (event : Text) (reaction : Reaction)
  | unsubscribe (id : Nat)
  | close
  /-- the host changes by itself: a reply comes, say -/
  | drift (f : σ → σ)

/-- Whether a move is one of the ways to ask for a tick. -/
def Move.isForTick {σ : Type} : Move σ → Bool
  | .step => true
  | .compute => true
  | .callback _ => true
  | _ => false

/-- Whether a move asks a project for a tick at the right time. -/
def Move.asksTick {σ : Type} (q : Project) : Move σ → Bool
  | .step => !q.lifecycle.isTerminal
  | .compute => q.lifecycle = .playing
  | .callback generation => generation = q.generation ∧ q.lifecycle = .playing
  | _ => false

/-- A project of a single instance, with variables that hold texts and without a keyboard. -/
def ProjectOptions.solo (vars : List Text) (bytes : Array UInt8) (strings : Array Text) :
    ProjectOptions where
  id := 1
  root := "a"
  classes := .ofList
    [{ name := "a"
       vars := vars.map fun name => { name, type := .string }
       code := some ⟨bytes, strings⟩ }]
  keys := { states := #[] }

/-- A project can be set up of which something can be checked. -/
theorem Project.exists_create {o : ProjectOptions} {P : Project → Bool}
    (h : (Project.create o).toOption.any P = true) :
    ∃ q, Project.create o = .ok q ∧ P q = true := by
  cases hq : Project.create o with
  | error e =>
    rw [hq] at h
    cases h
  | ok q =>
    rw [hq] at h
    exact ⟨q, rfl, h⟩

namespace Playback

variable {σ : Type} {h : Host σ} {p : Playback σ}

/-- Makes a move. -/
def perform (h : Host σ) (p : Playback σ) : Move σ → Playback σ
  | .play target => (p.play h target).2
  | .pause => p.pause
  | .resume => p.resume
  | .step => (p.step h).2
  | .compute => (p.compute h).2
  | .callback generation => (p.callback h generation).2
  | .setVar id name v => p.update fun q => (q.setVar? id name v).getD q
  | .setKeys keys => p.update fun q => { q with keys }
  | .setExecutor executor => p.setExecutor executor
  | .subscribe event reaction => p.update fun q => (q.subscribe event reaction).2
  | .unsubscribe id => p.update (·.unsubscribe id)
  | .close => p.close h
  | .drift f => { p with host := f p.host }

/-- Makes moves one after the other. -/
def performs (h : Host σ) (p : Playback σ) (ms : List (Move σ)) : Playback σ :=
  ms.foldl (perform h) p

/-- Whether a move makes code run. -/
def ticksOn (h : Host σ) (p : Playback σ) (m : Move σ) : Bool :=
  m.asksTick p.project && p.takesOff h

/-- The moments of a run at which a tick begins. -/
def ticks (h : Host σ) (p : Playback σ) : List (Move σ) → List (Playback σ)
  | [] => []
  | m :: ms => (if p.ticksOn h m then [p] else []) ++ ticks h (p.perform h m) ms

@[simp] theorem performs_cons (h : Host σ) (p : Playback σ) (m : Move σ) (ms : List (Move σ)) :
    p.performs h (m :: ms) = (p.perform h m).performs h ms := rfl

/-! ### Moves that ask for a tick -/

theorem live_of_asksTick {m : Move σ} (hm : m.asksTick p.project = true) :
    p.project.lifecycle.isTerminal = false := by
  have hplaying : p.project.lifecycle = .playing → p.project.lifecycle.isTerminal = false := by
    intro heq
    rw [heq]
    rfl
  cases m with
  | step => simpa only [Move.asksTick, Bool.not_eq_true'] using hm
  | compute => exact hplaying (of_decide_eq_true hm)
  | callback generation => exact hplaying (of_decide_eq_true hm).2
  | _ => cases hm

/-- Whoever asks for a tick, subscribers are told after it. -/
theorem perform_of_asksTick {m : Move σ} (hm : m.asksTick p.project = true) :
    p.perform h m = (p.tick h).deliverAll h := by
  cases m with
  | step =>
    have hlive := live_of_asksTick hm
    simp only [perform, step, hlive, Bool.false_eq_true, if_false]
  | compute =>
    have hplaying : p.project.lifecycle = .playing := of_decide_eq_true hm
    simp only [perform, compute, callback, hplaying, and_self, if_true]
  | callback generation =>
    have hplaying : generation = p.project.generation ∧ p.project.lifecycle = .playing :=
      of_decide_eq_true hm
    simp only [perform, callback, hplaying, and_self, if_true]
  | _ => cases hm

/-- At the wrong time, to ask for a tick does nothing. -/
theorem perform_of_refused {m : Move σ} (hkind : m.isForTick = true)
    (hm : m.asksTick p.project = false) : p.perform h m = p := by
  cases m with
  | step =>
    have hended : p.project.lifecycle.isTerminal = true := by
      simpa only [Move.asksTick, Bool.not_eq_false'] using hm
    simp only [perform, step, hended, if_true]
  | compute =>
    have hnot : ¬p.project.lifecycle = .playing := of_decide_eq_false hm
    simp only [perform, compute, callback, hnot, and_false, if_false]
  | callback generation =>
    have hnot : ¬(generation = p.project.generation ∧ p.project.lifecycle = .playing) :=
      of_decide_eq_false hm
    simp only [perform, callback, hnot, if_false]
  | _ => cases hkind

/-! ### Moves that do not -/

/-- What holds of a move that asks for no tick. -/
structure Idle (m : Move σ) (q q' : Project) : Prop where
  build : q.SameBuild q'
  sound : q'.Sound
  ended : q.lifecycle.isTerminal = true → q'.lifecycle.isTerminal = true
  kept : q'.lifecycle.isTerminal = false → q'.pending = q.pending ∧ q'.delivered = q.delivered ∧
    q'.iterations = q.iterations
  closes : m ≠ .close → q'.lifecycle.isTerminal = q.lifecycle.isTerminal
  memory : (∀ id name v, m ≠ .setVar id name v) → q'.memory = q.memory
  keys : (∀ keys, m ≠ .setKeys keys) → q'.lifecycle.isTerminal = false → q'.keys = q.keys

/-- Nothing at all happens. -/
theorem Idle.still {m : Move σ} {q : Project} (hs : q.Sound) : Idle m q q :=
  ⟨.refl q, hs, id, fun _ => ⟨rfl, rfl, rfl⟩, fun _ => rfl, fun _ => rfl, fun _ _ => rfl⟩

/-- Another stage of life, another run of an executor. -/
theorem Idle.restaged {m : Move σ} {q : Project} (hs : q.Sound) (lifecycle : Lifecycle)
    (executor generation : Nat) (hterm : lifecycle.isTerminal = q.lifecycle.isTerminal) :
    Idle m q { q with lifecycle, executor, generation } where
  build := ⟨rfl, rfl, rfl, rfl, rfl, rfl, rfl⟩
  sound := ⟨hs.waiting, fun hend => hs.ended (hterm ▸ hend), fun hlive => hs.queue (hterm ▸ hlive),
    hs.inBounds⟩
  ended hend := hterm.trans hend
  kept _ := ⟨rfl, rfl, rfl⟩
  closes _ := hterm
  memory _ := rfl
  keys _ _ := rfl

theorem Idle.setVar {q : Project} (hs : q.Sound) (id : Nat) (name : Text) (v : Value) :
    Idle (.setVar id name v : Move σ) q ((q.setVar? id name v).getD q) := by
  unfold Project.setVar?
  split
  · exact .still hs
  · split
    · exact .still hs
    · split
      · rename_i memory hwrite
        have hbounds : q.tree.InBounds memory :=
          hs.inBounds.mono fun k => Nat.le_of_eq (Memory.size_write hwrite k).symm
        exact ⟨⟨rfl, rfl, rfl, rfl, rfl, rfl, rfl⟩, ⟨hs.waiting, hs.ended, hs.queue, hbounds⟩,
          fun hend => hend, fun _ => ⟨rfl, rfl, rfl⟩, fun _ => rfl,
          fun hne => absurd rfl (hne id name v), fun _ _ => rfl⟩
      · exact .still hs

theorem Idle.close (hs : p.project.Sound) : Idle (.close : Move σ) p.project (p.close h).project := by
  unfold Playback.close
  split
  · exact .still hs
  · have hshut : p.shut.project.Sound := sound_shut hs.inBounds
    obtain ⟨hsound, hended, hbuild, hmemory⟩ := deliverAll_of_ended (h := h) hshut rfl
    refine ⟨Project.SameBuild.trans ?_ hbuild, hsound, fun _ => hended, fun hlive => ?_,
      fun hne => absurd rfl hne, fun _ => hmemory, fun _ hlive => ?_⟩
    · -- closing changes nothing that the project is made of
      rw [project_shut]
      exact ⟨rfl, rfl, rfl, rfl, rfl, rfl, rfl⟩
    · rw [hended] at hlive
      cases hlive
    · rw [hended] at hlive
      cases hlive

/-- **A move that asks for no tick is idle.** -/
theorem idle_perform {m : Move σ} (hs : p.project.Sound) (hm : m.asksTick p.project = false) :
    Idle m p.project (p.perform h m).project := by
  cases m with
  | play target =>
    show Idle _ _ (p.play h target).2.project
    unfold play
    split
    · exact .still hs
    · exact .still hs
    · exact .still hs
    · rename_i hpaused
      exact .restaged hs .playing _ _ (by rw [hpaused]; rfl)
    · rename_i hready
      split
      · exact .still hs
      · exact .restaged hs .playing _ _ (by rw [hready]; rfl)
  | pause =>
    show Idle _ _ p.pause.project
    unfold pause
    split
    · rename_i hplaying
      exact .restaged hs .paused _ _ (by rw [hplaying]; rfl)
    · exact .still hs
  | resume =>
    show Idle _ _ p.resume.project
    unfold resume
    split
    · rename_i hpaused
      exact .restaged hs .playing _ _ (by rw [hpaused]; rfl)
    · exact .still hs
  | step =>
    rw [perform_of_refused rfl hm]
    exact .still hs
  | compute =>
    rw [perform_of_refused rfl hm]
    exact .still hs
  | callback generation =>
    rw [perform_of_refused rfl hm]
    exact .still hs
  | setVar id name v => exact .setVar hs id name v
  | setKeys keys =>
    exact ⟨⟨rfl, rfl, rfl, rfl, rfl, rfl, rfl⟩, ⟨hs.waiting, hs.ended, hs.queue, hs.inBounds⟩,
      fun hend => hend, fun _ => ⟨rfl, rfl, rfl⟩, fun _ => rfl, fun _ => rfl,
      fun hne => absurd rfl (hne keys)⟩
  | setExecutor executor =>
    show Idle _ _ (p.setExecutor executor).project
    unfold setExecutor
    split
    · exact .restaged hs p.project.lifecycle _ _ rfl
    · exact .restaged hs p.project.lifecycle _ _ rfl
  | subscribe event reaction =>
    exact ⟨⟨rfl, rfl, rfl, rfl, rfl, rfl, rfl⟩, ⟨hs.waiting, hs.ended, hs.queue, hs.inBounds⟩,
      fun hend => hend, fun _ => ⟨rfl, rfl, rfl⟩, fun _ => rfl, fun _ => rfl, fun _ _ => rfl⟩
  | unsubscribe id =>
    exact ⟨⟨rfl, rfl, rfl, rfl, rfl, rfl, rfl⟩, ⟨hs.waiting, hs.ended, hs.queue, hs.inBounds⟩,
      fun hend => hend, fun _ => ⟨rfl, rfl, rfl⟩, fun _ => rfl, fun _ => rfl, fun _ _ => rfl⟩
  | close => exact .close hs
  | drift f => exact .still hs

/-- A move that asks for no tick changes the host only by what `P` is closed under. -/
theorem idle_host {P : σ → Prop} {m : Move σ} (hs : p.project.Sound)
    (hm : m.asksTick p.project = false) (hattach : ∀ x id target, P x → P (h.attach x id target).2)
    (hrelease : ∀ x id, P x → P (h.release x id)) (hdrift : ∀ f, m = .drift f → P (f p.host))
    (hp : P p.host) : P (p.perform h m).host := by
  cases m with
  | play target =>
    show P (p.play h target).2.host
    unfold play
    split
    · exact hp
    · exact hp
    · exact hp
    · exact hp
    · have hattached := hattach p.host p.project.id target hp
      split
      · rename_i hresult
        rw [hresult] at hattached
        exact hattached
      · rename_i hresult
        rw [hresult] at hattached
        exact hattached
  | pause =>
    show P p.pause.host
    unfold pause
    split <;> exact hp
  | resume =>
    show P p.resume.host
    unfold resume
    split <;> exact hp
  | step =>
    rw [perform_of_refused rfl hm]
    exact hp
  | compute =>
    rw [perform_of_refused rfl hm]
    exact hp
  | callback generation =>
    rw [perform_of_refused rfl hm]
    exact hp
  | setExecutor executor =>
    show P (p.setExecutor executor).host
    unfold setExecutor
    split <;> exact hp
  | close =>
    show P (p.close h).host
    unfold Playback.close
    split
    · exact hp
    · exact deliverAll_host hrelease (sound_shut hs.inBounds) hp
  | drift f => exact hdrift f rfl
  | _ => exact hp

/-! ### Whole runs -/

/-- **Every move preserves soundness.** -/
theorem sound_perform (hs : p.project.Sound) (m : Move σ) : (p.perform h m).project.Sound := by
  cases hm : m.asksTick p.project with
  | true =>
    rw [perform_of_asksTick hm]
    exact sound_deliverAll (sound_tick hs)
  | false => exact (idle_perform hs hm).sound

theorem sound_performs (hs : p.project.Sound) (ms : List (Move σ)) :
    (p.performs h ms).project.Sound := by
  induction ms generalizing p with
  | nil => exact hs
  | cons m ms ih => exact ih (sound_perform hs m)

theorem sameBuild_deliverAll (hs : p.project.Sound) :
    p.project.SameBuild (p.deliverAll h).project := by
  cases hended : p.project.lifecycle.isTerminal with
  | true => exact (deliverAll_of_ended hs hended).2.2.1
  | false =>
    rw [deliverAll_of_live hs hended]
    exact .refl _

/-- No move changes what a project is made of. -/
theorem sameBuild_perform (hs : p.project.Sound) (m : Move σ) :
    p.project.SameBuild (p.perform h m).project := by
  cases hm : m.asksTick p.project with
  | false => exact (idle_perform hs hm).build
  | true =>
    rw [perform_of_asksTick hm]
    refine .trans ?_ (sameBuild_deliverAll (sound_tick hs))
    have hpoll := (poll_keeps h p).1
    cases ht : p.takesOff h with
    | true =>
      rw [tick_of_takesOff ht]
      exact hpoll.trans (flight_keeps (departing_of_takesOff hs ht)).1
    | false =>
      rw [tick_of_not_takesOff ht]
      exact hpoll

theorem sameBuild_performs (hs : p.project.Sound) (ms : List (Move σ)) :
    p.project.SameBuild (p.performs h ms).project := by
  induction ms generalizing p with
  | nil => exact .refl _
  | cons m ms ih => exact (sameBuild_perform hs m).trans (ih (sound_perform hs m))

/-! ### Between ticks -/

/-- What a move keeps of a project that goes on, if no code runs. -/
structure Untouched (m : Move σ) (q q' : Project) : Prop where
  live : q.lifecycle.isTerminal = false
  pending : q'.pending = q.pending
  delivered : q'.delivered = q.delivered
  iterations : q'.iterations = q.iterations
  memory : (∀ id name v, m ≠ .setVar id name v) → q'.memory = q.memory
  keys : (∀ keys, m ≠ .setKeys keys) → q'.keys = q.keys

/-- **A move that makes no code run leaves the project alone or ends it.** -/
theorem untouched_perform {m : Move σ} (hs : p.project.Sound) (hm : p.ticksOn h m = false)
    (hlive : (p.perform h m).project.lifecycle.isTerminal = false) :
    Untouched m p.project (p.perform h m).project := by
  cases hask : m.asksTick p.project with
  | false =>
    have hidle := idle_perform (h := h) hs hask
    obtain ⟨hpending, hdelivered, hiterations⟩ := hidle.kept hlive
    refine ⟨?_, hpending, hdelivered, hiterations, hidle.memory, fun hne => hidle.keys hne hlive⟩
    cases hended : p.project.lifecycle.isTerminal with
    | false => rfl
    | true =>
      rw [hidle.ended hended] at hlive
      cases hlive
  | true =>
    have hp := live_of_asksTick hask
    have ht : p.takesOff h = false := by
      rw [ticksOn, hask] at hm
      exact hm
    rw [perform_of_asksTick hask, tick_of_not_takesOff ht] at hlive ⊢
    rcases stay_of_not_takesOff hs hp ht with ⟨call, -, -, heq⟩ | ⟨call, cause, -, heq⟩
    · -- the reply is still outstanding
      have hsame : (p.poll h).project = p.project := by rw [heq]
      rw [deliverAll_of_live (sound_poll hs) (by rw [hsame]; exact hp), hsame]
      exact ⟨hp, rfl, rfl, rfl, fun _ => rfl, fun _ => rfl⟩
    · -- the reply that came stops the project
      have hended : (p.poll h).project.lifecycle.isTerminal = true := by
        rw [heq, project_fail]
        rfl
      rw [(deliverAll_of_ended (sound_poll hs) hended).2.1] at hlive
      cases hlive

/-- What a tick that begins here leaves in store for the next one: a call that is pending, and
the replies that are recorded. -/
def leaves (h : Host σ) (p : Playback σ) : Option PendingCall × List (CallKey × Value) :=
  match p.suspender? h with
  | some (o, ticket) => (some ⟨o.key, o.call.op, ticket⟩, p.project.delivered)
  | none => (none, [])

/-- A project that goes on has in store what the latest tick left, which began at `last`. -/
def Standing (h : Host σ) (last : Option (Playback σ)) (q : Project) : Prop :=
  q.lifecycle.isTerminal = false →
    (q.pending, q.delivered) =
      match last with
      | none => (none, [])
      | some t => (t.poll h).leaves h

theorem standing_create {o : ProjectOptions} {q : Project} (hq : Project.create o = .ok q) :
    Standing h none q := by
  unfold Project.create at hq
  split at hq
  · cases hq
  · cases hq
    exact fun _ => rfl

/-- A tick leaves in store what its calls say. -/
theorem flight_leaves (hd : p.project.Departing)
    (hlive : (p.flight h).project.lifecycle.isTerminal = false) :
    ((p.flight h).project.pending, (p.flight h).project.delivered) = p.leaves h := by
  rcases flight_cases (h := h) hd with ⟨cause, -, heq⟩ | ⟨memory, yielded, hhow, -, heq⟩
  · rw [heq, project_fail] at hlive
    cases hlive
  · rw [heq] at hlive ⊢
    split at hlive
    · rw [project_shut] at hlive
      cases hlive
    · rename_i hclosing
      rw [if_neg hclosing]
      show ((p.walk h).1.pending, if yielded then p.project.delivered else []) = p.leaves h
      rcases walk_outcome (h := h) hd with ⟨hyield, o, ticket, hsus, hp, -⟩ | ⟨hother, hsus, hp, -⟩
      · -- a tick that yields keeps what is recorded
        rcases hhow with ⟨-, rfl⟩ | ⟨hdone, -⟩
        · rw [hp, leaves, hsus]
          rfl
        · rw [hyield] at hdone
          cases hdone
      · -- a tick that completes clears it
        rcases hhow with ⟨hyield, -⟩ | ⟨-, rfl⟩
        · exact absurd hyield hother
        · rw [hp, leaves, hsus]
          rfl

theorem standing_of_ticksOn {m : Move σ} (hs : p.project.Sound) (hm : p.ticksOn h m = true) :
    Standing h (some p) (p.perform h m).project := by
  intro hlive
  obtain ⟨hask, ht⟩ := Bool.and_eq_true_iff.mp hm
  have hd := departing_of_takesOff hs ht
  rw [perform_of_asksTick hask, tick_of_takesOff ht] at hlive ⊢
  cases hended : ((p.poll h).flight h).project.lifecycle.isTerminal with
  | true =>
    rw [(deliverAll_of_ended (sound_flight hd) hended).2.1] at hlive
    cases hlive
  | false =>
    rw [deliverAll_of_live (sound_flight hd) hended]
    exact flight_leaves hd hended

theorem standing_of_not_ticksOn {m : Move σ} {last : Option (Playback σ)} (hs : p.project.Sound)
    (hst : Standing h last p.project) (hm : p.ticksOn h m = false) :
    Standing h last (p.perform h m).project := by
  intro hlive
  have hkept := untouched_perform hs hm hlive
  rw [hkept.pending, hkept.delivered]
  exact hst hkept.live

/-- What holds of a moment at which a tick begins, when the latest tick before it began at
`last`. -/
structure Begins (h : Host σ) (last : Option (Playback σ)) (t : Playback σ) : Prop where
  sound : t.project.Sound
  live : t.project.lifecycle.isTerminal = false
  takesOff : t.takesOff h = true
  standing : Standing h last t.project

/-- **Every tick of a run begins as the one before it left the project.** -/
theorem begins_of_ticks {last : Option (Playback σ)} {ms : List (Move σ)}
    {before after : List (Playback σ)} {t : Playback σ} (hs : p.project.Sound)
    (hst : Standing h last p.project) (hlog : p.ticks h ms = before ++ t :: after) :
    Begins h (before.getLast?.or last) t ∧ p.project.SameBuild t.project := by
  induction ms generalizing p last before with
  | nil => simp [ticks] at hlog
  | cons m ms ih =>
    rw [ticks] at hlog
    have hbuild := sameBuild_perform (h := h) hs m
    cases hm : p.ticksOn h m with
    | false =>
      rw [hm] at hlog
      -- the move makes no code run, and the latest tick stays the same
      obtain ⟨hbegins, hrest⟩ := ih (sound_perform hs m) (standing_of_not_ticksOn hs hst hm) hlog
      exact ⟨hbegins, hbuild.trans hrest⟩
    | true =>
      rw [hm] at hlog
      cases before with
      | nil =>
        obtain ⟨rfl, -⟩ := List.cons.inj hlog
        obtain ⟨hask, ht⟩ := Bool.and_eq_true_iff.mp hm
        exact ⟨⟨hs, live_of_asksTick hask, ht, hst⟩, .refl _⟩
      | cons u before =>
        obtain ⟨rfl, htail⟩ := List.cons.inj hlog
        -- the tick that begins now is the latest one for the rest of the run
        obtain ⟨hbegins, hrest⟩ := ih (sound_perform hs m) (standing_of_ticksOn hs hm) htail
        refine ⟨?_, hbuild.trans hrest⟩
        have hlast : (p :: before).getLast?.or last = before.getLast?.or (some p) := by
          rw [List.getLast?_cons]
          cases before.getLast? <;> rfl
        rw [hlast]
        exact hbegins

/-- All ticks of a run are ticks of one project. -/
theorem sameBuild_of_mem_ticks {last : Option (Playback σ)} {ms : List (Move σ)} {t u : Playback σ}
    (hs : p.project.Sound) (hst : Standing h last p.project) (ht : t ∈ p.ticks h ms)
    (hu : u ∈ p.ticks h ms) : (t.poll h).project.SameBuild (u.poll h).project := by
  have hmem : ∀ w ∈ p.ticks h ms, p.project.SameBuild (w.poll h).project := by
    intro w hw
    obtain ⟨before, after, hlog⟩ := List.append_of_mem hw
    exact (begins_of_ticks hs hst hlog).2.trans (poll_keeps h w).1
  exact (hmem t ht).symm.trans (hmem u hu)

end Playback

end SchemePlayer
