import SchemePlayer.Proofs.Host.Registry

/-!
# A host that several projects share

Calls of several projects, the ends of the tasks that these leave behind, windows that are closed
from outside and projects that are let go come in any order (`Headless.Event`). Streams are used by
whoever holds them, and files change at any time, so that what a task has found on the disk need not
be there any more when its window is registered.

- `change_happen`: whatever happens, it changes the registry in one of its four ways.
- `orderly_of_events`: **what is open stays in order.** As long as handles have not run out, windows
  are known by the lower-case forms of their names, handles are distinct, positive and never issued
  again, and of a project that was released nothing is open any more, although its tasks may still
  end.
- `others_kept_iff`: **what belongs to others.** A project leaves alone what others have opened,
  except that it can close any window whose name it knows, and that a stream which it opens replaces
  another one when handles have run out and start over.
-/

namespace SchemePlayer

/-- The project that a task opens a window or a stream for, if it opens one. -/
def HostTask.opensFor? : HostTask → Option Nat
  | .openWindow w _ => some w.owner
  | .openStream project .. => some project
  | .makeDirectory _ => none
  | .lookFor _ => none

/-- Whether an operation opens a window or a stream. -/
def HyperOp.opens : HyperOp → Bool
  | .openSchemeWindow | .loadSpaceWindow | .createWindowEx | .createStream => true
  | _ => false

namespace Headless

variable {h h' h'' : Headless}

/-- Something that happens to a host. -/
inductive Event where
  /-- a project makes a call -/
  | call (who : Caller) (c : HyperCall)
  /-- the task with a ticket ends -/
  | finish (ticket : Nat)
  /-- the reply under a ticket is taken -/
  | collect (ticket : Nat)
  /-- a window is closed from outside -/
  | closeWindow (name : Text)
  | release (project : Nat)
  | attach (project : Nat) (target : Text)
  /-- a stream is used, which may change it in any way -/
  | useStream (handle : Nat) (stream : Stream)
  /-- the files change in any way -/
  | disk (files : Files)

/-- The host after an event. -/
def happen (h : Headless) : Event → Headless
  | .call who c => (h.call who c).2
  | .finish ticket => h.finish ticket
  | .collect ticket => (h.collect ticket).2
  | .closeWindow name => { h with registry := (h.registry.closeWindow name).2 }
  | .release project => h.release project
  | .attach project target => h.attach project target
  | .useStream handle stream => { h with registry := h.registry.setStream handle stream }
  | .disk files => { h with files }

/-- The host after some events. -/
def happens (h : Headless) (es : List Event) : Headless := es.foldl happen h

theorem happens_append (h : Headless) (es es' : List Event) :
    h.happens (es ++ es') = (h.happens es).happens es' := List.foldl_append

/-! ### What an event can do -/

/-- To open a window is a matter of the registry. -/
theorem openWindow_eq_ok {w : Window} {v : Value} (hopen : h.openWindow w = .ok (v, h')) :
    ∃ handle registry, h.registry.openWindow w = .ok (handle, registry) ∧
      h' = { h with registry } := by
  unfold openWindow at hopen
  split at hopen
  · rename_i handle registry hregistry
    cases hopen
    exact ⟨handle, registry, hregistry, rfl⟩
  · cases hopen

/-- **A stream is taken in and its handle is the reply**, or the reply is a failure. -/
theorem openStream_cases (h : Headless) (project : Nat) (type path flags : Text) :
    (∃ cause files, h.openStream project type path flags = (.failed cause, { h with files })) ∨
    ∃ stream handle registry files, h.registry.openStream project stream = .ok (handle, registry) ∧
      h.openStream project type path flags =
        (.value (handleValue handle), { h with registry, files }) := by
  unfold openStream
  split
  · exact .inl ⟨_, h.files, rfl⟩
  · split
    · exact .inl ⟨_, h.files, rfl⟩
    · rename_i stream files _
      dsimp only
      split
      · rename_i handle registry hopen
        exact .inr ⟨stream, handle, registry, files, hopen, rfl⟩
      · exact .inl ⟨_, files, rfl⟩

/-- **A task may touch files and open something, and does nothing else.** -/
theorem perform_cases (h : Headless) (task : HostTask) :
    ∃ registry files, (h.perform task).2 = { h with registry, files } ∧
      h.registry.Gain registry := by
  cases task with
  | openWindow w shown =>
    unfold perform
    dsimp only
    split
    · exact ⟨h.registry, h.files, rfl, .nothing⟩
    · split
      · rename_i v h₁ hopen
        obtain ⟨handle, registry, hregistry, rfl⟩ := openWindow_eq_ok hopen
        exact ⟨registry, h.files, rfl, .window hregistry⟩
      · exact ⟨h.registry, h.files, rfl, .nothing⟩
  | makeDirectory path =>
    unfold perform
    dsimp only
    split
    · rename_i files _
      exact ⟨h.registry, files, rfl, .nothing⟩
    · exact ⟨h.registry, h.files, rfl, .nothing⟩
  | lookFor path => exact ⟨h.registry, h.files, rfl, .nothing⟩
  | openStream project type path flags =>
    show ∃ registry files, (h.openStream project type path flags).2 = { h with registry, files } ∧
      h.registry.Gain registry
    rcases h.openStream_cases project type path flags with ⟨cause, files, heq⟩ |
      ⟨stream, handle, registry, files, hopen, heq⟩
    · rw [heq]
      exact ⟨h.registry, files, rfl, .nothing⟩
    · rw [heq]
      exact ⟨registry, files, rfl, .stream hopen⟩

/-- **A call is answered at once, closes a window, or is put off.** What is answered at once opens a
window at most. What is put off opens something for the caller, if the operation opens anything. -/
theorem call_cases (h : Headless) (who : Caller) (c : HyperCall) :
    (∃ answer registry, h.call who c = (answer, { h with registry }) ∧
      (registry = h.registry ∨ ∃ w handle, h.registry.openWindow w = .ok (handle, registry)) ∧
      c.op ≠ .closeWindow ∧ ∀ ticket, answer ≠ .pending ticket) ∨
    (∃ v, h.call who c = (.ready v, { h with registry := (h.registry.closeWindow (c.text 0)).2 }) ∧
      c.op = .closeWindow) ∨
    (∃ task, h.call who c = h.postpone task ∧ c.op ≠ .closeWindow ∧
      (c.op.opens = true → task.opensFor? = some who.project)) := by
  unfold call
  dsimp only
  cases c.op with
  | screenWidth => exact .inl ⟨_, _, rfl, .inl rfl, by simp, by simp⟩
  | screenHeight => exact .inl ⟨_, _, rfl, .inl rfl, by simp, by simp⟩
  | openSchemeWindow =>
    refine .inl ?_
    unfold openScheme
    dsimp only
    split
    · exact ⟨_, _, rfl, .inl rfl, by simp, by simp⟩
    · split
      · exact ⟨_, _, rfl, .inl rfl, by simp, by simp⟩
      · split
        · rename_i v h₁ hopen
          obtain ⟨handle, registry, hregistry, rfl⟩ := openWindow_eq_ok hopen
          exact ⟨_, registry, rfl, .inr ⟨_, handle, hregistry⟩, by simp, by simp⟩
        · exact ⟨_, _, rfl, .inl rfl, by simp, by simp⟩
  | loadSpaceWindow => exact .inr (.inr ⟨_, rfl, by simp, fun _ => rfl⟩)
  | createWindowEx => exact .inr (.inr ⟨_, rfl, by simp, fun _ => rfl⟩)
  | createDir => exact .inr (.inr ⟨_, rfl, by simp, by simp [HyperOp.opens]⟩)
  | fileExist => exact .inr (.inr ⟨_, rfl, by simp, by simp [HyperOp.opens]⟩)
  | createStream => exact .inr (.inr ⟨_, rfl, by simp, fun _ => rfl⟩)
  | closeWindow => exact .inr (.inl ⟨_, rfl, rfl⟩)
  | other code => exact .inl ⟨_, _, rfl, .inl rfl, by simp, by simp⟩

/-- A task that ends leaves its reply and is gone. -/
theorem finish_cases (h : Headless) (ticket : Nat) :
    (h.tasks.lookup ticket = none ∧ h.finish ticket = h) ∨
    ∃ task registry files, h.tasks.lookup ticket = some task ∧ h.registry.Gain registry ∧
      h.finish ticket =
        { h with
          registry
          files
          tasks := h.tasks.filter fun p => p.1 ≠ ticket
          replies := h.replies ++ [(ticket, (h.perform task).1)] } := by
  unfold finish
  cases htask : h.tasks.lookup ticket with
  | none => exact .inl ⟨rfl, rfl⟩
  | some task =>
    obtain ⟨registry, files, hperform, hgain⟩ := h.perform_cases task
    refine .inr ⟨task, registry, files, rfl, hgain, ?_⟩
    dsimp only
    rw [hperform]

theorem gain_finish (h : Headless) (ticket : Nat) : h.registry.Gain (h.finish ticket).registry := by
  rcases h.finish_cases ticket with ⟨-, hfinish⟩ | ⟨task, registry, files, -, hgain, hfinish⟩
  · rw [hfinish]
    exact .nothing
  · rw [hfinish]
    exact hgain

/-- **Whatever happens, it changes what is open in one of four ways.** -/
theorem change_happen (h : Headless) (e : Event) : h.registry.Change (h.happen e).registry := by
  cases e with
  | call who c =>
    dsimp only [happen]
    rcases h.call_cases who c with ⟨answer, registry, hcall, hopened, -⟩ | ⟨v, hcall, -⟩ |
      ⟨task, hcall, -⟩
    · rw [hcall]
      rcases hopened with rfl | ⟨w, handle, hopen⟩
      · exact .gain .nothing
      · exact .gain (.window hopen)
    · rw [hcall]
      exact .closeWindow _
    · rw [hcall]
      exact .gain .nothing
  | finish ticket => exact .gain (h.gain_finish ticket)
  | collect ticket => exact .gain .nothing
  | closeWindow name => exact .closeWindow name
  | release project => exact .release project
  | attach project target => exact .gain .nothing
  | useStream handle stream => exact .setStream handle stream
  | disk files => exact .gain .nothing

/-! ### What holds at every moment -/

/-- What is open is sound, and tickets of tasks have been handed out. -/
structure Sound (h : Headless) : Prop where
  registry : h.registry.Sound
  tickets : ∀ p ∈ h.tasks, p.1 < h.tickets

/-- A later moment: of the tasks that were asked for, some may have ended, and others may have been
added under new tickets. -/
structure Onward (h h' : Headless) : Prop where
  registry : h.registry.Onward h'.registry
  tickets : h.tickets ≤ h'.tickets
  tasks : ∀ p ∈ h'.tasks, p ∈ h.tasks ∨ h.tickets ≤ p.1

theorem Onward.refl (h : Headless) : h.Onward h :=
  ⟨.refl _, Nat.le_refl _, fun _ hp => .inl hp⟩

theorem Onward.trans (h₁ : h.Onward h') (h₂ : h'.Onward h'') : h.Onward h'' := by
  refine ⟨h₁.registry.trans h₂.registry, Nat.le_trans h₁.tickets h₂.tickets, fun p hp => ?_⟩
  rcases h₂.tasks p hp with hp | hle
  · exact h₁.tasks p hp
  · exact .inr (Nat.le_trans h₁.tickets hle)

/-- What an event does to the tasks. -/
theorem tasks_happen (h : Headless) (e : Event) :
    (h.happen e).tickets = h.tickets ∧ (∀ p ∈ (h.happen e).tasks, p ∈ h.tasks) ∨
    ∃ task, (h.happen e).tickets = h.tickets + 1 ∧
      (h.happen e).tasks = h.tasks ++ [(h.tickets, task)] := by
  cases e with
  | call who c =>
    dsimp only [happen]
    rcases h.call_cases who c with ⟨answer, registry, hcall, -⟩ | ⟨v, hcall, -⟩ | ⟨task, hcall, -⟩
    · rw [hcall]
      exact .inl ⟨rfl, fun _ hp => hp⟩
    · rw [hcall]
      exact .inl ⟨rfl, fun _ hp => hp⟩
    · rw [hcall]
      exact .inr ⟨task, rfl, rfl⟩
  | finish ticket =>
    dsimp only [happen]
    rcases h.finish_cases ticket with ⟨-, hfinish⟩ | ⟨task, registry, files, -, -, hfinish⟩
    · rw [hfinish]
      exact .inl ⟨rfl, fun _ hp => hp⟩
    · rw [hfinish]
      exact .inl ⟨rfl, fun _ hp => (List.mem_filter.mp hp).1⟩
  | collect ticket => exact .inl ⟨rfl, fun _ hp => hp⟩
  | closeWindow name => exact .inl ⟨rfl, fun _ hp => hp⟩
  | release project => exact .inl ⟨rfl, fun _ hp => hp⟩
  | attach project target => exact .inl ⟨rfl, fun _ hp => hp⟩
  | useStream handle stream => exact .inl ⟨rfl, fun _ hp => hp⟩
  | disk files => exact .inl ⟨rfl, fun _ hp => hp⟩

theorem sound_happen (hs : h.Sound) (e : Event) : (h.happen e).Sound := by
  refine ⟨(h.change_happen e).sound hs.registry, fun p hp => ?_⟩
  rcases h.tasks_happen e with ⟨htickets, htasks⟩ | ⟨task, htickets, htasks⟩
  · rw [htickets]
    exact hs.tickets p (htasks p hp)
  · rw [htasks] at hp
    rw [htickets]
    rcases List.mem_append.mp hp with hp | hp
    · exact Nat.lt_succ_of_lt (hs.tickets p hp)
    · obtain rfl := List.mem_singleton.mp hp
      exact Nat.lt_succ_self _

theorem onward_happen (h : Headless) (e : Event) : h.Onward (h.happen e) := by
  rcases h.tasks_happen e with ⟨htickets, htasks⟩ | ⟨task, htickets, htasks⟩
  · exact ⟨(h.change_happen e).onward, Nat.le_of_eq htickets.symm, fun p hp => .inl (htasks p hp)⟩
  · refine ⟨(h.change_happen e).onward, by omega, fun p hp => ?_⟩
    rw [htasks] at hp
    rcases List.mem_append.mp hp with hp | hp
    · exact .inl hp
    · obtain rfl := List.mem_singleton.mp hp
      exact .inr (Nat.le_refl _)

theorem sound_happens (hs : h.Sound) (es : List Event) : (h.happens es).Sound := by
  induction es generalizing h with
  | nil => exact hs
  | cons e es ih => exact ih (sound_happen hs e)

theorem onward_happens (h : Headless) (es : List Event) : h.Onward (h.happens es) := by
  induction es generalizing h with
  | nil => exact .refl h
  | cons e es ih => exact (h.onward_happen e).trans (ih (h.happen e))

/-- A project that was released at some time is known to be. -/
theorem released_of_mem {project : Nat} {es : List Event} (hmem : .release project ∈ es) :
    project ∈ (h.happens es).registry.released := by
  obtain ⟨early, late, rfl⟩ := List.append_of_mem hmem
  rw [happens_append]
  have hlater := onward_happens ((h.happens early).release project) late
  exact hlater.registry.released project (List.mem_cons_self ..)

/-! ### Tasks of a project that is gone -/

theorem openStream_of_released {project : Nat} (hgone : project ∈ h.registry.released)
    (type path flags : Text) :
    ∃ cause, (h.openStream project type path flags).1 = .failed cause := by
  rcases h.openStream_cases project type path flags with ⟨cause, files, heq⟩ |
    ⟨stream, handle, registry, files, hopen, -⟩
  · rw [heq]
    exact ⟨cause, rfl⟩
  · exact absurd hgone (Registry.openStream_eq_ok hopen).1

/-- **What would open something for a project that was released fails.** -/
theorem perform_of_released {project : Nat} (hgone : project ∈ h.registry.released)
    {task : HostTask} (htask : task.opensFor? = some project) :
    ∃ cause, (h.perform task).1 = .failed cause := by
  cases task with
  | openWindow w shown =>
    obtain rfl : w.owner = project := Option.some.inj htask
    have hrefused : h.openWindow w = .error .released := by
      unfold openWindow Registry.openWindow
      rw [if_pos hgone]
    unfold perform
    dsimp only
    split
    · exact ⟨_, rfl⟩
    · rw [hrefused]
      exact ⟨_, rfl⟩
  | makeDirectory path => cases htask
  | lookFor path => cases htask
  | openStream owner type path flags =>
    obtain rfl : owner = project := Option.some.inj htask
    exact openStream_of_released hgone type path flags

/-- A task that is left under the ticket of a call is the one that the call was put off to. -/
theorem task_of_ticket (hs : h.Sound) {who : Caller} {c : HyperCall} {ticket : Nat}
    (hanswer : (h.call who c).1 = .pending ticket) (hopens : c.op.opens = true)
    (hlater : (h.call who c).2.Onward h') {task : HostTask}
    (htask : h'.tasks.lookup ticket = some task) : task.opensFor? = some who.project := by
  rcases h.call_cases who c with ⟨answer, registry, hcall, -, -, hnow⟩ | ⟨v, hcall, -⟩ |
    ⟨asked, hcall, -, hasked⟩
  · rw [hcall] at hanswer
    exact absurd hanswer (hnow ticket)
  · rw [hcall] at hanswer
    cases hanswer
  · rw [hcall] at hanswer hlater
    obtain rfl : h.tickets = ticket := Answer.pending.inj hanswer
    -- tickets that were handed out are never handed out again
    obtain ⟨before, after, htasks, -⟩ := List.lookup_eq_some_iff.mp htask
    have hmem : (h.tickets, task) ∈ h.tasks ++ [(h.tickets, asked)] := by
      rcases hlater.tasks _ (htasks ▸ List.mem_append_cons_self) with hmem | hle
      · exact hmem
      · exact absurd hle (Nat.not_succ_le_self _)
    rcases List.mem_append.mp hmem with hold | hnew
    · exact absurd (hs.tickets _ hold) (Nat.lt_irrefl _)
    · obtain rfl : task = asked := congrArg Prod.snd (List.mem_singleton.mp hnew)
      exact hasked hopens

/-! ### What is open stays in order -/

/-- A host of which nothing was asked yet. -/
def fresh (width height : Int) (files : Files) : Headless :=
  { screenWidth := width, screenHeight := height, files }

theorem sound_fresh (width height : Int) (files : Files) : (fresh width height files).Sound :=
  ⟨Registry.sound_empty, fun _ hp => absurd hp List.not_mem_nil⟩

/-- **What is open stays in order, and goes with its project.** For every order of calls, ends of
tasks, closed windows and released projects in which handles do not run out:

1. windows are known by the lower-case forms of their names, one under each, and the handles of all
   windows and streams are distinct and positive;
2. a handle that was open and is closed is never open again;
3. once a project was released, no window and no stream of it is open, then or later;
4. and if the task of a call that it made ends after that, whenever the call was made, the reply is
   a failure where the task would have opened something. -/
theorem orderly_of_events (width height : Int) (files : Files) (es : List Event)
    (hfew : ((fresh width height files).happens es).registry.issued < 2 ^ 31 - 1) :
    let start := fresh width height files
    let h := start.happens es
    h.registry.Orderly ∧
    (∀ early middle late, es = early ++ middle ++ late →
      ∀ n ∈ (start.happens early).registry.handles,
        n ∉ (start.happens (early ++ middle)).registry.handles → n ∉ h.registry.handles) ∧
    (∀ project, .release project ∈ es →
      (∀ key w, (key, w) ∈ h.registry.windows → w.owner ≠ project) ∧
      ∀ handle s, (handle, s) ∈ h.registry.streams → s.owner ≠ project) ∧
    ∀ early who c late, es = early ++ .call who c :: late → c.op.opens = true →
      .release who.project ∈ es →
      ∀ ticket, ((start.happens early).call who c).1 = .pending ticket →
      ∀ task, h.tasks.lookup ticket = some task →
        ∃ cause, (h.finish ticket).replies = h.replies ++ [(ticket, .failed cause)] := by
  intro start h
  have hfew : h.registry.issued < 2 ^ 31 - 1 := hfew
  have hsound : h.Sound := sound_happens (sound_fresh width height files) es
  refine ⟨hsound.registry.orderly hfew, ?_, ?_, ?_⟩
  · intro early middle late hes n hn hclosed hopen
    have hlater : (start.happens (early ++ middle)).Onward h := by
      show (start.happens (early ++ middle)).Onward (start.happens es)
      rw [hes, happens_append _ (early ++ middle)]
      exact onward_happens _ late
    have hmiddle : (start.happens early).Onward (start.happens (early ++ middle)) := by
      rw [happens_append]
      exact onward_happens _ middle
    -- the handle stands for one number at all three moments
    obtain ⟨k, hk, rfl⟩ := List.mem_map.mp hn
    obtain ⟨k', hk', hsame⟩ := List.mem_map.mp hopen
    have hearly : (start.happens early).Sound :=
      sound_happens (sound_fresh width height files) early
    have hmiddle := hmiddle.registry.issued
    have hlate := hlater.registry.issued
    have hissued := ((hearly.registry.numbered (by omega)).issued k hk).2
    have hissued' := ((hsound.registry.numbered hfew).issued k' hk').2
    obtain rfl : k' = k := Registry.ofNat_inj (by omega) (by omega) hsame
    refine hlater.registry.closed_stays hfew (by omega) (fun hmem => hclosed ?_) hk'
    exact List.mem_map_of_mem hmem
  · intro project hmem
    have hgone : project ∈ h.registry.released := released_of_mem hmem
    constructor
    · rintro key w hw rfl
      exact hsound.registry.windows _ hw hgone
    · rintro handle s hs rfl
      exact hsound.registry.streams _ hs hgone
  · intro early who c late hes hopens hmem ticket hanswer task htask
    have hgone : who.project ∈ h.registry.released := released_of_mem hmem
    have hlater : ((start.happens early).call who c).2.Onward h := by
      show ((start.happens early).call who c).2.Onward (start.happens es)
      rw [hes, happens_append]
      exact onward_happens ((start.happens early).happen (.call who c)) late
    have hearly : (start.happens early).Sound :=
      sound_happens (sound_fresh width height files) early
    have howner := task_of_ticket hearly hanswer hopens hlater htask
    obtain ⟨cause, hcause⟩ := perform_of_released hgone howner
    rcases h.finish_cases ticket with ⟨hnone, -⟩ | ⟨task', registry, files', htask', -, hfinish⟩
    · rw [htask] at hnone
      cases hnone
    · rw [htask] at htask'
      cases htask'
      refine ⟨cause, ?_⟩
      rw [hfinish, ← hcause]

/-- Someone who makes calls for a project. -/
def callerFor (project : Nat) : Caller := { project, dir := [] }

/-- A call for a window without a file. -/
def windowCall (name : Text) : HyperCall :=
  ⟨.createWindowEx, [.string name, .string [], .string [], .float 0, .float 0, .float 0, .float 0,
    .string []]⟩

/-- Project 1 opens a window, project 2 a stream in memory; the window is closed; project 1 asks for
another one and is released before it is there. -/
def lateWindow : List Event :=
  [.call (callerFor 1) (windowCall "Main"), .finish 0,
    .call (callerFor 2) ⟨.createStream, [.string "MEMORY", .string [], .string []]⟩, .finish 1,
    .closeWindow "MAIN", .call (callerFor 1) (windowCall "Late"), .release 1]

/-- The first handle is closed for good, and the window that comes late is refused. -/
theorem orderly_of_events_lateWindow :
    let start := fresh 800 600 {}
    let h := start.happens lateWindow
    (start.happens (lateWindow.take 4)).registry.handles = [1, 2] ∧ h.registry.handles = [2] ∧
      h.registry.Orderly ∧ 1 ∉ h.registry.handles ∧
      (∀ handle s, (handle, s) ∈ h.registry.streams → s.owner ≠ 1) ∧
      ∃ cause, (h.finish 2).replies = h.replies ++ [(2, .failed cause)] := by
  intro start h
  obtain ⟨horderly, hclosed, hgone, hreply⟩ :=
    orderly_of_events 800 600 {} lateWindow (by decide +kernel)
  have hearly : (start.happens (lateWindow.take 4)).registry.handles = [1, 2] := by decide +kernel
  refine ⟨hearly, by decide +kernel, horderly, ?_, (hgone 1 (by simp [lateWindow])).2, ?_⟩
  · refine hclosed (lateWindow.take 4) [.closeWindow "MAIN"] (lateWindow.drop 5) rfl 1 ?_ ?_
    · rw [hearly]
      exact List.mem_cons_self ..
    · decide +kernel
  · obtain ⟨task, htask⟩ : ∃ task, h.tasks.lookup 2 = some task :=
      Option.isSome_iff_exists.mp (by decide +kernel)
    refine hreply (lateWindow.take 5) (callerFor 1) (windowCall "Late") [.release 1] rfl rfl ?_ 2 ?_
      task htask
    · simp [lateWindow, callerFor]
    · decide +kernel

/-! ### What belongs to others -/

/-- Whether an event is something that a project does: it makes a call, a task of it ends, or it is
released. -/
def Event.IsOf (h : Headless) (project : Nat) : Event → Prop
  | .call who _ => who.project = project
  | .finish ticket => ∀ task, h.tasks.lookup ticket = some task →
    ∀ owner, task.opensFor? = some owner → owner = project
  | .release p => p = project
  | _ => False

/-- A call closes a window that another project has opened. -/
def ClosesOther (h : Headless) (project : Nat) (e : Event) : Prop :=
  ∃ who c w, e = .call who c ∧ c.op = .closeWindow ∧ h.registry.window? (c.text 0) = some w ∧
    w.owner ≠ project

/-- A task takes in a stream under a handle that a stream of another project has. -/
def Replaces (h : Headless) (project : Nat) (task : HostTask) : Prop :=
  ∃ owner type path flags v s, task = .openStream owner type path flags ∧
    (h.openStream owner type path flags).1 = .value v ∧
    h.registry.streams.lookup h.registry.next = some s ∧ s.owner ≠ project

/-- The task that ends is such a one. -/
def ReplacesOther (h : Headless) (project : Nat) (e : Event) : Prop :=
  ∃ ticket task, e = .finish ticket ∧ h.tasks.lookup ticket = some task ∧ h.Replaces project task

/-- This does not happen before handles have run out. -/
theorem not_replaces (hs : h.registry.Sound) (hfew : h.registry.issued < 2 ^ 31 - 1)
    (project : Nat) (task : HostTask) : ¬h.Replaces project task := by
  rintro ⟨_, _, _, _, _, s, -, -, hs', -⟩
  rw [hs.lookup_next hfew] at hs'
  cases hs'

/-- **A task of a project leaves alone what others have opened, unless it replaces a stream of
theirs.** -/
theorem keepsOthers_perform_iff {project : Nat} {task : HostTask}
    (htask : ∀ owner, task.opensFor? = some owner → owner = project) :
    h.registry.KeepsOthers project (h.perform task).2.registry ↔ ¬h.Replaces project task := by
  have hother : (∀ owner type path flags, task ≠ .openStream owner type path flags) →
      ¬h.Replaces project task := by
    rintro hne ⟨owner, type, path, flags, _, _, heq, -⟩
    exact hne owner type path flags heq
  cases task with
  | openWindow w shown =>
    refine iff_of_true ?_ (hother nofun)
    unfold perform
    dsimp only
    split
    · exact .refl project _
    · split
      · rename_i v h₁ hopen
        obtain ⟨handle, registry, hregistry, rfl⟩ := openWindow_eq_ok hopen
        exact Registry.keepsOthers_openWindow hregistry project
      · exact .refl project _
  | makeDirectory path =>
    refine iff_of_true ?_ (hother nofun)
    unfold perform
    dsimp only
    split <;> exact .refl project _
  | lookFor path => exact iff_of_true (.refl project _) (hother nofun)
  | openStream owner type path flags =>
    obtain rfl : owner = project := htask owner rfl
    show h.registry.KeepsOthers owner (h.openStream owner type path flags).2.registry ↔ _
    rcases h.openStream_cases owner type path flags with ⟨cause, files, heq⟩ |
      ⟨stream, handle, registry, files, hopen, heq⟩
    · -- nothing was taken in
      rw [heq]
      refine iff_of_true (.refl owner _) ?_
      rintro ⟨_, _, _, _, v, _, hsame, hvalue, -⟩
      cases hsame
      rw [heq] at hvalue
      cases hvalue
    · rw [heq]
      refine (Registry.keepsOthers_openStream_iff hopen).trans ?_
      constructor
      · rintro hown ⟨_, _, _, _, _, s, -, -, hs, hother⟩
        exact hother (hown s hs)
      · intro hnot s hs
        by_contra hother
        exact hnot ⟨owner, type, path, flags, _, s, rfl, congrArg Prod.fst heq, hs, hother⟩

/-- A call of a project leaves alone what others have opened iff it does not close a window of
theirs. -/
theorem keepsOthers_call_iff {who : Caller} {c : HyperCall} :
    h.registry.KeepsOthers who.project (h.call who c).2.registry ↔
      ¬h.ClosesOther who.project (.call who c) := by
  have hopen : c.op ≠ .closeWindow → ¬h.ClosesOther who.project (.call who c) := by
    rintro hop ⟨_, _, w, heq, hclose, -⟩
    cases heq
    exact hop hclose
  rcases h.call_cases who c with ⟨answer, registry, hcall, hopened, hop, -⟩ | ⟨v, hcall, hop⟩ |
    ⟨task, hcall, hop, -⟩
  · rw [hcall]
    refine iff_of_true ?_ (hopen hop)
    rcases hopened with rfl | ⟨w, handle, hregistry⟩
    · exact .refl who.project _
    · exact Registry.keepsOthers_openWindow hregistry who.project
  · rw [hcall, Registry.keepsOthers_closeWindow_iff]
    constructor
    · rintro hown ⟨_, _, w, heq, -, hw, howner⟩
      cases heq
      exact howner (hown w hw)
    · intro hnone w hw
      by_contra howner
      exact hnone ⟨who, c, w, rfl, hop, hw, howner⟩
  · rw [hcall]
    exact iff_of_true (.refl who.project _) (hopen hop)

/-- **What belongs to others is left alone, unless a window of theirs is closed by its name or a
stream of theirs is replaced under its handle.** For every state of a host, a call of a project, the
end of a task of it and its release leave everything that other projects have opened as it is, if
and only if they neither close a window of another project nor replace a stream of one. The latter
does not happen before handles have run out. -/
theorem others_kept_iff (h : Headless) {project : Nat} {e : Event} (he : e.IsOf h project) :
    (h.registry.KeepsOthers project (h.happen e).registry ↔
      ¬h.ClosesOther project e ∧ ¬h.ReplacesOther project e) ∧
    (h.registry.Sound → h.registry.issued < 2 ^ 31 - 1 → ¬h.ReplacesOther project e) := by
  constructor
  · cases e with
    | call who c =>
      obtain rfl : who.project = project := he
      rw [happen, keepsOthers_call_iff, iff_self_and]
      rintro - ⟨ticket, task, heq, -⟩
      cases heq
    | finish ticket =>
      have hcloses : ¬h.ClosesOther project (.finish ticket) := by
        rintro ⟨who, c, w, heq, -⟩
        cases heq
      rw [happen, and_iff_right hcloses]
      unfold finish
      cases htask : h.tasks.lookup ticket with
      | none =>
        refine iff_of_true (.refl project _) ?_
        rintro ⟨_, task, heq, htask', -⟩
        cases heq
        cases htask.symm.trans htask'
      | some task =>
        refine (keepsOthers_perform_iff (he task htask)).trans (not_congr ?_)
        constructor
        · intro hreplaces
          exact ⟨ticket, task, rfl, htask, hreplaces⟩
        · rintro ⟨_, task', heq, htask', hreplaces⟩
          cases heq
          cases htask.symm.trans htask'
          exact hreplaces
    | release p =>
      obtain rfl : p = project := he
      refine iff_of_true (h.registry.keepsOthers_release p) ⟨?_, ?_⟩
      · rintro ⟨who, c, w, heq, -⟩
        cases heq
      · rintro ⟨ticket, task, heq, -⟩
        cases heq
    | collect ticket => exact absurd he id
    | closeWindow name => exact absurd he id
    | attach p target => exact absurd he id
    | useStream handle stream => exact absurd he id
    | disk files => exact absurd he id
  · rintro hs hfew ⟨ticket, task, -, -, hreplaces⟩
    exact not_replaces hs hfew project task hreplaces

/-- A window of project 1. -/
def mainWindow : Headless :=
  (fresh 800 600 {}).happens [.call (callerFor 1) (windowCall "Main"), .finish 0]

/-- The window stays when project 2 is released, and when project 2 wants to close another one. -/
theorem others_kept_mainWindow :
    (mainWindow.registry.window? "main").map Window.owner = some 1 ∧
      mainWindow.registry.KeepsOthers 2 (mainWindow.happen (.release 2)).registry ∧
      mainWindow.registry.KeepsOthers 2
        (mainWindow.happen (.call (callerFor 2) ⟨.closeWindow, [.string "Other"]⟩)).registry := by
  have hother : mainWindow.registry.window? "Other" = none := by
    rw [← Option.isNone_iff_eq_none]
    decide +kernel
  refine ⟨by decide +kernel, ?_, ?_⟩
  · refine (@others_kept_iff mainWindow 2 (.release 2) rfl).1.mpr ⟨?_, ?_⟩
    · rintro ⟨who, c, w, heq, -⟩
      cases heq
    · rintro ⟨ticket, task, heq, -⟩
      cases heq
  · refine (@others_kept_iff mainWindow 2
      (.call (callerFor 2) ⟨.closeWindow, [.string "Other"]⟩) rfl).1.mpr ⟨?_, ?_⟩
    · rintro ⟨who, c, w, heq, -, hw, -⟩
      cases heq
      rw [show HyperCall.text ⟨.closeWindow, [.string "Other"]⟩ 0 = "Other" from rfl, hother] at hw
      cases hw
    · rintro ⟨ticket, task, heq, -⟩
      cases heq

/-- Project 2 closes the window of project 1. -/
theorem others_not_kept_mainWindow :
    (mainWindow.registry.window? "main").map Window.owner = some 1 ∧
      ¬mainWindow.registry.KeepsOthers 2
        (mainWindow.happen (.call (callerFor 2) ⟨.closeWindow, [.string "MAIN"]⟩)).registry := by
  have howner : (mainWindow.registry.window? "main").map Window.owner = some 1 := by decide +kernel
  refine ⟨howner, fun hkept => ?_⟩
  obtain ⟨w, hw, hone⟩ := Option.map_eq_some_iff.mp howner
  have hstill := hkept.windows _ w hw (by rw [hone]; decide)
  have hgone : (mainWindow.happen (.call (callerFor 2)
      ⟨.closeWindow, [.string "MAIN"]⟩)).registry.windows.isEmpty = true := by decide +kernel
  rw [List.isEmpty_iff.mp hgone] at hstill
  cases hstill

end Headless

end SchemePlayer
