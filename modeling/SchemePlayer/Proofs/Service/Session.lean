import SchemePlayer.Proofs.Project.Lasting
import SchemePlayer.Service.Basic

/-!
# The end of a session

A session that is taken out of the store is ended in three steps, which are those of the session
store's `close`: its project is closed, its worker is stopped, and the subscription that keeps
failures is cancelled. Other requests may get at it between these steps, and after them.

- `Session.Stays`: what nothing but the end of a session changes. What requests do with a session,
  its executor and its host leave it that way (`stays_ask`, `stays_drive`, `stays_host`).
- `Chore`: a step of the end of a session. `Session.Shows`: what it is for.
- `Session.Did`: these steps were taken, and no others. **Each step has its effect** (`Did.close`,
  `Did.stop`, `Did.cancel`), **and the effects last** (`Did.stays`); `Session.shut` is all of them
  (`Did.shut`).
- `Service.attend?`: takes a step for a session of a service, which can fail in one way only: a worker
  that was stopped cannot be stopped again (`Did.attend?`).
-/

namespace SchemePlayer

/-- A request to a worker at which no other waits runs at once, unless the worker was stopped. -/
theorem Worker.request_of_idle {σ α : Type} {w : Worker σ α} (hidle : w.queue = [])
    (job : Job σ α) :
    (w.request job).2 = w ∨
    (w.request job).2.isStopped = w.isStopped ∧ (w.request job).2.queue = [] ∧
      (w.request job).2.state = (job w.state).2 := by
  unfold request submit?
  by_cases hstopped : w.isStopped = true
  · rw [if_pos hstopped]
    exact .inl rfl
  · right
    rw [if_neg hstopped, hidle]
    dsimp only [List.nil_append, serve]
    unfold take?
    cases List.lookup w.nextTicket (w.results ++ [(w.nextTicket, (job w.state).1)]) with
    | none => exact ⟨rfl, rfl, rfl⟩
    | some r => cases r <;> exact ⟨rfl, rfl, rfl⟩

namespace Session

variable {s s' s'' : Session}

/-! ### What nothing but its end changes -/

/-- The subscription that keeps failures is there. -/
def IsWatched (s : Session) : Prop := ∃ x ∈ s.project.subscriptions, x.id = s.watcher

/-- No request waits at the worker, and subscribers of the project only take note. -/
structure AtRest (s : Session) : Prop where
  idle : s.worker.queue = []
  passive : s.project.Passive

/-- A session after something that happened in it: it keeps its name and its subscriptions, its
worker is stopped if it was, and its project is closed if it was. -/
structure Stays (s s' : Session) : Prop where
  same : s' = { s with
    worker := s'.worker
    lastUsed := s'.lastUsed
    lastError := s'.lastError
    due := s'.due }
  rest : s.AtRest → s'.worker.queue = []
  isStopped : s.AtRest → s'.worker.isStopped = s.worker.isStopped
  lasts : s.AtRest → s.project.Lasts s'.project

/-- Nothing happens but to what the session has taken note of. -/
theorem Stays.of_project (hsame : s' = { s with
      worker := s'.worker
      lastUsed := s'.lastUsed
      lastError := s'.lastError
      due := s'.due })
    (hqueue : s'.worker.queue = s.worker.queue)
    (hstopped : s'.worker.isStopped = s.worker.isStopped) (hproject : s'.project = s.project) :
    s.Stays s' :=
  ⟨hsame, fun h => hqueue.trans h.idle, fun _ => hstopped, fun _ => hproject ▸ .refl _⟩

theorem Stays.refl (s : Session) : s.Stays s := .of_project rfl rfl rfl rfl

theorem Stays.atRest (h : s.Stays s') (hs : s.AtRest) : s'.AtRest :=
  ⟨h.rest hs, (h.lasts hs).passive hs.passive⟩

theorem Stays.trans (h : s.Stays s') (h' : s'.Stays s'') : s.Stays s'' where
  same := by rw [h'.same, h.same]
  rest hs := h'.rest (h.atRest hs)
  isStopped hs := (h'.isStopped (h.atRest hs)).trans (h.isStopped hs)
  lasts hs := (h.lasts hs).trans (h'.lasts (h.atRest hs))

theorem Stays.id (h : s.Stays s') : s'.id = s.id := by rw [h.same]

theorem Stays.watcher (h : s.Stays s') : s'.watcher = s.watcher := by rw [h.same]

theorem Stays.isWatched_iff (h : s.Stays s') (hs : s.AtRest) : s'.IsWatched ↔ s.IsWatched := by
  unfold IsWatched
  rw [h.watcher, (h.lasts hs).subscriptions]

theorem stays_hear (s : Session) (a : Act) : s.Stays (s.hear a) := by
  cases a with
  | notify sub event message =>
    unfold hear
    dsimp only
    split <;> split <;> exact .of_project rfl rfl rfl rfl
  | _ => exact .refl s

/-- To take note of something changes nothing in the project. -/
theorem project_hear (s : Session) (a : Act) : (s.hear a).project = s.project := by
  cases a with
  | notify sub event message =>
    unfold hear
    dsimp only
    split <;> split <;> rfl
  | _ => rfl

theorem stays_catchUp (s : Session) : s.Stays s.catchUp := by
  have hheard : s.Stays (s.worker.state.acts.foldl hear s) :=
    List.foldlRecOn _ _ (.refl s) fun s' hs' a _ => hs'.trans (stays_hear s' a)
  exact hheard.trans (.of_project rfl rfl rfl rfl)

theorem project_catchUp (s : Session) : s.catchUp.project = s.project :=
  List.foldlRecOn (motive := fun s' : Session => s'.project = s.project) _ _ rfl
    fun s' hs' a _ => (project_hear s' a).trans hs'

theorem stays_update (s : Session) {f : Player → Player}
    (hf : ∀ p : Player, p.project.Passive → p.project.Lasts (f p).project) :
    s.Stays (s.update f) := by
  have hstate : s.Stays { s with worker := { s.worker with state := f s.worker.state } } :=
    ⟨rfl, fun hs => hs.idle, fun _ => rfl, fun hs => hf _ hs.passive⟩
  exact hstate.trans (stays_catchUp _)

/-- What happens to the host of a project is none of its business. -/
theorem stays_host (s : Session) (f : Option Headless → Option Headless) :
    s.Stays (s.update fun p => { p with host := f p.host }) :=
  stays_update s fun _ _ => .refl _

/-- Something that is done with a player subscribes nobody and opens nothing that was closed, as
long as subscribers only take note. -/
def Careful {α : Type} (job : Player → α × Player) : Prop :=
  ∀ p : Player, p.project.Passive → p.project.Lasts (job p).2.project

/-- **What a request does with a session leaves it what it is**, if its job is careful. -/
theorem stays_ask (s : Session) {job : Player → Outcome × Player} (hjob : Careful job) :
    s.Stays (s.ask job).2 := by
  have hworker : s.Stays { s with
      worker := (s.worker.request fun p => (.ok (job p).1, (job p).2)).2 } := by
    have hcases := fun hs : s.AtRest =>
      Worker.request_of_idle hs.idle fun p => (.ok (job p).1, (job p).2)
    refine ⟨rfl, fun hs => ?_, fun hs => ?_, fun hs => ?_⟩
    · rcases hcases hs with hsame | ⟨-, hqueue, -⟩
      · rw [hsame]
        exact hs.idle
      · exact hqueue
    · rcases hcases hs with hsame | ⟨hstopped, -⟩
      · rw [hsame]
      · exact hstopped
    · show s.project.Lasts (s.worker.request _).2.state.project
      rcases hcases hs with hsame | ⟨-, -, hstate⟩
      · rw [hsame]
        exact .refl _
      · rw [hstate]
        exact hjob _ hs.passive
  unfold ask
  dsimp only
  split <;> exact hworker.trans (stays_catchUp _)

theorem stays_drive (s : Session) : s.Stays s.drive :=
  stays_update s fun _ hp => Playback.lasts_drive hp _ _

/-- After everything has been taken note of, a change that is not to be taken note of is made at
once. -/
theorem update_of_quiet {f : Player → Player} (h : (f s.worker.state).acts = []) :
    s.update f = { s with worker := { s.worker with state := f s.worker.state } } := by
  unfold update catchUp
  simp only [h, List.foldl_nil]
  rw [← h]

theorem update_acts (s : Session) (f : Player → Player) :
    (s.update f).worker.state.acts = [] := rfl

end Session

/-! ### Steps of the end of a session -/

/-- A step of closing a session that was taken out of the store. -/
inductive Chore where
  /-- closes the project -/
  | close
  /-- stops the worker -/
  | stop
  /-- ends the subscription that keeps failures -/
  | cancel
  deriving DecidableEq

/-- All steps, in order. -/
def Chore.all : List Chore := [.close, .stop, .cancel]

namespace Session

variable {s s' : Session} {did : List Chore}

/-- What a step of closing a session is for. -/
def Shows (s : Session) : Chore → Prop
  | .close => s.project.lifecycle = .closed
  | .stop => s.worker.isStopped = true
  | .cancel => ¬s.IsWatched

/-- These steps of the end of a session were taken, and no others; but a project may have closed by
itself. -/
structure Did (s : Session) (did : List Chore) : Prop extends AtRest s where
  shows : ∀ c ∈ did, s.Shows c
  only : ∀ c, s.Shows c → c ∈ did ∨ c = .close

theorem Did.isStopped_iff (h : s.Did did) : s.worker.isStopped = true ↔ .stop ∈ did := by
  constructor
  · intro hstopped
    exact (h.only .stop hstopped).resolve_right (by decide)
  · exact h.shows .stop

theorem Did.isWatched_iff (h : s.Did did) : s.IsWatched ↔ .cancel ∉ did := by
  constructor
  · intro hwatched hmem
    exact h.shows .cancel hmem hwatched
  · intro hnot
    refine Classical.byContradiction fun hgone => hnot ?_
    exact (h.only .cancel hgone).resolve_right (by decide)

/-- **What was done for a session lasts.** -/
theorem Did.stays (h : s.Did did) (hstays : s.Stays s') : s'.Did did where
  toAtRest := hstays.atRest h.toAtRest
  shows c hc := by
    have hold := h.shows c hc
    cases c with
    | close => exact (hstays.lasts h.toAtRest).closed hold
    | stop => exact (hstays.isStopped h.toAtRest).trans hold
    | cancel => exact fun hwatched => hold ((hstays.isWatched_iff h.toAtRest).mp hwatched)
  only c hc := by
    cases c with
    | close => exact .inr rfl
    | stop => exact h.only .stop ((hstays.isStopped h.toAtRest).symm.trans hc)
    | cancel =>
      exact h.only .cancel fun hwatched => hc ((hstays.isWatched_iff h.toAtRest).mpr hwatched)

/-- One more step was taken. -/
theorem Did.concat (h : s.Did did) {chore : Chore} (hrest : s'.AtRest)
    (hshows : ∀ c, s'.Shows c ↔ c = chore ∨ s.Shows c) : s'.Did (did ++ [chore]) where
  toAtRest := hrest
  shows c hc := by
    rw [hshows]
    rcases List.mem_append.mp hc with hc | hc
    · exact .inr (h.shows c hc)
    · exact .inl (List.mem_singleton.mp hc)
  only c hc := by
    rcases (hshows c).mp hc with rfl | hold
    · exact .inl (List.mem_append_right _ (.head _))
    · exact (h.only c hold).imp_left (List.mem_append_left _)

/-- **The project is closed.** -/
theorem Did.close (h : s.Did did) : (s.update (·.close host)).Did (did ++ [.close]) := by
  have hstays : s.Stays (s.update (·.close host)) :=
    stays_update s fun _ hp => Playback.lasts_close hp
  have hclosed : (s.update (·.close host)).project.lifecycle = .closed := by
    rw [update, project_catchUp]
    exact Playback.closed_close h.passive
  refine h.concat (hstays.atRest h.toAtRest) fun c => ?_
  cases c with
  | close => exact iff_of_true hclosed (.inl rfl)
  | stop =>
    show (s.update (·.close host)).worker.isStopped = true ↔ _
    rw [hstays.isStopped h.toAtRest]
    exact ⟨.inr, fun hc => hc.resolve_left (by decide)⟩
  | cancel =>
    show ¬(s.update (·.close host)).IsWatched ↔ _
    rw [hstays.isWatched_iff h.toAtRest]
    exact ⟨.inr, fun hc => hc.resolve_left (by decide)⟩

/-- **The worker is stopped.** -/
theorem Did.stop (h : s.Did did) :
    ({ s with worker := { s.worker with isStopped := true } } : Session).Did (did ++ [.stop]) := by
  refine h.concat ⟨h.idle, h.passive⟩ fun c => ?_
  cases c with
  | close => exact ⟨.inr, fun hc => hc.resolve_left (by decide)⟩
  | stop => exact iff_of_true rfl (.inl rfl)
  | cancel => exact ⟨.inr, fun hc => hc.resolve_left (by decide)⟩

/-- **The subscription is cancelled.** -/
theorem Did.cancel (h : s.Did did) :
    (s.update fun p => p.update (·.unsubscribe s.watcher)).Did (did ++ [.cancel]) := by
  let left : Session :=
    { s with worker := { s.worker with
        state := s.worker.state.update (·.unsubscribe s.watcher) } }
  have hpassive : left.project.Passive := fun x hx => h.passive x (List.mem_filter.mp hx).1
  have hleft : left.Did (did ++ [.cancel]) := by
    refine h.concat ⟨h.idle, hpassive⟩ fun c => ?_
    cases c with
    | close => exact ⟨.inr, fun hc => hc.resolve_left (by decide)⟩
    | stop => exact ⟨.inr, fun hc => hc.resolve_left (by decide)⟩
    | cancel =>
      refine iff_of_true ?_ (.inl rfl)
      rintro ⟨x, hx, hid⟩
      exact of_decide_eq_true (List.mem_filter.mp hx).2 hid
  exact hleft.stays (stays_catchUp left)

/-- **To shut a session is to take all of these steps.** -/
theorem Did.shut (h : s.Did []) : s.shut.Did Chore.all := by
  have hclosed := h.close
  unfold Session.shut
  dsimp only
  generalize s.update (·.close host) = closed at hclosed ⊢
  have hrunning : closed.worker.isStopped = false := by
    rw [Bool.eq_false_iff, ne_eq, hclosed.isStopped_iff]
    decide
  rw [Worker.stop?, hrunning]
  exact hclosed.stop.cancel

end Session

namespace Service

variable {v : Service} {s s' : Session}

/-- Lets something happen in a session, whether it is open or not. -/
def act (v : Service) (s : Session) (f : Session → Session) : Session × Service :=
  let s := settled (f (withFiles v.files s))
  ({ s with due := 0 }, v.share s)

/-- Takes a step of the end of a session. There is no way to stop a worker twice. -/
def attend? (v : Service) (s : Session) : Chore → Option (Session × Service)
  | .close => some (v.act s (·.update (·.close Session.host)))
  | .stop => s.worker.stop?.map fun worker => ({ s with worker }, v)
  | .cancel => some (s.update fun p => p.update (·.unsubscribe s.watcher), v)

theorem stays_withFiles (files : Files) (s : Session) : s.Stays (withFiles files s) :=
  s.stays_host _

theorem stays_settled (s : Session) : s.Stays { settled s with due := 0 } :=
  (s.stays_host _).trans (.of_project rfl rfl rfl rfl)

theorem stays_act {f : Session → Session} (h : ∀ s : Session, s.Stays (f s)) :
    s.Stays (v.act s f).1 :=
  ((stays_withFiles v.files s).trans (h _)).trans (stays_settled _)

/-- A step of closing a session has no effect on the others. -/
theorem attend?_eq_some {chore : Chore} {v' : Service} (h : v.attend? s chore = some (s', v')) :
    v'.sessions = v.sessions ∧ v'.opened = v.opened ∧ v'.sessionId = v.sessionId := by
  cases chore with
  | close =>
    cases h
    exact ⟨rfl, rfl, rfl⟩
  | stop =>
    obtain ⟨worker, -, hsame⟩ := Option.map_eq_some_iff.mp h
    cases hsame
    exact ⟨rfl, rfl, rfl⟩
  | cancel =>
    cases h
    exact ⟨rfl, rfl, rfl⟩

/-- What all share depends on little of a session. -/
theorem share_congr (hhost : s'.worker.state.host = s.worker.state.host) (hdue : s'.due = s.due)
    (hname : s'.name = s.name) (hsnapshot : s'.project.snapshot = s.project.snapshot) :
    v.share s' = v.share s := by
  simp only [share, filesAfter, storeAfter, hhost, hdue, hname, hsnapshot]

/-- **To end a session is to take these steps one after another**, and only the first of them
touches what all share. -/
theorem share_shut : v.share (settled (withFiles v.files s).shut) =
    (v.act s (·.update (·.close Session.host))).2 := by
  unfold act Session.shut
  dsimp only
  generalize hclosed : (withFiles v.files s).update (·.close Session.host) = closed
  have hquiet : closed.worker.state.acts = [] := hclosed ▸ Session.update_acts ..
  have hstopped : (closed.worker.stop?.getD closed.worker).state = closed.worker.state := by
    unfold Worker.stop?
    split <;> rfl
  rw [Session.update_of_quiet (s := { closed with worker := _ })
    (by simp only [Playback.update, hstopped, hquiet])]
  unfold settled
  rw [Session.update_of_quiet (by simp only [Playback.update, hstopped, hquiet]),
    Session.update_of_quiet (by simp only [hquiet])]
  refine share_congr ?_ rfl rfl ?_
  · simp only [Playback.update, hstopped]
  · simp only [Session.project, Playback.update, hstopped, Project.snapshot, Project.unsubscribe]

/-- A session that was just opened has not been ended in any respect. -/
theorem did_newSession (v : Service) (name : Text) {p : Project} (hp : p.subscriptions = []) :
    (v.newSession name p).Did [] := by
  have hnobody : p.Passive := fun x hx => absurd hx (hp ▸ List.not_mem_nil)
  have hsubscribed : ∃ q : Project, q.Passive ∧
      (v.newSession name p).project = (q.subscribe Event.error.name .nothing).2 ∧
      (v.newSession name p).watcher = q.nextSubscription := by
    unfold newSession
    by_cases hstore : v.store.isSome = true
    · rw [if_pos hstore]
      exact ⟨(p.subscribe Event.closed.name .nothing).2, hnobody.subscribe _, rfl, rfl⟩
    · rw [if_neg hstore]
      exact ⟨p, hnobody, rfl, rfl⟩
  obtain ⟨q, hq, hproject, hwatcher⟩ := hsubscribed
  have hwatched : (v.newSession name p).IsWatched := by
    refine ⟨⟨q.nextSubscription, Event.error.name, .nothing⟩, ?_, hwatcher.symm⟩
    rw [hproject]
    exact List.mem_append_right _ (.head _)
  refine ⟨⟨rfl, hproject ▸ hq.subscribe _⟩, fun c hc => absurd hc List.not_mem_nil, ?_⟩
  intro c hc
  cases c with
  | close => exact .inr rfl
  | stop => cases hc
  | cancel => exact absurd hwatched hc

end Service

/-- **A step of the end of a session can be taken, and has its effect**, unless the worker is to be
stopped again. -/
theorem Session.Did.attend? {v : Service} {s : Session} {did : List Chore} (h : s.Did did)
    {chore : Chore} (hchore : chore = .stop → .stop ∉ did) :
    ∃ s' v', v.attend? s chore = some (s', v') ∧ s'.id = s.id ∧ s'.Did (did ++ [chore]) := by
  cases chore with
  | close =>
    have hstays : s.Stays (v.act s (·.update (·.close Session.host))).1 :=
      Service.stays_act fun s => Session.stays_update s fun _ hp => Playback.lasts_close hp
    refine ⟨_, _, rfl, hstays.id, ?_⟩
    exact (h.stays (Service.stays_withFiles v.files s)).close.stays (Service.stays_settled _)
  | stop =>
    have hrunning : s.worker.isStopped = false := by
      rw [Bool.eq_false_iff, ne_eq, h.isStopped_iff]
      exact hchore rfl
    refine ⟨{ s with worker := { s.worker with isStopped := true } }, v, ?_, rfl, h.stop⟩
    rw [Service.attend?, Worker.stop?, hrunning]
    rfl
  | cancel =>
    refine ⟨_, _, rfl, ?_, h.cancel⟩
    exact (Session.stays_catchUp _).id

end SchemePlayer
