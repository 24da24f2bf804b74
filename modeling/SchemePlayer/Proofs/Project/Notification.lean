import Mathlib.Data.List.Nodup
import SchemePlayer.Host.Scripted
import SchemePlayer.Proofs.Project.Outcome

/-!
# Telling subscribers

When a project fails or closes, those who are subscribed to this at the moment are told. While
they are told they may close the project, ask it for steps and take subscribers off. To close a
project is an answer to its failure, so that one round of telling can happen inside of another.

- `Reaction.leaves`: what a reaction to a failure does to those who are subscribed.
- `raised`: the events that a run raises, each with those who are subscribed when it happens.
- `Settles`: how a round of telling ends (`settles_shut`, `settles_fail`).
- `Chronicle`: the invariant. The acts of a run are those of the events that were raised, and the
  stage of the project's life tells which events these are.
- `told_exactly_once`: **whoever is subscribed when an event is raised is told of it exactly once,
  nobody else is told, and the host is let go once, before anybody is told that the project has
  closed.**
-/

namespace SchemePlayer

/-! ### Events -/

/-- Those of the subscribers who are told of an event. -/
def Event.audience (e : Event) (registered : List Subscription) : List Subscription :=
  registered.filter fun s => s.event = e.name

/-- The events that a project has raised when it is at some stage of its life. -/
def Lifecycle.Raised : Lifecycle → List Event → Prop
  | .closed, events => events = [.closed] ∨ events = [.error, .closed]
  | .error, events => events = [.error]
  | _, events => events = []

theorem Lifecycle.ne_closed_of_live {l : Lifecycle} (hlive : l.isTerminal = false) :
    l ≠ .closed := by
  rintro rfl
  cases hlive

theorem Lifecycle.raised_of_live {l : Lifecycle} (hlive : l.isTerminal = false)
    {events : List Event} : l.Raised events ↔ events = [] := by
  cases l with
  | closed | error => cases hlive
  | ready | playing | paused => exact .rfl

theorem Lifecycle.Raised.nodup {l : Lifecycle} {events : List Event} (h : l.Raised events) :
    events.Nodup := by
  cases l with
  | closed => rcases h with rfl | rfl <;> decide
  | error =>
    cases h
    decide
  | ready | playing | paused =>
    cases h
    exact .nil

theorem Lifecycle.Raised.closed_not_mem {l : Lifecycle} {events : List Event} (h : l.Raised events)
    (hnot : l ≠ .closed) : .closed ∉ events := by
  cases l with
  | closed => exact absurd rfl hnot
  | error =>
    cases h
    decide
  | ready | playing | paused =>
    cases h
    exact List.not_mem_nil

/-- A project that has not closed can do so. -/
theorem Lifecycle.Raised.concat_closed {l : Lifecycle} {events : List Event} (h : l.Raised events)
    (hnot : l ≠ .closed) : Lifecycle.closed.Raised (events ++ [.closed]) := by
  cases l with
  | closed => exact absurd rfl hnot
  | error =>
    cases h
    exact .inr rfl
  | ready | playing | paused =>
    cases h
    exact .inl rfl

/-- What a reaction to the failure of a project leaves of those who are subscribed. A project
that has failed makes no step. When the reaction closes the project, those who are subscribed
then are thrown. -/
def Reaction.leaves (self : Nat) :
    Reaction → List Subscription → Except (List Subscription) (List Subscription)
  | .nothing, registered => .ok registered
  | .step, registered => .ok registered
  | .close, registered => .error registered
  | .unsubscribe, registered => .ok (registered.filter (·.id ≠ self))
  | .dismiss id, registered => .ok (registered.filter (·.id ≠ id))
  | .andThen first second, registered => (first.leaves self registered).bind (second.leaves self)

/-- What remains of those who are subscribed after these were told, one after the other. -/
def leftBy (audience registered : List Subscription) :
    Except (List Subscription) (List Subscription) :=
  audience.foldlM (fun registered s => s.reaction.leaves s.id registered) registered

/-- The events that a project raises which has just come to this stage of its life, each with
those who are subscribed when it happens. A failure may be answered by closing the project. -/
def Project.raises (q : Project) : List (Event × List Subscription) :=
  match q.lifecycle with
  | .closed => [(.closed, q.subscriptions)]
  | .error =>
    (.error, q.subscriptions) ::
      match leftBy (Event.error.audience q.subscriptions) q.subscriptions with
      | .ok _ => []
      | .error registered => [(.closed, registered)]
  | _ => []

theorem Project.raises_of_live {q : Project} (hlive : q.lifecycle.isTerminal = false) :
    q.raises = [] := by
  unfold raises
  split
  · rename_i hclosed
    exact absurd hclosed (Lifecycle.ne_closed_of_live hlive)
  · rename_i herror
    rw [herror] at hlive
    cases hlive
  · rfl

/-! ### Acts of telling -/

/-- Who was told of an event. -/
def told (e : Event) (acts : List Act) : List Nat :=
  acts.filterMap fun
    | .notify id e' _ => if e' = e then some id else none
    | _ => none

@[simp] theorem told_nil (e : Event) : told e [] = [] := rfl

@[simp] theorem told_append (e : Event) (acts acts' : List Act) :
    told e (acts ++ acts') = told e acts ++ told e acts' :=
  List.filterMap_append

@[simp] theorem told_stop (e : Event) (executor : Nat) (acts : List Act) :
    told e (.stop executor :: acts) = told e acts := rfl

@[simp] theorem told_report (e : Event) (cause : Failure) (acts : List Act) :
    told e (.report cause :: acts) = told e acts := rfl

theorem told_of_not_isTelling {acts : List Act} (h : ∀ a ∈ acts, a.isTelling = false) (e : Event) :
    told e acts = [] := by
  refine List.filterMap_eq_nil_iff.mpr fun a ha => ?_
  have hnot := h a ha
  cases a with
  | notify id e' message => cases hnot
  | _ => rfl

/-- Each of them is told of a notice. -/
def tellings (n : Notice) (audience : List Subscription) : List Act :=
  audience.map fun s => .notify s.id n.event n.message

@[simp] theorem tellings_nil (n : Notice) : tellings n [] = [] := rfl

@[simp] theorem tellings_cons (n : Notice) (s : Subscription) (audience : List Subscription) :
    tellings n (s :: audience) = .notify s.id n.event n.message :: tellings n audience := rfl

@[simp] theorem release_not_mem_tellings (n : Notice) (audience : List Subscription) :
    .release ∉ tellings n audience := by
  simp [tellings]

@[simp] theorem told_tellings (e : Event) (n : Notice) (audience : List Subscription) :
    told e (tellings n audience) = if n.event = e then audience.map (·.id) else [] := by
  induction audience with
  | nil => simp
  | cons s audience ih =>
    have hcons : told e (tellings n (s :: audience)) =
        (if n.event = e then [s.id] else []) ++ told e (tellings n audience) := by
      rw [tellings_cons, told, List.filterMap_cons]
      by_cases he : n.event = e
      · simp only [he, if_true]
        rfl
      · simp only [he, if_false]
        rfl
    rw [hcons, ih]
    split <;> rfl

/-- The acts of closing a project: its executor is stopped, the host is let go, and those who are
subscribed are told. -/
def closingActs (executor : Nat) (registered : List Subscription) : List Act :=
  .stop executor :: .release :: tellings ⟨.closed, []⟩ (Event.closed.audience registered)

/-- Those who are to be told of an event, if these events were raised. -/
def toTell (e : Event) (raised : List (Event × List Subscription)) : List Nat :=
  raised.flatMap fun r => if r.1 = e then (e.audience r.2).map (·.id) else []

theorem toTell_append (e : Event) (raised more : List (Event × List Subscription)) :
    toTell e (raised ++ more) = toTell e raised ++ toTell e more :=
  List.flatMap_append

theorem toTell_of_not_mem {e : Event} {raised : List (Event × List Subscription)}
    (hnot : e ∉ raised.map (·.1)) : toTell e raised = [] := by
  refine List.flatMap_eq_nil_iff.mpr fun r hr => if_neg ?_
  rintro rfl
  exact hnot (List.mem_map_of_mem hr)

/-- If no event is raised twice, those who are to be told of it are its audience. -/
theorem toTell_of_mem {e : Event} {registered : List Subscription}
    {raised : List (Event × List Subscription)} (hnodup : (raised.map (·.1)).Nodup)
    (hmem : (e, registered) ∈ raised) :
    toTell e raised = (e.audience registered).map (·.id) := by
  induction raised with
  | nil => cases hmem
  | cons r rest ih =>
    rw [List.map_cons, List.nodup_cons] at hnodup
    rw [toTell, List.flatMap_cons, ← toTell]
    rcases List.mem_cons.mp hmem with rfl | hmem
    · rw [toTell_of_not_mem hnodup.1, List.append_nil]
      exact if_pos rfl
    · have hother : r.1 ≠ e := fun he => hnodup.1 (he ▸ List.mem_map_of_mem hmem)
      rw [if_neg hother, ih hnodup.2 hmem]
      rfl

/-- To tell all who are to be told of one event. -/
theorem told_audience (e : Event) (n : Notice) (registered : List Subscription) :
    told e (tellings n (n.event.audience registered)) = toTell e [(n.event, registered)] := by
  rw [told_tellings, toTell, List.flatMap_singleton]
  by_cases he : n.event = e
  · rw [if_pos he, if_pos he, he]
  · rw [if_neg he, if_neg he]

theorem told_closingActs (e : Event) (executor : Nat) (registered : List Subscription) :
    told e (closingActs executor registered) = toTell e [(.closed, registered)] :=
  told_audience e ⟨.closed, []⟩ registered

/-- The host is let go once, before anybody is told that the project has closed. -/
def Released (acts : List Act) : Prop :=
  ∃ before after, acts = before ++ .release :: after ∧ told .closed before = [] ∧
    .release ∉ before ++ after

theorem released_of_closingActs {old after : List Act} (hold : .release ∉ old)
    (huntold : told .closed old = []) (hafter : .release ∉ after) (executor : Nat)
    (registered : List Subscription) :
    Released (old ++ closingActs executor registered ++ after) := by
  refine ⟨old ++ [.stop executor],
    tellings ⟨.closed, []⟩ (Event.closed.audience registered) ++ after, ?_, ?_, ?_⟩
  · simp [closingActs]
  · simp [huntold]
  · simp [hold, hafter]

theorem Released.append {acts new : List Act} (hacts : Released acts) (hnew : .release ∉ new) :
    Released (acts ++ new) := by
  obtain ⟨before, after, rfl, huntold, hmem⟩ := hacts
  refine ⟨before, after ++ new, by simp, huntold, ?_⟩
  rw [← List.append_assoc]
  exact fun h => (List.mem_append.mp h).elim hmem hnew

namespace Playback

variable {σ : Type} {h : Host σ} {p p' : Playback σ}

/-! ### Events of a run -/

/-- The events that a move raises, each with those who are subscribed when it happens. -/
def raises (h : Host σ) (p : Playback σ) (m : Move σ) : List (Event × List Subscription) :=
  if m.asksTick p.project then (p.tick h).project.raises
  else match m with
    | .close => if p.project.lifecycle = .closed then [] else p.shut.project.raises
    | _ => []

/-- The events that a run raises, in their order. -/
def raised (h : Host σ) (p : Playback σ) : List (Move σ) → List (Event × List Subscription)
  | [] => []
  | m :: ms => p.raises h m ++ raised h (p.perform h m) ms

/-! ### One round of telling -/

/-- Only these stay subscribed. -/
def retain (p : Playback σ) (registered : List Subscription) : Playback σ :=
  p.update fun q => { q with subscriptions := registered }

/-- `p'` is what becomes of `p` if it comes to this stage of its life, with these acts, and all who
are subscribed are told. -/
structure Settles (p : Playback σ) (lifecycle : Lifecycle) (acts : List Act) (p' : Playback σ) :
    Prop where
  lifecycle : p'.project.lifecycle = lifecycle
  queue : p'.project.queue = []
  subscriptions : p'.project.subscriptions.Sublist p.project.subscriptions
  next : p'.project.nextSubscription = p.project.nextSubscription
  acts : p'.acts = p.acts ++ acts

theorem Settles.trans {lifecycle lifecycle' : Lifecycle} {acts acts' : List Act}
    {p₁ p₂ : Playback σ} (hfirst : p.Settles lifecycle acts p₁)
    (hrest : p₁.Settles lifecycle' acts' p₂) : p.Settles lifecycle' (acts ++ acts') p₂ where
  lifecycle := hrest.lifecycle
  queue := hrest.queue
  subscriptions := hrest.subscriptions.trans hfirst.subscriptions
  next := hrest.next.trans hfirst.next
  acts := by rw [hrest.acts, hfirst.acts, List.append_assoc]

/-- One act, after which some stay subscribed. -/
theorem settles_retain (hqueue : p.project.queue = []) (a : Act) {S : List Subscription}
    (hS : S.Sublist p.project.subscriptions) :
    p.Settles p.project.lifecycle [a] ((p.act a).retain S) :=
  ⟨rfl, hqueue, hS, rfl, rfl⟩

/-- A project that has closed can only lose subscribers. -/
theorem react_of_closed (hclosed : p.project.lifecycle = .closed)
    (tell : Playback σ → Playback σ) (self : Nat) (r : Reaction) :
    ∃ S, S.Sublist p.project.subscriptions ∧ p.react h tell self r = p.retain S := by
  induction r generalizing p with
  | nothing => exact ⟨_, .refl _, rfl⟩
  | close =>
    rw [react, if_pos hclosed]
    exact ⟨_, .refl _, rfl⟩
  | step =>
    rw [react, if_pos (by rw [hclosed]; rfl)]
    exact ⟨_, .refl _, rfl⟩
  | unsubscribe | dismiss id => exact ⟨_, List.filter_sublist, rfl⟩
  | andThen first second ihFirst ihSecond =>
    obtain ⟨S, hS, hfirst⟩ := ihFirst hclosed
    obtain ⟨T, hT, hsecond⟩ := ihSecond (p := p.retain S) hclosed
    exact ⟨T, hT.trans hS, by rw [react, hfirst, hsecond]; rfl⟩

theorem tellEach_of_closed (hclosed : p.project.lifecycle = .closed) (hqueue : p.project.queue = [])
    (tell : Playback σ → Playback σ) (n : Notice) (audience : List Subscription) :
    p.Settles .closed (tellings n audience) (p.tellEach h tell n audience) := by
  induction audience generalizing p with
  | nil => exact ⟨hclosed, hqueue, .refl _, rfl, (List.append_nil _).symm⟩
  | cons s audience ih =>
    obtain ⟨S, hS, hreact⟩ := react_of_closed (h := h)
      (p := p.act (.notify s.id n.event n.message)) hclosed tell s.id s.reaction
    have hfirst := settles_retain hqueue (.notify s.id n.event n.message) hS
    rw [← hreact] at hfirst
    exact hfirst.trans (ih (hfirst.lifecycle.trans hclosed) hfirst.queue)

/-- A single notice is taken and told. -/
theorem deliver_of_queue {n : Notice} (hqueue : p.project.queue = [n]) (depth : Nat) :
    p.deliver h (depth + 1) =
      ((p.update fun q => { q with queue := [] }).releaseFor h n).tellEach h (deliver h depth) n
        (n.event.audience p.project.subscriptions) := by
  rw [deliver, takeNotices, hqueue]
  rfl

/-- **How the closing of a project is told.** -/
theorem settles_shut (hqueue : p.project.queue = []) (depth : Nat) :
    p.Settles .closed (closingActs p.project.executor p.project.subscriptions)
      (p.shut.deliver h (depth + 1)) := by
  let n : Notice := ⟨.closed, []⟩
  let first := (p.shut.update fun q => { q with queue := [] }).releaseFor h n
  have hnotice : p.shut.project.queue = [n] := by
    rw [project_shut, hqueue]
    rfl
  have hproject : first.project =
      { p.project with
        lifecycle := .closed
        generation := p.project.generation + 1
        pending := none
        waiting := false
        delivered := []
        queue := [] } := rfl
  have hfirst : p.Settles .closed [.stop p.project.executor, .release] first := by
    refine ⟨by rw [hproject], by rw [hproject], by rw [hproject], by rw [hproject], ?_⟩
    exact List.append_assoc ..
  rw [deliver_of_queue hnotice, project_shut]
  exact hfirst.trans (tellEach_of_closed hfirst.lifecycle hfirst.queue (deliver h depth) n
    (Event.closed.audience p.project.subscriptions))

/-- A subscriber of a project that has failed takes others off or closes the project. -/
theorem react_of_failed (herror : p.project.lifecycle = .error) (hqueue : p.project.queue = [])
    (depth self : Nat) (r : Reaction) :
    (∃ R, r.leaves self p.project.subscriptions = .ok R ∧ R.Sublist p.project.subscriptions ∧
      p.react h (deliver h (depth + 1)) self r = p.retain R) ∨
    ∃ R, r.leaves self p.project.subscriptions = .error R ∧ R.Sublist p.project.subscriptions ∧
      p.Settles .closed (closingActs p.project.executor R)
        (p.react h (deliver h (depth + 1)) self r) := by
  induction r generalizing p with
  | nothing => exact .inl ⟨_, rfl, .refl _, rfl⟩
  | close =>
    rw [react, if_neg (by rw [herror]; decide)]
    exact .inr ⟨_, rfl, .refl _, settles_shut hqueue depth⟩
  | step =>
    rw [react, if_pos (by rw [herror]; rfl)]
    exact .inl ⟨_, rfl, .refl _, rfl⟩
  | unsubscribe | dismiss id => exact .inl ⟨_, rfl, List.filter_sublist, rfl⟩
  | andThen first second ihFirst ihSecond =>
    rw [react, Reaction.leaves]
    rcases ihFirst herror hqueue with ⟨R, hleaves, hR, hfirst⟩ | ⟨R, hleaves, hR, hfirst⟩
    · rw [hleaves, hfirst]
      rcases ihSecond (p := p.retain R) herror hqueue with
        ⟨T, hleaves, hT, hsecond⟩ | ⟨T, hleaves, hT, hsecond⟩
      · exact .inl ⟨T, hleaves, hT.trans hR, hsecond⟩
      · exact .inr ⟨T, hleaves, hT.trans hR,
          { hsecond with subscriptions := hsecond.subscriptions.trans hR }⟩
    · -- what follows the closing happens to a project that has closed
      obtain ⟨S, hS, hsecond⟩ := react_of_closed (h := h) hfirst.lifecycle
        (deliver h (depth + 1)) self second
      rw [hleaves, hsecond]
      exact .inr ⟨R, rfl, hR, { hfirst with subscriptions := hS.trans hfirst.subscriptions }⟩

/-- **How the subscribers of a project that has failed are told**: all of them, and if one of them
closes the project, its closing is told in between. -/
theorem tellEach_of_failed (herror : p.project.lifecycle = .error) (hqueue : p.project.queue = [])
    (depth : Nat) (n : Notice) (audience : List Subscription) :
    (∃ R, leftBy audience p.project.subscriptions = .ok R ∧
      p.Settles .error (tellings n audience)
        (p.tellEach h (deliver h (depth + 1)) n audience)) ∨
    ∃ R before after, leftBy audience p.project.subscriptions = .error R ∧
      R.Sublist p.project.subscriptions ∧ audience = before ++ after ∧
      p.Settles .closed
        (tellings n before ++ closingActs p.project.executor R ++ tellings n after)
        (p.tellEach h (deliver h (depth + 1)) n audience) := by
  induction audience generalizing p with
  | nil => exact .inl ⟨_, rfl, herror, hqueue, .refl _, rfl, (List.append_nil _).symm⟩
  | cons s audience ih =>
    have hfold : leftBy (s :: audience) p.project.subscriptions =
        (s.reaction.leaves s.id p.project.subscriptions).bind (leftBy audience) :=
      List.foldlM_cons ..
    have hcons : p.tellEach h (deliver h (depth + 1)) n (s :: audience) =
        ((p.act (.notify s.id n.event n.message)).react h (deliver h (depth + 1)) s.id
          s.reaction).tellEach h (deliver h (depth + 1)) n audience := rfl
    rw [hfold, hcons]
    rcases react_of_failed (h := h) (p := p.act (.notify s.id n.event n.message)) herror hqueue
      depth s.id s.reaction with ⟨R, hleaves, hR, hreact⟩ | ⟨R, hleaves, hR, hreact⟩
    · have hfirst := settles_retain hqueue (.notify s.id n.event n.message) hR
      have hbind : (s.reaction.leaves s.id p.project.subscriptions).bind (leftBy audience) =
          leftBy audience R := congrArg (Except.bind · (leftBy audience)) hleaves
      rw [hbind, hreact]
      rcases ih (p := (p.act (.notify s.id n.event n.message)).retain R) herror hqueue with
        ⟨T, hleft, hrest⟩ | ⟨T, before, after, hleft, hT, rfl, hrest⟩
      · exact .inl ⟨T, hleft, hfirst.trans hrest⟩
      · exact .inr ⟨T, s :: before, after, hleft, hT.trans hR, rfl, hfirst.trans hrest⟩
    · -- the others are told of the failure when the project has closed
      have hfirst := (settles_retain hqueue (.notify s.id n.event n.message) (.refl _)).trans hreact
      have hrest := hfirst.trans (tellEach_of_closed (h := h) hfirst.lifecycle hfirst.queue
        (deliver h (depth + 1)) n audience)
      have hbind : (s.reaction.leaves s.id p.project.subscriptions).bind (leftBy audience) =
          .error R := congrArg (Except.bind · (leftBy audience)) hleaves
      exact .inr ⟨R, [s], audience, hbind, hR, rfl, hrest⟩

/-- **How the failure of a project is told.** -/
theorem settles_fail (hqueue : p.project.queue = []) (cause : Failure) (depth : Nat) :
    let n : Notice := ⟨.error, cause.notice⟩
    let registered := p.project.subscriptions
    let audience := Event.error.audience registered
    (∃ R, leftBy audience registered = .ok R ∧
      p.Settles .error ([.stop p.project.executor, .report cause] ++ tellings n audience)
        ((p.fail cause).deliver h (depth + 2))) ∨
    ∃ R before after, leftBy audience registered = .error R ∧ R.Sublist registered ∧
      audience = before ++ after ∧
      p.Settles .closed ([.stop p.project.executor, .report cause] ++
          (tellings n before ++ closingActs p.project.executor R ++ tellings n after))
        ((p.fail cause).deliver h (depth + 2)) := by
  intro n registered audience
  let first := (p.fail cause).update fun q => { q with queue := [] }
  have hnotice : (p.fail cause).project.queue = [n] := by
    rw [project_fail, hqueue]
    rfl
  have hproject : first.project =
      { p.project with
        lifecycle := .error
        generation := p.project.generation + 1
        queue := [] } := rfl
  have hfirst : p.Settles .error [.stop p.project.executor, .report cause] first := by
    refine ⟨by rw [hproject], by rw [hproject], by rw [hproject], by rw [hproject], ?_⟩
    exact acts_fail p cause
  have htold := tellEach_of_failed (h := h) hfirst.lifecycle hfirst.queue depth n audience
  rw [hproject] at htold
  rw [deliver_of_queue hnotice, project_fail]
  rcases htold with ⟨R, hleft, hrest⟩ | ⟨R, before, after, hleft, hR, haudience, hrest⟩
  · exact .inl ⟨R, hleft, hfirst.trans hrest⟩
  · exact .inr ⟨R, before, after, hleft, hR, haudience, hfirst.trans hrest⟩

/-! ### Chronicles -/

/-- What holds of a project that has raised these events, each with those who were subscribed. -/
structure Chronicle (p : Playback σ) (raised : List (Event × List Subscription)) : Prop where
  queue : p.project.queue = []
  events : p.project.lifecycle.Raised (raised.map (·.1))
  told : ∀ e, told e p.acts = toTell e raised
  released : p.project.lifecycle = .closed → Released p.acts
  unreleased : p.project.lifecycle ≠ .closed → .release ∉ p.acts
  distinct : (p.project.subscriptions.map (·.id)).Nodup
  fresh : ∀ s ∈ p.project.subscriptions, s.id < p.project.nextSubscription
  registered : ∀ r ∈ raised, (r.2.map (·.id)).Nodup

theorem chronicle_create {o : ProjectOptions} {q : Project} (hq : Project.create o = .ok q)
    (host : σ) : ({ project := q, host } : Playback σ).Chronicle [] := by
  unfold Project.create at hq
  split at hq
  · cases hq
  · cases hq
    exact ⟨rfl, rfl, fun _ => rfl, fun hclosed => Lifecycle.noConfusion hclosed,
      fun _ => List.not_mem_nil, .nil, fun _ hmem => absurd hmem List.not_mem_nil,
      fun _ hmem => absurd hmem List.not_mem_nil⟩

variable {events more : List (Event × List Subscription)}

/-- Before a project has closed, nobody was told that it has. -/
theorem Chronicle.untold (hc : p.Chronicle events) (hnot : p.project.lifecycle ≠ .closed) :
    SchemePlayer.told .closed p.acts = [] := by
  rw [hc.told]
  exact toTell_of_not_mem (hc.events.closed_not_mem hnot)

/-- Events are raised, and a round of telling follows. -/
theorem Chronicle.settles (hc : p.Chronicle events) (hnot : p.project.lifecycle ≠ .closed)
    {lifecycle : Lifecycle} {acts : List Act} (hs : p.Settles lifecycle acts p')
    (hevents : lifecycle.Raised ((events ++ more).map (·.1)))
    (htold : ∀ e, SchemePlayer.told e acts = toTell e more)
    (hreleased : lifecycle = .closed → Released (p.acts ++ acts))
    (hunreleased : lifecycle ≠ .closed → .release ∉ acts)
    (hmore : ∀ r ∈ more, r.2.Sublist p.project.subscriptions) : p'.Chronicle (events ++ more) where
  queue := hs.queue
  events := hs.lifecycle ▸ hevents
  told e := by rw [hs.acts, told_append, hc.told, htold, toTell_append]
  released hclosed := hs.acts ▸ hreleased (hs.lifecycle ▸ hclosed)
  unreleased hopen := by
    rw [hs.acts]
    exact fun hmem => (List.mem_append.mp hmem).elim (hc.unreleased hnot)
      (hunreleased (hs.lifecycle ▸ hopen))
  distinct := (hs.subscriptions.map _).nodup hc.distinct
  fresh s hmem := hs.next ▸ hc.fresh s (hs.subscriptions.subset hmem)
  registered r hr := by
    rcases List.mem_append.mp hr with hr | hr
    · exact hc.registered r hr
    · exact ((hmore r hr).map _).nodup hc.distinct

/-- **A project closes once.** -/
theorem Chronicle.shut (hc : p.Chronicle events) (hnot : p.project.lifecycle ≠ .closed) :
    (p.shut.deliverAll h).Chronicle (events ++ p.shut.project.raises) := by
  have hreleased := released_of_closingActs (hc.unreleased hnot) (hc.untold hnot)
    (List.not_mem_nil) p.project.executor p.project.subscriptions
  rw [List.append_nil] at hreleased
  refine hc.settles hnot (settles_shut hc.queue 2) ?_ (fun e => told_closingActs e _ _)
    (fun _ => hreleased) (fun hopen => absurd rfl hopen) ?_
  · rw [List.map_append]
    exact hc.events.concat_closed hnot
  · rintro r hr
    cases List.mem_singleton.mp hr
    exact .refl _

/-- **A project fails once**, and may be closed in answer to it. -/
theorem Chronicle.fail (hc : p.Chronicle events) (hlive : p.project.lifecycle.isTerminal = false)
    (cause : Failure) :
    ((p.fail cause).deliverAll h).Chronicle (events ++ (p.fail cause).project.raises) := by
  have hnot := Lifecycle.ne_closed_of_live hlive
  obtain rfl : events = [] :=
    List.map_eq_nil_iff.mp ((Lifecycle.raised_of_live hlive).mp hc.events)
  rcases settles_fail (h := h) hc.queue cause 1 with
    ⟨R, hleft, hs⟩ | ⟨R, before, after, hleft, hR, haudience, hs⟩
  · have hraises : (p.fail cause).project.raises = [(.error, p.project.subscriptions)] := by
      rw [project_fail, Project.raises]
      dsimp only
      rw [hleft]
    rw [hraises]
    refine hc.settles hnot hs rfl (fun e => told_audience e ⟨.error, cause.notice⟩ _)
      (fun hclosed => Lifecycle.noConfusion hclosed) (fun _ => ?_) ?_
    · simp
    · rintro r hr
      cases List.mem_singleton.mp hr
      exact .refl _
  · have hraises : (p.fail cause).project.raises =
        [(.error, p.project.subscriptions), (.closed, R)] := by
      rw [project_fail, Project.raises]
      dsimp only
      rw [hleft]
    rw [hraises]
    refine hc.settles hnot hs (.inr rfl) (fun e => ?_) (fun _ => ?_)
      (fun hopen => absurd rfl hopen) ?_
    · -- the closing is told between those who were told of the failure before and after it
      have hboth : toTell e [(.error, p.project.subscriptions), (.closed, R)] =
          toTell e [(.error, p.project.subscriptions)] ++ toTell e [(.closed, R)] :=
        toTell_append e [_] [_]
      rw [hboth, ← told_audience e ⟨.error, cause.notice⟩, ← told_closingActs e p.project.executor,
        haudience]
      cases e <;> simp [told_closingActs, toTell]
    · have hold : .release ∉ p.acts ++ ([.stop p.project.executor, .report cause] ++
          tellings ⟨.error, cause.notice⟩ before) := by
        simp [hc.unreleased hnot]
      have hreleased := released_of_closingActs hold (by simp [hc.untold hnot])
        (release_not_mem_tellings ⟨.error, cause.notice⟩ after) p.project.executor R
      simpa only [List.append_assoc] using hreleased
    · rintro r hr
      rcases List.mem_cons.mp hr with rfl | hr
      · exact .refl _
      · cases List.mem_singleton.mp hr
        exact hR

/-! ### Moves -/

/-- Nothing happens that anybody is told of. -/
structure Calm (p p' : Playback σ) : Prop where
  lifecycle : p'.project.lifecycle = p.project.lifecycle ∨
    p.project.lifecycle.isTerminal = false ∧ p'.project.lifecycle.isTerminal = false
  queue : p'.project.queue = p.project.queue
  subscriptions : p'.project.subscriptions = p.project.subscriptions
  next : p'.project.nextSubscription = p.project.nextSubscription
  acts : ∃ new, p'.acts = p.acts ++ new ∧ ∀ a ∈ new, a.isTelling = false

/-- Nothing is done to the outside. -/
theorem Calm.silent (hlifecycle : p'.project.lifecycle = p.project.lifecycle)
    (hqueue : p'.project.queue = p.project.queue)
    (hsubscriptions : p'.project.subscriptions = p.project.subscriptions)
    (hnext : p'.project.nextSubscription = p.project.nextSubscription) (hacts : p'.acts = p.acts) :
    p.Calm p' :=
  ⟨.inl hlifecycle, hqueue, hsubscriptions, hnext, [], by rw [hacts, List.append_nil],
    fun _ hmem => absurd hmem List.not_mem_nil⟩

/-- Another stage of life, another run of an executor. -/
theorem Calm.restaged (hlive : p.project.lifecycle.isTerminal = false)
    (hlive' : p'.project.lifecycle.isTerminal = false) (hqueue : p'.project.queue = p.project.queue)
    (hsubscriptions : p'.project.subscriptions = p.project.subscriptions)
    (hnext : p'.project.nextSubscription = p.project.nextSubscription) {a : Act}
    (ha : a.isTelling = false) (hacts : p'.acts = p.acts ++ [a]) : p.Calm p' := by
  refine ⟨.inr ⟨hlive, hlive'⟩, hqueue, hsubscriptions, hnext, [a], hacts, fun b hb => ?_⟩
  rw [List.mem_singleton.mp hb]
  exact ha

theorem Chronicle.calm (hc : p.Chronicle events) (hcalm : p.Calm p') : p'.Chronicle events := by
  obtain ⟨new, hacts, hnew⟩ := hcalm.acts
  have hrelease : .release ∉ new := fun hmem => Bool.noConfusion (hnew _ hmem)
  have hclosed : p'.project.lifecycle = .closed ↔ p.project.lifecycle = .closed := by
    rcases hcalm.lifecycle with heq | ⟨hlive, hlive'⟩
    · rw [heq]
    · exact iff_of_false (Lifecycle.ne_closed_of_live hlive') (Lifecycle.ne_closed_of_live hlive)
  refine ⟨hcalm.queue.trans hc.queue, ?_, fun e => ?_, fun heq => ?_, fun hne => ?_, ?_, ?_,
    hc.registered⟩
  · rcases hcalm.lifecycle with heq | ⟨hlive, hlive'⟩
    · rw [heq]
      exact hc.events
    · rw [Lifecycle.raised_of_live hlive']
      exact (Lifecycle.raised_of_live hlive).mp hc.events
  · rw [hacts, told_append, told_of_not_isTelling hnew, List.append_nil, hc.told]
  · rw [hacts]
    exact (hc.released (hclosed.mp heq)).append hrelease
  · rw [hacts]
    exact fun hmem => (List.mem_append.mp hmem).elim
      (hc.unreleased fun heq => hne (hclosed.mpr heq)) hrelease
  · rw [hcalm.subscriptions]
    exact hc.distinct
  · rw [hcalm.subscriptions, hcalm.next]
    exact hc.fresh

theorem Chronicle.subscribe (hc : p.Chronicle events) (event : Text) (reaction : Reaction) :
    (p.update fun q => (q.subscribe event reaction).2).Chronicle events := by
  refine { hc with distinct := ?_, fresh := ?_ }
  · show (List.map (fun s : Subscription => s.id) (p.project.subscriptions ++ [_])).Nodup
    rw [List.map_append, List.nodup_append]
    refine ⟨hc.distinct, List.pairwise_singleton .., ?_⟩
    rintro id hid _ hnew rfl
    obtain ⟨s, hs, rfl⟩ := List.mem_map.mp hid
    have hlt := hc.fresh s hs
    rw [List.mem_singleton.mp hnew] at hlt
    exact Nat.lt_irrefl _ hlt
  · intro s hmem
    rcases List.mem_append.mp hmem with hmem | hmem
    · exact Nat.lt_succ_of_lt (hc.fresh s hmem)
    · cases List.mem_singleton.mp hmem
      exact Nat.lt_succ_self _

theorem Chronicle.unsubscribe (hc : p.Chronicle events) (id : Nat) :
    (p.update (·.unsubscribe id)).Chronicle events :=
  { hc with
    distinct := (List.filter_sublist.map _).nodup hc.distinct
    fresh := fun s hmem => hc.fresh s (List.mem_filter.mp hmem).1 }

/-- A move that neither asks for a tick nor closes the project raises no event. -/
theorem Chronicle.aside (hc : p.Chronicle events) {m : Move σ} (hm : m.asksTick p.project = false)
    (hother : m ≠ .close) : (p.perform h m).Chronicle events := by
  cases m with
  | play target =>
    show (p.play h target).2.Chronicle events
    unfold play
    split
    · exact hc
    · exact hc
    · exact hc
    · rename_i hpaused
      exact hc.calm (.restaged (by rw [hpaused]; rfl) rfl rfl rfl rfl rfl rfl)
    · rename_i hready
      split
      · exact hc.calm (.silent rfl rfl rfl rfl rfl)
      · exact hc.calm (.restaged (by rw [hready]; rfl) rfl rfl rfl rfl rfl rfl)
  | pause =>
    show p.pause.Chronicle events
    unfold pause
    split
    · rename_i hplaying
      exact hc.calm (.restaged (by rw [hplaying]; rfl) rfl rfl rfl rfl rfl rfl)
    · exact hc
  | resume =>
    show p.resume.Chronicle events
    unfold resume
    split
    · rename_i hpaused
      exact hc.calm (.restaged (by rw [hpaused]; rfl) rfl rfl rfl rfl rfl rfl)
    · exact hc
  | setExecutor executor =>
    show (p.setExecutor executor).Chronicle events
    unfold setExecutor
    split
    · exact hc.calm ⟨.inl rfl, rfl, rfl, rfl, _, List.append_assoc .., by simp [Act.isTelling]⟩
    · exact hc.calm (.silent rfl rfl rfl rfl rfl)
  | setVar id name v =>
    show (p.update fun q => (q.setVar? id name v).getD q).Chronicle events
    unfold Project.setVar? update
    dsimp only
    split
    · exact hc
    · split
      · exact hc
      · split
        · exact hc.calm (.silent rfl rfl rfl rfl rfl)
        · exact hc
  | setKeys keys => exact hc.calm (.silent rfl rfl rfl rfl rfl)
  | subscribe event reaction => exact hc.subscribe event reaction
  | unsubscribe id => exact hc.unsubscribe id
  | close => exact absurd rfl hother
  | drift f => exact hc.calm (.silent rfl rfl rfl rfl rfl)
  | step | compute | callback _ =>
    rw [perform_of_refused rfl hm]
    exact hc

theorem calm_poll (ht : p.takesOff h = true) : p.Calm (p.poll h) := by
  rcases poll_cases h p with ⟨-, heq⟩ | ⟨_, -, -, heq⟩ | ⟨_, _, -, -, -, heq⟩ |
    ⟨_, _, _, -, -, -, heq⟩
  · rw [heq]
    exact .silent rfl rfl rfl rfl rfl
  · rw [heq]
    exact .silent rfl rfl rfl rfl rfl
  · rw [heq]
    exact .silent rfl rfl rfl rfl rfl
  · -- a project that has failed does not tick
    rw [takesOff, heq, project_fail] at ht
    cases ht

/-- **A tick raises the event of its end**, and what subscribers answer to it. -/
theorem Outcome.chronicle (hc : p.Chronicle events) (hlive : p.project.lifecycle.isTerminal = false)
    (ho : Outcome h p p') : (p'.deliverAll h).Chronicle (events ++ p'.project.raises) := by
  -- a project that goes on tells nobody
  have hgoes : ∀ p' : Playback σ, p'.Chronicle events → p'.project.lifecycle.isTerminal = false →
      (p'.deliverAll h).Chronicle (events ++ p'.project.raises) := by
    intro p' hc' hlive'
    rw [deliverAll_of_queue hc'.queue, Project.raises_of_live hlive', List.append_nil]
    exact hc'
  cases ho with
  | waits host _ => exact hgoes _ (hc.calm (.silent rfl rfl rfl rfl rfl)) hlive
  | refuses call cause _ _ =>
    have hrelieved : (p.relieved h call).Chronicle events :=
      hc.calm (.silent rfl rfl rfl rfl rfl)
    exact hrelieved.fail hlive cause
  | fails cause ht _ =>
    have hadopt : ((p.poll h).adopt ((p.poll h).walk h).1).Chronicle events :=
      (hc.calm (calm_poll ht)).calm (.silent rfl rfl rfl rfl rfl)
    exact hadopt.fail ((congrArg _ (poll_of_takesOff ht).2.1).trans hlive) cause
  | lands memory yielded ht _ _ =>
    have hlanded : ((p.poll h).landed ((p.poll h).walk h).1 memory yielded).Chronicle events :=
      (hc.calm (calm_poll ht)).calm (.silent rfl rfl rfl rfl rfl)
    have hstill := (congrArg Lifecycle.isTerminal (poll_of_takesOff ht).2.1).trans hlive
    split
    · exact hlanded.shut (Lifecycle.ne_closed_of_live hstill)
    · exact hgoes _ hlanded hstill

/-- **A move keeps the chronicle**, with the events that it raises. -/
theorem Chronicle.perform (hs : p.project.Sound) (hc : p.Chronicle events) (m : Move σ) :
    (p.perform h m).Chronicle (events ++ p.raises h m) := by
  unfold raises
  cases hm : m.asksTick p.project with
  | true =>
    have hlive := live_of_asksTick hm
    rw [if_pos rfl, perform_of_asksTick hm]
    exact (tick_outcome hs hlive).chronicle hc hlive
  | false =>
    rw [if_neg Bool.false_ne_true]
    cases m with
    | close =>
      show (p.close h).Chronicle _
      unfold Playback.close
      split
      · rw [List.append_nil]
        exact hc
      · exact hc.shut (by assumption)
    | _ =>
      rw [List.append_nil]
      exact hc.aside hm nofun

theorem Chronicle.performs (hs : p.project.Sound) (hc : p.Chronicle events) (ms : List (Move σ)) :
    (p.performs h ms).Chronicle (events ++ p.raised h ms) := by
  induction ms generalizing p events with
  | nil =>
    rw [raised, List.append_nil]
    exact hc
  | cons m ms ih =>
    rw [raised, ← List.append_assoc]
    exact ih (sound_perform hs m) (hc.perform hs m)

/-- **Everybody is told exactly once.** After any moves whatsoever, no notice is left in the queue.
A project that goes on has raised no event, one that has failed has raised its failure, and one
that has closed has raised its closing, perhaps after its failure. Whoever was subscribed to an
event when it was raised was told of it exactly once, and nobody else was. The host of a project
that has closed was let go exactly once, before anybody was told so, and no other host was. -/
theorem told_exactly_once {h : Host σ} {o : ProjectOptions} {q : Project}
    (hq : Project.create o = .ok q) (host : σ) (ms : List (Move σ)) :
    let start : Playback σ := { project := q, host }
    let p := start.performs h ms
    p.project.queue = [] ∧
    p.project.lifecycle.Raised ((start.raised h ms).map (·.1)) ∧
    (∀ e registered, (e, registered) ∈ start.raised h ms →
      ∀ s ∈ registered, s.event = e.name → (told e p.acts).count s.id = 1) ∧
    (∀ e, ∀ id ∈ told e p.acts, ∃ registered, (e, registered) ∈ start.raised h ms ∧
      ∃ s ∈ registered, s.event = e.name ∧ s.id = id) ∧
    (p.project.lifecycle = .closed → Released p.acts) ∧
    (p.project.lifecycle ≠ .closed → .release ∉ p.acts) := by
  intro start p
  have hc : p.Chronicle (start.raised h ms) :=
    (chronicle_create hq host).performs (Project.sound_create hq) ms
  refine ⟨hc.queue, hc.events, fun e registered hraised s hs hevent => ?_, fun e id hid => ?_,
    hc.released, hc.unreleased⟩
  · rw [hc.told, toTell_of_mem hc.events.nodup hraised]
    have hnodup : ((e.audience registered).map (·.id)).Nodup :=
      (List.filter_sublist.map _).nodup (hc.registered _ hraised)
    have hmem : s ∈ e.audience registered := List.mem_filter.mpr ⟨hs, decide_eq_true hevent⟩
    exact List.count_eq_one_of_mem hnodup (List.mem_map_of_mem hmem)
  · rw [hc.told, toTell, List.mem_flatMap] at hid
    obtain ⟨⟨e', registered⟩, hraised, hid⟩ := hid
    split at hid
    · rename_i he
      obtain ⟨s, hs, rfl⟩ := List.mem_map.mp hid
      obtain ⟨hs, hevent⟩ := List.mem_filter.mp hs
      exact ⟨registered, (show e' = e from he) ▸ hraised, s, hs, of_decide_eq_true hevent, rfl⟩
    · cases hid

/-- A project is made to fail. The first who is told of it takes one of the others off and closes
the project, and the last asks for a step. Then the project is closed once more. -/
def answered : List (Move ScriptedHost) :=
  [.subscribe "error" (.andThen (.dismiss 2) .close), .subscribe "closed" .close,
    .subscribe "closed" .nothing, .subscribe "error" .step, .step, .close]

/-- Who is subscribed when the project fails. -/
def answerers : List Subscription :=
  [⟨0, "error", .andThen (.dismiss 2) .close⟩, ⟨1, "closed", .close⟩, ⟨2, "closed", .nothing⟩,
    ⟨3, "error", .step⟩]

/-- Both who wait for the failure are told of it once. Of the two who wait for the closing, one is
told of it once, and the other, who was taken off just before, is not. -/
theorem told_exactly_once_answered :
    ∃ q, Project.create (.solo [] #[0xEE] #[]) = .ok q ∧
      let start : Playback ScriptedHost := { project := q, host := {} }
      let p := start.performs ScriptedHost.host answered
      start.raised ScriptedHost.host answered =
          [(.error, answerers), (.closed, answerers.eraseIdx 2)] ∧
        (told .error p.acts).count 0 = 1 ∧ (told .error p.acts).count 3 = 1 ∧
        (told .closed p.acts).count 1 = 1 ∧ 2 ∉ told .closed p.acts ∧
        p.project.queue = [] ∧ Released p.acts := by
  obtain ⟨q, hq, heval⟩ := Project.exists_create
    (o := .solo [] #[0xEE] #[])
    (P := fun q =>
      let start : Playback ScriptedHost := { project := q, host := {} }
      decide (start.raised ScriptedHost.host answered =
          [(.error, answerers), (.closed, answerers.eraseIdx 2)] ∧
        (start.performs ScriptedHost.host answered).project.lifecycle = .closed))
    (by decide +kernel)
  obtain ⟨hraised, hclosed⟩ := of_decide_eq_true heval
  obtain ⟨hqueue, -, honce, honly, hreleased, -⟩ :=
    told_exactly_once (h := ScriptedHost.host) hq {} answered
  rw [hraised] at honce honly
  have hfailure := honce .error answerers List.mem_cons_self
  have hclosing := honce .closed (answerers.eraseIdx 2) (.tail _ List.mem_cons_self)
  refine ⟨q, hq, hraised, ?_, ?_, ?_, fun htold => ?_, hqueue, hreleased hclosed⟩
  · exact hfailure ⟨0, "error", .andThen (.dismiss 2) .close⟩ (by decide) rfl
  · exact hfailure ⟨3, "error", .step⟩ (by decide) rfl
  · exact hclosing ⟨1, "closed", .close⟩ (by decide) rfl
  · obtain ⟨registered, hmem, s, hs, -, hid⟩ := honly .closed 2 htold
    have hregistered : registered = answerers.eraseIdx 2 := by
      rcases List.mem_cons.mp hmem with heq | hmem
      · cases heq
      · exact congrArg Prod.snd (List.mem_singleton.mp hmem)
    have hnone : ∀ s ∈ answerers.eraseIdx 2, s.id ≠ 2 := by decide
    exact hnone s (hregistered ▸ hs) hid

end Playback

end SchemePlayer
