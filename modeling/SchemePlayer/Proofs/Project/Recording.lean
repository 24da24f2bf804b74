import SchemePlayer.Proofs.Project.Run

/-!
# Recording what passes between a project and its host

Any host can be made to keep a history of the calls that were made to it and of the replies
that were collected from it (`Host.recorded`). Statements about the order in which a project
uses its host are statements about that history.

- `Playback.history`: the history of a run.
- `performs_forget`: recording changes nothing: without its history, a run with a recorded
  host is the run with the host itself.
-/

namespace SchemePlayer

/-- Something that passed between a project and its host. -/
inductive HostEvent where
  | asked (call : HyperCall) (answer : Answer)
  | collected (ticket : Nat) (reply : Reply)
  deriving DecidableEq

/-- A host together with a history, the latest event last. -/
def Host.recorded {σ : Type} (h : Host σ) : Host (σ × List HostEvent) where
  call x caller call :=
    let (answer, host) := h.call x.1 caller call
    (answer, host, x.2 ++ [.asked call answer])
  collect x ticket :=
    let (reply, host) := h.collect x.1 ticket
    (reply, host, x.2 ++ (reply.map (.collected ticket)).toList)
  attach x id target :=
    let (result, host) := h.attach x.1 id target
    (result, host, x.2)
  release x id := (h.release x.1 id, x.2)

/-- A move of a run whose host is recorded: the host does not write its own history. -/
def Move.recorded {σ : Type} : Move σ → Move (σ × List HostEvent)
  | .play target => .play target
  | .pause => .pause
  | .resume => .resume
  | .step => .step
  | .compute => .compute
  | .callback generation => .callback generation
  | .setVar id name v => .setVar id name v
  | .setKeys keys => .setKeys keys
  | .setExecutor executor => .setExecutor executor
  | .subscribe event reaction => .subscribe event reaction
  | .unsubscribe id => .unsubscribe id
  | .close => .close
  | .drift f => .drift fun x => (f x.1, x.2)

variable {σ : Type}

/-! ### Recorded ticks -/

namespace Machine

/-- A machine without the history of its host. -/
def forget (m : Machine (σ × List HostEvent)) : Machine σ := { m with host := m.host.1 }

variable {h : Host σ} {s : Setting} {m : Machine (σ × List HostEvent)}

theorem reception_forget (f : Frame) (call : HyperCall) :
    m.forget.reception h s f call = m.reception h.recorded s f call := rfl

theorem afterCall_forget (f : Frame) (call : HyperCall) :
    m.forget.afterCall h s f call = (m.afterCall h.recorded s f call).forget := by
  have hhost : m.forget.hostAfter h s f call = (m.hostAfter h.recorded s f call).1 := by
    unfold hostAfter
    rw [reception_forget]
    split <;> rfl
  unfold afterCall
  rw [hhost]
  rfl

/-- A step is the same whether or not the host is recorded. -/
theorem step_forget :
    m.forget.step h s = ((m.step h.recorded s).1.forget, (m.step h.recorded s).2) := by
  cases hr : m.request? s with
  | none =>
    -- without a request the host is not looked at, under either name
    rw [step_of_not_request (n := s.iterations) (d := s.delivered) (.inl rfl) hr]
    exact step_of_not_request (m := m.forget) (n := s.iterations) (d := s.delivered) (.inl rfl) hr
  | some r =>
    have hr' : m.forget.request? s = some r := hr
    rw [step_of_request hr, step_of_request hr', ask_eq, ask_eq, reception_forget,
      afterCall_forget]
    dsimp only
    split
    · rfl
    · rfl
    · rfl
    · split <;> rfl
    · rfl

theorem run_forget (budget : Nat) :
    m.forget.run h s budget =
      ((m.run h.recorded s budget).1.forget, (m.run h.recorded s budget).2) := by
  induction budget generalizing m with
  | zero => rfl
  | succ budget ih =>
    unfold run
    rw [step_forget]
    rcases m.step h.recorded s with ⟨m', _ | how⟩
    · exact ih
    · rfl

end Machine

/-! ### Recorded runs -/

namespace Playback

/-- A playback without the history of its host. -/
def forget (p : Playback (σ × List HostEvent)) : Playback σ := { p with host := p.host.1 }

/-- A playback whose history begins now. -/
def recorded (p : Playback σ) : Playback (σ × List HostEvent) := { p with host := (p.host, []) }

variable {h : Host σ} {p : Playback (σ × List HostEvent)}

theorem poll_forget : p.forget.poll h = (p.poll h.recorded).forget := by
  have hproject : p.forget.project = p.project := rfl
  cases hpending : p.project.pending with
  | none => simp only [poll, hproject, hpending]
  | some call =>
    rcases hcollect : h.collect p.host.1 call.ticket with ⟨reply, host⟩
    have hforget : h.collect p.forget.host call.ticket = (reply, host) := hcollect
    have hrecorded : h.recorded.collect p.host call.ticket =
        (reply, host, p.host.2 ++ (reply.map (.collected call.ticket)).toList) := by
      simp only [Host.recorded, hcollect]
    cases reply with
    | none =>
      simp only [poll, hproject, hpending, hforget, hrecorded]
      rfl
    | some reply =>
      simp only [poll, hproject, hpending, hforget, hrecorded]
      cases fatal? reply <;> rfl

theorem walk_forget :
    p.forget.walk h = ((p.walk h.recorded).1.forget, (p.walk h.recorded).2) :=
  Machine.run_forget (m := Machine.start p.project.memory p.host p.project.pending
    p.project.waiting) p.project.budget

theorem conclude_forget (m : Machine (σ × List HostEvent)) (yielded : Bool) :
    p.forget.conclude m.forget yielded = (p.conclude m yielded).forget := by
  have hproject : p.forget.project = p.project := rfl
  have hclosing : m.forget.closing = m.closing := rfl
  unfold conclude
  rw [hproject]
  cases Tree.propagate p.project.tree.links p.project.memory with
  | error e => rfl
  | ok memory =>
    dsimp only
    rw [hclosing]
    split <;> rfl

theorem tick_forget : p.forget.tick h = (p.tick h.recorded).forget := by
  unfold tick
  rw [poll_forget]
  show (if (p.poll h.recorded).project.lifecycle.isTerminal ||
    (p.poll h.recorded).project.waiting then _ else _) = _
  dsimp only
  rw [apply_ite forget]
  congr 1
  rw [walk_forget]
  rcases (p.poll h.recorded).walk h.recorded with ⟨m, how⟩
  cases how with
  | failed cause => rfl
  | yielded => exact conclude_forget (p := (p.poll h.recorded).adopt m) m true
  | completed => exact conclude_forget (p := (p.poll h.recorded).adopt m) m false

theorem react_forget {tell : Playback σ → Playback σ}
    {tell' : Playback (σ × List HostEvent) → Playback (σ × List HostEvent)}
    (htell : ∀ p, tell (forget p) = (tell' p).forget) (self : Nat) (r : Reaction) :
    p.forget.react h tell self r = (p.react h.recorded tell' self r).forget := by
  induction r generalizing p with
  | nothing | unsubscribe | dismiss _ => rfl
  | close =>
    rw [react, react, apply_ite forget]
    congr 1
    exact htell p.shut
  | step =>
    rw [react, react, apply_ite forget, ← htell, ← tick_forget]
    rfl
  | andThen first second ihFirst ihSecond =>
    rw [react, react, ihFirst, ihSecond]

theorem deliver_forget (depth : Nat) :
    p.forget.deliver h depth = (p.deliver h.recorded depth).forget := by
  induction depth generalizing p with
  | zero => rfl
  | succ depth ih =>
    unfold deliver
    show p.takeNotices.1.foldl _ p.takeNotices.2.forget = _
    -- first over the notices, then over the subscribers of each
    refine List.foldl_hom forget ?_
    rintro p ⟨n, audience⟩
    dsimp only
    have hrelease : p.forget.releaseFor h n = (p.releaseFor h.recorded n).forget := by
      unfold releaseFor
      split <;> rfl
    rw [hrelease]
    refine List.foldl_hom forget fun p s => ?_
    exact react_forget (p := p.act (.notify s.id n.event n.message)) (fun _ => ih) s.id s.reaction

theorem callback_forget (generation : Nat) :
    (p.forget.callback h generation).2 = (p.callback h.recorded generation).2.forget := by
  have hproject : p.forget.project = p.project := rfl
  unfold callback
  rw [hproject]
  by_cases hnow : generation = p.project.generation ∧ p.project.lifecycle = .playing
  · rw [if_pos hnow, if_pos hnow]
    show (p.forget.tick h).deliver h 3 = _
    rw [tick_forget]
    exact deliver_forget 3
  · rw [if_neg hnow, if_neg hnow]

/-- **A move does the same whether or not the host is recorded.** -/
theorem perform_forget (m : Move σ) :
    p.forget.perform h m = (p.perform h.recorded m.recorded).forget := by
  have hproject : p.forget.project = p.project := rfl
  cases m with
  | play target =>
    show (p.forget.play h target).2 = (p.play h.recorded target).2.forget
    cases hlife : p.project.lifecycle with
    | ready =>
      -- only a project that is ready attaches its host to a target
      rcases hattach : h.attach p.host.1 p.project.id target with ⟨result, host⟩
      have hforget : h.attach p.forget.host p.project.id target = (result, host) := hattach
      have hrecorded : h.recorded.attach p.host p.project.id target =
          (result, host, p.host.2) := by
        simp only [Host.recorded, hattach]
      simp only [play, hproject, hlife, hforget, hrecorded]
      cases result <;> rfl
    | _ => simp only [play, hproject, hlife] <;> rfl
  | pause =>
    show p.forget.pause = p.pause.forget
    unfold pause
    show (if p.project.lifecycle = .playing then _ else _) = _
    split <;> rfl
  | resume =>
    show p.forget.resume = p.resume.forget
    unfold resume
    show (if p.project.lifecycle = .paused then _ else _) = _
    split <;> rfl
  | step =>
    show (p.forget.step h).2 = (p.step h.recorded).2.forget
    unfold step
    rw [hproject]
    cases p.project.lifecycle.isTerminal with
    | true => rfl
    | false =>
      show (p.forget.tick h).deliver h 3 = _
      rw [tick_forget]
      exact deliver_forget 3
  | compute => exact callback_forget p.project.generation
  | callback generation => exact callback_forget generation
  | setExecutor executor =>
    show p.forget.setExecutor executor = (p.setExecutor executor).forget
    unfold setExecutor
    show (if p.project.lifecycle = .playing then _ else _) = _
    split <;> rfl
  | close =>
    show p.forget.close h = (p.close h.recorded).forget
    unfold Playback.close
    show (if p.project.lifecycle = .closed then _ else _) = _
    split
    · rfl
    · exact deliver_forget (p := p.shut) 3
  | _ => rfl

/-- **A run is the same whether or not the host is recorded.** -/
theorem performs_forget (ms : List (Move σ)) :
    p.forget.performs h ms = (p.performs h.recorded (ms.map Move.recorded)).forget := by
  induction ms generalizing p with
  | nil => rfl
  | cons m ms ih =>
    rw [List.map_cons, performs_cons, performs_cons, perform_forget]
    exact ih

/-- What passed between a project and its host in a run. -/
def history (h : Host σ) (p : Playback σ) (ms : List (Move σ)) : List HostEvent :=
  (p.recorded.performs h.recorded (ms.map Move.recorded)).host.2

end Playback

end SchemePlayer
