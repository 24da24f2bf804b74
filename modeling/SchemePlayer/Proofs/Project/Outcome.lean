import SchemePlayer.Proofs.Project.Run

/-!
# Outcomes of a move

A tick that is asked for ends in one of four ways: the project goes on waiting, the reply that
it awaited stops it, the code of the tick fails, or everything is committed, after which the
project may close. `Outcome` says what the project is then, in terms of what it was before, and
`tick_outcome` that there is no fifth way. `Aside` and `aside_perform` say the same of the moves
that ask for no tick. Every later statement about moves is a case analysis of the two.

Whatever subscribers do when they are told, an ended project stays as it is but for its
generation (`Epilogue`), and no executor is run again.
-/

namespace SchemePlayer

/-- A failure that a host forced on the project with its reply. -/
def Failure.IsFatalReply (cause : Failure) : Prop :=
  ∃ className offset op reason, cause = .at className offset (.host op reason) ∧
    reason.isFatal = true

namespace Playback

variable {σ : Type} {h : Host σ} {p : Playback σ}

/-- How a tick that is asked for can end. -/
inductive Outcome (h : Host σ) (p : Playback σ) : Playback σ → Prop where
  /-- the reply has not come -/
  | waits (host : σ) : p.takesOff h = false → Outcome h p { p with host }
  /-- the reply stops the project -/
  | refuses (call : PendingCall) (cause : Failure) : p.takesOff h = false → cause.IsFatalReply →
    Outcome h p ((p.relieved h call).fail cause)
  /-- the code of the tick fails -/
  | fails (cause : Failure) : p.takesOff h = true → ((p.poll h).walk h).2 = .failed cause →
    Outcome h p (((p.poll h).adopt ((p.poll h).walk h).1).fail cause)
  /-- everything is committed -/
  | lands (memory : Memory) (yielded : Bool) : p.takesOff h = true →
    ((p.poll h).walk h).2 = (if yielded then .yielded else .completed) →
    Tree.propagate p.project.tree.links ((p.poll h).walk h).1.memory = .ok memory →
    Outcome h p
      (if ((p.poll h).walk h).1.closing then
        ((p.poll h).landed ((p.poll h).walk h).1 memory yielded).shut
      else (p.poll h).landed ((p.poll h).walk h).1 memory yielded)

/-- **A tick that is asked for ends in one of the four ways.** -/
theorem tick_outcome (hs : p.project.Sound) (hlive : p.project.lifecycle.isTerminal = false) :
    Outcome h p (p.tick h) := by
  cases ht : p.takesOff h with
  | true =>
    have hd := departing_of_takesOff hs ht
    rw [tick_of_takesOff ht]
    rcases flight_cases (h := h) hd with ⟨cause, hfailed, heq⟩ | ⟨memory, yielded, hhow, hmem, heq⟩
    · rw [heq]
      exact .fails cause ht hfailed
    · rw [heq]
      refine .lands memory yielded ht ?_ ?_
      · rcases hhow with ⟨hyield, rfl⟩ | ⟨hdone, rfl⟩
        · exact hyield
        · exact hdone
      · rw [← (poll_keeps h p).1.tree]
        exact hmem
  | false =>
    rw [tick_of_not_takesOff ht]
    rcases poll_cases h p with ⟨hpending, heq⟩ | ⟨call, -, -, heq⟩ | ⟨call, reply, -, -, -, heq⟩ |
      ⟨call, reply, reason, -, -, hfatal, heq⟩
    · rw [heq]
      exact .waits p.host ht
    · rw [heq]
      exact .waits _ ht
    · -- a reply that lets the project go on would make the tick take off
      have hgoes : p.takesOff h = true := by
        rw [takesOff, heq]
        show (!(p.project.lifecycle.isTerminal || false)) = true
        rw [hlive]
        rfl
      rw [ht] at hgoes
      cases hgoes
    · rw [heq]
      refine .refuses call _ ht ⟨_, _, call.op, reason, rfl, ?_⟩
      cases reply with
      | value v => cases hfatal
      | failed cause =>
        simp only [fatal?] at hfatal
        split at hfatal
        · cases hfatal
          assumption
        · cases hfatal

/-- A reply that lets a tick take off changes nothing but what is in store. -/
theorem poll_of_takesOff (ht : p.takesOff h = true) :
    (p.poll h).acts = p.acts ∧ (p.poll h).project.lifecycle = p.project.lifecycle ∧
      (p.poll h).project.executor = p.project.executor ∧
      (p.poll h).project.generation = p.project.generation := by
  rcases poll_cases h p with ⟨-, heq⟩ | ⟨_, -, -, heq⟩ | ⟨_, _, -, -, -, heq⟩ |
    ⟨_, _, _, -, -, -, heq⟩
  · rw [heq]
    exact ⟨rfl, rfl, rfl, rfl⟩
  · rw [heq]
    exact ⟨rfl, rfl, rfl, rfl⟩
  · rw [heq]
    exact ⟨rfl, rfl, rfl, rfl⟩
  · -- a project that has failed does not tick
    rw [takesOff, heq, project_fail] at ht
    cases ht

/-- What a move can be that asks for no tick. -/
inductive Aside (h : Host σ) (p : Playback σ) : Playback σ → Prop where
  /-- at most the host changes -/
  | drifts (host : σ) : Aside h p { p with host }
  | starts (host : σ) : p.project.lifecycle ≠ .playing → p.project.lifecycle.isTerminal = false →
    Aside h p
      (({ p with host } : Playback σ).update fun q => { q with lifecycle := .playing }).start
  | rests : p.project.lifecycle = .playing →
    Aside h p (p.update fun q => { q with lifecycle := .paused }).halt
  /-- another executor drives the project from now on -/
  | swaps (executor : Nat) : p.project.lifecycle = .playing →
    Aside h p (p.halt.update fun q => { q with executor }).start
  /-- another executor is to drive the project when it plays -/
  | trades (executor : Nat) : p.project.lifecycle ≠ .playing →
    Aside h p (p.update fun q => { q with executor })
  /-- a variable is set -/
  | writes (x : Slot) (v : Value) (memory : Memory) : p.project.lifecycle.isTerminal = false →
    p.project.memory.write x v = .ok memory → Aside h p (p.update fun q => { q with memory })
  /-- the keyboard or the subscribers change -/
  | notes (keys : Keyboard) (subscriptions : List Subscription) (nextSubscription : Nat) :
    Aside h p (p.update fun q => { q with keys, subscriptions, nextSubscription })
  | ends : p.project.lifecycle ≠ .closed → Aside h p (p.shut.deliverAll h)

/-- **What a move does that asks for no tick.** -/
theorem aside_perform {m : Move σ} (hm : m.asksTick p.project = false) :
    Aside h p (p.perform h m) := by
  have hstill : Aside h p p := .drifts p.host
  cases m with
  | play target =>
    show Aside h p (p.play h target).2
    unfold play
    split
    · exact hstill
    · exact hstill
    · exact hstill
    · rename_i hpaused
      exact .starts p.host (by rw [hpaused]; decide) (by rw [hpaused]; rfl)
    · rename_i hready
      split
      · exact .drifts _
      · exact .starts _ (by rw [hready]; decide) (by rw [hready]; rfl)
  | pause =>
    show Aside h p p.pause
    unfold pause
    split
    · exact .rests (by assumption)
    · exact hstill
  | resume =>
    show Aside h p p.resume
    unfold resume
    split
    · rename_i hpaused
      exact .starts p.host (by rw [hpaused]; decide) (by rw [hpaused]; rfl)
    · exact hstill
  | setExecutor executor =>
    show Aside h p (p.setExecutor executor)
    unfold setExecutor
    split
    · exact .swaps executor (by assumption)
    · exact .trades executor (by assumption)
  | setVar id name v =>
    show Aside h p (p.update fun q => (q.setVar? id name v).getD q)
    unfold Project.setVar? update
    dsimp only
    split
    · exact hstill
    · rename_i hlive
      split
      · exact hstill
      · rename_i x _
        split
        · rename_i memory hwrite
          exact .writes x v memory (Bool.eq_false_iff.mpr hlive) hwrite
        · exact hstill
  | setKeys keys => exact .notes keys p.project.subscriptions p.project.nextSubscription
  | subscribe event reaction => exact .notes p.project.keys _ _
  | unsubscribe id => exact .notes p.project.keys _ p.project.nextSubscription
  | close =>
    show Aside h p (p.close h)
    unfold Playback.close
    split
    · exact hstill
    · exact .ends (by assumption)
  | drift f => exact .drifts _
  | step | compute | callback _ =>
    rw [perform_of_refused rfl hm]
    exact hstill

/-! ### Acts -/

@[simp] theorem acts_fail (p : Playback σ) (cause : Failure) :
    (p.fail cause).acts = p.acts ++ [.stop p.project.executor, .report cause] :=
  List.append_assoc ..

@[simp] theorem acts_shut (p : Playback σ) :
    p.shut.acts = p.acts ++ [.stop p.project.executor] := rfl

/-- What a project that has ended becomes while subscribers are told: its executor may be
stopped again, and nothing else that matters to it happens. -/
structure Epilogue (p p' : Playback σ) : Prop where
  ended : p'.project.lifecycle.isTerminal = true
  executor : p'.project.executor = p.project.executor
  generation : p.project.generation ≤ p'.project.generation
  memory : p'.project.memory = p.project.memory
  iterations : p'.project.iterations = p.project.iterations
  acts : ∃ new, p'.acts = p.acts ++ new ∧ (∀ e g, .run e g ∉ new) ∧
    (∀ e, .stop e ∈ new → e = p.project.executor) ∧ ∀ cause, .report cause ∉ new

theorem Epilogue.refl (hended : p.project.lifecycle.isTerminal = true) : p.Epilogue p :=
  ⟨hended, rfl, Nat.le_refl _, rfl, rfl, [], (List.append_nil _).symm,
    fun _ _ => List.not_mem_nil, fun _ hmem => absurd hmem List.not_mem_nil,
    fun _ => List.not_mem_nil⟩

/-- One act more, which neither runs an executor nor stops another one nor reports. -/
theorem Epilogue.concat {p p' : Playback σ} (hold : p.Epilogue p') {a : Act}
    (hrun : ∀ e g, a ≠ .run e g) (hstop : ∀ e, a = .stop e → e = p.project.executor)
    (hreport : ∀ cause, a ≠ .report cause) :
    ∃ new, p'.acts ++ [a] = p.acts ++ new ∧ (∀ e g, .run e g ∉ new) ∧
      (∀ e, .stop e ∈ new → e = p.project.executor) ∧ ∀ cause, .report cause ∉ new := by
  obtain ⟨new, hnew, hruns, hstops, hreports⟩ := hold.acts
  refine ⟨new ++ [a], by rw [hnew, List.append_assoc], fun e g hmem => ?_, fun e hmem => ?_,
    fun cause hmem => ?_⟩
  · rcases List.mem_append.mp hmem with hmem | hmem
    · exact hruns e g hmem
    · exact hrun e g (List.mem_singleton.mp hmem).symm
  · rcases List.mem_append.mp hmem with hmem | hmem
    · exact hstops e hmem
    · exact hstop e (List.mem_singleton.mp hmem).symm
  · rcases List.mem_append.mp hmem with hmem | hmem
    · exact hreports cause hmem
    · exact hreport cause (List.mem_singleton.mp hmem).symm

/-- **Telling subscribers of a project that has ended is no more than an epilogue.** -/
theorem epilogue_deliverAll (hended : p.project.lifecycle.isTerminal = true) :
    p.Epilogue (p.deliverAll h) := by
  refine deliver_induct (P := p.Epilogue) (fun _ hp => hp.ended) (fun p' a ha hp => ?_)
    (fun _ hp => { hp with }) (fun _ _ hp => { hp with }) (fun _ hp => { hp with })
    (fun p' hp => ?_) 3 (.refl hended)
  · refine { hp with acts := hp.concat ?_ ?_ ?_ }
    · rintro e g rfl
      cases ha
    · rintro e rfl
      cases ha
    · rintro cause rfl
      cases ha
  · -- closing a project that has failed stops the same executor once more
    refine ⟨rfl, hp.executor, Nat.le_succ_of_le hp.generation, hp.memory, hp.iterations, ?_⟩
    refine hp.concat (fun e g => Act.noConfusion) (fun e heq => ?_) (fun cause => Act.noConfusion)
    cases heq
    exact hp.executor

end Playback

end SchemePlayer
