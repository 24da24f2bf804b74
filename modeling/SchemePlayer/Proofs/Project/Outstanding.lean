import SchemePlayer.Host.Scripted
import SchemePlayer.Proofs.Project.Recording

/-!
# One outstanding call

A project has at most one call whose reply it awaits, and does nothing until that reply is
collected. The flag `waiting` and the field `pending` say the same in every reachable state
(`Project.Sound`); what is left to show is about the host, whose history (`Project/Recording`)
must be orderly:

- `Orderly`: histories in which every call is made while no reply is outstanding, with the
  ticket that is outstanding at their end.
- `orderly_runs`, `inOrder_performs`: the pending call of a machine, and of a project, is the
  outstanding one of the history.
- `single_outstanding`: all of this for every run of every project.
-/

namespace SchemePlayer

/-! ### Orderly histories -/

/-- Every reply that was promised has been collected. -/
def Settled (es : List HostEvent) : Prop :=
  ∀ before call ticket after, es = before ++ .asked call (.pending ticket) :: after →
    ∃ reply, .collected ticket reply ∈ after

/-- No call was made before every reply promised by then had been collected. -/
def NeverAskedWhileAwaiting (es : List HostEvent) : Prop :=
  ∀ before call answer after, es = before ++ .asked call answer :: after → Settled before

/-- A history in which the host is called only while nothing is outstanding; the ticket is the
one that is outstanding at its end. -/
inductive Orderly : List HostEvent → Option Nat → Prop where
  | nil : Orderly [] none
  | answered {es : List HostEvent} {call : HyperCall} {answer : Answer} :
    Orderly es none → (∀ ticket, answer ≠ .pending ticket) →
      Orderly (es ++ [.asked call answer]) none
  | promised {es : List HostEvent} {call : HyperCall} {ticket : Nat} :
    Orderly es none → Orderly (es ++ [.asked call (.pending ticket)]) (some ticket)
  | collected {es : List HostEvent} {ticket : Nat} {reply : Reply} :
    Orderly es (some ticket) → Orderly (es ++ [.collected ticket reply]) none

/-- An event of a history is its last one or one of the history before. -/
theorem append_cons_eq_concat {es before after : List HostEvent} {e e' : HostEvent}
    (heq : es ++ [e] = before ++ e' :: after) :
    (es = before ∧ e = e' ∧ after = []) ∨ ∃ after', after = after' ++ [e] ∧
      es = before ++ e' :: after' := by
  rcases List.eq_nil_or_concat after with rfl | ⟨after', x, rfl⟩
  · obtain ⟨hes, he⟩ := List.append_inj' heq rfl
    exact .inl ⟨hes, (List.cons.inj he).1, rfl⟩
  · rw [List.concat_eq_append, ← List.cons_append, ← List.append_assoc] at heq
    obtain ⟨hes, he⟩ := List.append_inj' heq rfl
    refine .inr ⟨after', ?_, hes⟩
    rw [List.concat_eq_append, (List.cons.inj he).1]

theorem Settled.concat {es : List HostEvent} {e : HostEvent} (hes : Settled es)
    (he : ∀ call ticket, e ≠ .asked call (.pending ticket)) : Settled (es ++ [e]) := by
  intro before call ticket after heq
  rcases append_cons_eq_concat heq with ⟨-, hlast, -⟩ | ⟨after', rfl, hbefore⟩
  · exact absurd hlast (he call ticket)
  · obtain ⟨reply, hreply⟩ := hes before call ticket after' hbefore
    exact ⟨reply, List.mem_append_left _ hreply⟩

/-- What is outstanding at the end of an orderly history was promised by the latest call, and
nothing else is outstanding. -/
theorem Orderly.settled {es : List HostEvent} {o : Option Nat} (hes : Orderly es o) :
    match o with
    | none => Settled es
    | some ticket => ∃ es' call, es = es' ++ [.asked call (.pending ticket)] ∧ Settled es' := by
  induction hes with
  | nil => exact fun before call ticket after heq => by simp at heq
  | answered _ hanswer ih =>
    refine Settled.concat ih fun call ticket heq => ?_
    cases heq
    exact hanswer ticket rfl
  | promised _ ih => exact ⟨_, _, rfl, ih⟩
  | @collected es ticket reply _ ih =>
    -- the reply settles the latest call, and all the others were settled before
    obtain ⟨es', call, rfl, hsettled⟩ := ih
    intro before call' ticket' after heq
    rcases append_cons_eq_concat heq with ⟨-, hlast, -⟩ | ⟨after', rfl, hbefore⟩
    · cases hlast
    · rcases append_cons_eq_concat hbefore with ⟨-, hlast, -⟩ | ⟨after'', rfl, hearlier⟩
      · cases hlast
        exact ⟨reply, List.mem_append_right _ (List.mem_singleton.mpr rfl)⟩
      · obtain ⟨r, hr⟩ := hsettled before call' ticket' after'' hearlier
        exact ⟨r, List.mem_append_left _ (List.mem_append_left _ hr)⟩

/-- **In an orderly history no call was made while a reply was outstanding.** -/
theorem Orderly.neverAsked {es : List HostEvent} {o : Option Nat} (hes : Orderly es o) :
    NeverAskedWhileAwaiting es := by
  induction hes with
  | nil => exact fun before call answer after heq => by simp at heq
  | answered hes _ ih =>
    intro before call answer after heq
    rcases append_cons_eq_concat heq with ⟨rfl, -, -⟩ | ⟨after', -, hbefore⟩
    · exact hes.settled
    · exact ih before call answer after' hbefore
  | promised hes ih =>
    intro before call answer after heq
    rcases append_cons_eq_concat heq with ⟨rfl, -, -⟩ | ⟨after', -, hbefore⟩
    · exact hes.settled
    · exact ih before call answer after' hbefore
  | collected _ ih =>
    intro before call answer after heq
    rcases append_cons_eq_concat heq with ⟨-, hlast, -⟩ | ⟨after', -, hbefore⟩
    · cases hlast
    · exact ih before call answer after' hbefore

variable {σ : Type}

/-! ### The history of a tick -/

namespace Machine

variable {h : Host σ} {s : Setting} {m : Machine (σ × List HostEvent)}

/-- The ticket of the call that is pending. -/
def outstanding (pending : Option PendingCall) : Option Nat := pending.map PendingCall.ticket

/-- The host is asked only while no call is pending, and then the history has one event more. -/
theorem history_of_asked {f : Frame} {call : HyperCall} {answer : Answer}
    (hrec : m.reception h.recorded s f call = .asked answer) :
    m.pending = none ∧
      (m.hostAfter h.recorded s f call).2 = m.host.2 ++ [.asked call answer] := by
  have hhost : (m.hostAfter h.recorded s f call).2 =
      m.host.2 ++ [.asked call (h.call m.host.1 (callerOf s f) call).1] := by
    rw [hostAfter, hrec]
    rfl
  unfold reception at hrec
  split at hrec
  · cases hrec
  · split at hrec
    · cases hrec
    · rename_i hpending
      cases hrec
      refine ⟨?_, hhost⟩
      cases hp : m.pending with
      | none => rfl
      | some call => simp [hp] at hpending

/-- A call that gets a value keeps a history orderly, and leaves nothing outstanding that was
not before. -/
theorem orderly_of_value {r : Request} {v : Value}
    (hm : Orderly m.host.2 (outstanding m.pending))
    (hv : (m.reception h.recorded s r.frame r.call).value? r.call.op = some v) :
    Orderly (m.hostAfter h.recorded s r.frame r.call).2 (outstanding m.pending) := by
  cases hrec : m.reception h.recorded s r.frame r.call with
  | recorded u =>
    rw [hostAfter, hrec]
    exact hm
  | held =>
    rw [hrec] at hv
    cases hv
  | asked answer =>
    obtain ⟨hpending, hhost⟩ := history_of_asked hrec
    rw [hhost, hpending]
    rw [hpending] at hm
    refine .answered hm fun ticket heq => ?_
    rw [hrec, heq] at hv
    cases hv

/-- A call that gets no value keeps a history orderly: the reply that it awaits, if any, is
outstanding afterwards. -/
theorem orderly_of_no_value {r : Request} {last : Machine (σ × List HostEvent)} {how : TickEnd}
    (hm : Orderly m.host.2 (outstanding m.pending)) (hr : m.request? s = some r)
    (hv : (m.reception h.recorded s r.frame r.call).value? r.call.op = none)
    (hstep : m.step h.recorded s = (last, some how)) :
    Orderly last.host.2 (outstanding last.pending) := by
  rcases step_of_no_value hr hv with ⟨hrec, hlast⟩ | ⟨ticket, hrec, hlast⟩ |
    ⟨cause, hrec, -, hlast⟩
  · -- held back: the host was not asked
    rw [hstep] at hlast
    cases hlast
    show Orderly (m.hostAfter h.recorded s r.frame r.call).2 (outstanding m.pending)
    rw [hostAfter, hrec]
    exact hm
  · -- promised: the call is outstanding from now on
    rw [hstep] at hlast
    cases hlast
    obtain ⟨hpending, hhost⟩ := history_of_asked hrec
    show Orderly (m.hostAfter h.recorded s r.frame r.call).2 (some ticket)
    rw [hhost]
    rw [hpending] at hm
    exact .promised hm
  · -- failed: the call was answered, and the tick stops
    rw [hstep] at hlast
    cases hlast
    obtain ⟨hpending, hhost⟩ := history_of_asked hrec
    show Orderly (m.hostAfter h.recorded s r.frame r.call).2 (outstanding m.pending)
    rw [hhost, hpending]
    rw [hpending] at hm
    exact .answered hm (by simp)

/-- **A tick keeps the history of its host orderly, and its pending call is the outstanding
one.** -/
theorem orderly_runs {budget : Nat} {es : List Entry} {last : Machine (σ × List HostEvent)}
    {how : TickEnd} (hrun : Runs h.recorded s budget m es last how)
    (hm : Orderly m.host.2 (outstanding m.pending)) :
    Orderly last.host.2 (outstanding last.pending) := by
  induction hrun with
  | exhausted m => exact hm
  | quiet hr hstep _ ih =>
    have hquiet := quiet_of_step hr hstep
    refine ih ?_
    rw [hquiet.host, hquiet.pending]
    exact hm
  | ended hr hstep =>
    have hquiet := quiet_of_step hr hstep
    rw [hquiet.host, hquiet.pending]
    exact hm
  | answered _ hv _ ih => exact ih (orderly_of_value hm hv)
  | stopped hr hv hstep => exact orderly_of_no_value hm hr hv hstep

end Machine

/-! ### The history of a run -/

namespace Playback

variable {h : Host σ} {p : Playback (σ × List HostEvent)}

/-- The history is orderly, and while the project goes on its pending call is the outstanding
one. -/
structure InOrder (p : Playback (σ × List HostEvent)) : Prop where
  orderly : ∃ o, Orderly p.host.2 o
  pending : p.project.lifecycle.isTerminal = false →
    Orderly p.host.2 (Machine.outstanding p.project.pending)

/-- Of a project that has ended only the history matters. -/
theorem InOrder.of_ended {o : Option Nat} (horderly : Orderly p.host.2 o)
    (hended : p.project.lifecycle.isTerminal = true) : p.InOrder := by
  refine ⟨⟨o, horderly⟩, fun hlive => ?_⟩
  rw [hended] at hlive
  cases hlive

theorem inOrder_poll (hlive : p.project.lifecycle.isTerminal = false) (hp : p.InOrder) :
    (p.poll h.recorded).InOrder := by
  have hnow := hp.pending hlive
  -- a reply that has come is collected, and nothing is outstanding after it
  have hafter : ∀ call reply, p.project.pending = some call → p.reply? h.recorded = some reply →
      Orderly (p.relieved h.recorded call).host.2 none := by
    intro call reply hcall hreply
    have hcollect : (h.collect p.host.1 call.ticket).1 = some reply := by
      rw [reply?, hcall] at hreply
      exact hreply
    show Orderly (p.host.2 ++ ((h.collect p.host.1 call.ticket).1.map _).toList) none
    rw [hcollect]
    rw [hcall] at hnow
    exact .collected hnow
  rcases poll_cases h.recorded p with ⟨-, heq⟩ | ⟨call, hcall, hreply, heq⟩ |
    ⟨call, reply, hcall, hreply, -, heq⟩ | ⟨call, reply, cause, hcall, hreply, -, heq⟩
  · rw [heq]
    exact hp
  · have hcollect : (h.collect p.host.1 call.ticket).1 = none := by
      rw [reply?, hcall] at hreply
      exact hreply
    have hhost : (h.recorded.collect p.host call.ticket).2.2 = p.host.2 := by
      show p.host.2 ++ ((h.collect p.host.1 call.ticket).1.map _).toList = _
      rw [hcollect]
      exact List.append_nil _
    rw [heq]
    refine ⟨?_, fun _ => ?_⟩
    · show ∃ o, Orderly (h.recorded.collect p.host call.ticket).2.2 o
      rw [hhost]
      exact hp.orderly
    · show Orderly (h.recorded.collect p.host call.ticket).2.2 _
      rw [hhost]
      exact hnow
  · rw [heq]
    exact ⟨⟨none, hafter call reply hcall hreply⟩, fun _ => hafter call reply hcall hreply⟩
  · rw [heq]
    exact .of_ended (hafter call reply hcall hreply) rfl

theorem inOrder_flight (hd : p.project.Departing) (hp : p.InOrder) :
    (p.flight h.recorded).InOrder := by
  have hstart : Orderly p.host.2 (Machine.outstanding none) := by
    rw [← hd.pending]
    exact hp.pending hd.live
  have hwalk := Machine.orderly_runs (walk_runs (h := h.recorded) hd) hstart
  rcases flight_cases (h := h.recorded) hd with ⟨cause, -, heq⟩ | ⟨memory, yielded, -, -, heq⟩
  · rw [heq]
    exact .of_ended hwalk rfl
  · rw [heq]
    split
    · exact .of_ended hwalk rfl
    · exact ⟨⟨_, hwalk⟩, fun _ => hwalk⟩

theorem inOrder_tick (hs : p.project.Sound) (hlive : p.project.lifecycle.isTerminal = false)
    (hp : p.InOrder) : (p.tick h.recorded).InOrder := by
  cases ht : p.takesOff h.recorded with
  | true =>
    rw [tick_of_takesOff ht]
    exact inOrder_flight (departing_of_takesOff hs ht) (inOrder_poll hlive hp)
  | false =>
    rw [tick_of_not_takesOff ht]
    exact inOrder_poll hlive hp

theorem inOrder_deliverAll (hs : p.project.Sound) (hp : p.InOrder) :
    (p.deliverAll h.recorded).InOrder := by
  cases hended : p.project.lifecycle.isTerminal with
  | false =>
    rw [deliverAll_of_live hs hended]
    exact hp
  | true =>
    have hhost : (p.deliverAll h.recorded).host.2 = p.host.2 :=
      deliverAll_host (P := fun x => x.2 = p.host.2) (fun _ _ hx => hx) hs rfl
    refine ⟨by rw [hhost]; exact hp.orderly, fun hlive => ?_⟩
    rw [(deliverAll_of_ended hs hended).2.1] at hlive
    cases hlive

/-- **Every move keeps the history in order.** -/
theorem inOrder_perform (m : Move σ) (hs : p.project.Sound) (hp : p.InOrder) :
    (p.perform h.recorded m.recorded).InOrder := by
  cases hask : m.recorded.asksTick p.project with
  | true =>
    rw [perform_of_asksTick hask]
    exact inOrder_deliverAll (sound_tick hs) (inOrder_tick hs (live_of_asksTick hask) hp)
  | false =>
    -- the history grows by calls and replies only, and both belong to ticks
    have hhost : (p.perform h.recorded m.recorded).host.2 = p.host.2 := by
      refine idle_host (h := h.recorded) (P := fun x => x.2 = p.host.2) hs hask (fun _ _ _ hx => hx)
        (fun _ _ hx => hx) (fun f hf => ?_) rfl
      cases m with
      | drift g =>
        cases hf
        rfl
      | _ => cases hf
    refine ⟨by rw [hhost]; exact hp.orderly, fun hlive => ?_⟩
    have hkept := untouched_perform (h := h.recorded) hs (by rw [ticksOn, hask]; rfl) hlive
    rw [hhost, hkept.pending]
    exact hp.pending hkept.live

theorem inOrder_performs (ms : List (Move σ)) (hs : p.project.Sound) (hp : p.InOrder) :
    (p.performs h.recorded (ms.map Move.recorded)).InOrder := by
  induction ms generalizing p with
  | nil => exact hp
  | cons m ms ih => exact ih (sound_perform hs m.recorded) (inOrder_perform m hs hp)

/-- The ways to ask for a tick leave a project alone that awaits a reply. -/
theorem perform_of_awaiting {h : Host σ} {p : Playback σ} {m : Move σ} (hs : p.project.Sound)
    (hpending : p.project.pending.isSome) (hreply : p.reply? h = none)
    (hm : m.isForTick = true) : (p.perform h m).project = p.project := by
  have hpoll : (p.poll h).project = p.project := by
    rcases poll_cases h p with ⟨-, heq⟩ | ⟨_, -, -, heq⟩ | ⟨_, _, -, hsome, -, heq⟩ |
      ⟨_, _, _, -, hsome, -, heq⟩
    · rw [heq]
    · rw [heq]
    · rw [hreply] at hsome
      cases hsome
    · rw [hreply] at hsome
      cases hsome
  have ht : p.takesOff h = false := by
    rw [takesOff, hpoll, hs.waiting, hpending, Bool.or_true]
    rfl
  cases hask : m.asksTick p.project with
  | true =>
    have hlive : (p.poll h).project.lifecycle.isTerminal = false := by
      rw [hpoll]
      exact live_of_asksTick hask
    rw [perform_of_asksTick hask, tick_of_not_takesOff ht, deliverAll_of_live (sound_poll hs) hlive,
      hpoll]
  | false => rw [perform_of_refused hm hask]

/-- **Single outstanding call.** In every state that a project can get into, whatever is done
with it and whenever the host replies, the project waits iff a call is pending, and does not
once it has ended. The host, which a history does not disturb, was never called before every
reply promised earlier had been collected. While a call is pending whose reply has not come,
asking for a tick in any way leaves the whole project as it is. -/
theorem single_outstanding {h : Host σ} {o : ProjectOptions} {q : Project}
    (hq : Project.create o = .ok q) (host : σ) (ms : List (Move σ)) :
    let start : Playback σ := { project := q, host }
    let p := start.performs h ms
    (p.project.waiting = true ↔ p.project.pending.isSome = true) ∧
    (p.project.lifecycle.isTerminal = true → p.project.waiting = false) ∧
    ((start.recorded.performs h.recorded (ms.map Move.recorded)).forget = p ∧
      NeverAskedWhileAwaiting (start.history h ms)) ∧
    (p.project.pending.isSome = true → p.reply? h = none →
      (p.perform h .step).project = p.project ∧ (p.perform h .compute).project = p.project ∧
      ∀ generation, (p.perform h (.callback generation)).project = p.project) := by
  intro start p
  have hs : start.project.Sound := Project.sound_create hq
  have hp : p.project.Sound := sound_performs hs ms
  refine ⟨by rw [hp.waiting], fun hended => ?_, ⟨(performs_forget ms).symm, ?_⟩,
    fun hpending hreply => ?_⟩
  · rw [hp.waiting, hp.ended hended]
    rfl
  · have hstart : start.recorded.InOrder :=
      ⟨⟨none, .nil⟩, fun hlive => by
        have hnone := standing_create (h := h) hq hlive
        show Orderly [] (Machine.outstanding q.pending)
        rw [(Prod.mk.inj hnone).1]
        exact .nil⟩
    obtain ⟨_, horderly⟩ := (inOrder_performs (h := h) ms hs hstart).orderly
    exact horderly.neverAsked
  · exact ⟨perform_of_awaiting hp hpending hreply rfl, perform_of_awaiting hp hpending hreply rfl,
      fun generation => perform_of_awaiting hp hpending hreply rfl⟩

/-- A project that looks for a file and waits for the answer stays as it is. -/
theorem single_outstanding_fileExist :
    ∃ q, Project.create (.solo [] #[0x12, 0, 0, 0x86, 0x01] #["x"]) = .ok q ∧
      let p := ({ project := q, host := { usual := .pending } } : Playback ScriptedHost).performs
        ScriptedHost.host [.step]
      p.project.pending.isSome = true ∧ p.reply? ScriptedHost.host = none ∧
        p.project.waiting = true ∧ (p.perform ScriptedHost.host .step).project = p.project := by
  obtain ⟨q, hq, heval⟩ := Project.exists_create
    (o := .solo [] #[0x12, 0, 0, 0x86, 0x01] #["x"])
    (P := fun q =>
      let p := ({ project := q, host := { usual := .pending } } : Playback ScriptedHost).performs
        ScriptedHost.host [.step]
      p.project.pending.isSome && decide (p.reply? ScriptedHost.host = none))
    (by decide +kernel)
  obtain ⟨hpending, hreply⟩ := Bool.and_eq_true_iff.mp heval
  obtain ⟨hwaiting, -, -, hstay⟩ :=
    single_outstanding (h := ScriptedHost.host) hq { usual := .pending } [.step]
  refine ⟨q, hq, hpending, of_decide_eq_true hreply, hwaiting.mpr hpending, ?_⟩
  exact (hstay hpending (of_decide_eq_true hreply)).1

end Playback

end SchemePlayer
