import SchemePlayer.Proofs.Project.Deferral

/-!
# Suspension is transparent

For code that has not written anything yet it makes no difference whether the host replies at
once or later: a tick that is suspended again and again ends in the end as the one tick that
gets the same replies at once (`Project/Deferral` compares single ticks, this module runs).

- `Awaits`: the invariant of a run after `n` suspended ticks. The next tick is suspended too and
  brings it to `n + 1` (`Awaits.tick`), until the whole script is on record and a tick ends as
  the uninterrupted one (`Awaits.last`); no other move disturbs it (`Awaits.idle`).
- `Awaits.takesOff_iff`: a tick takes off as soon as the reply it needs was sent.
- `suspension_transparent`: the comparison, for every run.
-/

namespace SchemePlayer

/-- A move that changes neither variables nor keys, and by which the host does no more than send
a reply. -/
def Move.IsDiscreet : Move Mailbox → Prop
  | .setVar _ _ _ => False
  | .setKeys _ => False
  | .drift f => f = Mailbox.send
  | _ => True

namespace Playback

open Machine

/-! ### How ticks end -/

section Flight

variable {σ τ : Type} {h : Host σ} {g : Host τ} {p : Playback σ} {p' : Playback τ}

/-- A tick leaves the host as its code did. -/
theorem host_flight (hd : p.project.Departing) : (p.flight h).host = (p.walk h).1.host := by
  rcases flight_cases (h := h) hd with ⟨cause, -, heq⟩ | ⟨memory, yielded, -, -, heq⟩
  · rw [heq]
    rfl
  · rw [heq]
    split <;> rfl

/-- Ticks whose code does the same end in the same way. -/
theorem flight_of_agreement (hd : p.project.Departing) (hd' : p'.project.Departing)
    (hbuild : p.project.SameBuild p'.project)
    (hagree : Agreement (p.trace h) (p'.trace g) (p.walk h) (p'.walk g)) :
    (p'.flight g).project.memory = (p.flight h).project.memory ∧
      (p'.flight g).project.lifecycle.isTerminal = (p.flight h).project.lifecycle.isTerminal ∧
      (p'.flight g).project.queue = (p.flight h).project.queue := by
  have hmemory : (p'.walk g).1.memory = (p.walk h).1.memory :=
    congrArg (fun m : Machine Unit => m.memory) hagree.core.symm
  have hclosing : (p'.walk g).1.closing = (p.walk h).1.closing :=
    congrArg (fun m : Machine Unit => m.closing) hagree.core.symm
  have hqueue : p'.project.queue = p.project.queue := by rw [hd.queue, hd'.queue]
  have hlive : p'.project.lifecycle.isTerminal = p.project.lifecycle.isTerminal := by
    rw [hd.live, hd'.live]
  -- both ticks fail, or both commit and perhaps close; the mixed cases have different ends
  rcases flight_cases (h := h) hd with ⟨cause, hhow, heq⟩ | ⟨memory, yielded, hhow, hprop, heq⟩
  · rcases flight_cases (h := g) hd' with ⟨cause', hhow', heq'⟩ | ⟨_, _, hhow', -, -⟩
    · rw [← hagree.how, hhow] at hhow'
      cases hhow'
      rw [heq, heq', project_fail, project_fail]
      refine ⟨hmemory, rfl, ?_⟩
      show p'.project.queue ++ _ = p.project.queue ++ _
      rw [hqueue]
    · rw [← hagree.how, hhow] at hhow'
      rcases hhow' with ⟨hne, -⟩ | ⟨hne, -⟩
      · cases hne
      · cases hne
  · rcases flight_cases (h := g) hd' with ⟨_, hhow', -⟩ | ⟨memory', yielded', -, hprop', heq'⟩
    · rw [← hagree.how] at hhow'
      rcases hhow with ⟨hne, -⟩ | ⟨hne, -⟩
      · rw [hne] at hhow'
        cases hhow'
      · rw [hne] at hhow'
        cases hhow'
    · rw [hbuild.tree, hmemory, hprop] at hprop'
      cases hprop'
      rw [heq, heq', hclosing]
      split
      · rw [project_shut, project_shut]
        refine ⟨rfl, rfl, ?_⟩
        show p'.project.queue ++ _ = p.project.queue ++ _
        rw [hqueue]
      · exact ⟨rfl, hlive, hqueue⟩

end Flight

variable {r : Nat → Reply} {q : Project} {n : Nat} {p : Playback Mailbox}

/-! ### The uninterrupted tick, once more -/

theorem Plain.takesOff (hq : Plain r q) :
    (single q).poll (Host.prompt r) = single q ∧ (single q).takesOff (Host.prompt r) = true := by
  have hpoll : (single q).poll (Host.prompt r) = single q := by
    have hnone : (single q).project.pending = none := hq.departing.pending
    simp only [poll, hnone]
  refine ⟨hpoll, ?_⟩
  rw [Playback.takesOff, hpoll]
  show (!(q.lifecycle.isTerminal || q.waiting)) = true
  rw [hq.departing.live, hq.departing.waiting]
  rfl

theorem Plain.tick_eq (hq : Plain r q) :
    (single q).tick (Host.prompt r) = (single q).flight (Host.prompt r) := by
  rw [tick_of_takesOff hq.takesOff.2, hq.takesOff.1]

/-- The host lists the calls of the script. -/
theorem Plain.host_tick (hq : Plain r q) :
    ((single q).tick (Host.prompt r)).host = (script r q).map (·.call) := by
  have hruns := walk_runs (h := Host.prompt r) (p := single q) hq.departing
  -- nothing is on record, so every call of the script is put to the host
  have hall : ∀ o ∈ script r q, o.reception.isAsked = true := by
    intro o ho
    obtain ⟨i, hi⟩ := List.mem_iff_getElem?.mp ho
    rw [reception_prompt hruns rfl hq.fresh i o hi]
    rfl
  have hledger := Runs.ledger (fun calls => calls) (fun _ _ _ => rfl) hruns
  have hasked : askedCalls (script r q) = (script r q).map (·.call) := by
    rw [askedCalls, List.filter_eq_self.mpr hall]
  rw [hq.tick_eq, host_flight (p := single q) hq.departing, hledger]
  exact hasked

/-- The uninterrupted tick does not yield. -/
theorem Plain.ending_ne (hq : Plain r q) : (single q).ending (Host.prompt r) ≠ .yielded := by
  rw [ending, hq.takesOff.1]
  -- every call gets its value at once, so that none suspends the tick
  rcases walk_outcome (h := Host.prompt r) (p := single q) hq.departing with
    ⟨-, o, ticket, hsus, -⟩ | ⟨hne, -⟩
  · obtain ⟨ho, hasked⟩ := mem_of_suspender? hsus
    obtain ⟨i, hi⟩ := List.mem_iff_getElem?.mp ho
    have hv := hq.value? hi
    rw [Occurrence.value?, hasked] at hv
    cases hv
  · exact hne

/-! ### Between suspended ticks -/

/-- What a project has in store after `n` suspended ticks. -/
def stored (r : Nat → Reply) (q : Project) : Nat → Option PendingCall × List (CallKey × Value)
  | 0 => (none, [])
  | i + 1 =>
    ((script r q)[i]?.map fun o => ⟨o.key, o.call.op, i⟩, replies ((script r q).take i))

theorem stored_succ {i : Nat} {o : Occurrence} (ho : (script r q)[i]? = some o) :
    stored r q (i + 1) = (some ⟨o.key, o.call.op, i⟩, replies ((script r q).take i)) := by
  rw [stored, ho]
  rfl

/-- A project after `n` suspended ticks, as it was before them apart from what it has in store. -/
structure Kept (r : Nat → Reply) (q : Project) (n : Nat) (p : Playback Mailbox) : Prop where
  memory : p.project.memory = q.memory
  keys : p.project.keys = q.keys
  store : (p.project.pending, p.project.delivered) = stored r q n
  calls : p.host.calls = ((script r q).take n).map (·.call)

/-- The invariant of a run after `n` suspended ticks; the project may have been closed. -/
structure Awaits (r : Nat → Reply) (q : Project) (n : Nat) (p : Playback Mailbox) : Prop where
  sound : p.project.Sound
  build : q.SameBuild p.project
  kept : p.project.lifecycle.isTerminal = false → Kept r q n p

theorem poll_host (p : Playback Mailbox) : (p.poll (Host.deferring r)).host = p.host := by
  rcases poll_cases (Host.deferring r) p with ⟨-, heq⟩ | ⟨_, -, -, heq⟩ | ⟨_, _, -, -, -, heq⟩ |
    ⟨_, _, _, -, -, -, heq⟩
  · rw [heq]
  · rw [heq]
    rfl
  · rw [heq]
    rfl
  · rw [heq]
    rfl

/-- The reply to a call is there once it was sent. -/
theorem reply?_deferring {call : PendingCall} (hcall : p.project.pending = some call) :
    p.reply? (Host.deferring r) = if call.ticket < p.host.sent then some (r call.ticket) else none := by
  rw [reply?, hcall]
  rfl

/-- A tick that takes off has one call of the script more on record. -/
theorem Awaits.foretold (ha : Awaits r q n p) (hq : Plain r q) (hn : n ≤ (script r q).length)
    (hlive : p.project.lifecycle.isTerminal = false)
    (ht : p.takesOff (Host.deferring r) = true) :
    Foretold r q n (p.poll (Host.deferring r)) := by
  have hk := ha.kept hlive
  obtain ⟨hbuild, hmemory, hkeys, -⟩ := poll_keeps (Host.deferring r) p
  refine ⟨departing_of_takesOff ha.sound ht, ha.build.trans hbuild, hmemory.trans hk.memory,
    hkeys.trans hk.keys, ?_, by rw [poll_host]; exact hk.calls⟩
  -- collecting the reply puts the latest call of the script on record
  cases n with
  | zero =>
    obtain ⟨hpending, hdelivered⟩ := Prod.mk.inj hk.store
    rcases record_of_takesOff ha.sound hlive ht with ⟨-, hrecord⟩ | ⟨call, reply, hcall, -⟩
    · exact hrecord.trans hdelivered
    · rw [hpending] at hcall
      cases hcall
  | succ i =>
    have ho : (script r q)[i]? = some (script r q)[i] := List.getElem?_eq_getElem hn
    obtain ⟨hpending, hdelivered⟩ := Prod.mk.inj (hk.store.trans (stored_succ ho))
    rcases record_of_takesOff ha.sound hlive ht with ⟨hnone, -⟩ |
      ⟨call, reply, hcall, hreply, -, hrecord⟩
    · rw [hpending] at hnone
      cases hnone
    · rw [reply?_deferring hcall] at hreply
      rw [hpending] at hcall
      cases hcall
      split at hreply
      · cases hreply
        refine hrecord.trans ?_
        rw [hdelivered, hq.replies_succ ho]
      · cases hreply

/-- A move that makes no code run asks nothing of the host. -/
theorem calls_of_not_ticksOn {m : Move Mailbox} (hs : p.project.Sound)
    (hm : p.ticksOn (Host.deferring r) m = false) (hdiscreet : m.IsDiscreet) :
    (p.perform (Host.deferring r) m).host.calls = p.host.calls := by
  cases hask : m.asksTick p.project with
  | true =>
    have ht : p.takesOff (Host.deferring r) = false := by
      rw [ticksOn, hask] at hm
      exact hm
    rw [perform_of_asksTick hask, tick_of_not_takesOff ht]
    refine deliverAll_host (h := Host.deferring r) (P := fun x => x.calls = p.host.calls)
      (fun _ _ hx => hx) (sound_poll hs) ?_
    rw [poll_host]
  | false =>
    refine idle_host (h := Host.deferring r) (P := fun x => x.calls = p.host.calls) hs hask
      (fun _ _ _ hx => hx) (fun _ _ hx => hx) ?_ rfl
    rintro f rfl
    obtain rfl : f = Mailbox.send := hdiscreet
    rfl

/-- **No move disturbs a project between suspended ticks.** -/
theorem Awaits.idle {m : Move Mailbox} (ha : Awaits r q n p) (hdiscreet : m.IsDiscreet)
    (hm : p.ticksOn (Host.deferring r) m = false) :
    Awaits r q n (p.perform (Host.deferring r) m) := by
  refine ⟨sound_perform ha.sound m, ha.build.trans (sameBuild_perform ha.sound m), fun hlive => ?_⟩
  have huntouched := untouched_perform ha.sound hm hlive
  have hk := ha.kept huntouched.live
  refine ⟨?_, ?_, ?_, ?_⟩
  · rw [huntouched.memory, hk.memory]
    rintro id name v rfl
    exact hdiscreet
  · rw [huntouched.keys, hk.keys]
    rintro keys rfl
    exact hdiscreet
  · rw [huntouched.pending, huntouched.delivered, hk.store]
  · rw [calls_of_not_ticksOn ha.sound hm hdiscreet, hk.calls]

/-- **The next tick is suspended by the next call of the script.** -/
theorem Awaits.tick {m : Move Mailbox} (ha : Awaits r q n p) (hq : Plain r q)
    (hn : n < (script r q).length) (hm : p.ticksOn (Host.deferring r) m = true)
    (hquiet : p.ending (Host.deferring r) = .yielded →
      (p.tick (Host.deferring r)).project.memory = p.project.memory) :
    p.ending (Host.deferring r) = .yielded ∧
      (p.tick (Host.deferring r)).host.calls = ((script r q).take (n + 1)).map (·.call) ∧
      (p.perform (Host.deferring r) m).project.lifecycle.isTerminal = false ∧
      Awaits r q (n + 1) (p.perform (Host.deferring r) m) := by
  obtain ⟨hask, ht⟩ := Bool.and_eq_true_iff.mp hm
  have hlive := live_of_asksTick hask
  have hf := ha.foretold hq (Nat.le_of_lt hn) hlive ht
  have hd := hf.departing
  obtain ⟨o, o', ho, hsus, hkey, hcall, hcalls, hclosing⟩ := hf.suspended hq hn
  -- the tick is suspended, and it neither fails nor closes the project
  have hyield : p.ending (Host.deferring r) = .yielded := by
    rw [ending_eq_yielded_iff hd, suspendedBy, hsus]
    rfl
  have htick := tick_of_takesOff ht
  have hstays : (p.tick (Host.deferring r)).project.lifecycle.isTerminal = false := by
    rw [htick]
    rcases flight_cases (h := Host.deferring r) hd with ⟨cause, hhow, -⟩ | ⟨memory, yielded, -, -, heq⟩
    · rw [ending, hhow] at hyield
      cases hyield
    · rw [heq, hclosing]
      exact hd.live
  have hsound := sound_tick (h := Host.deferring r) ha.sound
  -- a project that goes on has nothing to tell its subscribers
  have hperform : p.perform (Host.deferring r) m = p.tick (Host.deferring r) := by
    rw [perform_of_asksTick hask, deliverAll_of_live hsound hstays]
  have hhost : (p.tick (Host.deferring r)).host.calls = ((script r q).take (n + 1)).map (·.call) := by
    rw [htick, host_flight hd, hcalls]
  rw [hperform]
  refine ⟨hyield, hhost, hstays, hsound, ?_, fun _ => ⟨?_, ?_, ?_, hhost⟩⟩
  · rw [← hperform]
    exact ha.build.trans (sameBuild_perform ha.sound m)
  · rw [hquiet hyield, (ha.kept hlive).memory]
  · rw [htick, (flight_keeps hd).2, hf.keys]
  · rw [htick] at hstays ⊢
    rw [flight_leaves hd hstays, leaves, hsus, stored_succ ho, ← hf.record, ← hkey, ← hcall]

/-- How the tick ends that is not suspended any more: as the uninterrupted one. -/
structure EndsAs (r : Nat → Reply) (q : Project) (t : Playback Mailbox) : Prop where
  ending : t.ending (Host.deferring r) = (single q).ending (Host.prompt r)
  memory : (t.tick (Host.deferring r)).project.memory =
    ((single q).tick (Host.prompt r)).project.memory
  ended : (t.tick (Host.deferring r)).project.lifecycle.isTerminal =
    ((single q).tick (Host.prompt r)).project.lifecycle.isTerminal
  queue : (t.tick (Host.deferring r)).project.queue =
    ((single q).tick (Host.prompt r)).project.queue
  calls : (t.tick (Host.deferring r)).host.calls = ((single q).tick (Host.prompt r)).host

/-- **With the whole script on record the tick ends as the uninterrupted one.** -/
theorem Awaits.last {m : Move Mailbox} (ha : Awaits r q n p) (hq : Plain r q)
    (hn : n = (script r q).length) (hm : p.ticksOn (Host.deferring r) m = true) :
    EndsAs r q p := by
  obtain ⟨hask, ht⟩ := Bool.and_eq_true_iff.mp hm
  have hf := ha.foretold hq (Nat.le_of_eq hn) (live_of_asksTick hask) ht
  obtain ⟨hagree, hcalls⟩ := hf.ended hq hn
  have htick := tick_of_takesOff ht
  obtain ⟨hmemory, hended, hqueue⟩ :=
    flight_of_agreement (p := single q) hq.departing hf.departing hf.build hagree
  refine ⟨?_, ?_, ?_, ?_, ?_⟩
  · rw [Playback.ending, Playback.ending, hq.takesOff.1]
    exact hagree.how.symm
  · rw [htick, hq.tick_eq, hmemory]
  · rw [htick, hq.tick_eq, hended]
  · rw [htick, hq.tick_eq, hqueue]
  · rw [htick, host_flight hf.departing, hcalls, hq.host_tick]

/-- **A tick takes off as soon as the reply that it needs was sent.** -/
theorem Awaits.takesOff_iff (ha : Awaits r q n p) (hq : Plain r q) (hn : n ≤ (script r q).length)
    (hlive : p.project.lifecycle.isTerminal = false) :
    p.takesOff (Host.deferring r) = true ↔ n ≤ p.host.sent := by
  have hk := ha.kept hlive
  cases n with
  | zero =>
    obtain ⟨hpending, -⟩ := Prod.mk.inj hk.store
    have hpoll : p.poll (Host.deferring r) = p := by simp only [poll, hpending]
    refine ⟨fun _ => Nat.zero_le _, fun _ => ?_⟩
    rw [takesOff, hpoll, hlive, ha.sound.waiting, hpending]
    rfl
  | succ i =>
    have ho : (script r q)[i]? = some (script r q)[i] := List.getElem?_eq_getElem hn
    obtain ⟨hpending, -⟩ := Prod.mk.inj (hk.store.trans (stored_succ ho))
    have hreply : p.reply? (Host.deferring r) = if i < p.host.sent then some (r i) else none :=
      reply?_deferring hpending
    constructor
    · intro ht
      rcases record_of_takesOff ha.sound hlive ht with ⟨hnone, -⟩ | ⟨_, reply, -, hsome, -⟩
      · rw [hpending] at hnone
        cases hnone
      · rw [hsome] at hreply
        split at hreply
        · assumption
        · cases hreply
    · intro hsent
      rw [if_pos (Nat.lt_of_succ_le hsent)] at hreply
      cases ht : p.takesOff (Host.deferring r) with
      | true => rfl
      | false =>
        -- the reply is there, and it lets the project go on
        rcases poll_cases (Host.deferring r) p with ⟨hnone, -⟩ | ⟨_, -, hnone, -⟩ |
          ⟨_, _, -, -, -, heq⟩ | ⟨_, reply, cause, -, hsome, hfatal, -⟩
        · rw [hpending] at hnone
          cases hnone
        · rw [hreply] at hnone
          cases hnone
        · rw [takesOff, heq] at ht
          have hgo : (!(p.project.lifecycle.isTerminal || false)) = false := ht
          rw [hlive] at hgo
          cases hgo
        · rw [hreply] at hsome
          cases hsome
          rw [hq.recoverable] at hfatal
          cases hfatal

/-! ### Whole runs -/

/-- The ticks of a run, one after the other, along the script. -/
theorem Awaits.ticks (hq : Plain r q) {ms : List (Move Mailbox)} (ha : Awaits r q n p)
    (hn : n ≤ (script r q).length) (hms : ∀ m ∈ ms, m.IsDiscreet)
    (hquiet : ∀ t ∈ p.ticks (Host.deferring r) ms, t.ending (Host.deferring r) = .yielded →
      (t.tick (Host.deferring r)).project.memory = t.project.memory)
    (i : Nat) (t : Playback Mailbox) (ht : (p.ticks (Host.deferring r) ms)[i]? = some t) :
    (n + i < (script r q).length → t.ending (Host.deferring r) = .yielded ∧
      (t.tick (Host.deferring r)).host.calls = ((script r q).take (n + i + 1)).map (·.call)) ∧
    (n + i = (script r q).length → EndsAs r q t) := by
  induction ms generalizing n p i with
  | nil => simp [Playback.ticks] at ht
  | cons m ms ih =>
    have hdiscreet := hms m (List.mem_cons_self ..)
    have hms' : ∀ m ∈ ms, m.IsDiscreet := fun m hm => hms m (List.mem_cons_of_mem _ hm)
    cases hm : p.ticksOn (Host.deferring r) m with
    | false =>
      simp only [Playback.ticks, hm, Bool.false_eq_true, if_false, List.nil_append] at ht hquiet
      exact ih (ha.idle hdiscreet hm) hn hms' hquiet i ht
    | true =>
      simp only [Playback.ticks, hm, if_true, List.singleton_append] at ht hquiet
      have hfirst := hquiet p (List.mem_cons_self ..)
      have hrest : ∀ t ∈ (p.perform (Host.deferring r) m).ticks (Host.deferring r) ms,
          t.ending (Host.deferring r) = .yielded →
            (t.tick (Host.deferring r)).project.memory = t.project.memory :=
        fun t ht => hquiet t (List.mem_cons_of_mem _ ht)
      cases i with
      | zero =>
        obtain rfl := Option.some.inj ht
        refine ⟨fun hlt => ?_, fun heq => ha.last hq heq hm⟩
        obtain ⟨hyield, hcalls, -, -⟩ := ha.tick hq hlt hm hfirst
        exact ⟨hyield, hcalls⟩
      | succ i =>
        rw [List.getElem?_cons_succ] at ht
        by_cases hlt : n < (script r q).length
        · obtain ⟨-, -, -, ha'⟩ := ha.tick hq hlt hm hfirst
          have hnext := ih ha' hlt hms' hrest i ht
          rw [Nat.add_assoc n 1 i, Nat.add_comm 1 i] at hnext
          exact hnext
        · -- the tick that ended came before
          exact ⟨fun hlt' => by omega, fun heq => by omega⟩

/-- As long as no tick has ended and nobody closes the project, it goes on. -/
theorem Awaits.performs (hq : Plain r q) {ms : List (Move Mailbox)} (ha : Awaits r q n p)
    (hlive : p.project.lifecycle.isTerminal = false) (hms : ∀ m ∈ ms, m.IsDiscreet)
    (hclose : Move.close ∉ ms)
    (hquiet : ∀ t ∈ p.ticks (Host.deferring r) ms, t.ending (Host.deferring r) = .yielded →
      (t.tick (Host.deferring r)).project.memory = t.project.memory)
    (hn : n + (p.ticks (Host.deferring r) ms).length ≤ (script r q).length) :
    Awaits r q (n + (p.ticks (Host.deferring r) ms).length) (p.performs (Host.deferring r) ms) ∧
      (p.performs (Host.deferring r) ms).project.lifecycle.isTerminal = false := by
  induction ms generalizing n p with
  | nil => exact ⟨ha, hlive⟩
  | cons m ms ih =>
    have hdiscreet := hms m (List.mem_cons_self ..)
    have hms' : ∀ m ∈ ms, m.IsDiscreet := fun m hm => hms m (List.mem_cons_of_mem _ hm)
    have hclose' : Move.close ∉ ms := fun hmem => hclose (List.mem_cons_of_mem _ hmem)
    cases hm : p.ticksOn (Host.deferring r) m with
    | false =>
      simp only [Playback.ticks, hm, Bool.false_eq_true, if_false, List.nil_append] at hn hquiet ⊢
      refine ih (ha.idle hdiscreet hm) ?_ hms' hclose' hquiet hn
      cases hask : m.asksTick p.project with
      | false =>
        have hne : m ≠ .close := by
          rintro rfl
          exact hclose (List.mem_cons_self ..)
        rw [(idle_perform ha.sound hask).closes hne, hlive]
      | true =>
        have ht : p.takesOff (Host.deferring r) = false := by
          rw [ticksOn, hask] at hm
          exact hm
        have hpoll : (p.poll (Host.deferring r)).project.lifecycle.isTerminal = false := by
          rcases poll_cases (Host.deferring r) p with ⟨-, heq⟩ | ⟨_, -, -, heq⟩ |
            ⟨_, _, -, -, -, heq⟩ | ⟨call, reply, cause, hcall, hsome, hfatal, -⟩
          · rw [heq, hlive]
          · rw [heq]
            exact hlive
          · rw [heq]
            exact hlive
          · -- no reply stops the project
            rw [reply?_deferring hcall] at hsome
            split at hsome
            · cases hsome
              rw [hq.recoverable] at hfatal
              cases hfatal
            · cases hsome
        rw [perform_of_asksTick hask, tick_of_not_takesOff ht,
          deliverAll_of_live (sound_poll ha.sound) hpoll, hpoll]
    | true =>
      simp only [Playback.ticks, hm, if_true, List.singleton_append, List.length_cons] at hn hquiet ⊢
      obtain ⟨-, -, hlive', ha'⟩ := ha.tick hq (by omega) hm (hquiet p (List.mem_cons_self ..))
      have hnext := ih ha' hlive' hms' hclose' (fun t ht => hquiet t (List.mem_cons_of_mem _ ht))
        (by omega)
      rw [Nat.add_assoc n 1, Nat.add_comm 1] at hnext
      exact hnext

/-- **Suspension is transparent to code that has not written yet.** Take a project in any state
that it can get into, as long as it has not ended, does not wait and has no reply recorded, and
replies that let it go on. Compare the one tick whose calls are answered at once with a run whose
host promises every reply and sends it later, in which nobody sets variables or keys, every tick
that yields leaves memory as it found it, and the code that is executed neither asks for the time
nor closes the project. If the one tick makes `k` calls, then the first `k` ticks of the run
yield, each after one call more, the same calls in the same order; and the tick after them ends
as the one tick does, without another call. Until then the project goes on unless somebody
closes it, and a tick takes off iff the reply to the latest call was sent. -/
theorem suspension_transparent {τ : Type} {h : Host τ} {opts : ProjectOptions} {q₀ q : Project}
    (hq₀ : Project.create opts = .ok q₀) (x : τ) (ms₀ : List (Move τ))
    (hreach : (({ project := q₀, host := x } : Playback τ).performs h ms₀).project = q)
    (hlive : q.lifecycle.isTerminal = false) (hwaiting : q.waiting = false)
    (hfresh : q.delivered = []) {r : Nat → Reply} (hr : ∀ i, fatal? (r i) = none)
    (hcode : ∀ e ∈ (single q).trace (Host.prompt r), e.op ≠ .system ∧ e.op ≠ .closeAll)
    {ms : List (Move Mailbox)} (hms : ∀ m ∈ ms, m.IsDiscreet)
    (hquiet : ∀ t ∈ ({ project := q, host := {} } : Playback Mailbox).ticks (Host.deferring r) ms,
      t.ending (Host.deferring r) = .yielded →
        (t.tick (Host.deferring r)).project.memory = t.project.memory) :
    let calls := ((single q).tick (Host.prompt r)).host
    let start : Playback Mailbox := { project := q, host := {} }
    let ticks := start.ticks (Host.deferring r) ms
    let p := start.performs (Host.deferring r) ms
    (∀ (i : Nat) (t : Playback Mailbox), ticks[i]? = some t →
      (i < calls.length → t.ending (Host.deferring r) = .yielded ∧
        (t.tick (Host.deferring r)).host.calls = calls.take (i + 1)) ∧
      (i = calls.length → t.ending (Host.deferring r) ≠ .yielded ∧ EndsAs r q t)) ∧
    (Move.close ∉ ms → ticks.length ≤ calls.length →
      p.project.lifecycle.isTerminal = false ∧
        (p.takesOff (Host.deferring r) = true ↔ ticks.length ≤ p.host.sent)) := by
  intro calls start ticks p
  have hsound : q.Sound := by
    rw [← hreach]
    exact sound_performs (Project.sound_create hq₀) ms₀
  have hpending : q.pending = none := by
    rw [hsound.waiting] at hwaiting
    exact Option.isSome_eq_false_iff.mp hwaiting |> Option.isNone_iff_eq_none.mp
  -- the state that was reached is sound, so nothing is pending and the tick is a plain one
  have hq : Plain r q :=
    ⟨⟨hlive, hpending, hwaiting, hsound.queue hlive, hsound.inBounds⟩, hfresh, hr,
      fun e he => (hcode e he).1, fun e he => (hcode e he).2⟩
  have ha : Awaits r q 0 start := by
    refine ⟨hsound, .refl q, fun _ => ⟨rfl, rfl, ?_, rfl⟩⟩
    show (q.pending, q.delivered) = (none, [])
    rw [hpending, hfresh]
  have hcalls : calls = (script r q).map (·.call) := hq.host_tick
  have hlength : calls.length = (script r q).length := by rw [hcalls, List.length_map]
  refine ⟨fun i t ht => ?_, fun hclose hn => ?_⟩
  · have hscript := ha.ticks hq (Nat.zero_le _) hms hquiet i t ht
    rw [Nat.zero_add] at hscript
    refine ⟨fun hlt => ?_, fun heq => ?_⟩
    · obtain ⟨hyield, htaken⟩ := hscript.1 (by omega)
      exact ⟨hyield, by rw [htaken, hcalls, List.map_take]⟩
    · have hends := hscript.2 (by omega)
      exact ⟨by rw [hends.ending]; exact hq.ending_ne, hends⟩
  · have hn' : 0 + ticks.length ≤ (script r q).length := by omega
    obtain ⟨ha', hlive'⟩ := ha.performs hq hlive hms hclose hquiet hn'
    rw [Nat.zero_add] at ha' hn'
    exact ⟨hlive', ha'.takesOff_iff hq hn' hlive'⟩

/-- Replies that all say that nothing was done. -/
def refusals : Nat → Reply := fun _ => .failed .unspecified

/-- Three ticks are asked for, and the replies to two calls are sent in between. -/
def patience : List (Move Mailbox) :=
  [.step, .drift Mailbox.send, .step, .drift Mailbox.send, .step]

/-- Two files are looked for: two ticks yield, and the third ends as the one tick that gets both
replies at once. -/
theorem suspension_of_fileExist_twice :
    ∃ q, Project.create
        (.solo [] #[0x12, 0, 0, 0x86, 0x01, 0x12, 0, 0, 0x86, 0x01] #["x"]) = .ok q ∧
      ((single q).tick (Host.prompt refusals)).host.length = 2 ∧
      ∃ t, (({ project := q, host := {} } : Playback Mailbox).ticks (Host.deferring refusals)
        patience)[2]? = some t ∧ EndsAs refusals q t := by
  obtain ⟨q, hq, heval⟩ := Project.exists_create
    (o := .solo [] #[0x12, 0, 0, 0x86, 0x01, 0x12, 0, 0, 0x86, 0x01] #["x"])
    (P := fun q =>
      let ticks := ({ project := q, host := {} } : Playback Mailbox).ticks
        (Host.deferring refusals) patience
      decide (q.lifecycle.isTerminal = false ∧ q.waiting = false ∧ q.delivered = [] ∧
        (∀ e ∈ (single q).trace (Host.prompt refusals), e.op ≠ .system ∧ e.op ≠ .closeAll) ∧
        (∀ t ∈ ticks, t.ending (Host.deferring refusals) = .yielded →
          (t.tick (Host.deferring refusals)).project.memory = t.project.memory) ∧
        ((single q).tick (Host.prompt refusals)).host.length = 2 ∧ ticks.length = 3))
    (by decide +kernel)
  obtain ⟨hlive, hwaiting, hfresh, hcode, hquiet, hcalls, hticks⟩ := of_decide_eq_true heval
  have hms : ∀ m ∈ patience, m.IsDiscreet := by simp [patience, Move.IsDiscreet]
  obtain ⟨t, ht⟩ : ∃ t, (({ project := q, host := {} } : Playback Mailbox).ticks
      (Host.deferring refusals) patience)[2]? = some t :=
    ⟨_, List.getElem?_eq_getElem (by rw [hticks]; decide)⟩
  obtain ⟨hscript, -⟩ := suspension_transparent (h := Host.absent) (q := q) hq () [] rfl hlive
    hwaiting hfresh (r := refusals) (fun _ => rfl) hcode hms hquiet
  exact ⟨q, hq, hcalls, t, ht, ((hscript 2 t ht).2 hcalls.symm).2⟩

end Playback

end SchemePlayer
