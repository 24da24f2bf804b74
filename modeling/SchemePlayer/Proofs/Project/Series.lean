import Mathlib.Data.List.Induction
import Mathlib.Data.List.Nodup
import SchemePlayer.Proofs.Project.Run

/-!
# Series of ticks

A series is a stretch of consecutive ticks of a run of which all but the last yield: one tick
that is begun again and again until no call suspends it. Along a series the record of replies
only grows, by one reply for each tick:

- `record_of_begins`: what a tick finds recorded is what the tick before it found, and the reply
  to the call that suspended that tick.
- `Series.recorded_stays`: a reply that is recorded stays recorded.
- `Series.recorded_after`: the reply to a call that suspends a tick is recorded in all later ones.
- `Series.origin`: every reply that is recorded during a series was the reply to a call that
  suspended one of its ticks.
-/

namespace SchemePlayer

namespace Playback

variable {σ : Type} {h : Host σ} {t u : Playback σ}

/-! ### The calls of one tick -/

/-- How a tick ends that begins here. -/
def ending (h : Host σ) (t : Playback σ) : TickEnd := ((t.poll h).walk h).2

/-- The calls that a tick makes that begins here. -/
def made (h : Host σ) (t : Playback σ) : List Machine.Occurrence := (t.poll h).calls h

/-- The replies that are recorded when a tick begins here. -/
def record (h : Host σ) (t : Playback σ) : List (CallKey × Value) := (t.poll h).project.delivered

/-- The call that suspends a tick that begins here, with the ticket for its reply. -/
def suspendedBy (h : Host σ) (t : Playback σ) : Option (Machine.Occurrence × Nat) :=
  (t.poll h).suspender? h

/-- A call is answered from the record iff it is recorded, and otherwise by the host. -/
theorem reception_of_mem (hd : (t.poll h).project.Departing) {o : Machine.Occurrence}
    (ho : o ∈ t.made h) :
    (∃ v, (t.record h).lookup o.key = some v ∧ o.reception = .recorded v) ∨
    ((t.record h).lookup o.key = none ∧ ∃ answer, o.reception = .asked answer) :=
  (walk_runs hd).reception_eq rfl o ho

theorem lookup_of_asked (hd : (t.poll h).project.Departing) {o : Machine.Occurrence}
    {answer : Answer} (ho : o ∈ t.made h) (hasked : o.reception = .asked answer) :
    (t.record h).lookup o.key = none := by
  rcases reception_of_mem hd ho with ⟨v, -, hrec⟩ | ⟨hnone, -⟩
  · rw [hasked] at hrec
    cases hrec
  · exact hnone

/-- A tick makes no two calls under one key. -/
theorem eq_of_key (hd : (t.poll h).project.Departing) {o o' : Machine.Occurrence}
    (ho : o ∈ t.made h) (ho' : o' ∈ t.made h) (hkey : o.key = o'.key) : o = o' :=
  List.inj_on_of_nodup_map (walk_runs (h := h) hd).keys_nodup ho ho' hkey

/-- A call whose reply is still to come suspends its tick. -/
theorem suspendedBy_of_pending (hd : (t.poll h).project.Departing) {o : Machine.Occurrence}
    {ticket : Nat} (ho : o ∈ t.made h) (hasked : o.reception = .asked (.pending ticket)) :
    t.suspendedBy h = some (o, ticket) := by
  obtain ⟨⟨op, _⟩, he, rfl⟩ := Machine.mem_occurrences.mp ho
  obtain ⟨before, after, htrace⟩ := List.append_of_mem he
  have hv : o.value? = none := by rw [Machine.Occurrence.value?, hasked]; rfl
  obtain rfl := (walk_runs (h := h) hd).last_of_no_value htrace hv
  have hcalls : (t.poll h).calls h = Machine.occurrences before ++ [o] := by
    rw [calls, htrace, Machine.occurrences_append]
    rfl
  simp only [suspendedBy, suspender?, hcalls, List.getLast?_concat, hasked]

/-- A tick yields iff a call suspends it. -/
theorem ending_eq_yielded_iff (hd : (t.poll h).project.Departing) :
    t.ending h = .yielded ↔ (t.suspendedBy h).isSome := by
  rcases walk_outcome (h := h) hd with ⟨hyield, o, ticket, hsus, -⟩ | ⟨hother, hsus, -⟩
  · rw [suspendedBy, hsus]
    exact ⟨fun _ => rfl, fun _ => hyield⟩
  · rw [suspendedBy, hsus]
    exact ⟨fun hyield => absurd hyield hother, by simp⟩

/-! ### From one tick to the next -/

/-- What a tick that begins finds recorded beyond what was recorded after the tick before. -/
theorem record_of_takesOff (hs : t.project.Sound) (hlive : t.project.lifecycle.isTerminal = false)
    (ht : t.takesOff h = true) :
    (t.project.pending = none ∧ t.record h = t.project.delivered) ∨
    (∃ call reply, t.project.pending = some call ∧ t.reply? h = some reply ∧
      fatal? reply = none ∧
      t.record h = t.project.delivered ++ [(call.key, valueOf call.op reply)]) := by
  rcases poll_cases h t with ⟨hnone, heq⟩ | ⟨call, hcall, -, heq⟩ |
    ⟨call, reply, hcall, hreply, hfatal, heq⟩ | ⟨call, reply, cause, hcall, -, -, heq⟩
  · exact .inl ⟨hnone, by rw [record, heq]⟩
  · -- the tick would have been refused
    have hwaiting : t.project.waiting = true := by rw [hs.waiting, hcall]; rfl
    simp only [takesOff, heq, hlive, hwaiting] at ht
    cases ht
  · exact .inr ⟨call, reply, hcall, hreply, hfatal, by rw [record, heq]; rfl⟩
  · -- the project would have stopped
    simp only [takesOff, heq, project_fail] at ht
    cases ht

/-- **The record grows by the reply to the call that suspended the tick before.** -/
theorem record_of_begins (hu : Begins h (some t) u) {o : Machine.Occurrence} {ticket : Nat}
    (hsus : t.suspendedBy h = some (o, ticket)) :
    u.project.pending = some ⟨o.key, o.call.op, ticket⟩ ∧
      ∃ reply, u.reply? h = some reply ∧ fatal? reply = none ∧
        u.record h = t.record h ++ [(o.key, valueOf o.call.op reply)] := by
  have hstore := hu.standing hu.live
  rw [suspendedBy] at hsus
  simp only [leaves, hsus, Prod.mk.injEq] at hstore
  obtain ⟨hpending, hdelivered⟩ := hstore
  refine ⟨hpending, ?_⟩
  rcases record_of_takesOff hu.sound hu.live hu.takesOff with ⟨hnone, -⟩ |
    ⟨call, reply, hcall, hreply, hfatal, hrecord⟩
  · rw [hpending] at hnone
    cases hnone
  · rw [hpending] at hcall
    cases hcall
    exact ⟨reply, hreply, hfatal, by rw [hrecord, hdelivered]; rfl⟩

/-- After a tick that did not yield, nothing is recorded. -/
theorem record_of_begins_not_suspended (hu : Begins h (some t) u)
    (hsus : t.suspendedBy h = none) : u.record h = [] := by
  have hstore := hu.standing hu.live
  rw [suspendedBy] at hsus
  simp only [leaves, hsus, Prod.mk.injEq] at hstore
  obtain ⟨hpending, hdelivered⟩ := hstore
  rcases record_of_takesOff hu.sound hu.live hu.takesOff with ⟨-, hrecord⟩ |
    ⟨call, reply, hcall, -, -, -⟩
  · rw [hrecord, hdelivered]
  · rw [hpending] at hcall
    cases hcall

/-! ### Series -/

/-- Consecutive ticks of which all but the last yield. -/
structure Series (h : Host σ) (ts : List (Playback σ)) : Prop where
  departing : ∀ t ∈ ts, (t.poll h).project.Departing
  begins : ∀ earlier t u later, ts = earlier ++ t :: u :: later → Begins h (some t) u
  yields : ∀ earlier t u later, ts = earlier ++ t :: u :: later → t.ending h = .yielded

namespace Series

variable {ts us : List (Playback σ)}

theorem tail (hs : Series h (t :: ts)) : Series h ts where
  departing u hu := hs.departing u (List.mem_cons_of_mem _ hu)
  begins earlier u w later heq := hs.begins (t :: earlier) u w later (by rw [heq]; rfl)
  yields earlier u w later heq := hs.yields (t :: earlier) u w later (by rw [heq]; rfl)

theorem suffix {earlier : List (Playback σ)} (hs : Series h (earlier ++ ts)) : Series h ts := by
  induction earlier with
  | nil => exact hs
  | cons _ earlier ih => exact ih hs.tail

theorem head_departing (hs : Series h (t :: ts)) : (t.poll h).project.Departing :=
  hs.departing t (List.mem_cons_self ..)

/-- The first tick of a longer series is suspended, and its call is answered for the second. -/
theorem next (hs : Series h (t :: u :: us)) :
    ∃ o ticket reply, t.suspendedBy h = some (o, ticket) ∧
      u.project.pending = some ⟨o.key, o.call.op, ticket⟩ ∧ u.reply? h = some reply ∧
      u.record h = t.record h ++ [(o.key, valueOf o.call.op reply)] := by
  have hyield := hs.yields [] t u us rfl
  rw [ending_eq_yielded_iff hs.head_departing] at hyield
  obtain ⟨⟨o, ticket⟩, hsus⟩ := Option.isSome_iff_exists.mp hyield
  obtain ⟨hpending, reply, hreply, -, hrecord⟩ := record_of_begins (hs.begins [] t u us rfl) hsus
  exact ⟨o, ticket, reply, hsus, hpending, hreply, hrecord⟩

/-- **A reply that is recorded stays recorded.** -/
theorem recorded_stays (hs : Series h (t :: us)) {key : CallKey} {v : Value}
    (hkey : (t.record h).lookup key = some v) :
    ∀ u ∈ us, (u.record h).lookup key = some v := by
  induction us generalizing t with
  | nil =>
    intro u hu
    cases hu
  | cons w us ih =>
    obtain ⟨o, ticket, reply, -, -, -, hrecord⟩ := hs.next
    have hw : (w.record h).lookup key = some v := by
      rw [hrecord, List.lookup_append, hkey]
      rfl
    intro u hu
    rcases List.mem_cons.mp hu with rfl | hu
    · exact hw
    · exact ih hs.tail hw u hu

/-- **The reply to a call that suspends a tick is recorded in all later ticks.** -/
theorem recorded_after (hs : Series h (t :: u :: us)) {o : Machine.Occurrence} {ticket : Nat}
    (hsus : t.suspendedBy h = some (o, ticket)) :
    u.project.pending = some ⟨o.key, o.call.op, ticket⟩ ∧ ∃ reply, u.reply? h = some reply ∧
      ∀ w ∈ u :: us, (w.record h).lookup o.key = some (valueOf o.call.op reply) := by
  obtain ⟨o', ticket', reply, hsus', hpending, hreply, hrecord⟩ := hs.next
  rw [hsus] at hsus'
  cases hsus'
  refine ⟨hpending, reply, hreply, ?_⟩
  -- the host was asked, so that nothing was recorded for the call before
  obtain ⟨ho, hasked⟩ := mem_of_suspender? hsus
  have hnone := lookup_of_asked hs.head_departing ho hasked
  have hu : (u.record h).lookup o.key = some (valueOf o.call.op reply) := by
    rw [hrecord, List.lookup_append, hnone]
    simp
  intro w hw
  rcases List.mem_cons.mp hw with rfl | hw
  · exact hu
  · exact hs.tail.recorded_stays hu w hw

/-- **What is recorded in a series was a reply to a call that suspended one of its ticks.** -/
theorem origin (hs : Series h (t :: us)) (hu : u ∈ us) {key : CallKey} {v : Value}
    (hbefore : (t.record h).lookup key = none) (hkey : (u.record h).lookup key = some v) :
    ∃ earlier w w' later o ticket reply, t :: us = earlier ++ w :: w' :: later ∧
      u ∈ w' :: later ∧ w.suspendedBy h = some (o, ticket) ∧ o.key = key ∧
      w'.project.pending = some ⟨o.key, o.call.op, ticket⟩ ∧ w'.reply? h = some reply ∧
      v = valueOf o.call.op reply := by
  induction us generalizing t with
  | nil => cases hu
  | cons w us ih =>
    -- each tick adds one reply to the record: it is the one looked for, or it came later
    obtain ⟨o, ticket, reply, hsus, hpending, hreply, hrecord⟩ := hs.next
    by_cases hsame : o.key = key
    · obtain ⟨-, reply', hreply', hlater⟩ := hs.recorded_after hsus
      rw [hreply] at hreply'
      cases hreply'
      have hv := hlater u hu
      rw [hsame, hkey] at hv
      exact ⟨[], t, w, us, o, ticket, reply, rfl, hu, hsus, hsame, hpending, hreply,
        Option.some.inj hv⟩
    · have hw : (w.record h).lookup key = none := by
        have hne : (key == o.key) = false := beq_false_of_ne (Ne.symm hsame)
        rw [hrecord, List.lookup_append, hbefore]
        simp only [List.lookup_cons, List.lookup_nil, hne, Option.none_or]
      have hmem : u ∈ us := by
        rcases List.mem_cons.mp hu with rfl | hmem
        · rw [hkey] at hw
          cases hw
        · exact hmem
      obtain ⟨earlier, x, x', later, o', ticket', reply', heq, hrest⟩ := ih hs.tail hmem hw
      exact ⟨t :: earlier, x, x', later, o', ticket', reply', by rw [heq]; rfl, hrest⟩

end Series

/-- Consecutive ticks of a run form a series if all but the last yield. -/
theorem series_of_ticks {p : Playback σ} {ms : List (Move σ)} {before ts after : List (Playback σ)}
    (hs : p.project.Sound) (hst : Standing h none p.project)
    (hlog : p.ticks h ms = before ++ ts ++ after)
    (hyields : ∀ t ∈ ts.dropLast, t.ending h = .yielded) : Series h ts where
  departing t ht := by
    obtain ⟨earlier, later, rfl⟩ := List.append_of_mem ht
    have hsplit : p.ticks h ms = (before ++ earlier) ++ t :: (later ++ after) := by
      simp only [hlog, List.append_assoc, List.cons_append]
    obtain ⟨hbegins, -⟩ := begins_of_ticks hs hst hsplit
    exact departing_of_takesOff hbegins.sound hbegins.takesOff
  begins earlier t u later heq := by
    have hsplit : p.ticks h ms = (before ++ earlier ++ [t]) ++ u :: (later ++ after) := by
      simp only [hlog, heq, List.append_assoc, List.cons_append, List.nil_append]
    obtain ⟨hbegins, -⟩ := begins_of_ticks hs hst hsplit
    rw [List.getLast?_concat] at hbegins
    exact hbegins
  yields earlier t u later heq := by
    refine hyields t ?_
    rw [heq, List.dropLast_append_of_ne_nil (List.cons_ne_nil _ _), List.dropLast_cons_cons]
    exact List.mem_append_right _ (List.mem_cons_self ..)

/-- **The series that a tick ends.** It goes back to a tick that found nothing recorded. -/
theorem exists_series {p : Playback σ} {ms : List (Move σ)} {before after : List (Playback σ)}
    (hs : p.project.Sound) (hst : Standing h none p.project)
    (hlog : p.ticks h ms = before ++ t :: after) :
    ∃ earlier run, before = earlier ++ run ∧ Series h (run ++ [t]) ∧
      (∀ u ∈ run, u.ending h = .yielded) ∧
      ∀ u, (run ++ [t]).head? = some u → u.record h = [] := by
  -- the last ticks of a run form a series as soon as all but the very last yield
  have hseries : ∀ (earlier run after : List (Playback σ)) (t : Playback σ),
      p.ticks h ms = (earlier ++ run) ++ t :: after → (∀ u ∈ run, u.ending h = .yielded) →
        Series h (run ++ [t]) := by
    intro earlier run after t hlog hyields
    have hsplit : p.ticks h ms = earlier ++ (run ++ [t]) ++ after := by
      simp only [hlog, List.append_assoc, List.cons_append, List.nil_append]
    refine series_of_ticks hs hst hsplit ?_
    rw [List.dropLast_concat]
    exact hyields
  -- going back from the tick, one tick before it at a time
  induction before using List.reverseRecOn generalizing t after with
  | nil =>
    obtain ⟨hbegins, -⟩ := begins_of_ticks hs hst hlog
    refine ⟨[], [], rfl, hseries [] [] after t hlog (by simp), by simp, fun u hu => ?_⟩
    obtain rfl : t = u := Option.some.inj hu
    obtain ⟨hpending, hdelivered⟩ := Prod.mk.inj (hbegins.standing hbegins.live)
    rcases record_of_takesOff hbegins.sound hbegins.live hbegins.takesOff with ⟨-, hrecord⟩ |
      ⟨call, reply, hcall, -⟩
    · rw [hrecord, hdelivered]
    · rw [hpending] at hcall
      cases hcall
  | append_singleton before w ih =>
    obtain ⟨hbegins, -⟩ := begins_of_ticks hs hst hlog
    rw [List.getLast?_concat] at hbegins
    have hlog' : p.ticks h ms = before ++ w :: (t :: after) := by
      rw [hlog, List.append_assoc]
      rfl
    obtain ⟨earlier, run, rfl, hrun, hyields, hfirst⟩ := ih hlog'
    have hw : (w.poll h).project.Departing := hrun.departing w (List.mem_append_right _ (by simp))
    cases hsus : w.suspendedBy h with
    | none =>
      refine ⟨earlier ++ run ++ [w], [], (List.append_nil _).symm,
        hseries (earlier ++ run ++ [w]) [] after t ?_ (by simp), by simp, fun u hu => ?_⟩
      · rw [List.append_nil]
        exact hlog
      · obtain rfl : t = u := Option.some.inj hu
        exact record_of_begins_not_suspended hbegins hsus
    | some found =>
      have hall : ∀ u ∈ run ++ [w], u.ending h = .yielded := by
        intro u hu
        rcases List.mem_append.mp hu with hu | hu
        · exact hyields u hu
        · obtain rfl := List.mem_singleton.mp hu
          rw [ending_eq_yielded_iff hw, hsus]
          rfl
      refine ⟨earlier, run ++ [w], List.append_assoc ..,
        hseries earlier _ after t ?_ hall, hall, fun u hu => ?_⟩
      · rw [hlog, List.append_assoc earlier]
      · refine hfirst u ?_
        rw [List.head?_append_of_ne_nil _ (by simp)] at hu
        exact hu

end Playback

end SchemePlayer
