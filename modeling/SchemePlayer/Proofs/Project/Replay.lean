import SchemePlayer.Host.Scripted
import SchemePlayer.Proofs.Machine.Lockstep
import SchemePlayer.Proofs.Project.Series

/-!
# Replaying calls

A tick that yields is begun again from its first instruction, so that the calls it made before
are reached again. Only replies that were awaited are recorded for that: a call that the host
answered at once is put to the host again.

- `asked_once_iff`: along a series the host is asked at most once for each call iff no call that
  was answered at once is reached again; calls that suspended a tick are answered from the
  record.
- `reply_of_suspended_call`: a reply that is used from the record answers the call that asked
  for it: the same instruction, for the same time in its tick, of the same operation with
  arguments of the same kinds; and with the very same arguments, if the two ticks began alike.

Neither at-once answers nor equal arguments come for free (`asked_again_after_ready`,
`reply_for_other_argument`).
-/

namespace SchemePlayer

/-- Whether the host was asked and answered at once. -/
def Machine.Reception.isImmediate : Machine.Reception → Bool
  | .asked (.ready _) => true
  | .asked (.failed _) => true
  | _ => false

namespace Playback

variable {σ : Type} {h : Host σ}

/-! ### How often the host is asked -/

/-- The calls that ticks put to the host, in order. -/
def asked (h : Host σ) (ts : List (Playback σ)) : List CallKey :=
  ts.flatMap fun t => ((t.made h).filter fun o => o.reception.isAsked).map (·.key)

/-- No call that the first tick got an answer to at once is reached by the second. -/
def NotReachedAgain (h : Host σ) (t u : Playback σ) : Prop :=
  ∀ o ∈ t.made h, o.reception.isImmediate = true → ∀ o' ∈ u.made h, o'.key ≠ o.key

instance (h : Host σ) (t u : Playback σ) : Decidable (NotReachedAgain h t u) :=
  inferInstanceAs (Decidable (∀ o ∈ t.made h, _ → ∀ o' ∈ u.made h, _))

theorem mem_asked {t : Playback σ} {key : CallKey} :
    key ∈ ((t.made h).filter fun o => o.reception.isAsked).map (·.key) ↔
      ∃ o ∈ t.made h, ∃ answer, o.reception = .asked answer ∧ o.key = key := by
  constructor
  · intro hmem
    obtain ⟨o, ho, rfl⟩ := List.mem_map.mp hmem
    obtain ⟨ho, hasked⟩ := List.mem_filter.mp ho
    refine ⟨o, ho, ?_⟩
    cases hrec : o.reception with
    | asked answer => exact ⟨answer, rfl, rfl⟩
    | recorded v =>
      rw [hrec] at hasked
      cases hasked
    | held =>
      rw [hrec] at hasked
      cases hasked
  · rintro ⟨o, ho, answer, hrec, rfl⟩
    refine List.mem_map.mpr ⟨o, List.mem_filter.mpr ⟨ho, ?_⟩, rfl⟩
    rw [hrec]
    rfl

/-- A call that two ticks of a series put to the host was answered at once by the first. -/
theorem Series.immediate_of_asked {t u : Playback σ} {us : List (Playback σ)}
    (hs : Series h (t :: us)) (hu : u ∈ us) {o o' : Machine.Occurrence} {answer answer' : Answer}
    (ho : o ∈ t.made h) (hasked : o.reception = .asked answer) (ho' : o' ∈ u.made h)
    (hasked' : o'.reception = .asked answer') (hkey : o'.key = o.key) :
    o.reception.isImmediate = true := by
  rw [hasked]
  cases answer with
  | ready v => rfl
  | failed cause => rfl
  | pending ticket =>
    have hsus := suspendedBy_of_pending hs.head_departing ho hasked
    obtain ⟨w, us', rfl⟩ : ∃ w us', us = w :: us' := List.exists_cons_of_ne_nil (by
      rintro rfl
      cases hu)
    obtain ⟨-, reply, -, hrecorded⟩ := hs.recorded_after hsus
    have hnone := lookup_of_asked (hs.departing u (List.mem_cons_of_mem _ hu)) ho' hasked'
    rw [hkey, hrecorded u hu] at hnone
    cases hnone

/-- A call that a series reaches again after an answer at once is put to the host again. -/
theorem Series.asked_again {t u : Playback σ} {us : List (Playback σ)} (hs : Series h (t :: us))
    (hu : u ∈ us) {o o' : Machine.Occurrence} (ho : o ∈ t.made h)
    (himmediate : o.reception.isImmediate = true) (ho' : o' ∈ u.made h) (hkey : o'.key = o.key) :
    ∃ w ∈ us, ∃ o'' ∈ w.made h, ∃ answer, o''.reception = .asked answer ∧ o''.key = o.key := by
  have hnow : (t.record h).lookup o.key = none := by
    rcases reception_of_mem hs.head_departing ho with ⟨v, -, hrec⟩ | ⟨hnone, -⟩
    · rw [hrec] at himmediate
      cases himmediate
    · exact hnone
  rcases reception_of_mem (hs.departing u (List.mem_cons_of_mem _ hu)) ho' with
    ⟨v, hlookup, -⟩ | ⟨-, answer, hasked⟩
  · -- a reply was recorded in between, for a call that the host was asked for
    rw [hkey] at hlookup
    obtain ⟨earlier, w, w', later, o'', ticket, reply, heq, -, hsus, hkey', -⟩ :=
      hs.origin hu hnow hlookup
    obtain ⟨ho'', hasked⟩ := mem_of_suspender? hsus
    cases earlier with
    | nil =>
      obtain rfl : t = w := (List.cons.inj heq).1
      obtain rfl := eq_of_key hs.head_departing ho ho'' hkey'.symm
      rw [hasked] at himmediate
      cases himmediate
    | cons _ earlier =>
      have hmem : w ∈ us := by
        rw [(List.cons.inj heq).2]
        exact List.mem_append_right _ (List.mem_cons_self ..)
      exact ⟨w, hmem, o'', ho'', _, hasked, hkey'⟩
  · exact ⟨u, hu, o', ho', answer, hasked, hkey⟩

/-- The host is asked at most once for each call of a series iff no call that it answered at
once is reached again. -/
theorem Series.nodup_asked_iff {ts : List (Playback σ)} (hs : Series h ts) :
    (asked h ts).Nodup ↔ ts.Pairwise (NotReachedAgain h) := by
  induction ts with
  | nil => exact ⟨fun _ => .nil, fun _ => .nil⟩
  | cons t us ih =>
    have hkeys : (((t.made h).filter fun o => o.reception.isAsked).map (·.key)).Nodup :=
      List.Nodup.sublist (List.filter_sublist.map _)
        (walk_runs (h := h) hs.head_departing).keys_nodup
    -- one tick asks for none of its calls twice, so it is about two ticks
    have hsplit : (asked h (t :: us)).Nodup ↔ (asked h us).Nodup ∧
        ∀ key ∈ ((t.made h).filter fun o => o.reception.isAsked).map (·.key), key ∉ asked h us := by
      rw [asked, List.flatMap_cons, List.nodup_append']
      constructor
      · rintro ⟨-, hus, hdisjoint⟩
        exact ⟨hus, fun key hkey hmem => hdisjoint hkey hmem⟩
      · rintro ⟨hus, hdisjoint⟩
        exact ⟨hkeys, hus, fun key hkey hmem => hdisjoint key hkey hmem⟩
    rw [hsplit, ih hs.tail, List.pairwise_cons, and_comm]
    refine and_congr_left fun _ => ⟨fun hfresh u hu o ho himmediate o' ho' hkey => ?_,
      fun hagain key hkey hmem => ?_⟩
    · obtain ⟨w, hw, o'', ho'', answer, hasked, hkey'⟩ :=
        hs.asked_again hu ho himmediate ho' hkey
      have hfirst : ∃ answer, o.reception = .asked answer := by
        cases hrec : o.reception with
        | asked answer => exact ⟨answer, rfl⟩
        | _ =>
          rw [hrec] at himmediate
          cases himmediate
      obtain ⟨answer', hasked'⟩ := hfirst
      refine hfresh o.key (mem_asked.mpr ⟨o, ho, answer', hasked', rfl⟩) ?_
      exact List.mem_flatMap.mpr ⟨w, hw, mem_asked.mpr ⟨o'', ho'', answer, hasked, hkey'⟩⟩
    · obtain ⟨o, ho, answer, hasked, rfl⟩ := mem_asked.mp hkey
      obtain ⟨u, hu, hmem⟩ := List.mem_flatMap.mp hmem
      obtain ⟨o', ho', answer', hasked', hkey'⟩ := mem_asked.mp hmem
      exact hagain u hu o ho (hs.immediate_of_asked hu ho hasked ho' hasked' hkey') o' ho' hkey'

/-- **The host is asked at most once for each call of a series iff no call that it answered at
once is reached again.** Take any run of any project and consecutive ticks of it of which all
but the last yield. Each tick but the last was suspended by a call, the reply to that call is
collected for the next tick, and wherever a later tick reaches the call it gets that reply
without the host being asked. -/
theorem asked_once_iff {o : ProjectOptions} {q : Project} (hq : Project.create o = .ok q)
    (host : σ) (ms : List (Move σ)) {before ts after : List (Playback σ)}
    (hlog : ({ project := q, host } : Playback σ).ticks h ms = before ++ ts ++ after)
    (hyields : ∀ t ∈ ts.dropLast, t.ending h = .yielded) :
    ((asked h ts).Nodup ↔ ts.Pairwise (NotReachedAgain h)) ∧
    ∀ earlier t u later, ts = earlier ++ t :: u :: later →
      ∃ o ticket reply, t.suspendedBy h = some (o, ticket) ∧
        u.project.pending = some ⟨o.key, o.call.op, ticket⟩ ∧ u.reply? h = some reply ∧
        ∀ w ∈ u :: later, ∀ o' ∈ w.made h, o'.key = o.key →
          o'.reception = .recorded (valueOf o.call.op reply) := by
  have hs : Series h ts :=
    series_of_ticks (Project.sound_create hq) (standing_create hq) hlog hyields
  refine ⟨hs.nodup_asked_iff, ?_⟩
  rintro earlier t u later rfl
  have hrest : Series h (t :: u :: later) := hs.suffix
  obtain ⟨o, ticket, reply, hsus, hpending, hreply, -⟩ := hrest.next
  obtain ⟨-, reply', hreply', hrecorded⟩ := hrest.recorded_after hsus
  rw [hreply] at hreply'
  cases hreply'
  refine ⟨o, ticket, reply, hsus, hpending, hreply, fun w hw o' ho' hkey => ?_⟩
  -- the reply is on record in every later tick, so the host is not asked
  rcases reception_of_mem (hrest.tail.departing w hw) ho' with ⟨v, hlookup, hrec⟩ | ⟨hnone, -⟩
  · rw [hkey, hrecorded w hw] at hlookup
    rw [hrec, Option.some.inj hlookup]
  · rw [hkey, hrecorded w hw] at hnone
    cases hnone

/-- Two files are looked for, and each question is put to the host once in three ticks. -/
theorem asked_once_fileExist_twice :
    ∃ q, Project.create
        (.solo [] #[0x12, 0, 0, 0x86, 0x01, 0x12, 0, 0, 0x86, 0x01] #["x"]) = .ok q ∧
      let ts := ({ project := q, host := { usual := .replied (.failed .unspecified) } } :
        Playback ScriptedHost).ticks ScriptedHost.host [.step, .step, .step]
      ts.map (·.ending ScriptedHost.host) = [.yielded, .yielded, .completed] ∧
        (asked ScriptedHost.host ts).Nodup := by
  obtain ⟨q, hq, heval⟩ := Project.exists_create
    (o := .solo [] #[0x12, 0, 0, 0x86, 0x01, 0x12, 0, 0, 0x86, 0x01] #["x"])
    (P := fun q =>
      let ts := ({ project := q, host := { usual := .replied (.failed .unspecified) } } :
        Playback ScriptedHost).ticks ScriptedHost.host [.step, .step, .step]
      decide (ts.map (·.ending ScriptedHost.host) = [.yielded, .yielded, .completed] ∧
        (∀ t ∈ ts.dropLast, t.ending ScriptedHost.host = .yielded) ∧
        ts.Pairwise (NotReachedAgain ScriptedHost.host)))
    (by decide +kernel)
  obtain ⟨hends, hyields, hpairwise⟩ := of_decide_eq_true heval
  refine ⟨q, hq, hends, ?_⟩
  exact (asked_once_iff hq _ _ (List.append_nil ([] ++ _)).symm hyields).1.mpr hpairwise

/-- A width that the host gave at once is asked for again when the question for a file makes
the tick begin again. -/
theorem asked_again_after_ready :
    ∃ q, Project.create (.solo [] #[0x80, 0x01, 0x12, 0, 0, 0x86, 0x01] #["x"]) = .ok q ∧
      let ts := ({ project := q
                   host := { script := [.ready (.float 0), .replied (.failed .unspecified)] } } :
        Playback ScriptedHost).ticks ScriptedHost.host [.step, .step]
      ts.map (·.ending ScriptedHost.host) = [.yielded, .completed] ∧
        ¬(asked ScriptedHost.host ts).Nodup := by
  obtain ⟨q, hq, heval⟩ := Project.exists_create
    (o := .solo [] #[0x80, 0x01, 0x12, 0, 0, 0x86, 0x01] #["x"])
    (P := fun q =>
      let ts := ({ project := q
                   host := { script := [.ready (.float 0), .replied (.failed .unspecified)] } } :
        Playback ScriptedHost).ticks ScriptedHost.host [.step, .step]
      decide (ts.map (·.ending ScriptedHost.host) = [.yielded, .completed] ∧
        ¬(asked ScriptedHost.host ts).Nodup))
    (by decide +kernel)
  exact ⟨q, hq, of_decide_eq_true heval⟩

/-! ### What a recorded reply answers -/

/-- Two ticks of a project begin alike: with the same memory and keyboard, without asking for the
time, and with the same values for the calls that were answered at once in the first. -/
structure Alike (h : Host σ) (t u : Playback σ) : Prop where
  memory : u.project.memory = t.project.memory
  keys : u.project.keys = t.project.keys
  timeless : ∀ e ∈ (t.poll h).trace h, e.op ≠ .system
  answers : ∀ o ∈ t.made h, o.reception.isImmediate = true →
    ∀ o' ∈ u.made h, o'.key = o.key → o'.value? = o.value?

/-- The call that suspends a tick is its last one. -/
theorem getLast?_of_suspendedBy {t : Playback σ} {o : Machine.Occurrence} {ticket : Nat}
    (hsus : t.suspendedBy h = some (o, ticket)) : (t.made h).getLast? = some o := by
  unfold suspendedBy suspender? at hsus
  split at hsus
  · rename_i o' hlast
    split at hsus
    · cases hsus
      exact hlast
    · cases hsus
  · cases hsus

/-- Ticks that begin alike do the same up to the call that suspended the first. -/
theorem call_of_alike {t u : Playback σ} (hdt : (t.poll h).project.Departing)
    (hdu : (u.poll h).project.Departing) (hbuild : (t.poll h).project.SameBuild (u.poll h).project)
    (halike : Alike h t u)
    (hstays : ∀ key v, (t.record h).lookup key = some v → (u.record h).lookup key = some v)
    {o o' : Machine.Occurrence} {ticket : Nat} (hsus : t.suspendedBy h = some (o, ticket))
    (ho' : o' ∈ u.made h) (hkey : o.key = o'.key) : o.call = o'.call := by
  obtain ⟨ho, hasked⟩ := mem_of_suspender? hsus
  have hmemory : (u.poll h).project.memory = (t.poll h).project.memory := by
    rw [(poll_keeps h u).2.1, (poll_keeps h t).2.1, halike.memory]
  have hkeys : (u.poll h).project.keys = (t.poll h).project.keys := by
    rw [(poll_keeps h u).2.2.1, (poll_keeps h t).2.2.1, halike.keys]
  -- the ticks cannot agree to the end, since the first was suspended
  rcases lockstep_walk (h := h) (g := h) hdt hdu hbuild hmemory hkeys halike.timeless with
    hagree | ⟨⟨hpart⟩⟩
  · have hvalue := hagree.valued o ho
    rw [Machine.Occurrence.value?, hasked] at hvalue
    cases hvalue
  · have hleft : hpart.left ∈ t.made h := hpart.left_mem
    have hright : hpart.right ∈ u.made h := hpart.right_mem
    -- the traces part where a call gets no value in the first tick, hence at its last call
    have hnone : hpart.left.value? = none := by
      cases hv : hpart.left.value? with
      | none => rfl
      | some v =>
        refine absurd ?_ (hpart.differ v hv)
        rcases reception_of_mem hdt hleft with ⟨v', hlookup, hrec⟩ | ⟨-, answer, hrec⟩
        · have hlookup' := hstays _ _ hlookup
          rw [hpart.key] at hlookup'
          rcases reception_of_mem hdu hright with ⟨v'', hlookup'', hrec'⟩ | ⟨hnone, -⟩
          · rw [hlookup'] at hlookup''
            cases hlookup''
            rw [← hv, Machine.Occurrence.value?, Machine.Occurrence.value?, hrec, hrec']
            rfl
          · rw [hlookup'] at hnone
            cases hnone
        · have himmediate : hpart.left.reception.isImmediate = true := by
            rw [hrec]
            cases answer with
            | pending ticket =>
              rw [Machine.Occurrence.value?, hrec] at hv
              cases hv
            | _ => rfl
          rw [halike.answers _ hleft himmediate _ hright hpart.key.symm, hv]
    have hlast : (t.made h).getLast? = some hpart.left := hpart.getLast?_left hnone
    rw [getLast?_of_suspendedBy hsus] at hlast
    obtain rfl : o = hpart.left := Option.some.inj hlast
    rw [hpart.call, eq_of_key hdu hright ho' (hpart.key.symm.trans hkey)]

/-- Calls under one key are calls of one instruction: of one operation, with arguments of the same
kinds. -/
theorem op_of_key {t u : Playback σ} (hdt : (t.poll h).project.Departing)
    (hdu : (u.poll h).project.Departing) (hbuild : (t.poll h).project.SameBuild (u.poll h).project)
    {o o' : Machine.Occurrence} (ho : o ∈ t.made h) (ho' : o' ∈ u.made h) (hkey : o.key = o'.key) :
    o.call.op = o'.call.op ∧ o.call.args.map Value.kind = o'.call.args.map Value.kind := by
  obtain ⟨op, hop, hcall, hkinds⟩ := (walk_runs (h := h) hdt).site (by simp [Machine.start]) o ho
  obtain ⟨op', hop', hcall', hkinds'⟩ :=
    (walk_runs (h := h) hdu).site (by simp [Machine.start]) o' ho'
  have htree : (u.poll h).project.setting.tree = (t.poll h).project.setting.tree := hbuild.tree
  rw [htree, ← hkey, hop] at hop'
  cases hop'
  have hsame : o.call.op = o'.call.op := Option.some.inj (hcall.symm.trans hcall')
  exact ⟨hsame, by rw [hkinds, hkinds', hsame]⟩

/-- **A reply that is used from the record answers the call that asked for it.** Whenever a tick
of a run gets a recorded value for a call, an earlier tick of the same series was suspended by
the call under the same key, that is by the same instruction reached for the same time; the
value is the reply to it, collected in between. Both calls are of one operation, with arguments
of the same kinds, and they are the same call if the two ticks began alike. -/
theorem reply_of_suspended_call {opts : ProjectOptions} {q : Project}
    (hq : Project.create opts = .ok q) (host : σ) (ms : List (Move σ))
    {before after : List (Playback σ)} {t : Playback σ}
    (hlog : ({ project := q, host } : Playback σ).ticks h ms = before ++ t :: after)
    {o : Machine.Occurrence} {v : Value} (ho : o ∈ t.made h) (hrec : o.reception = .recorded v) :
    ∃ earlier u u' later o' ticket reply, before ++ [t] = earlier ++ u :: u' :: later ∧
      (∀ w ∈ (u :: u' :: later).dropLast, w.ending h = .yielded) ∧
      u.suspendedBy h = some (o', ticket) ∧ o'.key = o.key ∧
      u'.project.pending = some ⟨o'.key, o'.call.op, ticket⟩ ∧ u'.reply? h = some reply ∧
      v = valueOf o'.call.op reply ∧ o'.call.op = o.call.op ∧
      o'.call.args.map Value.kind = o.call.args.map Value.kind ∧
      (Alike h u t → o'.call = o.call) := by
  have hs : ({ project := q, host } : Playback σ).project.Sound := Project.sound_create hq
  have hst := standing_create (h := h) hq
  obtain ⟨earlier, run, rfl, hseries, hyields, hfirst⟩ := exists_series hs hst hlog
  have hdt : (t.poll h).project.Departing := hseries.departing t (List.mem_append_right _ (by simp))
  -- 1. the value is on record when the tick begins
  have hlookup : (t.record h).lookup o.key = some v := by
    rcases reception_of_mem hdt ho with ⟨v', hlookup, hrec'⟩ | ⟨-, answer, hrec'⟩
    · rw [hrec] at hrec'
      cases hrec'
      exact hlookup
    · rw [hrec] at hrec'
      cases hrec'
  -- 2. the series began with nothing on record, so a tick of it was suspended by the call
  cases run with
  | nil =>
    rw [hfirst t rfl] at hlookup
    cases hlookup
  | cons first run =>
    have hnone : (first.record h).lookup o.key = none := by rw [hfirst first rfl]; rfl
    obtain ⟨pre, u, u', later, o', ticket, reply, hsplit, hmem, hsus, hkey, hpending, hreply, hv⟩ :=
      hseries.origin (List.mem_append_right _ (by simp)) hnone hlookup
    have hsplit' : first :: run ++ [t] = pre ++ u :: u' :: later := hsplit
    have hticks : ({ project := q, host } : Playback σ).ticks h ms =
        earlier ++ (pre ++ u :: u' :: later) ++ after := by
      rw [hlog, ← hsplit', List.append_assoc, List.append_assoc, List.append_assoc]
      rfl
    have hu : u ∈ pre ++ u :: u' :: later := List.mem_append_right _ (List.mem_cons_self ..)
    have hdu : (u.poll h).project.Departing := hseries.departing u (by rw [hsplit']; exact hu)
    have hmemu : u ∈ ({ project := q, host } : Playback σ).ticks h ms := by
      rw [hticks]
      exact List.mem_append_left _ (List.mem_append_right _ hu)
    have hmemt : t ∈ ({ project := q, host } : Playback σ).ticks h ms := by
      rw [hlog]
      exact List.mem_append_right _ (List.mem_cons_self ..)
    have hbuild := sameBuild_of_mem_ticks hs hst hmemu hmemt
    -- 3. from that tick on all ticks before this one yield
    have hyields' : ∀ w ∈ (u :: u' :: later).dropLast, w.ending h = .yielded := by
      have hdrop : first :: run = pre ++ (u :: u' :: later).dropLast := by
        rw [← List.dropLast_append_of_ne_nil (List.cons_ne_nil _ _), ← hsplit',
          List.dropLast_concat]
      intro w hw
      refine hyields w ?_
      rw [hdrop]
      exact List.mem_append_right _ hw
    obtain ⟨hop, hkinds⟩ := op_of_key hdu hdt hbuild (mem_of_suspender? hsus).1 ho hkey
    refine ⟨earlier ++ pre, u, u', later, o', ticket, reply, ?_, hyields', hsus, hkey, hpending,
      hreply, hv, hop, hkinds, fun halike => ?_⟩
    · rw [List.append_assoc, hsplit', List.append_assoc]
    · have hrest : Series h (u :: u' :: later) := by
        rw [hsplit'] at hseries
        exact hseries.suffix
      exact call_of_alike hdu hdt hbuild halike
        (fun key w hw => hrest.recorded_stays hw t hmem) hsus ho hkey

/-- A reply from the record is used for the question that it answers. -/
theorem reply_for_same_file :
    ∃ q u t o o' ticket,
      Project.create (.solo [] #[0x12, 0, 0, 0x86, 0x01] #["x"]) = .ok q ∧
      ({ project := q, host := { usual := .replied (.failed .unspecified) } } :
        Playback ScriptedHost).ticks ScriptedHost.host [.step, .step] = [u, t] ∧
      o ∈ t.made ScriptedHost.host ∧ o.reception.isAsked = false ∧
      u.suspendedBy ScriptedHost.host = some (o', ticket) ∧ o'.call = o.call := by
  obtain ⟨q, hq, heval⟩ := Project.exists_create
    (o := .solo [] #[0x12, 0, 0, 0x86, 0x01] #["x"])
    (P := fun q =>
      let ts := ({ project := q, host := { usual := .replied (.failed .unspecified) } } :
        Playback ScriptedHost).ticks ScriptedHost.host [.step, .step]
      decide (ts.length = 2 ∧ ∀ u ∈ ts.take 1, ∀ t ∈ ts.drop 1,
        t.project.memory = u.project.memory ∧ t.project.keys = u.project.keys ∧
        (∀ e ∈ (u.poll ScriptedHost.host).trace ScriptedHost.host, e.op ≠ .system) ∧
        (∀ o ∈ u.made ScriptedHost.host, o.reception.isImmediate = false) ∧
        ∃ o ∈ t.made ScriptedHost.host, o.reception = .recorded (.float 0)))
    (by decide +kernel)
  obtain ⟨htwo, heval⟩ := of_decide_eq_true heval
  obtain ⟨u, t, hlog⟩ := List.length_eq_two.mp htwo
  rw [hlog] at heval
  obtain ⟨hmemory, hkeys, htimeless, himmediate, o, ho, hrec⟩ :=
    heval u (List.mem_singleton.mpr rfl) t (List.mem_singleton.mpr rfl)
  have halike : Alike ScriptedHost.host u t := by
    refine ⟨hmemory, hkeys, htimeless, fun o ho hi => ?_⟩
    rw [himmediate o ho] at hi
    cases hi
  obtain ⟨earlier, u₁, u₂, later, o', ticket, reply, hsplit, -, hsus, -, -, -, -, -, -, hcall⟩ :=
    reply_of_suspended_call hq _ _ (show _ = [u] ++ t :: [] from hlog) ho hrec
  cases earlier with
  | nil =>
    cases hsplit
    exact ⟨q, u, t, o, o', ticket, hq, hlog, ho, by rw [hrec]; rfl, hsus, hcall halike⟩
  | cons _ earlier =>
    have hlength := congrArg List.length hsplit
    simp only [List.length_append, List.length_cons, List.length_nil] at hlength
    omega

/-- A question that was changed before the tick yielded is answered by the reply to the old one:
the first tick asks for the file `x`, the second gets the reply for the file `xx`. -/
theorem reply_for_other_argument :
    ∃ q u t o o' ticket,
      Project.create (.solo ["s"]
        #[0x20, 0, 0, 0x12, 0, 0, 0x58, 0x22, 0, 0, 0x20, 0, 0, 0x86, 0x01] #["x"]) = .ok q ∧
      ({ project := q, host := { usual := .replied (.failed .unspecified) } } :
        Playback ScriptedHost).ticks ScriptedHost.host [.step, .step] = [u, t] ∧
      o ∈ t.made ScriptedHost.host ∧ o.reception.isAsked = false ∧
      u.suspendedBy ScriptedHost.host = some (o', ticket) ∧ o'.key = o.key ∧
      o'.call.args = [.string "x"] ∧ o.call.args = [.string "xx"] := by
  obtain ⟨q, hq, heval⟩ := Project.exists_create
    (o := .solo ["s"]
      #[0x20, 0, 0, 0x12, 0, 0, 0x58, 0x22, 0, 0, 0x20, 0, 0, 0x86, 0x01] #["x"])
    (P := fun q =>
      let ts := ({ project := q, host := { usual := .replied (.failed .unspecified) } } :
        Playback ScriptedHost).ticks ScriptedHost.host [.step, .step]
      decide (ts.length = 2 ∧ ∀ u ∈ ts.take 1, ∀ t ∈ ts.drop 1,
        ∃ o ∈ t.made ScriptedHost.host, ∃ x ∈ (u.suspendedBy ScriptedHost.host).toList,
          o.reception.isAsked = false ∧ x.1.key = o.key ∧
          x.1.call.args = [.string "x"] ∧ o.call.args = [.string "xx"]))
    (by decide +kernel)
  obtain ⟨htwo, heval⟩ := of_decide_eq_true heval
  obtain ⟨u, t, hlog⟩ := List.length_eq_two.mp htwo
  rw [hlog] at heval
  obtain ⟨o, ho, ⟨o', ticket⟩, hsus, hrec, hkey, hargs', hargs⟩ :=
    heval u (List.mem_singleton.mpr rfl) t (List.mem_singleton.mpr rfl)
  exact ⟨q, u, t, o, o', ticket, hq, hlog, ho, hrec, Option.mem_toList.mp hsus, hkey, hargs', hargs⟩

end Playback

end SchemePlayer
