import SchemePlayer.Proofs.Project.Safety
import SchemePlayer.Proofs.Project.Series

/-!
# The kinds of answers

Every operation of the host has a result of one kind, and code relies on it: instructions behind a
call take the result from the stack as what it is declared to be. Hosts are not bound to that. A
value comes to the stack from an answer at once, in place of a failure, or from a reply that was
collected ticks ago under the key of the call, and what is checked is checked at different times.

- `Tree.Calls`: the instruction at a place calls for an operation.
- `Project.Typed`: everything that is kept for later ticks has the kind of the operation at its
  place; `typed_performs`: **this holds after any moves.**
- `suspended_of_recorded`: what is on record was a reply to a call that suspended an earlier tick.
- `Gave`: what the host has said to a call, at once or by a reply.
- `answer_kinds`: **a call that gets a value gets one of its declared kind.**
-/

namespace SchemePlayer

/-- The instruction at a place calls the host for an operation. -/
def Tree.Calls (t : Tree) (site : CallSite) (op : HyperOp) : Prop :=
  ∃ code, Machine.opcodeAt? t site = some code ∧ code.hyperOp? = some op

/-- An instruction calls for one operation. -/
theorem Tree.Calls.unique {t : Tree} {site : CallSite} {op op' : HyperOp} (h : t.Calls site op)
    (h' : t.Calls site op') : op = op' := by
  obtain ⟨code, hcode, hop⟩ := h
  obtain ⟨code', hcode', hop'⟩ := h'
  cases hcode.symm.trans hcode'
  exact Option.some.inj (hop.symm.trans hop')

theorem Machine.kind_accept (op : HyperOp) (v : Value) : (accept op v).kind = op.result := by
  unfold accept
  split
  · assumption
  · exact Value.kind_zero op.result

/-! ### What is kept for later ticks -/

/-- What a project has in store is of the right kinds: the call whose reply is awaited is one of the
instruction at its place, and every reply on record has the kind of the operation at its place. -/
structure Project.Typed (q : Project) : Prop where
  pending : ∀ call, q.pending = some call → q.tree.Calls call.key.site call.op
  delivered : ∀ key v, (key, v) ∈ q.delivered → ∃ op, q.tree.Calls key.site op ∧ v.kind = op.result

/-- While no reply is awaited, only what is on record matters. -/
theorem Project.Typed.of_record {q : Project} (hpending : q.pending = none)
    (hrecord : ∀ key v, (key, v) ∈ q.delivered →
      ∃ op, q.tree.Calls key.site op ∧ v.kind = op.result) : q.Typed where
  pending call hcall := by
    rw [hpending] at hcall
    cases hcall
  delivered := hrecord

namespace Playback

variable {σ : Type} {h : Host σ} {p : Playback σ}

theorem kind_valueOf (op : HyperOp) (reply : Reply) : (valueOf op reply).kind = op.result := by
  cases reply with
  | value v => exact Machine.kind_accept op v
  | failed cause => exact Value.kind_zero op.result

theorem typed_create {o : ProjectOptions} {q : Project} (hq : Project.create o = .ok q) :
    q.Typed := by
  unfold Project.create at hq
  split at hq
  · cases hq
  · cases hq
    exact .of_record rfl fun _ _ hmem => absurd hmem List.not_mem_nil

theorem typed_fail (ht : p.project.Typed) (cause : Failure) : (p.fail cause).project.Typed := by
  rw [project_fail]
  exact ⟨ht.pending, ht.delivered⟩

theorem typed_shut : p.shut.project.Typed := by
  rw [project_shut]
  exact .of_record rfl fun _ _ hmem => absurd hmem List.not_mem_nil

/-- A reply is recorded as a value of the kind of the call that asked for it. -/
theorem typed_poll (ht : p.project.Typed) : (p.poll h).project.Typed := by
  rcases poll_cases h p with ⟨-, heq⟩ | ⟨_, -, -, heq⟩ | ⟨call, reply, hcall, -, -, heq⟩ |
    ⟨call, reply, cause, -, -, -, heq⟩
  · rw [heq]
    exact ht
  · rw [heq]
    exact ⟨ht.pending, ht.delivered⟩
  · rw [heq]
    refine .of_record rfl ?_
    intro key v hmem
    rcases List.mem_append.mp hmem with hmem | hmem
    · exact ht.delivered key v hmem
    · cases List.mem_singleton.mp hmem
      exact ⟨call.op, ht.pending call hcall, kind_valueOf call.op reply⟩
  · rw [heq]
    exact typed_fail (p := p.relieved h call) (.of_record rfl ht.delivered) _

/-- The calls of a tick are calls of the instructions at their places. -/
theorem calls_of_mem_calls (hd : p.project.Departing) {o : Machine.Occurrence}
    (ho : o ∈ p.calls h) : p.project.tree.Calls o.key.site o.call.op := by
  obtain ⟨code, hcode, hop, -⟩ := (walk_runs hd).site (by simp [Machine.start]) o ho
  exact ⟨code, hcode, hop⟩

/-- So is the call that suspends a tick. -/
theorem calls_of_walk (hd : p.project.Departing) (call : PendingCall)
    (hcall : (p.walk h).1.pending = some call) : p.project.tree.Calls call.key.site call.op := by
  rcases walk_outcome (h := h) hd with ⟨-, o, ticket, hsuspender, hpending, -⟩ | ⟨-, -, hnone, -⟩
  · cases hpending.symm.trans hcall
    have hcalls := calls_of_mem_calls hd (mem_of_suspender? hsuspender).1
    exact hcalls
  · cases hnone.symm.trans hcall

theorem typed_tick (hs : p.project.Sound) (hlive : p.project.lifecycle.isTerminal = false)
    (ht : p.project.Typed) : (p.tick h).project.Typed := by
  have hpolled : (p.poll h).project.Typed := typed_poll ht
  have hout := tick_outcome (h := h) hs hlive
  generalize p.tick h = p' at hout ⊢
  cases hout with
  | waits host _ => exact ⟨ht.pending, ht.delivered⟩
  | refuses call cause _ _ =>
    exact typed_fail (p := p.relieved h call) (.of_record rfl ht.delivered) cause
  | fails cause htakes _ =>
    refine typed_fail ?_ cause
    exact ⟨calls_of_walk (departing_of_takesOff hs htakes), hpolled.delivered⟩
  | lands memory yielded htakes _ _ =>
    split
    · exact typed_shut
    · refine ⟨calls_of_walk (departing_of_takesOff hs htakes), ?_⟩
      intro key v hmem
      cases yielded with
      | true => exact hpolled.delivered key v hmem
      | false => cases hmem

theorem typed_deliverAll (hs : p.project.Sound) (ht : p.project.Typed) :
    (p.deliverAll h).project.Typed := by
  cases hended : p.project.lifecycle.isTerminal with
  | false =>
    rw [deliverAll_of_live hs hended]
    exact ht
  | true =>
    let kept (p' : Playback σ) : Prop :=
      p'.project.lifecycle.isTerminal = true ∧ p'.project.Typed
    have hkept : kept (p.deliverAll h) := by
      refine deliver_induct (P := kept) (fun _ hk => hk.1) (fun _ _ _ hk => hk) ?_ ?_
        (fun _ hk => hk) ?_ 3 ⟨hended, ht⟩
      · rintro p' ⟨hended', ht'⟩
        exact ⟨hended', ht'.pending, ht'.delivered⟩
      · rintro p' id ⟨hended', ht'⟩
        exact ⟨hended', ht'.pending, ht'.delivered⟩
      · rintro p' -
        exact ⟨rfl, typed_shut⟩
    exact hkept.2

/-- **A move keeps what is in store of the right kinds.** -/
theorem typed_perform (hs : p.project.Sound) (ht : p.project.Typed) (m : Move σ) :
    (p.perform h m).project.Typed := by
  cases hm : m.asksTick p.project with
  | true =>
    rw [perform_of_asksTick hm]
    exact typed_deliverAll (sound_tick hs) (typed_tick hs (live_of_asksTick hm) ht)
  | false =>
    have haside := aside_perform (h := h) hm
    generalize p.perform h m = p' at haside ⊢
    cases haside with
    | ends _ => exact typed_deliverAll (sound_shut hs.inBounds) typed_shut
    | _ => exact ⟨ht.pending, ht.delivered⟩

/-- **After any moves, what is in store is of the right kinds.** -/
theorem typed_performs (hs : p.project.Sound) (ht : p.project.Typed) (ms : List (Move σ)) :
    (p.performs h ms).project.Typed := by
  induction ms generalizing p with
  | nil => exact ht
  | cons m ms ih => exact ih (sound_perform hs m) (typed_perform hs ht m)

/-- The same when a tick begins. -/
theorem typed_of_mem_ticks (hs : p.project.Sound) (ht : p.project.Typed) {ms : List (Move σ)}
    {t : Playback σ} (hmem : t ∈ p.ticks h ms) : t.project.Typed := by
  induction ms generalizing p with
  | nil => cases hmem
  | cons m ms ih =>
    rw [ticks] at hmem
    rcases List.mem_append.mp hmem with hnow | hlater
    · split at hnow
      · cases List.mem_singleton.mp hnow
        exact ht
      · cases hnow
    · exact ih (sound_perform hs m) (typed_perform hs ht m) hlater

/-! ### What the host has said -/

/-- What a reply says: a value, or nothing but that the call has failed. -/
def said? : Reply → Option Value
  | .value v => some v
  | .failed _ => none

/-- The value that code gets for what was said: this very value if it is of the kind of the result,
and otherwise the zero of that kind. -/
def settled (op : HyperOp) (said : Option Value) : Value :=
  (said.filter fun v => v.kind = op.result).getD (Value.zero op.result)

theorem accept_eq_settled (op : HyperOp) (v : Value) :
    Machine.accept op v = settled op (some v) := by
  unfold Machine.accept settled
  by_cases hkind : v.kind = op.result
  · simp [hkind, Option.filter]
  · simp [hkind, Option.filter]

theorem valueOf_eq_settled (op : HyperOp) (reply : Reply) :
    valueOf op reply = settled op (said? reply) := by
  cases reply with
  | value v => exact accept_eq_settled op v
  | failed cause => rfl

theorem kind_settled (op : HyperOp) (said : Option Value) : (settled op said).kind = op.result := by
  unfold settled
  cases hsaid : said.filter fun v => v.kind = op.result with
  | none => exact Value.kind_zero op.result
  | some v => exact of_decide_eq_true (Option.filter_eq_some_iff.mp hsaid).2

/-- **What is on record was a reply** to a call under the same key, which suspended an earlier tick;
all ticks since then have yielded. -/
theorem suspended_of_recorded (hs : p.project.Sound) (hst : Standing h none p.project)
    {ms : List (Move σ)} {before after : List (Playback σ)} {t : Playback σ}
    (hlog : p.ticks h ms = before ++ t :: after) {key : CallKey} {v : Value}
    (hkey : (t.record h).lookup key = some v) :
    ∃ earlier w w' later o ticket reply, before ++ [t] = earlier ++ w :: w' :: later ∧
      (∀ u ∈ (w :: w' :: later).dropLast, u.ending h = .yielded) ∧
      w.suspendedBy h = some (o, ticket) ∧ o.key = key ∧
      w'.project.pending = some ⟨o.key, o.call.op, ticket⟩ ∧ w'.reply? h = some reply ∧
      v = valueOf o.call.op reply := by
  obtain ⟨earlier, run, rfl, hseries, hyields, hfirst⟩ := exists_series hs hst hlog
  cases run with
  | nil =>
    rw [hfirst t rfl] at hkey
    cases hkey
  | cons first run =>
    -- the series began with nothing on record
    have hnone : (first.record h).lookup key = none := by
      rw [hfirst first rfl]
      rfl
    obtain ⟨middle, w, w', later, o, ticket, reply, hsplit, -, hsuspended, hsame, hpending, hreply,
      hv⟩ := hseries.origin (List.mem_append_right _ (by simp)) hnone hkey
    have hwhole : first :: run ++ [t] = middle ++ w :: w' :: later := hsplit
    refine ⟨earlier ++ middle, w, w', later, o, ticket, reply, ?_, ?_, hsuspended, hsame, hpending,
      hreply, hv⟩
    · rw [List.append_assoc, hwhole, List.append_assoc]
    · intro u hu
      refine hyields u ?_
      have hmost : first :: run = middle ++ (w :: w' :: later).dropLast := by
        rw [← List.dropLast_append_of_ne_nil (List.cons_ne_nil _ _), ← hwhole, List.dropLast_concat]
      rw [hmost]
      exact List.mem_append_right _ hu

/-- `Gave h before t m f call said`: to the call that the execution `f` makes at the moment `m` of
the tick `t`, the host has said `said`. It has done so at once, or it had promised a reply when the
same call suspended an earlier one of the ticks `before`, after which all ticks have yielded. -/
inductive Gave (h : Host σ) (before : List (Playback σ)) (t : Playback σ) (m : Machine σ)
    (f : Frame) (call : HyperCall) : Option Value → Prop where
  | answered {v : Value}
      (hasked : m.reception h (t.poll h).project.setting f call = .asked (.ready v)) :
      Gave h before t m f call (some v)
  | refused {cause : HostError}
      (hasked : m.reception h (t.poll h).project.setting f call = .asked (.failed cause)) :
      Gave h before t m f call none
  | replied {v : Value} {earlier : List (Playback σ)} {w w' : Playback σ}
      {later : List (Playback σ)} {o : Machine.Occurrence} {ticket : Nat} {reply : Reply}
      (hrecorded : m.reception h (t.poll h).project.setting f call = .recorded v)
      (hticks : before ++ [t] = earlier ++ w :: w' :: later)
      (hyields : ∀ u ∈ (w :: w' :: later).dropLast, u.ending h = .yielded)
      (hsuspended : w.suspendedBy h = some (o, ticket)) (hkey : o.key = m.keyOf f)
      (hop : o.call.op = call.op)
      (hpending : w'.project.pending = some ⟨o.key, o.call.op, ticket⟩)
      (hreply : w'.reply? h = some reply) : Gave h before t m f call (said? reply)

/-- An instruction that calls the host and after which the tick goes on has made its call and got a
value for it. -/
theorem value_of_hyperOp {s : Setting} {m m' : Machine σ} {f : Frame} {outer : List Frame}
    {i : Instruction} {op : HyperOp} (hnext : m.next? = some (f, outer, i))
    (hop : i.op.hyperOp? = some op) (hstep : m.step h s = (m', none)) :
    ∃ call stack v, call.op = op ∧ i.effect (m.scenery s f) f.stack = .ok (.ask call stack) ∧
      m.request? s =
        some ⟨f, call, fun v => { f with pc := f.pc + i.size, stack := v :: stack } :: outer⟩ ∧
      (m.reception h s f call).value? op = some v ∧
      m'.frames = { f with pc := f.pc + i.size, stack := v :: stack } :: outer := by
  have hresult := Machine.step_of_next (h := h) (s := s) hnext
  cases heffect : i.effect (m.scenery s f) f.stack with
  | error fault =>
    rw [heffect, hstep] at hresult
    cases hresult
  | ok e =>
    have hcall := Instruction.call?_effect heffect
    rw [hop] at hcall
    cases e with
    | ask call stack =>
      obtain rfl : call.op = op := Option.some.inj hcall
      have hrequest : m.request? s =
          some ⟨f, call,
            fun v => { f with pc := f.pc + i.size, stack := v :: stack } :: outer⟩ := by
        simp only [Machine.request?, hnext, Machine.requestOf, heffect]
      cases hv : (m.reception h s f call).value? call.op with
      | some v =>
        have hgoes := Machine.step_of_value hrequest hv
        rw [hstep] at hgoes
        cases hgoes
        exact ⟨call, stack, v, rfl, rfl, hrequest, hv, rfl⟩
      | none =>
        -- without a value, the tick would be over
        rcases Machine.step_of_no_value hrequest hv with ⟨-, hends⟩ | ⟨_, -, hends⟩ |
          ⟨_, -, -, hends⟩
        · cases hstep.symm.trans hends
        · cases hstep.symm.trans hends
        · cases hstep.symm.trans hends
    | _ => cases hcall

/-- A call that is answered from the record gets what is on record under its key. -/
theorem lookup_of_recorded {s : Setting} {m : Machine σ} {f : Frame} {call : HyperCall} {v : Value}
    (hreception : m.reception h s f call = .recorded v) :
    s.delivered.lookup (m.keyOf f) = some v := by
  unfold Machine.reception at hreception
  split at hreception
  · rename_i hfound
    cases hreception
    exact hfound
  · split at hreception <;> cases hreception

section Run

variable {o : ProjectOptions} {q : Project} {host : σ} {ms : List (Move σ)}
  {before after : List (Playback σ)} {t : Playback σ} {m : Machine σ} {r : Machine.Request}

/-- A call in a tick is one of the instruction at its place. -/
theorem calls_of_request (hq : Project.create o = .ok q)
    (ht : t ∈ ({ project := q, host } : Playback σ).ticks h ms) (hmoment : t.Moment h m)
    (hrequest : m.request? (t.poll h).project.setting = some r) :
    (t.poll h).project.tree.Calls ⟨r.frame.id, r.frame.pc⟩ r.call.op := by
  have hknown : ∀ g ∈ m.frames, g.Known (t.poll h).project.setting :=
    fun g hg => known_of_moment hq ht hmoment hg
  obtain ⟨code, hcode, hcall, -⟩ := Machine.opcodeAt?_of_request hknown hrequest
  exact ⟨code, hcode, hcall⟩

/-- A value on record has been said in reply to a call of the same operation. -/
theorem gave_of_recorded (hq : Project.create o = .ok q)
    (hlog : ({ project := q, host } : Playback σ).ticks h ms = before ++ t :: after)
    (hmoment : t.Moment h m) (hrequest : m.request? (t.poll h).project.setting = some r) {v : Value}
    (hreception : m.reception h (t.poll h).project.setting r.frame r.call = .recorded v) :
    ∃ said, Gave h before t m r.frame r.call said ∧ v = settled r.call.op said := by
  have hs : ({ project := q, host } : Playback σ).project.Sound := Project.sound_create hq
  have hst := standing_create (h := h) hq
  have ht : t ∈ ({ project := q, host } : Playback σ).ticks h ms := by
    rw [hlog]
    exact List.mem_append_right _ (List.mem_cons_self ..)
  obtain ⟨earlier, w, w', later, occurrence, ticket, reply, hticks, hyields, hsuspended, hsame,
    hpending, hreply, hvalue⟩ := suspended_of_recorded hs hst hlog (lookup_of_recorded hreception)
  have hsplit : ({ project := q, host } : Playback σ).ticks h ms =
      earlier ++ w :: (w' :: later ++ after) := by
    have hmore := congrArg (· ++ after) hticks
    simp only [List.append_assoc, List.cons_append, List.nil_append] at hmore
    rw [hlog, hmore]
    rfl
  -- both calls are of the instruction at the one place
  have hop : occurrence.call.op = r.call.op := by
    obtain ⟨hbegins, hearlier⟩ := begins_of_ticks hs hst hsplit
    obtain ⟨-, hnow⟩ := begins_of_ticks hs hst hlog
    have hd := departing_of_takesOff hbegins.sound hbegins.takesOff
    have hcalled := calls_of_mem_calls hd (mem_of_suspender? hsuspended).1
    have hcalls := calls_of_request hq ht hmoment hrequest
    rw [(hearlier.trans (poll_keeps h w).1).tree, hsame] at hcalled
    rw [(hnow.trans (poll_keeps h t).1).tree] at hcalls
    exact hcalled.unique hcalls
  refine ⟨said? reply,
    .replied hreception hticks hyields hsuspended hsame hop hpending hreply, ?_⟩
  rw [hvalue, valueOf_eq_settled, hop]

/-- **A value comes in one of three ways**: at once, in place of a failure, or from the record. -/
theorem gave_of_value (hq : Project.create o = .ok q)
    (hlog : ({ project := q, host } : Playback σ).ticks h ms = before ++ t :: after)
    (hmoment : t.Moment h m) (hrequest : m.request? (t.poll h).project.setting = some r) {v : Value}
    (hv : (m.reception h (t.poll h).project.setting r.frame r.call).value? r.call.op = some v) :
    ∃ said, Gave h before t m r.frame r.call said ∧ v = settled r.call.op said := by
  cases hreception : m.reception h (t.poll h).project.setting r.frame r.call with
  | held =>
    rw [hreception] at hv
    cases hv
  | asked answer =>
    rw [hreception] at hv
    cases answer with
    | pending ticket => cases hv
    | ready u =>
      cases hv
      exact ⟨some u, .answered hreception, accept_eq_settled r.call.op u⟩
    | failed cause =>
      dsimp only [Machine.Reception.value?] at hv
      split at hv
      · cases hv
      · cases hv
        exact ⟨none, .refused hreception, rfl⟩
  | recorded u =>
    rw [hreception] at hv
    cases hv
    exact gave_of_recorded hq hlog hmoment hrequest hreception

end Run

/-- **A call that gets a value gets one of its declared kind.** Whatever the host does, everything
that is ever on record has the kind of the operation at its place. Whenever an instruction calls the
host and the tick goes on, a value of the kind of its result is on the stack: the one that the host
has given to this very call, now or by a reply to it, if that is of the right kind, and otherwise
the zero of that kind. -/
theorem answer_kinds {o : ProjectOptions} {q : Project} (hq : Project.create o = .ok q) (host : σ)
    (ms : List (Move σ)) :
    let start : Playback σ := { project := q, host }
    (∀ key v, (key, v) ∈ (start.performs h ms).project.delivered →
      ∃ op, q.tree.Calls key.site op ∧ v.kind = op.result) ∧
    ∀ before t after, start.ticks h ms = before ++ t :: after →
      (∀ key v, (key, v) ∈ t.record h → ∃ op, q.tree.Calls key.site op ∧ v.kind = op.result) ∧
      ∀ m m' f outer i op, t.Moment h m → m.next? = some (f, outer, i) →
        i.op.hyperOp? = some op → m.step h (t.poll h).project.setting = (m', none) →
        ∃ call stack v said, call.op = op ∧
          i.effect (m.scenery (t.poll h).project.setting f) f.stack = .ok (.ask call stack) ∧
          m'.frames = { f with pc := f.pc + i.size, stack := v :: stack } :: outer ∧
          v.kind = op.result ∧ Gave h before t m f call said ∧ v = settled op said := by
  intro start
  have hs : start.project.Sound := Project.sound_create hq
  have hst := standing_create (h := h) hq
  have htyped : start.project.Typed := typed_create hq
  constructor
  · intro key v hmem
    have htree : (start.performs h ms).project.tree = q.tree := (sameBuild_performs hs ms).tree
    obtain ⟨op, hcalls, hkind⟩ := (typed_performs (h := h) hs htyped ms).delivered key v hmem
    rw [htree] at hcalls
    exact ⟨op, hcalls, hkind⟩
  · intro before t after hlog
    have ht : t ∈ start.ticks h ms := by
      rw [hlog]
      exact List.mem_append_right _ (List.mem_cons_self ..)
    obtain ⟨-, hbuild⟩ := begins_of_ticks hs hst hlog
    have htree : (t.poll h).project.tree = q.tree := (hbuild.trans (poll_keeps h t).1).tree
    have hrecord : ∀ key v, (key, v) ∈ t.record h →
        ∃ op, q.tree.Calls key.site op ∧ v.kind = op.result := by
      intro key v hmem
      obtain ⟨op, hcalls, hkind⟩ :=
        (typed_poll (h := h) (typed_of_mem_ticks hs htyped ht)).delivered key v hmem
      rw [htree] at hcalls
      exact ⟨op, hcalls, hkind⟩
    refine ⟨hrecord, fun m m' f outer i op hmoment hnext hop hstep => ?_⟩
    obtain ⟨call, stack, v, rfl, heffect, hrequest, hv, hframes⟩ :=
      value_of_hyperOp hnext hop hstep
    obtain ⟨said, hgave, hvalue⟩ := gave_of_value hq hlog hmoment hrequest hv
    refine ⟨call, stack, v, said, rfl, heffect, hframes, ?_, hgave, hvalue⟩
    rw [hvalue]
    exact kind_settled call.op said

/-- The reply to a question whether a file exists is a text. The tick that asks yields, and in the
tick after it the question gets the number zero. -/
theorem answer_kinds_fileExist :
    ∃ q, Project.create (.solo [] #[0x12, 0, 0, 0x86, 0x01] #["x"]) = .ok q ∧
      let start : Playback ScriptedHost :=
        { project := q, host := { usual := .replied (.value (.string "no")) } }
      let t := start.perform ScriptedHost.host .step
      start.ticks ScriptedHost.host [.step, .step] = [start, t] ∧
        ∃ m m' f outer i call said, t.Moment ScriptedHost.host m ∧ m.next? = some (f, outer, i) ∧
          i.op.hyperOp? = some .fileExist ∧
          m.step ScriptedHost.host (t.poll ScriptedHost.host).project.setting = (m', none) ∧
          m'.frames.map Frame.stack = [[.float 0]] ∧
          Gave ScriptedHost.host [start] t m f call said ∧ settled .fileExist said = .float 0 := by
  obtain ⟨q, hq, heval⟩ := Project.exists_create
    (o := .solo [] #[0x12, 0, 0, 0x86, 0x01] #["x"])
    (P := fun q =>
      let start : Playback ScriptedHost :=
        { project := q, host := { usual := .replied (.value (.string "no")) } }
      let t := start.perform ScriptedHost.host .step
      let p := t.poll ScriptedHost.host
      let next (m : Machine ScriptedHost) := m.step ScriptedHost.host p.project.setting
      let m := Machine.start p.project.memory p.host p.project.pending p.project.waiting
      decide (start.ticksOn ScriptedHost.host .step = true ∧
        t.ticksOn ScriptedHost.host .step = true ∧ (next m).2 = none ∧ (next (next m).1).2 = none ∧
        (next (next (next m).1).1).2 = none ∧ (next (next (next (next m).1).1).1).2 = none ∧
        (next (next (next (next m).1).1).1).1.frames.map Frame.stack = [[.float 0]]) &&
      (next (next (next m).1).1).1.next?.any fun x : Frame × List Frame × Instruction =>
        decide (x.2.2.op.hyperOp? = some .fileExist))
    (by decide +kernel)
  obtain ⟨hruns, hcalls⟩ := Bool.and_eq_true_iff.mp heval
  obtain ⟨hfirst, hsecond, hstep₁, hstep₂, hstep₃, hstep₄, hstack⟩ := of_decide_eq_true hruns
  obtain ⟨⟨f, outer, i⟩, hnext, hop⟩ := (Option.any_eq_true ..).mp hcalls
  let start : Playback ScriptedHost :=
    { project := q, host := { usual := .replied (.value (.string "no")) } }
  let t := start.perform ScriptedHost.host .step
  have hlog : start.ticks ScriptedHost.host [.step, .step] = [start] ++ t :: [] := by
    rw [ticks, if_pos hfirst, ticks, if_pos hsecond, ticks]
    rfl
  have hmoment := Machine.Reaches.refl (h := ScriptedHost.host)
    (s := (t.poll ScriptedHost.host).project.setting)
    (m := Machine.start (t.poll ScriptedHost.host).project.memory (t.poll ScriptedHost.host).host
      (t.poll ScriptedHost.host).project.pending (t.poll ScriptedHost.host).project.waiting)
    |>.step (Prod.ext rfl hstep₁) |>.step (Prod.ext rfl hstep₂) |>.step (Prod.ext rfl hstep₃)
  obtain ⟨-, hanswers⟩ := (answer_kinds hq _ [.step, .step]).2 [start] t [] hlog
  obtain ⟨call, stack, v, said, -, -, hframes, -, hgave, hvalue⟩ :=
    hanswers _ _ f outer i .fileExist hmoment hnext (of_decide_eq_true hop)
      (Prod.ext rfl hstep₄)
  refine ⟨q, hq, hlog, _, _, f, outer, i, call, said, hmoment, hnext, of_decide_eq_true hop,
    Prod.ext rfl hstep₄, hstack, hgave, ?_⟩
  have hstacks := (congrArg (List.map Frame.stack) hframes).symm.trans hstack
  rw [← hvalue]
  exact (List.cons.inj (List.cons.inj hstacks).1).1

end Playback

end SchemePlayer
