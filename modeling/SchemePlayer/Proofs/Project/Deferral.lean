import SchemePlayer.Proofs.Project.Series

/-!
# Replies at once and replies later

A host may answer calls at once or later. The two hosts of this comparison are given the same
replies, by the number of the call: `Host.prompt` answers at once, `Host.deferring` promises a
reply to every call and sends the replies whenever it likes.

The tick with replies at once is the uninterrupted one. What it does is a script for the ticks
with replies later: they have the first calls of the script on record, and follow it in lockstep
up to the first call that is not.

- `Plain`: what must hold of the uninterrupted tick; `script` are its calls.
- `Foretold`: a departing project with the first `n` calls of the script on record.
- `Foretold.suspended`: its tick is suspended by the next call of the script.
- `Foretold.ended`: its tick ends as the uninterrupted one, if the whole script is on record.
-/

namespace SchemePlayer

/-! ### Two hosts -/

/-- A reply as an answer that is given at once. -/
def Reply.answer : Reply → Answer
  | .value v => .ready v
  | .failed cause => .failed cause

/-- The state of a host that sends its replies later: the calls made to it, and how many replies
were sent. -/
structure Mailbox where
  calls : List HyperCall := []
  sent : Nat := 0

/-- One more reply is sent. -/
def Mailbox.send (x : Mailbox) : Mailbox := { x with sent := x.sent + 1 }

/-- A host that promises a reply to every call; to the call number `i` it sends `r i`. -/
def Host.deferring (r : Nat → Reply) : Host Mailbox where
  call x _ call := (.pending x.calls.length, { x with calls := x.calls ++ [call] })
  collect x ticket := (if ticket < x.sent then some (r ticket) else none, x)
  attach x _ _ := (.ok (), x)
  release x _ := x

/-- A host that answers the call number `i` at once with `r i`. -/
def Host.prompt (r : Nat → Reply) : Host (List HyperCall) where
  call calls _ call := ((r calls.length).answer, calls ++ [call])
  collect calls _ := (none, calls)
  attach calls _ _ := (.ok (), calls)
  release calls _ := calls

namespace Machine

/-- A reply that may be awaited gives the same value when it comes at once. -/
theorem value?_answer {reply : Reply} (hfatal : Playback.fatal? reply = none) (op : HyperOp) :
    (Reception.asked reply.answer).value? op = some (Playback.valueOf op reply) := by
  cases reply with
  | value v => rfl
  | failed cause =>
    simp only [Playback.fatal?] at hfatal
    split at hfatal
    · cases hfatal
    · rename_i hnot
      simp only [Reply.answer, Reception.value?, hnot, Playback.valueOf, if_false,
        Bool.false_eq_true]

/-- The calls that were put to the host. -/
def askedCalls (os : List Occurrence) : List HyperCall :=
  (os.filter fun o => o.reception.isAsked).map (·.call)

section Runs

variable {σ : Type} {h : Host σ} {s : Setting} {budget : Nat} {m last : Machine σ}
  {es : List Entry} {how : TickEnd}

/-- A host that lists the calls made to it has a tick's calls in its list, those that were put
to it. -/
theorem Runs.ledger (ledger : σ → List HyperCall)
    (hledger : ∀ x caller call, ledger (h.call x caller call).2 = ledger x ++ [call])
    (hrun : Runs h s budget m es last how) :
    ledger last.host = ledger m.host ++ askedCalls (occurrences es) := by
  -- a call adds itself to the list if the host is asked, and nothing otherwise
  have hcall : ∀ (m : Machine σ) (r : Request),
      ledger (m.hostAfter h s r.frame r.call) = ledger m.host ++
        askedCalls [⟨m.keyOf r.frame, r.call, m.reception h s r.frame r.call⟩] := by
    intro m r
    unfold hostAfter askedCalls
    cases hasked : (m.reception h s r.frame r.call).isAsked with
    | true =>
      simp only [if_true, hledger, List.filter_cons, hasked]
      rfl
    | false => simp [hasked]
  induction hrun with
  | exhausted m => exact (List.append_nil _).symm
  | quiet hr hstep _ ih =>
    have hquiet := quiet_of_step hr hstep
    rw [ih, hquiet.host, occurrences_cons, occurrence?_of_not_request hr]
    rfl
  | ended hr hstep =>
    have hquiet := quiet_of_step hr hstep
    rw [hquiet.host, occurrences_executed?, occurrence?_of_not_request hr]
    exact (List.append_nil _).symm
  | @answered _ m r _ es _ _ hr _ _ ih =>
    rw [ih, occurrences_cons, occurrence?_of_request hr]
    show ledger (m.hostAfter h s r.frame r.call) ++ _ = _
    rw [hcall, List.append_assoc]
    congr 1
    unfold askedCalls
    rw [← List.map_append, ← List.filter_append]
    rfl
  | @stopped _ m r _ _ hr hv hstep =>
    rw [(last_of_stopped hr hv hstep).2.2, occurrences_executed?, occurrence?_of_request hr]
    exact hcall m r

end Runs

/-- Every call of a tick whose replies come at once gets the reply of its number. -/
theorem reception_prompt {r : Nat → Reply} {s : Setting} {budget : Nat}
    {m last : Machine (List HyperCall)} {es : List Entry} {how : TickEnd}
    (hrun : Runs (Host.prompt r) s budget m es last how) (hp : m.pending = none)
    (hs : s.delivered = []) :
    ∀ (i : Nat) (o : Occurrence), (occurrences es)[i]? = some o →
      o.reception = .asked (r (m.host.length + i)).answer := by
  have hcall : ∀ (m : Machine (List HyperCall)) (q : Request), m.pending = none →
      m.reception (Host.prompt r) s q.frame q.call = .asked (r m.host.length).answer := by
    intro m q hp
    simp only [reception, hs, List.lookup_nil, hp, Option.isSome_none, Bool.false_eq_true,
      if_false]
    rfl
  induction hrun with
  | exhausted m =>
    intro i o ho
    cases ho
  | quiet hr hstep _ ih =>
    have hquiet := quiet_of_step hr hstep
    rw [occurrences_cons, occurrence?_of_not_request hr, ← hquiet.host]
    exact ih (hquiet.pending.trans hp)
  | ended hr hstep =>
    rw [occurrences_executed?, occurrence?_of_not_request hr]
    intro i o ho
    cases ho
  | @answered _ m q _ _ _ _ hr _ _ ih =>
    rw [occurrences_cons, occurrence?_of_request hr]
    intro i o ho
    cases i with
    | zero =>
      obtain rfl := Option.some.inj ho
      exact hcall m q hp
    | succ i =>
      -- the first call is on the host's list by then, so the numbers go up by one
      have hhost : (m.hostAfter (Host.prompt r) s q.frame q.call).length = m.host.length + 1 := by
        rw [hostAfter, hcall m q hp]
        exact List.length_append
      have hrest := ih hp i o ho
      rw [hrest]
      show Reception.asked (r ((m.hostAfter (Host.prompt r) s q.frame q.call).length + i)).answer = _
      rw [hhost, Nat.add_assoc, Nat.add_comm 1 i]
  | @stopped _ m q _ _ hr _ _ =>
    rw [occurrences_executed?, occurrence?_of_request hr]
    intro i o ho
    cases i with
    | zero =>
      obtain rfl := Option.some.inj ho
      exact hcall m q hp
    | succ i => cases ho

/-- A tick whose replies come later puts at most one call to the host, and the ticket for the
reply is the number of the call. -/
theorem reception_deferring {r : Nat → Reply} {s : Setting} {budget : Nat}
    {m last : Machine Mailbox} {es : List Entry} {how : TickEnd}
    (hrun : Runs (Host.deferring r) s budget m es last how) :
    ∀ o ∈ occurrences es, ∀ answer, o.reception = .asked answer →
      answer = .pending m.host.calls.length := by
  have hcall : ∀ (m : Machine Mailbox) (q : Request) (answer : Answer),
      m.reception (Host.deferring r) s q.frame q.call = .asked answer →
        answer = .pending m.host.calls.length := by
    intro m q answer hrec
    unfold reception at hrec
    split at hrec
    · cases hrec
    · split at hrec
      · cases hrec
      · cases hrec
        rfl
  refine hrun.forall_occurrences (I := fun m' => m'.host = m.host) ?_ ?_ ?_ rfl
  · intro m₁ m₂ hm hr hstep
    exact (quiet_of_step hr hstep).host.trans hm
  · -- a call that gets a value was not put to the host
    intro m₁ q v hm hr hv
    refine Eq.trans ?_ hm
    show m₁.hostAfter (Host.deferring r) s q.frame q.call = m₁.host
    unfold hostAfter
    cases hrec : m₁.reception (Host.deferring r) s q.frame q.call with
    | asked answer =>
      rw [hrec, hcall m₁ q answer hrec] at hv
      cases hv
    | _ => rfl
  · intro m₁ q hm hr answer hrec
    rw [← hm]
    exact hcall m₁ q answer hrec

/-! ### Records of calls -/

/-- The record that calls with values amount to. -/
def replies (os : List Occurrence) : List (CallKey × Value) :=
  os.filterMap fun o => o.value?.map fun v => (o.key, v)

theorem lookup_replies {os : List Occurrence} (hkeys : (os.map Occurrence.key).Nodup)
    {key : CallKey} {v : Value} :
    (replies os).lookup key = some v ↔ ∃ o ∈ os, o.key = key ∧ o.value? = some v := by
  induction os with
  | nil => simp [replies]
  | cons o os ih =>
    obtain ⟨hfresh, hkeys⟩ := List.nodup_cons.mp hkeys
    have hrest : (∃ o' ∈ o :: os, o'.key = key ∧ o'.value? = some v) ↔
        (o.key = key ∧ o.value? = some v) ∨ ∃ o' ∈ os, o'.key = key ∧ o'.value? = some v := by
      simp
    rw [hrest, ← ih hkeys]
    cases hv : o.value? with
    | none => simp [replies, hv]
    | some w =>
      have hcons : replies (o :: os) = (o.key, w) :: replies os := by
        simp only [replies, List.filterMap_cons, hv, Option.map_some]
      rw [hcons, List.lookup_cons]
      by_cases hkey : key = o.key
      · subst hkey
        -- no later call has the same key
        have hnone : (replies os).lookup o.key ≠ some v := by
          intro hsome
          obtain ⟨o', ho', hkey', -⟩ := (ih hkeys).mp hsome
          exact hfresh (List.mem_map.mpr ⟨o', ho', hkey'⟩)
        simp [hnone]
      · have hne : (key == o.key) = false := beq_false_of_ne hkey
        simp [hne, Ne.symm hkey]

/-- Traces that look the same make the same calls. -/
theorem occurrences_of_view {es₁ es₂ : List Entry}
    (hview : es₁.map Entry.view = es₂.map Entry.view) :
    (occurrences es₁).map (fun o => (o.key, o.call, o.value?)) =
      (occurrences es₂).map (fun o => (o.key, o.call, o.value?)) := by
  have hcalls : ∀ es : List Entry, (occurrences es).map (fun o => (o.key, o.call, o.value?)) =
      (es.map Entry.view).filterMap Prod.snd := by
    intro es
    rw [occurrences, List.map_filterMap, List.filterMap_map]
    rfl
  rw [hcalls, hcalls, hview]

theorem exists_of_view {es₁ es₂ : List Entry} (hview : es₁.map Entry.view = es₂.map Entry.view)
    {o : Occurrence} (ho : o ∈ occurrences es₁) :
    ∃ o' ∈ occurrences es₂, o'.key = o.key ∧ o'.call = o.call ∧ o'.value? = o.value? := by
  have hmem := List.mem_map_of_mem (f := fun o : Occurrence => (o.key, o.call, o.value?)) ho
  rw [occurrences_of_view hview] at hmem
  obtain ⟨o', ho', heq⟩ := List.mem_map.mp hmem
  simp only [Prod.mk.injEq] at heq
  exact ⟨o', ho', heq⟩

end Machine

/-! ### The uninterrupted tick -/

namespace Playback

open Machine

/-- A project about to make a tick whose replies come at once. -/
def single (q : Project) : Playback (List HyperCall) := { project := q, host := [] }

/-- What holds of a tick that can be compared with a suspended one: it begins with nothing
recorded, its replies let it go on, and it neither asks for the time nor closes the project. -/
structure Plain (r : Nat → Reply) (q : Project) : Prop where
  departing : q.Departing
  fresh : q.delivered = []
  recoverable : ∀ i, fatal? (r i) = none
  timeless : ∀ e ∈ (single q).trace (Host.prompt r), e.op ≠ .system
  staysOpen : ∀ e ∈ (single q).trace (Host.prompt r), e.op ≠ .closeAll

/-- The calls of the tick whose replies come at once. -/
def script (r : Nat → Reply) (q : Project) : List Occurrence := (single q).calls (Host.prompt r)

section Plain

variable {r : Nat → Reply} {q : Project}

theorem Plain.value? (hq : Plain r q) {i : Nat} {o : Occurrence}
    (ho : (script r q)[i]? = some o) : o.value? = some (valueOf o.call.op (r i)) := by
  have hrec := reception_prompt (walk_runs (p := single q) hq.departing) rfl hq.fresh i o ho
  have hstart : (Machine.start q.memory ([] : List HyperCall) none false).host.length + i = i :=
    Nat.zero_add i
  rw [Occurrence.value?, hrec]
  show (Reception.asked (r ((Machine.start q.memory ([] : List HyperCall) none false).host.length
    + i)).answer).value? o.call.op = _
  rw [hstart]
  exact value?_answer (hq.recoverable i) o.call.op

theorem Plain.keys_nodup (hq : Plain r q) : ((script r q).map Occurrence.key).Nodup :=
  (walk_runs (h := Host.prompt r) (p := single q) hq.departing).keys_nodup

/-- Calls of the uninterrupted tick are told apart by their keys. -/
theorem Plain.index_eq (hq : Plain r q) {i j : Nat} {o o' : Occurrence}
    (ho : (script r q)[i]? = some o) (ho' : (script r q)[j]? = some o') (hkey : o.key = o'.key) :
    i = j := by
  obtain ⟨hi, -⟩ := List.getElem?_eq_some_iff.mp ho
  refine (List.getElem?_inj ?_ hq.keys_nodup).mp ?_
  · rw [List.length_map]
    exact hi
  · rw [List.getElem?_map, List.getElem?_map, ho, ho']
    exact congrArg some hkey

/-- The record after one call more. -/
theorem Plain.replies_succ (hq : Plain r q) {i : Nat} {o : Occurrence}
    (ho : (script r q)[i]? = some o) :
    replies ((script r q).take (i + 1)) =
      replies ((script r q).take i) ++ [(o.key, valueOf o.call.op (r i))] := by
  rw [List.take_add_one, ho, replies, List.filterMap_append]
  simp only [Option.toList, List.filterMap_cons, hq.value? ho, Option.map_some, List.filterMap_nil]
  rfl

end Plain

/-! ### Suspended ticks -/

/-- A departing project with the first `n` calls of the uninterrupted tick on record. -/
structure Foretold (r : Nat → Reply) (q : Project) (n : Nat) (p : Playback Mailbox) : Prop where
  departing : p.project.Departing
  build : q.SameBuild p.project
  memory : p.project.memory = q.memory
  keys : p.project.keys = q.keys
  record : p.project.delivered = replies ((script r q).take n)
  calls : p.host.calls = ((script r q).take n).map (·.call)

namespace Foretold

variable {r : Nat → Reply} {q : Project} {n : Nat} {p : Playback Mailbox}

/-- A call on record gets the value that it got in the uninterrupted tick. -/
theorem value?_of_lt (hp : Foretold r q n p) (hq : Plain r q) {i : Nat} {o o' : Occurrence}
    (hi : i < n) (ho : (script r q)[i]? = some o) (ho' : o' ∈ p.calls (Host.deferring r))
    (hkey : o'.key = o.key) : o'.value? = o.value? := by
  have hv := hq.value? ho
  have hmem : o ∈ (script r q).take n := by
    refine List.mem_of_getElem? (i := i) ?_
    rw [List.getElem?_take_of_lt hi, ho]
  -- the record holds the calls of the script under their keys
  have hlookup : p.project.setting.delivered.lookup o'.key =
      some (valueOf o.call.op (r i)) := by
    show p.project.delivered.lookup o'.key = _
    rw [hp.record, lookup_replies (hq.keys_nodup.sublist ((List.take_sublist n _).map _))]
    exact ⟨o, hmem, hkey.symm, hv⟩
  rcases (walk_runs (h := Host.deferring r) hp.departing).reception_eq rfl o' ho' with
    ⟨v, hsome, hrec⟩ | ⟨hnone, -⟩
  · rw [hlookup] at hsome
    cases hsome
    rw [hv, Occurrence.value?, hrec]
    rfl
  · rw [hlookup] at hnone
    cases hnone

/-- A call that gets a value is on record. -/
theorem lt_of_value? (hp : Foretold r q n p) (hq : Plain r q) {i : Nat} {o o' : Occurrence}
    (ho : (script r q)[i]? = some o) (ho' : o' ∈ p.calls (Host.deferring r))
    (hkey : o'.key = o.key) (hv : o'.value?.isSome) : i < n := by
  rcases (walk_runs (h := Host.deferring r) hp.departing).reception_eq rfl o' ho' with
    ⟨v, hsome, -⟩ | ⟨-, answer, hrec⟩
  · have hlookup : p.project.delivered.lookup o'.key = some v := hsome
    rw [hp.record, lookup_replies (hq.keys_nodup.sublist ((List.take_sublist n _).map _))] at hlookup
    obtain ⟨o'', hmem, hkey', -⟩ := hlookup
    obtain ⟨j, hj⟩ := List.mem_iff_getElem?.mp hmem
    rw [List.getElem?_take] at hj
    split at hj
    · rename_i hjn
      have hij : i = j := hq.index_eq ho hj (by rw [hkey', hkey])
      rw [hij]
      exact hjn
    · cases hj
  · have hpending := reception_deferring (walk_runs (h := Host.deferring r) hp.departing) o' ho'
      answer hrec
    rw [Occurrence.value?, hrec, hpending] at hv
    cases hv

/-- The tick goes in lockstep with the uninterrupted one. -/
theorem lockstep (hp : Foretold r q n p) (hq : Plain r q) :
    Agreement ((single q).trace (Host.prompt r)) (p.trace (Host.deferring r))
        ((single q).walk (Host.prompt r)) (p.walk (Host.deferring r)) ∨
      Nonempty (Parting ((single q).trace (Host.prompt r)) (p.trace (Host.deferring r))) :=
  lockstep_walk (p := single q) hq.departing hp.departing hp.build hp.memory hp.keys hq.timeless

/-- A tick with some calls missing from its record does not get to the end. -/
theorem not_agreement (hp : Foretold r q n p) (hq : Plain r q) (hn : n < (script r q).length)
    (hagree : Agreement ((single q).trace (Host.prompt r)) (p.trace (Host.deferring r))
      ((single q).walk (Host.prompt r)) (p.walk (Host.deferring r))) : False := by
  have ho : (script r q)[n]? = some (script r q)[n] := List.getElem?_eq_getElem hn
  have hmem : (script r q)[n] ∈ occurrences ((single q).trace (Host.prompt r)) :=
    List.getElem_mem hn
  obtain ⟨o', ho', hkey, -, hv⟩ := exists_of_view hagree.trace hmem
  have hlt := hp.lt_of_value? hq ho ho' hkey (by rw [hv]; exact hagree.valued _ hmem)
  exact Nat.lt_irrefl n hlt

/-- Traces part at the first call that is not on record. -/
theorem parting_index (hp : Foretold r q n p) (hq : Plain r q)
    (hpart : Parting ((single q).trace (Host.prompt r)) (p.trace (Host.deferring r))) :
    (script r q)[n]? = some hpart.left ∧ hpart.right.value? = none := by
  let j := (occurrences hpart.before₁).length
  have hscript : script r q = occurrences hpart.before₁ ++ hpart.left :: occurrences hpart.rest₁ :=
    hpart.occurrences₁
  have hleft : (script r q)[j]? = some hpart.left := by
    rw [hscript, List.getElem?_append_right (Nat.le_refl _), Nat.sub_self]
    rfl
  have hright : hpart.right ∈ p.calls (Host.deferring r) := hpart.right_mem
  -- what is on record gets the same value in both ticks, so they do not part there
  have hge : n ≤ j := by
    refine Nat.le_of_not_lt fun hlt => ?_
    have hsame := hp.value?_of_lt hq hlt hleft hright hpart.key.symm
    rw [hq.value? hleft] at hsame
    exact hpart.differ _ (hq.value? hleft) hsame
  have hle : j ≤ n := by
    refine Nat.le_of_not_lt fun hlt => ?_
    -- a call before the parting gets a value in both ticks
    have hmem : (occurrences hpart.before₁)[n] ∈ occurrences hpart.before₁ := List.getElem_mem hlt
    have hn : (script r q)[n]? = some (occurrences hpart.before₁)[n] := by
      rw [hscript, List.getElem?_append_left hlt, List.getElem?_eq_getElem hlt]
    obtain ⟨o', ho', hkey, -, hv⟩ := exists_of_view hpart.agree hmem
    have ho'' : o' ∈ p.calls (Host.deferring r) := by
      rw [Playback.calls, hpart.occurrences₂]
      exact List.mem_append_left _ ho'
    have hlt' := hp.lt_of_value? hq hn ho'' hkey (by rw [hv]; exact hpart.valued _ hmem)
    exact Nat.lt_irrefl n hlt'
  obtain rfl : j = n := Nat.le_antisymm hle hge
  refine ⟨hleft, ?_⟩
  cases hv : hpart.right.value? with
  | none => rfl
  | some v =>
    have hlt := hp.lt_of_value? hq hleft hright hpart.key.symm (by rw [hv]; rfl)
    exact absurd hlt (Nat.lt_irrefl _)

/-- Calls that get a value are not put to the host. -/
theorem askedCalls_of_valued (hp : Foretold r q n p) (os : List Occurrence)
    (hos : ∀ o ∈ os, o ∈ p.calls (Host.deferring r)) (hv : ∀ o ∈ os, o.value?.isSome) :
    askedCalls os = [] := by
  have hnone : os.filter (fun o => o.reception.isAsked) = [] := by
    refine List.filter_eq_nil_iff.mpr fun o ho hasked => ?_
    cases hrec : o.reception with
    | asked answer =>
      have hpending := reception_deferring (walk_runs (h := Host.deferring r) hp.departing) o
        (hos o ho) answer hrec
      have hsome := hv o ho
      rw [Occurrence.value?, hrec, hpending] at hsome
      cases hsome
    | _ =>
      rw [hrec] at hasked
      cases hasked
  rw [askedCalls, hnone]
  rfl

/-- What the host was asked for in all. -/
theorem host_calls (hp : Foretold r q n p) :
    (p.walk (Host.deferring r)).1.host.calls =
      ((script r q).take n).map (·.call) ++ askedCalls (p.calls (Host.deferring r)) := by
  rw [← hp.calls]
  exact Runs.ledger Mailbox.calls (fun _ _ _ => rfl)
    (walk_runs (h := Host.deferring r) hp.departing)

/-- **A tick with the first `n` calls on record is suspended by the next one**, which is the only
one that it puts to the host. -/
theorem suspended (hp : Foretold r q n p) (hq : Plain r q) (hn : n < (script r q).length) :
    ∃ o o', (script r q)[n]? = some o ∧ p.suspender? (Host.deferring r) = some (o', n) ∧
      o'.key = o.key ∧ o'.call = o.call ∧
      (p.walk (Host.deferring r)).1.host.calls = ((script r q).take (n + 1)).map (·.call) ∧
      (p.walk (Host.deferring r)).1.closing = false := by
  rcases hp.lockstep hq with hagree | ⟨⟨hpart⟩⟩
  · exact absurd hagree (hp.not_agreement hq hn)
  -- 1. the ticks part at the call number `n`, which is the last call of this one
  obtain ⟨hleft, hnone⟩ := hp.parting_index hq hpart
  have hcalls : p.calls (Host.deferring r) = occurrences hpart.before₂ ++ [hpart.right] := by
    rw [Playback.calls, hpart.occurrences₂, hpart.last₂ hnone]
    rfl
  have hvalued : ∀ o ∈ occurrences hpart.before₂, o.value?.isSome := by
    intro o ho
    obtain ⟨o', ho', -, -, hv⟩ := exists_of_view hpart.agree.symm ho
    rw [← hv]
    exact hpart.valued o' ho'
  -- 2. it is not on record, so the host is asked and promises a reply
  have hrec : hpart.right.reception = .asked (.pending n) := by
    rcases (walk_runs (h := Host.deferring r) hp.departing).reception_eq rfl hpart.right
      hpart.right_mem with ⟨v, -, hrec⟩ | ⟨-, answer, hrec⟩
    · rw [Occurrence.value?, hrec] at hnone
      cases hnone
    · have hpending := reception_deferring (walk_runs (h := Host.deferring r) hp.departing)
        hpart.right hpart.right_mem answer hrec
      have hlength : p.host.calls.length = n := by
        rw [hp.calls, List.length_map, List.length_take, Nat.min_eq_left (Nat.le_of_lt hn)]
      rw [hrec, hpending]
      show Reception.asked (.pending p.host.calls.length) = _
      rw [hlength]
  -- 3. the calls before it were on record, so the host is asked once
  refine ⟨hpart.left, hpart.right, hleft, ?_, hpart.key.symm, hpart.call.symm, ?_, ?_⟩
  · simp only [suspender?, hcalls, List.getLast?_concat, hrec]
  · have hbefore := hp.askedCalls_of_valued (occurrences hpart.before₂)
      (fun o ho => by rw [hcalls]; exact List.mem_append_left _ ho) hvalued
    have hasked : askedCalls (p.calls (Host.deferring r)) = [hpart.right.call] := by
      rw [hcalls, askedCalls, List.filter_append, List.map_append]
      show askedCalls (occurrences hpart.before₂) ++ _ = _
      simp only [hbefore, List.filter_cons, hrec, Reception.isAsked]
      rfl
    rw [hp.host_calls, hasked, List.take_add_one, hleft, List.map_append, ← hpart.call]
    rfl
  · cases hclosing : (p.walk (Host.deferring r)).1.closing with
    | false => rfl
    | true =>
      rcases (walk_runs (h := Host.deferring r) hp.departing).closing hclosing with hstart |
        ⟨e, he, hop⟩
      · cases hstart
      · -- every instruction of the tick is one of the uninterrupted tick
        obtain ⟨e', he', hop'⟩ := hpart.op_mem hnone he
        exact absurd (hop'.trans hop) (hq.staysOpen e' he')

/-- **A tick with all calls on record ends as the uninterrupted one**, and puts no call to the
host. -/
theorem ended (hp : Foretold r q n p) (hq : Plain r q) (hn : n = (script r q).length) :
    Agreement ((single q).trace (Host.prompt r)) (p.trace (Host.deferring r))
        ((single q).walk (Host.prompt r)) (p.walk (Host.deferring r)) ∧
      (p.walk (Host.deferring r)).1.host.calls = (script r q).map (·.call) := by
  rcases hp.lockstep hq with hagree | ⟨⟨hpart⟩⟩
  · refine ⟨hagree, ?_⟩
    -- every call gets its value from the record
    have hvalued : ∀ o ∈ p.calls (Host.deferring r), o.value?.isSome := by
      intro o ho
      obtain ⟨o', ho', -, -, hv⟩ := exists_of_view hagree.trace.symm ho
      rw [← hv]
      exact hagree.valued o' ho'
    rw [hp.host_calls, hp.askedCalls_of_valued _ (fun o ho => ho) hvalued, List.append_nil, hn,
      List.take_length]
  · -- the ticks cannot part, since no call is missing from the record
    have hnone : (script r q)[n]? = none := List.getElem?_eq_none (Nat.le_of_eq hn.symm)
    rw [(hp.parting_index hq hpart).1] at hnone
    cases hnone

end Foretold

end Playback

end SchemePlayer
