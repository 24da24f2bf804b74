import Mathlib.Data.List.Nodup
import SchemePlayer.Proofs.Worker.Exchange

/-!
# Requests come one after another

However clients, the worker and whoever stops it get in each other's way, the functions that clients
hand to a worker run as if each of them were alone:

- `Record`: a function that has run to its end; `Running.events`, `Record.events`: the part of the
  log that is about one function.
- `Client.Fits`, `Exchange.Orderly`: the invariant; `Orderly.step` carries it through a step.
- `Exchange.works_all`: a worker that has not gone home can do all that is in its queue.
- `Exchange.Serialized`, `serialized`: **the log consists of one block for each function, in the
  order of the queue; who is not told of the stop gets the result of its own function; who comes
  after the stop is not served.**
-/

namespace SchemePlayer

variable {σ α : Type}

/-- A function that has run to its end, with the states of the project that its calls met. -/
structure Record (σ α : Type) where
  ticket : Nat
  script : Script σ α
  seen : List σ
  result : Except Text α

/-- What a function has done so far. -/
def Running.events (r : Running σ α) : List (WorkerEvent σ α) :=
  .begins r.ticket :: r.seen.map (.calls r.ticket)

/-- What a function has done from its beginning to its end. -/
def Record.events (r : Record σ α) : List (WorkerEvent σ α) :=
  .begins r.ticket :: (r.seen.map (.calls r.ticket) ++ [.ends r.ticket r.result])

/-- All functions that were ever queued, each under its ticket: those that have run, the one that
runs, and those that wait. -/
def Exchange.work (e : Exchange σ α) (done : List (Record σ α)) : List (Nat × Script σ α) :=
  done.map (fun r => (r.ticket, r.script)) ++
    (e.running.toList.map (fun r => (r.ticket, r.script)) ++ e.queue)

/-! ### The invariant -/

/-- What holds of a client of an exchange in which the functions `done` have run. -/
structure Client.Fits (e : Exchange σ α) (done : List (Record σ α)) (c : Client σ α) : Prop where
  late : c.isLate = true → e.isStopped = true ∧
    (c.stage = .entered ∨ c.stage = .answered none (.error .stopped))
  own : ∀ t, c.stage.ticket? = some t → (t, c.script) ∈ e.work done
  told : ∀ answer, c.stage.answer? = some answer → answer = .error .stopped ∨
    ∃ r ∈ done, c.stage.ticket? = some r.ticket ∧ answer = Exchange.reply r.result
  /-- the result that a client waits for is kept -/
  kept : ∀ t, c.stage = .queued t → ∀ r ∈ done, r.ticket = t → (t, r.result) ∈ e.results

/-- No two clients have the same ticket. -/
def Client.Apart (clients : List (Client σ α)) : Prop :=
  ∀ (i j : Nat) (a b : Client σ α) (t : Nat), clients[i]? = some a → clients[j]? = some b →
    a.stage.ticket? = some t → b.stage.ticket? = some t → i = j

/-- The functions of an exchange run one by one, and `done` have run. -/
structure Exchange.OneByOne (e : Exchange σ α) (done : List (Record σ α)) : Prop where
  /-- all that a function did stands together, and no function began before another had ended -/
  log : e.log = done.flatMap Record.events ++ (e.running.map Running.events).getD []
  /-- tickets are given out as functions are queued; in this order they have run, each once -/
  tickets : (e.work done).map Prod.fst = List.range e.nextTicket
  /-- a function has made its own calls, as what it met made it do -/
  followed : ∀ r ∈ done, r.script.follow r.seen = some (.ends r.result)
  following : ∀ r, e.running = some r → r.script.follow r.seen = some r.rest
  /-- each function is that of a client -/
  owners : ∀ t script, (t, script) ∈ e.work done →
    ∃ c ∈ e.clients, c.stage.ticket? = some t ∧ c.script = script
  apart : Client.Apart e.clients

/-- The invariant of an exchange in which the functions `done` have run. -/
structure Exchange.Orderly (e : Exchange σ α) (done : List (Record σ α)) : Prop
    extends e.OneByOne done where
  results : ∀ t result, (t, result) ∈ e.results → ∃ r ∈ done, r.ticket = t ∧ r.result = result
  clients : ∀ c ∈ e.clients, c.Fits e done
  home : e.isOver = true → e.isStopped = true

variable {e e' : Exchange σ α} {done : List (Record σ α)}

/-- A client stays what it is while other things happen, if what it waits for is kept. -/
theorem Client.Fits.mono {done' : List (Record σ α)} {c : Client σ α} (h : c.Fits e done)
    (hstopped : e.isStopped = true → e'.isStopped = true)
    (hwork : ∀ x ∈ e.work done, x ∈ e'.work done') (hdone : ∀ r ∈ done, r ∈ done')
    (hkept : ∀ t, c.stage = .queued t → ∀ r ∈ done', r.ticket = t → (t, r.result) ∈ e'.results) :
    c.Fits e' done' where
  late hlate := (h.late hlate).imp_left hstopped
  own t ht := hwork _ (h.own t ht)
  told answer hanswer := by
    refine (h.told answer hanswer).imp_right ?_
    rintro ⟨r, hr, htold⟩
    exact ⟨r, hdone r hr, htold⟩
  kept := hkept

/-- A client that gets on with the ticket that it has, if any, shares it with nobody. -/
theorem Client.Apart.set {clients : List (Client σ α)} (h : Apart clients) {i : Nat}
    {c : Client σ α} (hc : clients[i]? = some c) {stage : Stage α}
    (hticket : ∀ t, stage.ticket? = some t →
      ∀ j c', clients[j]? = some c' → c'.stage.ticket? = some t → j = i) :
    Apart (clients.set i { c with stage }) := by
  have hother : ∀ {k a}, (clients.set i { c with stage })[k]? = some a →
      (k = i ∧ a = { c with stage }) ∨ (k ≠ i ∧ clients[k]? = some a) := by
    intro k a hk
    rw [List.getElem?_set] at hk
    by_cases hki : i = k
    · subst hki
      rw [if_pos rfl, if_pos (List.getElem?_eq_some_iff.mp hc).1] at hk
      exact .inl ⟨rfl, (Option.some.inj hk).symm⟩
    · rw [if_neg hki] at hk
      exact .inr ⟨Ne.symm hki, hk⟩
  intro k l a b t ha hb hat hbt
  rcases hother ha with ⟨rfl, rfl⟩ | ⟨-, hold⟩
  · rcases hother hb with ⟨rfl, rfl⟩ | ⟨hl, hold'⟩
    · rfl
    · exact absurd (hticket t hat l b hold' hbt) hl
  · rcases hother hb with ⟨rfl, rfl⟩ | ⟨-, hold'⟩
    · exact hticket t hbt k a hold hat
    · exact h k l a b t hold hold' hat hbt

namespace Exchange

theorem mem_work_of_mem {r : Record σ α} (hr : r ∈ done) : (r.ticket, r.script) ∈ e.work done :=
  List.mem_append_left _ (List.mem_map_of_mem (f := fun r => (r.ticket, r.script)) hr)

theorem Orderly.lt_nextTicket (h : e.Orderly done) {t : Nat} {script : Script σ α}
    (hmem : (t, script) ∈ e.work done) : t < e.nextTicket := by
  have hticket : t ∈ (e.work done).map Prod.fst := List.mem_map_of_mem hmem
  rw [h.tickets] at hticket
  exact List.mem_range.mp hticket

/-- A ticket stands for one function. -/
theorem Orderly.script_unique (h : e.Orderly done) {t : Nat} {script script' : Script σ α}
    (hmem : (t, script) ∈ e.work done) (hmem' : (t, script') ∈ e.work done) :
    script = script' := by
  have hnodup : ((e.work done).map Prod.fst).Nodup := by
    rw [h.tickets]
    exact List.nodup_range
  exact (Prod.mk.inj (List.inj_on_of_nodup_map hnodup hmem hmem' rfl)).2

theorem orderly_start (project : σ) : (start project : Exchange σ α).Orderly [] where
  log := rfl
  tickets := rfl
  followed _ hr := absurd hr List.not_mem_nil
  following _ hr := by cases hr
  results _ _ hr := absurd hr List.not_mem_nil
  clients _ hc := absurd hc List.not_mem_nil
  owners _ _ hmem := absurd hmem List.not_mem_nil
  apart i j a b t ha := by cases ha
  home hover := by cases hover

/-! ### The worker -/

/-- **The worker gets on** with one of the functions that were queued. -/
theorem Orderly.turn (h : e.Orderly done) (hturn : Turn e e') : ∃ done', e'.Orderly done' := by
  cases hturn with
  | @begins ticket script queue hover hidle hqueue =>
    have hwork : ({ e with
        queue
        running := some { ticket, script, rest := script }
        log := e.log ++ [.begins ticket] } : Exchange σ α).work done = e.work done := by
      simp only [work, hidle, hqueue, Option.toList_none, Option.toList_some, List.map_nil,
        List.map_cons, List.nil_append, List.singleton_append]
    refine ⟨done, ⟨?_, by rw [hwork]; exact h.tickets, h.followed, fun r hr => ?_,
      by rw [hwork]; exact h.owners, h.apart⟩, h.results, fun c hc => ?_, h.home⟩
    · have hlog := h.log
      rw [hidle] at hlog
      simp [hlog, Running.events]
    · cases hr
      cases script <;> rfl
    · exact (h.clients c hc).mono id (by rw [hwork]; exact fun _ => id) (fun _ => id)
        (h.clients c hc).kept
  | @calls r change next hrunning hrest =>
    have hwork : ({ e with
        project := change e.project
        running := some { r with seen := r.seen ++ [e.project], rest := next e.project }
        log := e.log ++ [.calls r.ticket e.project] } : Exchange σ α).work done = e.work done := by
      simp only [work, hrunning, Option.toList_some, List.map_cons]
    refine ⟨done, ⟨?_, by rw [hwork]; exact h.tickets, h.followed, fun r' hr' => ?_,
      by rw [hwork]; exact h.owners, h.apart⟩, h.results, fun c hc => ?_, h.home⟩
    · have hlog := h.log
      rw [hrunning] at hlog
      simp [hlog, Running.events]
    · cases hr'
      rw [Script.follow_append, h.following r hrunning, Option.bind_some, hrest]
      simp only [Script.follow]
    · exact (h.clients c hc).mono id (by rw [hwork]; exact fun _ => id) (fun _ => id)
        (h.clients c hc).kept
  | @ends r result hrunning hrest =>
    let record : Record σ α := ⟨r.ticket, r.script, r.seen, result⟩
    have hwork : ({ e with
        running := none
        results := e.results ++ [(r.ticket, result)]
        log := e.log ++ [.ends r.ticket result] } : Exchange σ α).work (done ++ [record]) =
          e.work done := by
      simp [work, hrunning, record]
    refine ⟨done ++ [record], ⟨?_, by rw [hwork]; exact h.tickets, fun r' hr' => ?_,
      (fun r' hr' => by cases hr'), by rw [hwork]; exact h.owners, h.apart⟩, fun t x hx => ?_,
      fun c hc => ?_, h.home⟩
    · have hlog := h.log
      rw [hrunning] at hlog
      simp [hlog, Running.events, Record.events, record]
    · rcases List.mem_append.mp hr' with hr' | hr'
      · exact h.followed r' hr'
      · obtain rfl := List.mem_singleton.mp hr'
        exact (h.following r hrunning).trans (congrArg some hrest)
    · rcases List.mem_append.mp hx with hx | hx
      · obtain ⟨r', hr', hsame⟩ := h.results t x hx
        exact ⟨r', List.mem_append_left _ hr', hsame⟩
      · cases List.mem_singleton.mp hx
        exact ⟨record, List.mem_append_right _ (List.mem_singleton.mpr rfl), rfl, rfl⟩
    · refine (h.clients c hc).mono id (by rw [hwork]; exact fun _ => id)
        (fun _ => List.mem_append_left _) fun t ht r' hr' hticket => ?_
      rcases List.mem_append.mp hr' with hr' | hr'
      · exact List.mem_append_left _ ((h.clients c hc).kept t ht r' hr' hticket)
      · obtain rfl := List.mem_singleton.mp hr'
        subst hticket
        exact List.mem_append_right _ (List.mem_singleton.mpr rfl)

/-! ### The clients -/

theorem Learns.ticket? {old new : Stage α} (h : e.Learns old new) : new.ticket? = old.ticket? := by
  cases h <;> rfl

/-- A client that finds out whether the worker was stopped. -/
theorem fits_learns {c : Client σ α} (h : c.Fits e done)
    {stage : Stage α} (hlearns : e.Learns c.stage stage) :
    Client.Fits e done { c with stage } where
  late hlate := by
    obtain ⟨hstopped, hstage⟩ := h.late hlate
    refine ⟨hstopped, ?_⟩
    generalize c.stage = old at hstage hlearns
    cases hlearns with
    | admitted hopen => cases hstopped.symm.trans hopen
    | refused => exact .inr rfl
    | shutOut => rcases hstage with hstage | hstage <;> cases hstage
    | abandoned => rcases hstage with hstage | hstage <;> cases hstage
  own t ht := h.own t (hlearns.ticket?.symm.trans ht)
  told answer hanswer := by
    generalize c.stage = old at hlearns
    cases hlearns <;> cases hanswer
    all_goals exact .inl rfl
  kept t ht := by
    generalize c.stage = old at hlearns
    subst ht
    cases hlearns

/-- The clients after one of them got on. -/
theorem mem_advance {i : Nat} {c c' : Client σ α} {stage : Stage α}
    (hmem : c' ∈ (e.advance i c stage).clients) : c' ∈ e.clients ∨ c' = { c with stage } :=
  List.mem_or_eq_of_mem_set hmem

/-- Who gets on owns what it has owned. -/
theorem Orderly.owners_advance (h : e.Orderly done) {i : Nat} {c : Client σ α}
    (hc : e.clients[i]? = some c) {stage : Stage α}
    (hticket : ∀ t, c.stage.ticket? = some t → stage.ticket? = some t) {t : Nat}
    {script : Script σ α} (hmem : (t, script) ∈ e.work done) :
    ∃ c' ∈ (e.advance i c stage).clients, c'.stage.ticket? = some t ∧ c'.script = script := by
  obtain ⟨c', hc', ht, hscript⟩ := h.owners t script hmem
  obtain ⟨j, hj⟩ := List.getElem?_of_mem hc'
  by_cases hij : i = j
  · subst hij
    cases Option.some.inj (hc.symm.trans hj)
    refine ⟨{ c with stage }, List.mem_of_getElem? (i := i) ?_, hticket t ht, hscript⟩
    rw [advance, List.getElem?_set, if_pos rfl, if_pos (List.getElem?_eq_some_iff.mp hc).1]
  · refine ⟨c', List.mem_of_getElem? (i := j) ?_, ht, hscript⟩
    rw [advance, List.getElem?_set, if_neg hij]
    exact hj

/-- A client comes. -/
theorem Orderly.comes (h : e.Orderly done) (script : Script σ α) :
    ({ e with clients := e.clients ++ [{ script, isLate := e.isStopped }] } :
      Exchange σ α).Orderly done where
  log := h.log
  tickets := h.tickets
  followed := h.followed
  following := h.following
  results := h.results
  home := h.home
  clients c hc := by
    rcases List.mem_append.mp hc with hc | hc
    · exact (h.clients c hc).mono id (fun _ => id) (fun _ => id) (h.clients c hc).kept
    · obtain rfl := List.mem_singleton.mp hc
      exact ⟨fun hlate => ⟨hlate, .inl rfl⟩, (fun t ht => by cases ht),
        (fun answer hanswer => by cases hanswer), (fun t ht => by cases ht)⟩
  owners t script' hmem := by
    obtain ⟨c, hc, howns⟩ := h.owners t script' hmem
    exact ⟨c, List.mem_append_left _ hc, howns⟩
  apart i j a b t ha hb hat hbt := by
    -- who has just come has no ticket
    have hold : ∀ {k : Nat} {a : Client σ α},
        (e.clients ++ [({ script, isLate := e.isStopped } : Client σ α)])[k]? = some a →
        a.stage.ticket? = some t → e.clients[k]? = some a := by
      intro k a hk hticket
      by_cases hlt : k < e.clients.length
      · rwa [List.getElem?_append_left hlt] at hk
      · rw [List.getElem?_append_right (Nat.le_of_not_lt hlt)] at hk
        obtain rfl := List.mem_singleton.mp (List.mem_of_getElem? hk)
        cases hticket
    exact h.apart i j a b t (hold ha hat) (hold hb hbt) hat hbt

/-- A client finds out whether the worker was stopped. -/
theorem Orderly.learns (h : e.Orderly done) {i : Nat} {c : Client σ α}
    (hc : e.clients[i]? = some c) {stage : Stage α} (hlearns : e.Learns c.stage stage) :
    (e.advance i c stage).Orderly done where
  log := h.log
  tickets := h.tickets
  followed := h.followed
  following := h.following
  results := h.results
  home := h.home
  clients c' hc' := by
    have hfits : c'.Fits e done := by
      rcases mem_advance hc' with hc' | rfl
      · exact h.clients c' hc'
      · exact fits_learns (h.clients c (List.mem_of_getElem? hc)) hlearns
    exact hfits.mono id (fun _ => id) (fun _ => id) hfits.kept
  owners t script := h.owners_advance hc fun t ht => hlearns.ticket?.trans ht
  apart := h.apart.set hc fun t ht j c' hc' ht' =>
    h.apart j i c' c t hc' hc ht' (hlearns.ticket?.symm.trans ht)

/-- A client puts its function into the queue. -/
theorem Orderly.sends (h : e.Orderly done) {i : Nat} {c : Client σ α}
    (hc : e.clients[i]? = some c) (hstage : c.stage = .admitted) :
    ({ e.advance i c (.queued e.nextTicket) with
        queue := e.queue ++ [(e.nextTicket, c.script)]
        nextTicket := e.nextTicket + 1 } : Exchange σ α).Orderly done := by
  have hwork : ({ e.advance i c (.queued e.nextTicket) with
        queue := e.queue ++ [(e.nextTicket, c.script)]
        nextTicket := e.nextTicket + 1 } : Exchange σ α).work done =
      e.work done ++ [(e.nextTicket, c.script)] := by
    simp only [work, advance, List.append_assoc]
  have hfresh : ∀ c' ∈ e.clients, c'.stage.ticket? ≠ some e.nextTicket := fun c' hc' ht =>
    Nat.lt_irrefl _ (h.lt_nextTicket ((h.clients c' hc').own _ ht))
  refine ⟨⟨h.log, ?_, h.followed, h.following, fun t script hmem => ?_, ?_⟩, h.results,
    fun c' hc' => ?_, h.home⟩
  · rw [hwork, List.map_append, h.tickets]
    exact (List.range_succ ..).symm
  · rw [hwork] at hmem
    rcases List.mem_append.mp hmem with hmem | hmem
    · exact h.owners_advance hc (fun t ht => by rw [hstage] at ht; cases ht) hmem
    · cases List.mem_singleton.mp hmem
      refine ⟨{ c with stage := .queued e.nextTicket }, List.mem_of_getElem? (i := i) ?_, rfl, rfl⟩
      rw [advance, List.getElem?_set, if_pos rfl, if_pos (List.getElem?_eq_some_iff.mp hc).1]
  · refine h.apart.set hc fun t ht j c' hc' ht' => ?_
    cases ht
    exact absurd ht' (hfresh c' (List.mem_of_getElem? hc'))
  · rcases mem_advance hc' with hc' | rfl
    · refine (h.clients c' hc').mono id (fun x hx => ?_) (fun _ => id) (h.clients c' hc').kept
      rw [hwork]
      exact List.mem_append_left _ hx
    · have hfits := h.clients c (List.mem_of_getElem? hc)
      refine ⟨fun hlate => ?_, fun t ht => ?_, (fun answer hanswer => by cases hanswer),
        fun t ht r hr hticket => ?_⟩
      · obtain ⟨-, hlate⟩ := hfits.late hlate
        rw [hstage] at hlate
        rcases hlate with hlate | hlate <;> cases hlate
      · cases ht
        rw [hwork]
        exact List.mem_append_right _ (List.mem_singleton.mpr rfl)
      · cases ht
        exact absurd (h.lt_nextTicket (mem_work_of_mem hr)) (by rw [hticket]; exact Nat.lt_irrefl _)

/-- A client takes the result of its function. -/
theorem Orderly.receives (h : e.Orderly done) {i : Nat} {c : Client σ α}
    (hc : e.clients[i]? = some c) {ticket : Nat} (hstage : c.stage = .queued ticket)
    {result : Except Text α} (hresult : e.results.lookup ticket = some result) :
    ({ e.advance i c (.answered (some ticket) (reply result)) with
        results := e.results.filter (·.1 ≠ ticket) } : Exchange σ α).Orderly done := by
  have hticket : c.stage.ticket? = some ticket := by rw [hstage]; rfl
  have hfits := h.clients c (List.mem_of_getElem? hc)
  refine ⟨⟨h.log, h.tickets, h.followed, h.following, fun t script hmem => ?_, ?_⟩,
    fun t x hx => ?_, fun c' hc' => ?_, h.home⟩
  · refine h.owners_advance hc (fun t ht => ?_) hmem
    exact (hticket.symm.trans ht : some ticket = some t)
  · refine h.apart.set hc fun t ht j c' hc' ht' => ?_
    cases ht
    exact h.apart j i c' c ticket hc' hc ht' hticket
  · exact h.results t x (List.mem_filter.mp hx).1
  · obtain ⟨j, hj⟩ := List.getElem?_of_mem hc'
    rw [advance, List.getElem?_set] at hj
    by_cases hij : i = j
    · subst hij
      rw [if_pos rfl, if_pos (List.getElem?_eq_some_iff.mp hc).1] at hj
      cases hj
      refine ⟨fun hlate => ?_, fun t ht => hfits.own t (hticket.trans ht), fun answer hanswer => ?_,
        (fun t ht => by cases ht)⟩
      · obtain ⟨-, hlate⟩ := hfits.late hlate
        rw [hstage] at hlate
        rcases hlate with hlate | hlate <;> cases hlate
      · cases hanswer
        obtain ⟨before, after, hsplit, -⟩ := List.lookup_eq_some_iff.mp hresult
        have hmem : (ticket, result) ∈ e.results := by
          rw [hsplit]
          exact List.mem_append_right _ (.head _)
        obtain ⟨r, hr, rfl, rfl⟩ := h.results ticket result hmem
        exact .inr ⟨r, hr, rfl, rfl⟩
    · rw [if_neg hij] at hj
      refine (h.clients c' (List.mem_of_getElem? hj)).mono id (fun _ => id) (fun _ => id)
        fun t ht r hr hrt => List.mem_filter.mpr
          ⟨(h.clients c' (List.mem_of_getElem? hj)).kept t ht r hr hrt, ?_⟩
      refine decide_eq_true fun hsame : t = ticket => hij ?_
      exact h.apart i j c c' ticket hc hj hticket (by rw [ht, hsame]; rfl)

/-! ### Steps -/

/-- The worker is stopped, or the project is changed by somebody else: no function is queued, run or
taken. -/
theorem Orderly.aside (h : e.Orderly done) (isStopped : Bool) (project : σ)
    (hstopped : e.isStopped = true → isStopped = true) :
    ({ e with isStopped, project } : Exchange σ α).Orderly done where
  log := h.log
  tickets := h.tickets
  followed := h.followed
  following := h.following
  owners := h.owners
  apart := h.apart
  results := h.results
  clients c hc := (h.clients c hc).mono hstopped (fun _ => id) (fun _ => id) (h.clients c hc).kept
  home hover := hstopped (h.home hover)

/-- **Whatever happens**, the functions go on to run one by one. -/
theorem Orderly.step (h : e.Orderly done) (hstep : Step e e') : ∃ done', e'.Orderly done' := by
  cases hstep with
  | comes script => exact ⟨done, h.comes script⟩
  | learns hclient hlearns => exact ⟨done, h.learns hclient hlearns⟩
  | sends hclient hstage _ => exact ⟨done, h.sends hclient hstage⟩
  | receives hclient hstage hresult => exact ⟨done, h.receives hclient hstage hresult⟩
  | turn hturn => exact h.turn hturn
  | quits hstopped hidle =>
    exact ⟨done, ⟨h.log, h.tickets, h.followed, h.following, h.owners, h.apart⟩, h.results,
      fun c hc => (h.clients c hc).mono id (fun _ => id) (fun _ => id) (h.clients c hc).kept,
      fun _ => hstopped⟩
  | stops _ => exact ⟨done, h.aside true e.project fun _ => rfl⟩
  | meddles change => exact ⟨done, h.aside e.isStopped (change e.project) id⟩

theorem Orderly.reaches (h : e.Orderly done) (hreaches : Reaches e e') :
    ∃ done', e'.Orderly done' := by
  induction hreaches with
  | refl => exact ⟨done, h⟩
  | tail _ hstep ih =>
    obtain ⟨done', hdone'⟩ := ih
    exact hdone'.step hstep

/-! ### The worker does not get stuck -/

/-- A worker that has not gone home ends the function that runs. -/
theorem works_idle (hover : e.isOver = false) :
    ∃ e', Works e e' ∧ e'.isOver = false ∧ e'.running = none ∧ e'.clients = e.clients := by
  cases hrunning : e.running with
  | none => exact ⟨e, .refl, hover, hrunning, rfl⟩
  | some r =>
    obtain ⟨log, hworks⟩ := works_end hrunning
    exact ⟨_, hworks, hover, rfl, rfl⟩

/-- **A worker that has not gone home can do all its work**, whatever broke down before. -/
theorem works_all (hover : e.isOver = false) :
    ∃ e', Works e e' ∧ e'.running = none ∧ e'.queue = [] ∧ e'.clients = e.clients := by
  obtain ⟨e₁, hfirst, hover₁, hidle₁, hclients₁⟩ := works_idle hover
  generalize hqueue : e₁.queue = queue
  suffices hrest : ∃ e', Works e₁ e' ∧ e'.running = none ∧ e'.queue = [] ∧
      e'.clients = e₁.clients by
    obtain ⟨e', hworks, hidle, hempty, hclients⟩ := hrest
    exact ⟨e', hfirst.trans hworks, hidle, hempty, hclients.trans hclients₁⟩
  clear hfirst hclients₁
  induction queue generalizing e₁ with
  | nil => exact ⟨e₁, .refl, hidle₁, hqueue, rfl⟩
  | cons _ queue ih =>
    obtain ⟨e₂, hserve, -, hover₂, hidle₂, hclients₂, hqueue₂⟩ := works_serve hover₁ hidle₁
    rw [hqueue, List.tail_cons] at hqueue₂
    obtain ⟨e', hworks, hidle, hempty, hclients⟩ := ih e₂ hover₂ hidle₂ hqueue₂
    exact ⟨e', hserve.trans hworks, hidle, hempty, hclients.trans hclients₂⟩

/-- Who waits for a result can get it, while the worker has not gone home. -/
theorem Orderly.works_lookup (h : e.Orderly done) (hover : e.isOver = false) {c : Client σ α}
    (hc : c ∈ e.clients) {t : Nat} (hstage : c.stage = .queued t) :
    ∃ e' result, Works e e' ∧ e'.clients = e.clients ∧ e'.results.lookup t = some result := by
  obtain ⟨e', hworks, hidle, hempty, hclients⟩ := works_all hover
  obtain ⟨done', h'⟩ := h.reaches hworks.reaches
  have hfits : c.Fits e' done' := h'.clients c (hclients ▸ hc)
  -- nothing waits and nothing runs: the function has run
  have hmem : (t, c.script) ∈ e'.work done' := hfits.own t (by rw [hstage]; rfl)
  simp only [work, hidle, hempty, Option.toList_none, List.map_nil, List.append_nil] at hmem
  obtain ⟨r, hr, hsame⟩ := List.mem_map.mp hmem
  have hkept : (t, r.result) ∈ e'.results := hfits.kept t hstage r hr (Prod.mk.inj hsame).1
  have hsome : (e'.results.lookup t).isSome := List.lookup_isSome_iff.mpr
    ⟨_, hkept, BEq.refl t⟩
  obtain ⟨result, hresult⟩ := Option.isSome_iff_exists.mp hsome
  exact ⟨e', result, hworks, hclients, hresult⟩

/-! ### Requests -/

/-- What holds of an exchange in which the functions `done` have run. -/
structure Serialized (e : Exchange σ α) (done : List (Record σ α)) : Prop
    extends e.OneByOne done where
  /-- who has a ticket has it for its own function -/
  own : ∀ c ∈ e.clients, ∀ t, c.stage.ticket? = some t → (t, c.script) ∈ e.work done
  /-- who is not told that the worker was stopped gets what its own function came to -/
  answers : ∀ c ∈ e.clients, ∀ answer, c.stage.answer? = some answer → answer ≠ .error .stopped →
    ∃ r ∈ done, c.stage.ticket? = some r.ticket ∧ r.script = c.script ∧ answer = reply r.result
  /-- the function of a client that came after the stop is not even queued -/
  late : ∀ c ∈ e.clients, c.isLate = true → c.stage.ticket? = none
  /-- the worker goes home only when it was stopped -/
  home : e.isOver = true → e.isStopped = true
  /-- until then all who wait can get their results, also if functions before have broken down -/
  goesOn : e.isOver = false → ∀ c ∈ e.clients, ∀ t, c.stage = .queued t →
    ∃ e' result, Works e e' ∧ e'.clients = e.clients ∧ e'.results.lookup t = some result

/-- **A worker serializes the requests of its clients**, in whatever order they, the worker and the
one that stops it come. -/
theorem serialized {project : σ} (h : Reaches (start project) e) :
    ∃ done, e.Serialized done := by
  obtain ⟨done, horderly⟩ := (orderly_start project).reaches h
  refine ⟨done, { horderly.toOneByOne with
    own := fun c hc => (horderly.clients c hc).own
    answers := fun c hc answer hanswer hserved => ?_
    late := fun c hc hlate => ?_
    home := horderly.home
    goesOn := fun hover c hc t hstage => horderly.works_lookup hover hc hstage }⟩
  · rcases (horderly.clients c hc).told answer hanswer with hstopped | ⟨r, hr, hticket, htold⟩
    · exact absurd hstopped hserved
    · have hown := (horderly.clients c hc).own r.ticket hticket
      exact ⟨r, hr, hticket, horderly.script_unique (mem_work_of_mem hr) hown, htold⟩
  · rcases ((horderly.clients c hc).late hlate).2 with hstage | hstage <;> rw [hstage] <;> rfl

/-- A function counts and breaks down; the next one still runs and sees what it has counted; and who
comes after the stop is refused. -/
theorem serialized_brokenFirst : ∃ e : Exchange Nat Nat, Reaches (start 5) e ∧
    e.clients.map (·.stage.answer?) =
      [some (.error (.broken "boom")), some (.ok 6), some (.error .stopped)] ∧
    e.project = 16 ∧ ∃ done, e.Serialized done := by
  let count (n : Nat) (result : Nat → Except Text Nat) : Script Nat Nat :=
    .call (· + n) fun met => .ends (result met)
  have hqueued : Reaches (start 5 : Exchange Nat Nat) _ :=
    (((((Relation.ReflTransGen.single (.comes (count 1 fun _ => .error "boom"))).tail
      (.comes (count 10 .ok))).tail
      (.learns (i := 0) rfl (.admitted rfl))).tail
      (.learns (i := 1) rfl (.admitted rfl))).tail
      (.sends (i := 0) rfl rfl (by decide))).tail
      (.sends (i := 1) rfl rfl (by decide))
  have hbroken : Reaches (start 5 : Exchange Nat Nat) _ :=
    ((hqueued.tail (.turn (.begins rfl rfl rfl))).tail
      (.turn (.calls rfl rfl))).tail
      (.turn (.ends rfl rfl))
  have hread : Reaches (start 5 : Exchange Nat Nat) _ :=
    ((hbroken.tail (.turn (.begins rfl rfl rfl))).tail
      (.turn (.calls rfl rfl))).tail
      (.turn (.ends rfl rfl))
  have hreaches : Reaches (start 5 : Exchange Nat Nat) _ :=
    ((((hread.tail
      (.receives (i := 1) rfl rfl rfl)).tail
      (.receives (i := 0) rfl rfl rfl)).tail
      (.stops rfl)).tail
      (.comes (count 1 .ok))).tail
      (.learns (i := 2) rfl (.refused rfl))
  exact ⟨_, hreaches, rfl, rfl, serialized hreaches⟩

end Exchange

end SchemePlayer
