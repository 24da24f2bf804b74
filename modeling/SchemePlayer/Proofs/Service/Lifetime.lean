import SchemePlayer.Proofs.Project.Run
import SchemePlayer.Proofs.Service.Alone

/-!
# Sessions are ended once

Close, destroy, destroy all and sweep race with each other and with requests that are under way.

- `lifetime`: all that happens to a session; `Session.IsEnded`: what it has come to then.
- `Kept.effect`: what was done for a session is to be seen in it, at any later time.
- `Tidy.works_answered`: who has taken out sessions can end them, without waiting for others.
- `Tidy.move_late`: who came after a session was taken out leaves it as it is.
- `Desk.Accounted`, `accounted`: **a session is open until it is taken out by one errand, which
  closes its project, stops its worker and ends its subscription, each once and for good; who comes
  later does not get at it, and is told that there is no such session.**
-/

namespace SchemePlayer

/-- All that happens to a session which is opened by the errand `k` and taken out by `j`. -/
def lifetime (k j : Nat) (id : Text) : List DeskEvent :=
  .opens k id :: .removes j id :: Chore.all.map (.does j · id)

/-- A session has been ended: its project is closed, its worker is stopped, and nobody listens for
its failures any more. -/
structure Session.IsEnded (s : Session) : Prop where
  closed : s.project.lifecycle = .closed
  stopped : s.worker.isStopped = true
  unwatched : ¬s.IsWatched

namespace Desk

variable {d d' : Desk} {k : Nat} {t : Errand} {id : Text}

/-- The session with a name has been ended. -/
def HasEnded (d : Desk) (id : Text) : Prop := ∃ s, d.find? id = some s ∧ s.IsEnded

/-! ### What is to be seen in a session -/

/-- What was done for a session is noted. -/
theorem Buried.mem_log_iff {s : Session} {k' j j' : Nat} {did : List Chore}
    (h : d.Buried s k' j t did) (c : Chore) :
    .does j' c s.id ∈ d.log ↔ j' = j ∧ c ∈ did := by
  have hlife : .does j' c s.id ∈ d.log ↔ .does j' c s.id ∈ d.life s.id := by
    rw [mem_life]
    exact (and_iff_left (decide_eq_true rfl)).symm
  rw [hlife, h.life]
  simp [and_comm, eq_comm]

/-- **What was done for a session, and nothing else, is to be seen in it.** -/
theorem Kept.effect (h : d.Kept) {s : Session} (hs : s ∈ d.all) :
    ∃ did, s.Did did ∧ ∀ c, c ∈ did ↔ ∃ j, .does j c s.id ∈ d.log := by
  rcases List.mem_append.mp hs with hs | hs
  · obtain ⟨hdid, k, hopen⟩ := h.stored s hs
    refine ⟨[], hdid, fun c => iff_of_false List.not_mem_nil ?_⟩
    rintro ⟨j, hdoes⟩
    have hlife : .does j c s.id ∈ d.life s.id := mem_life.mpr ⟨hdoes, decide_eq_true rfl⟩
    rw [hopen] at hlife
    cases List.mem_singleton.mp hlife
  · obtain ⟨k, j, t, did, hburied⟩ := h.buried s hs
    refine ⟨did, hburied.effect, fun c => ⟨fun hc => ⟨j, (hburied.mem_log_iff c).mpr ⟨rfl, hc⟩⟩, ?_⟩⟩
    rintro ⟨j', hdoes⟩
    exact ((hburied.mem_log_iff c).mp hdoes).2

/-- When everything was done for a session, it has been ended. -/
theorem Kept.hasEnded (h : d.Kept) {j : Nat} (hlife : d.life id = lifetime k j id) :
    d.HasEnded id := by
  have hall : id ∈ d.all.map Session.id := by
    by_contra hnew
    cases (h.unknown id hnew).symm.trans hlife
  obtain ⟨s, hs, rfl⟩ := List.mem_map.mp hall
  obtain ⟨did, hdid, hnoted⟩ := h.effect hs
  have hdone : ∀ c ∈ Chore.all, c ∈ did := by
    intro c hc
    have hmem : .does j c s.id ∈ d.life s.id := by
      rw [hlife]
      exact .tail _ (.tail _ (List.mem_map_of_mem (f := fun c => DeskEvent.does j c s.id) hc))
    exact (hnoted c).mpr ⟨j, (mem_life.mp hmem).1⟩
  refine ⟨s, h.find?_of_mem hs, ?_, ?_, ?_⟩
  · exact hdid.shows .close (hdone _ (by decide))
  · exact hdid.shows .stop (hdone _ (by decide))
  · exact hdid.shows .cancel (hdone _ (by decide))

/-! ### Errands that end sessions -/

theorem Move.log (h : d.Move k t d') : d.log <+: d'.log := by
  cases h <;> first | exact List.prefix_refl _ | exact List.prefix_append ..

theorem Works.log (h : Works k d d') : d.log <+: d'.log := by
  induction h with
  | refl => exact List.prefix_refl _
  | tail _ hstep ih =>
    obtain ⟨t, -, hmove⟩ := hstep
    exact ih.trans hmove.log

/-- **Who has taken out sessions can end them**, whatever others do in the meantime. -/
theorem Tidy.works_answered (h : d.Tidy) (ht : d.errands[k]? = some t)
    {chores : List (Text × Chore)} {result : ErrandResult}
    (hstage : t.stage = .burying chores result) :
    ∃ d' t', Works k d d' ∧ d'.errands[k]? = some t' ∧ t'.stage = .answered result := by
  induction chores generalizing d t with
  | nil =>
    refine ⟨_, _, .single ⟨t, ht, .finishes hstage⟩, errands_set_self ht _, rfl⟩
  | cons first chores ih =>
    obtain ⟨id, chore⟩ := first
    have hpending : t.pending id ≠ [] := by simp [Errand.pending, Errand.chores, hstage]
    obtain ⟨s, hs, rfl, -⟩ := h.buried_of_pending ht hpending
    have hfind : d.find? s.id = some s := h.find?_of_mem (List.mem_append_right _ hs)
    obtain ⟨-, -, _, _, -, s', v, hattend, -⟩ := h.attend? ht hstage hfind
    have hmove : d.Move k t _ := .attends hstage hfind hattend
    obtain ⟨d', t', hworks, ht', hanswered⟩ := ih (h.move ht hmove) (errands_set_self ht _) rfl
    exact ⟨d', t', .head ⟨t, ht, hmove⟩ hworks, ht', hanswered⟩

/-- Who has taken out a session and has nothing left to do has ended it. -/
theorem Kept.life_of_pending (h : d.Kept) (hremoves : .removes k id ∈ d.log)
    (ht : d.errands[k]? = some t) (hpending : t.pending id = []) :
    ∃ j, d.life id = lifetime j k id := by
  obtain ⟨s, -, rfl, j, t', did, hburied⟩ := h.buried_of_removes hremoves
  cases Option.some.inj (ht.symm.trans hburied.errand)
  have hall : did = Chore.all := by
    have hchores := hburied.chores
    rwa [hpending, List.append_nil] at hchores
  exact ⟨j, hburied.life.trans (by rw [hall]; rfl)⟩

theorem pending_of_answered {result : ErrandResult} (hstage : t.stage = .answered result)
    (id : Text) : t.pending id = [] := by
  simp [Errand.pending, Errand.chores, hstage]

/-- Whoever has taken out a session can end it. -/
theorem Tidy.works_life (h : d.Tidy) (hremoves : .removes k id ∈ d.log) :
    ∃ d' j, Works k d d' ∧ d'.life id = lifetime j k id := by
  obtain ⟨_, _, _, _, t, _, hburied⟩ := h.buried_of_removes hremoves
  have ht := hburied.errand
  by_cases hpending : t.pending id = []
  · obtain ⟨j, hlife⟩ := h.toKept.life_of_pending hremoves ht hpending
    exact ⟨d, j, .refl, hlife⟩
  · obtain ⟨chores, result, hstage⟩ : ∃ chores result, t.stage = .burying chores result := by
      cases hstage : t.stage with
      | burying chores result => exact ⟨chores, result, rfl⟩
      | _ => exact absurd (by simp [Errand.pending, Errand.chores, hstage]) hpending
    obtain ⟨d', t', hworks, ht', hanswered⟩ := h.works_answered ht hstage
    obtain ⟨j, hlife⟩ := (h.run hworks.reaches).toKept.life_of_pending (hworks.log.subset hremoves)
      ht' (pending_of_answered hanswered id)
    exact ⟨d', j, hworks, hlife⟩

/-! ### Sessions that are open, and others -/

theorem Kept.life_begins (h : d.Kept) (id : Text) : ∃ k j, d.life id <+: lifetime k j id := by
  by_cases hall : id ∈ d.all.map Session.id
  · obtain ⟨s, hs, rfl⟩ := List.mem_map.mp hall
    rcases List.mem_append.mp hs with hs | hs
    · obtain ⟨-, k, hopen⟩ := h.stored s hs
      exact ⟨k, 0, hopen ▸ ⟨_, rfl⟩⟩
    · obtain ⟨k, j, t, did, hburied⟩ := h.buried s hs
      refine ⟨k, j, ?_⟩
      rw [hburied.life, lifetime, ← hburied.chores, List.map_append]
      exact ⟨_, rfl⟩
  · exact ⟨0, 0, h.unknown id hall ▸ List.nil_prefix⟩

/-- A session is open from when it is opened until it is taken out. -/
theorem Kept.session?_iff (h : d.Kept) :
    (∃ s, d.service.session? id = some s) ↔ ∃ k, d.life id = [.opens k id] := by
  constructor
  · rintro ⟨s, hsession⟩
    obtain ⟨hs, rfl⟩ := session?_eq_some hsession
    exact (h.stored s hs).2
  · rintro ⟨k, hopen⟩
    have hall : id ∈ d.all.map Session.id := by
      by_contra hnew
      cases (h.unknown id hnew).symm.trans hopen
    obtain ⟨s, hs, rfl⟩ := List.mem_map.mp hall
    rcases List.mem_append.mp hs with hs | hs
    · refine Option.isSome_iff_exists.mp (List.find?_isSome.mpr ⟨s, hs, ?_⟩)
      exact decide_eq_true rfl
    · obtain ⟨k', j, t, did, hburied⟩ := h.buried s hs
      cases hburied.life.symm.trans hopen

theorem mem_gone_put {s s' : Session} (hs : s ∈ d.gone) (hne : s.id ≠ s'.id) :
    s ∈ (d.put s').gone :=
  List.mem_map.mpr ⟨s, hs, if_neg hne⟩

/-- **Who came after a session was taken out leaves it as it is.** -/
theorem Tidy.move_late (h : d.Tidy) (ht : d.errands[k]? = some t) (hmove : d.Move k t d')
    (hpast : id ∈ t.past) {s : Session} (hfind : d.find? id = some s) :
    d'.find? id = some s := by
  have hfits := h.errands k t ht
  obtain ⟨hs, rfl⟩ := find?_eq_some hfind
  have hgone : s ∈ d.gone := by
    obtain ⟨s', hs', hid⟩ := List.mem_map.mp (hfits.past _ hpast)
    rwa [h.toKept.eq_of_id hs (List.mem_append_right _ hs') hid.symm]
  -- the session was not found for the errand, which has not taken it out either
  have hfound : ∀ {id' : Text}, t.session = some id' → s.id ≠ id' := by
    rintro _ hsession rfl
    exact (hfits.session _ hsession).1 hpast
  suffices hstill : s ∈ d'.gone from
    (h.move ht hmove).toKept.find?_of_mem (List.mem_append_right _ hstill)
  cases hmove with
  | refuses | restores | unrestored | builds | unbuilt | opens | finds | answers | crashes
    | finishes | misses | lists => exact hgone
  | @touches id' s' hsession hfind' =>
    refine mem_gone_put hgone ?_
    show s.id ≠ s'.id
    rw [(find?_eq_some hfind').2]
    exact hfound hsession
  | @reaches id' s' f hsession hfind' hstays =>
    refine mem_gone_put hgone ?_
    rw [(Service.stays_act (v := d.service) (s := s') hstays).id, (find?_eq_some hfind').2]
    exact hfound hsession
  | removes => exact List.mem_append_left _ hgone
  | @attends id' chore chores result s' s'' v hstage hfind' hattend =>
    obtain ⟨-, hid', _, _, -, s₂, v₂, hattend', hid, -⟩ := h.attend? ht hstage hfind'
    cases hattend.symm.trans hattend'
    refine mem_gone_put (d := { d with service := v }) hgone ?_
    rw [hid, hid']
    rintro rfl
    have hpending : t.pending s.id ≠ [] := by simp [Errand.pending, Errand.chores, hstage]
    exact hfits.removed _ (hfits.pending _ hpending) hpast

/-- **Who names a session that is not there is told so, and that is all.** -/
theorem Tidy.move_absent (h : d.Tidy) (ht : d.errands[k]? = some t) (hstage : t.stage = .entered)
    {r : Request} (horder : t.order = .request r) (hnames : r.session? = some id) (hid : id ≠ [])
    (habsent : d.service.session? id = none) :
    ∃ e, Service.Absent id r e ∧
      ∀ d', d.Move k t d' ↔ d' = d.set k { t with stage := .answered (.outcome (.error e)) } := by
  obtain ⟨e, hrefusal, he⟩ := Service.refusal?_absent hnames hid habsent
  refine ⟨e, he, fun d' => ⟨fun hmove => ?_, ?_⟩⟩
  · have hsession : t.session = none := (h.errands k t ht).fresh hstage
    cases hmove with
    | refuses _ horder' hrefusal' =>
      cases horder.symm.trans horder'
      cases hrefusal.symm.trans hrefusal'
      rfl
    | restores _ horder' _ _ | unrestored _ horder' _ _ | lists _ horder' =>
      cases horder.symm.trans horder'
      cases hnames
    | builds hstage' _ _ | unbuilt hstage' _ _ | opens hstage' _ _ | answers hstage' _
      | attends hstage' _ _ | crashes hstage' _ _ | finishes hstage' =>
      cases hstage.symm.trans hstage'
    | finds _ horder' _ _ hadmitted =>
      cases horder.symm.trans horder'
      cases hrefusal.symm.trans hadmitted
    | touches hsession' _ | reaches hsession' _ _ => cases hsession.symm.trans hsession'
    | removes _ htakes _ =>
      rw [horder] at htakes
      cases htakes with
      | close hadmitted => cases hrefusal.symm.trans hadmitted
    | misses _ horder' _ => cases horder.symm.trans horder'
  · rintro rfl
    exact .refuses hstage horder hrefusal

/-! ### The whole account -/

/-- The account of all sessions, whatever is under way. -/
structure Accounted (d : Desk) : Prop where
  /-- no worker is stopped twice, which would bring the server down -/
  up : d.isDown = false
  /-- a session is opened, then taken out, and then ended by whoever has taken it out: its project
  is closed, its worker is stopped and its subscription is ended, each at most once -/
  life : ∀ id, ∃ k j, d.life id <+: lifetime k j id
  /-- once its project was closed in this way it is closed, and stays so whatever happens; its worker
  is stopped from when it was stopped in this way, and not before; and likewise its subscription is
  there until it was ended -/
  effect : ∀ s ∈ d.all,
    ((∃ j, .does j .close s.id ∈ d.log) → s.project.lifecycle = .closed) ∧
    (s.worker.isStopped = true ↔ ∃ j, .does j .stop s.id ∈ d.log) ∧
    (s.IsWatched ↔ ¬∃ j, .does j .cancel s.id ∈ d.log)
  /-- it is in the store from when it is opened until it is taken out -/
  stored : ∀ id, (∃ s, d.service.session? id = some s) ↔ ∃ k, d.life id = [.opens k id]
  /-- it has been ended when the errand that has taken it out is answered -/
  ended : ∀ k t result id, d.errands[k]? = some t → t.stage = .answered result →
    .removes k id ∈ d.log → (∃ j, d.life id = lifetime j k id) ∧ d.HasEnded id
  /-- and it can be ended, without waiting for anybody -/
  ends : ∀ k id, .removes k id ∈ d.log →
    ∃ d' j, Works k d d' ∧ d'.life id = lifetime j k id ∧ d'.HasEnded id
  /-- who came after a session was taken out does not get at its project, and nothing that they do
  changes the session -/
  late : ∀ k j t id s, d.errands[k]? = some t → d.CameAfter k (.removes j id) →
    d.find? id = some s → .reaches k id ∉ d.log ∧ ∀ d', d.Move k t d' → d'.find? id = some s
  /-- who names a session that had been taken out before, or was never opened, is told that it is
  not there, unless the request is out of bounds anyway; and does nothing -/
  absent : ∀ k t r id, d.errands[k]? = some t → t.order = .request r → r.session? = some id →
    id ≠ [] → (∃ j, d.CameAfter k (.removes j id)) ∨ d.life id = [] →
    (∀ e ∈ d.log, e.errand = k → e = .enters k) ∧
      (t.stage = .entered ∨
        ∃ e, t.stage = .answered (.outcome (.error e)) ∧ Service.Absent id r e)
  /-- there is always an answer to such a request, and to give it changes nothing -/
  refused : ∀ k t r id, d.errands[k]? = some t → t.stage = .entered → t.order = .request r →
    r.session? = some id → id ≠ [] → d.service.session? id = none →
    ∃ e, Service.Absent id r e ∧
      ∀ d', d.Move k t d' ↔ d' = d.set k { t with stage := .answered (.outcome (.error e)) }
  /-- a request that fails has not opened a session -/
  failed : ∀ k t e id, d.errands[k]? = some t → t.stage = .answered (.outcome (.error e)) →
    .opens k id ∉ d.log
  /-- and what comes next and is let through before anything else happens comes to what the service
  does for it at one go -/
  alone : ∀ order : Order, ∃ d' t, Reaches d d' ∧ d'.errands = d.errands ++ [t] ∧
    t.order = order ∧ t.stage = .answered (order.fulfil d.service).1 ∧
    d'.service = (order.fulfil d.service).2

theorem Tidy.account (h : d.Tidy) : d.Accounted where
  up := h.up
  life := h.toKept.life_begins
  effect s hs := by
    obtain ⟨did, hdid, hnoted⟩ := h.toKept.effect hs
    refine ⟨fun hclose => hdid.shows .close ((hnoted .close).mpr hclose), ?_, ?_⟩
    · rw [← hnoted .stop]
      exact hdid.isStopped_iff
    · rw [← hnoted .cancel]
      exact hdid.isWatched_iff
  stored _ := h.toKept.session?_iff
  ended k t result id ht hstage hremoves := by
    obtain ⟨j, hlife⟩ := h.toKept.life_of_pending hremoves ht (pending_of_answered hstage id)
    exact ⟨⟨j, hlife⟩, h.toKept.hasEnded hlife⟩
  ends _ _ hremoves := by
    obtain ⟨d', j, hworks, hlife⟩ := h.works_life hremoves
    exact ⟨d', j, hworks, hlife, (h.run hworks.reaches).toKept.hasEnded hlife⟩
  late k j t id s ht hcame hfind := by
    have hpast := (h.errands k t ht).came j id hcame
    refine ⟨fun hreaches => ?_, fun d' hmove => h.move_late ht hmove hpast hfind⟩
    obtain ⟨t', ht', hsession⟩ := h.reached k id hreaches
    cases Option.some.inj (ht.symm.trans ht')
    exact ((h.errands k t ht).session id hsession).1 hpast
  absent k t r id ht horder hnames hid habsent := by
    have hfits := h.errands k t ht
    have habsent' : id ∈ t.past ∨ d.life id = [] := by
      refine habsent.imp_left ?_
      rintro ⟨j, hcame⟩
      exact hfits.came j id hcame
    obtain ⟨hidle, -, hstage⟩ := hfits.told r id horder hnames hid habsent'
    exact ⟨hidle, hstage⟩
  refused k t r id ht hstage horder hnames hid habsent :=
    h.move_absent ht hstage horder hnames hid habsent
  failed k t e id ht hstage hopens := by
    obtain ⟨t', o, ht', hstage'⟩ := h.opened k id hopens
    cases Option.some.inj (ht.symm.trans ht')
    cases hstage.symm.trans hstage'
  alone order := h.fulfil_alone order

/-- **Every session is accounted for**, in whatever order requests come and sessions are closed,
destroyed and swept. -/
theorem accounted {v : Service} (hids : Function.Injective v.sessionId) (hnone : v.sessions = [])
    (h : Reaches (start v) d) : d.Accounted :=
  ((tidy_start hids hnone).run h).account

/-- A service with one class, whose sessions are told apart by the lengths of their names. -/
def oneClass : Service where
  classes := .ofList [{ name := "a" }]
  sessionId n := List.replicate (n + 1) 49

/-- A session is swept while a request that has found it is under way. The request still gets at the
project; a client that closes the session afterwards is told that it is not there; and the sweep
ends the session. -/
theorem accounted_sweptInUse : ∃ d, Reaches (start oneClass) d ∧
    d.log = [.enters 0, .opens 0 (oneClass.sessionId 0), .enters 1, .enters 2,
      .removes 2 (oneClass.sessionId 0), .reaches 1 (oneClass.sessionId 0), .enters 3] ∧
    d.errands[3]?.map (·.stage) =
      some (.answered (.outcome (.error (.unknownSession (oneClass.sessionId 0))))) ∧
    d.Accounted ∧
    ∃ d' j, Works 2 d d' ∧ d'.life (oneClass.sessionId 0) = lifetime j 2 (oneClass.sessionId 0) ∧
      d'.HasEnded (oneClass.sessionId 0) := by
  obtain ⟨p, hp, -⟩ := Project.exists_create
    (o := { id := 1, root := "a", classes := oneClass.classes }) (P := fun _ => true)
    (by decide +kernel)
  have hopened : Reaches (start oneClass) _ :=
    (((Relation.ReflTransGen.single (.comes (.request (.open [] "a" false false)))).tail
      (.moves (k := 0) rfl (.restores rfl rfl (by decide) rfl))).tail
      (.moves (k := 0) rfl (.builds rfl rfl hp))).tail
      (.moves (k := 0) rfl (.opens rfl rfl rfl))
  have hfound : Reaches (start oneClass) _ :=
    ((hopened.tail (.comes (.request (.state (oneClass.sessionId 0))))).tail
      (.moves (k := 1) rfl (.finds rfl rfl rfl (fun hclose => by cases hclose) rfl))).tail
      (.comes (.sweep 0))
  have hswept : Reaches (start oneClass) _ :=
    (hfound.tail
      (.moves (k := 2) rfl (.removes rfl (.sweep 0 fun _ => true) (List.Perm.refl _)))).tail
      (.moves (k := 1) rfl (.reaches rfl rfl fun s =>
        s.stays_ask (Service.careful_controlJob (f := fun p => (.ok (), p)) fun _ _ => .refl _)))
  have hrefused : Reaches (start oneClass) _ :=
    (hswept.tail (.comes (.request (.close (oneClass.sessionId 0))))).tail
      (.moves (k := 3) rfl (.refuses rfl rfl rfl))
  have hids : Function.Injective oneClass.sessionId := by
    intro n m hnm
    have hlength := congrArg List.length hnm
    simpa [oneClass] using hlength
  have haccount := accounted hids rfl hrefused
  refine ⟨_, hrefused, rfl, rfl, haccount, haccount.ends 2 (oneClass.sessionId 0) ?_⟩
  show .removes 2 (oneClass.sessionId 0) ∈ [DeskEvent.enters 0, .opens 0 (oneClass.sessionId 0),
    .enters 1, .enters 2, .removes 2 (oneClass.sessionId 0), .reaches 1 (oneClass.sessionId 0),
    .enters 3]
  simp

end Desk

end SchemePlayer
