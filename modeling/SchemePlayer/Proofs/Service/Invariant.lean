import Mathlib.Data.List.Nodup
import SchemePlayer.Proofs.Service.Desk

/-!
# What holds while many requests are in flight

Sessions may be taken out of the store by clients, by the server and by its sweeps, while requests
are in flight that have found them before. Whatever comes next, sessions and errands, which are the
requests in flight, fit together.

- `Desk.life`: what has happened to a session as such.
- `Desk.Kept`: what holds of the sessions, by way of `Desk.Buried` for those that were taken out and
  are being closed; `Errand.Fits`: what holds of an errand.
- `Desk.Tidy`: all of it. What an errand does concerns only that errand and the sessions
  (`Tidy.goes`), and most of what it does leaves the lists of sessions alone (`Kept.alike`).
-/

namespace SchemePlayer

/-! ### The life of a session -/

/-- Whether something happens to a session as such. -/
def DeskEvent.isAbout (id : Text) : DeskEvent → Bool
  | opens _ id' | removes _ id' | does _ _ id' => id' = id
  | enters _ | reaches _ _ => false

/-- The errand that does something. -/
def DeskEvent.errand : DeskEvent → Nat
  | enters k | opens k _ | removes k _ | does k _ _ | reaches k _ => k

/-- What has happened to a session. -/
def Desk.life (d : Desk) (id : Text) : List DeskEvent := d.log.filter (·.isAbout id)

/-- An errand came after something had happened. -/
def Desk.CameAfter (d : Desk) (k : Nat) (e : DeskEvent) : Prop :=
  ∃ before after, d.log = before ++ .enters k :: after ∧ e ∈ before

/-- What is left to be done for a session. -/
def Errand.pending (t : Errand) (id : Text) : List Chore :=
  (t.chores.filter (·.1 = id)).map Prod.snd

/-- A session was taken out by the errand `j`, which has done some of what is to be done; and this
is what shows in the session. -/
structure Desk.Buried (d : Desk) (s : Session) (k j : Nat) (t : Errand) (did : List Chore) :
    Prop where
  errand : d.errands[j]? = some t
  life : d.life s.id = .opens k s.id :: .removes j s.id :: did.map (.does j · s.id)
  chores : did ++ t.pending s.id = Chore.all
  effect : s.Did did

/-- What holds of the sessions. -/
structure Desk.Kept (d : Desk) : Prop where
  injective : Function.Injective d.service.sessionId
  ids : ∀ s ∈ d.all, ∃ n < d.service.opened, s.id = d.service.sessionId n
  distinct : (d.all.map Session.id).Nodup
  stored : ∀ s ∈ d.service.sessions, s.Did [] ∧ ∃ k, d.life s.id = [.opens k s.id]
  buried : ∀ s ∈ d.gone, ∃ k j t did, d.Buried s k j t did
  unknown : ∀ id, id ∉ d.all.map Session.id → d.life id = []

/-- What holds of the errand `t` with number `k`. -/
structure Errand.Fits (d : Desk) (k : Nat) (t : Errand) : Prop where
  past : ∀ id ∈ t.past, id ∈ d.gone.map Session.id
  came : ∀ j id, d.CameAfter k (.removes j id) → id ∈ t.past
  session : ∀ id, t.session = some id → id ∉ t.past ∧ id ∈ d.all.map Session.id
  fresh : t.stage = .entered → t.session = none
  pending : ∀ id, t.pending id ≠ [] → .removes k id ∈ d.log
  removed : ∀ id, .removes k id ∈ d.log → id ∉ t.past
  built : ∀ p, t.stage = .built p → p.subscriptions = []
  /-- who names a session that is not there is told so, and nothing else is done for it -/
  told : ∀ r id, t.order = .request r → r.session? = some id → id ≠ [] →
    id ∈ t.past ∨ d.life id = [] →
    (∀ e ∈ d.log, e.errand = k → e = .enters k) ∧ t.session = none ∧
      (t.stage = .entered ∨
        ∃ e, t.stage = .answered (.outcome (.error e)) ∧ Service.Absent id r e)

/-- What holds at every moment. -/
structure Desk.Tidy (d : Desk) : Prop extends d.Kept where
  up : d.isDown = false
  errands : ∀ (k : Nat) (t : Errand), d.errands[k]? = some t → t.Fits d k
  known : ∀ e ∈ d.log, e.errand < d.errands.length
  reached : ∀ k id, .reaches k id ∈ d.log → ∃ t, d.errands[k]? = some t ∧ t.session = some id
  opened : ∀ k id, .opens k id ∈ d.log →
    ∃ t o, d.errands[k]? = some t ∧ t.stage = .answered (.outcome (.ok o))

namespace Desk

variable {d d' : Desk} {k : Nat} {t : Errand} {id : Text}

theorem mem_life {e : DeskEvent} : e ∈ d.life id ↔ e ∈ d.log ∧ e.isAbout id = true :=
  List.mem_filter

theorem find?_eq_some {s : Session} (h : d.find? id = some s) : s ∈ d.all ∧ s.id = id := by
  have hid := List.find?_some (show List.find? _ d.all = some s from h)
  exact ⟨List.mem_of_find?_eq_some h, of_decide_eq_true hid⟩

theorem session?_eq_some {v : Service} {s : Session} (h : v.session? id = some s) :
    s ∈ v.sessions ∧ s.id = id := by
  have hid := List.find?_some (show List.find? _ v.sessions = some s from h)
  exact ⟨List.mem_of_find?_eq_some h, of_decide_eq_true hid⟩

/-! ### Sessions -/

/-- Sessions that have the same name are the same. -/
theorem Kept.eq_of_id (h : d.Kept) {s s' : Session} (hs : s ∈ d.all) (hs' : s' ∈ d.all)
    (hid : s.id = s'.id) : s = s' :=
  List.inj_on_of_nodup_map h.distinct hs hs' hid

theorem Kept.find?_of_mem (h : d.Kept) {s : Session} (hs : s ∈ d.all) : d.find? s.id = some s := by
  obtain ⟨s', hfind⟩ : ∃ s', d.find? s.id = some s' :=
    Option.isSome_iff_exists.mp (List.find?_isSome.mpr ⟨s, hs, decide_eq_true rfl⟩)
  obtain ⟨hs', hid⟩ := find?_eq_some hfind
  rw [hfind, h.eq_of_id hs' hs hid]

/-- A session is open, or it was taken out. -/
theorem Kept.not_mem_gone (h : d.Kept) {s s' : Session} (hs : s ∈ d.service.sessions)
    (hs' : s' ∈ d.gone) : s.id ≠ s'.id := by
  have hdistinct := h.distinct
  rw [all, List.map_append] at hdistinct
  exact (List.nodup_append.mp hdistinct).2.2 _ (List.mem_map_of_mem hs) _ (List.mem_map_of_mem hs')

/-- Who has been taken out by an errand was not taken out by another. -/
theorem Kept.buried_of_removes (h : d.Kept) (hremoves : .removes k id ∈ d.log) :
    ∃ s ∈ d.gone, s.id = id ∧ ∃ k' t did, d.Buried s k' k t did := by
  have hlife : .removes k id ∈ d.life id := mem_life.mpr ⟨hremoves, decide_eq_true rfl⟩
  have hall : id ∈ d.all.map Session.id := by
    by_contra hnew
    rw [h.unknown id hnew] at hlife
    cases hlife
  obtain ⟨s, hs, rfl⟩ := List.mem_map.mp hall
  rcases List.mem_append.mp hs with hs | hs
  · obtain ⟨-, k', hopen⟩ := h.stored s hs
    rw [hopen] at hlife
    cases List.mem_singleton.mp hlife
  · obtain ⟨k', j, t, did, hburied⟩ := h.buried s hs
    have hk : k = j := by
      have hmem := hlife
      rw [hburied.life] at hmem
      simpa using hmem
    exact ⟨s, hs, rfl, k', t, did, hk ▸ hburied⟩

/-- What was taken out, or never opened, is not there. -/
theorem Kept.absent (h : d.Kept) (hid : id ∈ d.gone.map Session.id ∨ d.life id = []) :
    d.service.session? id = none := by
  cases hsession : d.service.session? id with
  | none => rfl
  | some s =>
    exfalso
    obtain ⟨hs, rfl⟩ := session?_eq_some hsession
    rcases hid with hgone | hnever
    · obtain ⟨s', hs', hid⟩ := List.mem_map.mp hgone
      exact h.not_mem_gone hs hs' hid.symm
    · obtain ⟨-, k, hopen⟩ := h.stored s hs
      rw [hnever] at hopen
      cases hopen

/-- Things that happen in sessions leave the lists of sessions as they are. -/
structure Alike (d d' : Desk) : Prop where
  sessions : ∀ s' ∈ d'.service.sessions, ∃ s ∈ d.service.sessions, s.Stays s'
  gone : ∀ s' ∈ d'.gone, ∃ s ∈ d.gone, s.Stays s'
  all : d'.all.map Session.id = d.all.map Session.id
  goneIds : d'.gone.map Session.id = d.gone.map Session.id
  opened : d'.service.opened = d.service.opened
  sessionId : d'.service.sessionId = d.service.sessionId

theorem alike_of_eq (hsessions : d'.service.sessions = d.service.sessions)
    (hgone : d'.gone = d.gone) (hopened : d'.service.opened = d.service.opened)
    (hid : d'.service.sessionId = d.service.sessionId) : d.Alike d' where
  sessions s hs := ⟨s, hsessions ▸ hs, .refl s⟩
  gone s hs := ⟨s, hgone ▸ hs, .refl s⟩
  all := by rw [Desk.all, Desk.all, hsessions, hgone]
  goneIds := by rw [hgone]
  opened := hopened
  sessionId := hid

/-- Some sessions after one of them was put in the place of the one with its name. -/
theorem map_id_replace (sessions : List Session) (s : Session) :
    (sessions.map fun t => if t.id = s.id then s else t).map Session.id =
      sessions.map Session.id := by
  rw [List.map_map]
  refine List.map_congr_left fun t _ => ?_
  show Session.id (if t.id = s.id then s else t) = t.id
  split
  · rename_i hid
    exact hid.symm
  · rfl

theorem mem_replace {sessions : List Session} {s s₂ : Session}
    (h : s₂ ∈ sessions.map fun t => if t.id = s.id then s else t) :
    ∃ t ∈ sessions, s₂.id = t.id ∧ (s₂ = s ∨ s₂ = t ∧ t.id ≠ s.id) := by
  obtain ⟨t, ht, rfl⟩ := List.mem_map.mp h
  by_cases hid : t.id = s.id
  · rw [if_pos hid]
    exact ⟨t, ht, hid.symm, .inl rfl⟩
  · rw [if_neg hid]
    exact ⟨t, ht, rfl, .inr ⟨rfl, hid⟩⟩

theorem Kept.alike_put (h : d.Kept) {s s' : Session} (hs : s ∈ d.all) (hstays : s.Stays s') :
    d.Alike (d.put s') := by
  have hsame : ∀ {sessions : List Session}, (∀ t ∈ sessions, t ∈ d.all) →
      ∀ s₂ ∈ sessions.map fun t => if t.id = s'.id then s' else t, ∃ t ∈ sessions, t.Stays s₂ := by
    intro sessions hsessions s₂ hs₂
    obtain ⟨t, ht, hid, hcase⟩ := mem_replace hs₂
    refine ⟨t, ht, ?_⟩
    rcases hcase with rfl | ⟨rfl, -⟩
    · rw [← h.eq_of_id hs (hsessions t ht) (hstays.id.symm.trans hid)]
      exact hstays
    · exact .refl _
  refine ⟨hsame fun t ht => List.mem_append_left _ ht,
    hsame fun t ht => List.mem_append_right _ ht, ?_, map_id_replace _ _, rfl, rfl⟩
  rw [Desk.all, Desk.all, List.map_append, List.map_append]
  exact congrArg₂ _ (map_id_replace _ _) (map_id_replace _ _)

/-- The sessions are kept while nothing happens but in them. -/
theorem Kept.alike (h : d.Kept) (halike : d.Alike d') (hlife : ∀ id, d'.life id = d.life id)
    (herrands : ∀ (k : Nat) (t : Errand), d.errands[k]? = some t →
      ∃ t' : Errand, d'.errands[k]? = some t' ∧ t'.chores = t.chores) : d'.Kept where
  injective := halike.sessionId ▸ h.injective
  ids s hs := by
    have hid : s.id ∈ d.all.map Session.id := halike.all ▸ List.mem_map_of_mem hs
    obtain ⟨s', hs', hsame⟩ := List.mem_map.mp hid
    rw [halike.opened, halike.sessionId, ← hsame]
    exact h.ids s' hs'
  distinct := halike.all ▸ h.distinct
  stored s hs := by
    obtain ⟨s', hs', hstays⟩ := halike.sessions s hs
    rw [hlife, hstays.id]
    exact (h.stored s' hs').imp_left fun hdid => hdid.stays hstays
  buried s hs := by
    obtain ⟨s', hs', hstays⟩ := halike.gone s hs
    obtain ⟨k, j, t, did, hburied⟩ := h.buried s' hs'
    obtain ⟨t', ht', hchores⟩ := herrands j t hburied.errand
    refine ⟨k, j, t', did, ht', ?_, ?_, hburied.effect.stays hstays⟩
    · rw [hlife, hstays.id]
      exact hburied.life
    · rw [Errand.pending, hchores, hstays.id]
      exact hburied.chores
  unknown id hid := by
    rw [hlife]
    exact h.unknown id (halike.all ▸ hid)

theorem life_append {es : List DeskEvent} (hlog : d'.log = d.log ++ es) (id : Text) :
    d'.life id = d.life id ++ es.filter (·.isAbout id) := by
  rw [life, hlog, List.filter_append]
  rfl

/-! ### Errands -/

/-- What an errand has found out when it came. -/
theorem cameAfter_append {es : List DeskEvent} (hlog : d'.log = d.log ++ es)
    (hes : .enters k ∉ es) {e : DeskEvent} (h : d'.CameAfter k e) : d.CameAfter k e := by
  obtain ⟨before, after, hsplit, he⟩ := h
  rw [hlog] at hsplit
  rcases List.append_eq_append_iff.mp hsplit with ⟨between, -, hlate⟩ | ⟨between, hearly, hlate⟩
  · rw [hlate] at hes
    exact absurd (List.mem_append_right _ (.head _)) hes
  · cases between with
    | nil =>
      rw [List.nil_append] at hlate
      exact absurd (hlate ▸ .head _) hes
    | cons first between =>
      obtain ⟨rfl, -⟩ := List.cons.inj hlate
      exact ⟨before, between, hearly, he⟩

/-- What had happened before an errand came is all that had happened. -/
theorem mem_of_cameAfter (hlog : d'.log = d.log ++ [.enters k]) (hnew : .enters k ∉ d.log)
    {e : DeskEvent} (h : d'.CameAfter k e) : e ∈ d.log := by
  obtain ⟨before, after, hsplit, he⟩ := h
  rw [hlog] at hsplit
  rcases List.append_eq_append_iff.mp hsplit with ⟨between, hbefore, hlast⟩ |
    ⟨between, hbefore, hlast⟩
  · cases between with
    | nil => rwa [hbefore, List.append_nil] at he
    | cons first between => simp at hlast
  · cases between with
    | nil => rwa [hbefore, List.append_nil]
    | cons first between =>
      obtain ⟨rfl, -⟩ := List.cons.inj hlast
      refine absurd ?_ hnew
      rw [hbefore]
      exact List.mem_append_right _ (.head _)

end Desk

section

variable {d d' : Desk} {k : Nat} {t : Errand} {es : List DeskEvent}

/-- An errand stays what it is while others get on, and while it gets at the session that was found
for it. -/
theorem Errand.Fits.mono (h : t.Fits d k) (hlog : d'.log = d.log ++ es) (hes : .enters k ∉ es)
    (hothers : t.session = none → ∀ e ∈ es, e.errand ≠ k) (hremoves : ∀ id, .removes k id ∉ es)
    (hgone : ∀ id ∈ d.gone.map Session.id, id ∈ d'.gone.map Session.id)
    (hall : ∀ id ∈ d.all.map Session.id, id ∈ d'.all.map Session.id) : t.Fits d' k where
  past id hid := hgone id (h.past id hid)
  came j id hcame := h.came j id (Desk.cameAfter_append hlog hes hcame)
  session id hid := (h.session id hid).imp_right (hall id)
  fresh := h.fresh
  pending id hid := hlog ▸ List.mem_append_left _ (h.pending id hid)
  removed id hid := by
    rw [hlog] at hid
    exact h.removed id ((List.mem_append.mp hid).resolve_right (hremoves id))
  built := h.built
  told r id horder hnames hid habsent := by
    have habsent' : id ∈ t.past ∨ d.life id = [] := by
      refine habsent.imp_right fun hnever => ?_
      rw [Desk.life_append hlog] at hnever
      exact (List.append_eq_nil_iff.mp hnever).1
    obtain ⟨hidle, hsession, hstage⟩ := h.told r id horder hnames hid habsent'
    refine ⟨fun e he hk => ?_, hsession, hstage⟩
    rw [hlog] at he
    rcases List.mem_append.mp he with he | he
    · exact hidle e he hk
    · exact absurd hk (hothers hsession e he)

/-- An errand gets on in what it does to sessions. -/
theorem Errand.Fits.onward (h : t.Fits d k) (hlog : d'.log = d.log ++ es) (hes : .enters k ∉ es)
    (hgone : ∀ id ∈ d.gone.map Session.id, id ∈ d'.gone.map Session.id)
    (hall : ∀ id ∈ d.all.map Session.id, id ∈ d'.all.map Session.id) {stage : ErrandStage}
    (hstage : stage ≠ .entered) (hbuilt : ∀ p, stage ≠ .built p)
    (hpending : ∀ id, ({ t with stage } : Errand).pending id ≠ [] → .removes k id ∈ d'.log)
    (hremoves : ∀ id, .removes k id ∈ es → id ∉ t.past)
    (hthere : ∀ r id, t.order = .request r → r.session? = some id → id ≠ [] →
      ¬(id ∈ t.past ∨ d.life id = [])) : ({ t with stage } : Errand).Fits d' k where
  past id hid := hgone id (h.past id hid)
  came j id hcame := h.came j id (Desk.cameAfter_append hlog hes hcame)
  session id hid := (h.session id hid).imp_right (hall id)
  fresh hfresh := absurd hfresh hstage
  pending := hpending
  removed id hid := by
    rw [hlog] at hid
    exact (List.mem_append.mp hid).elim (h.removed id) (hremoves id)
  built p hp := absurd hp (hbuilt p)
  told r id horder hnames hid habsent := by
    refine absurd (habsent.imp_right fun hnever => ?_) (hthere r id horder hnames hid)
    rw [Desk.life_append hlog] at hnever
    exact (List.append_eq_nil_iff.mp hnever).1

theorem Errand.Fits.set (h : t.Fits d k) (t' : Errand) : t.Fits (d.set k t') k :=
  h.mono (List.append_nil _).symm List.not_mem_nil (fun _ _ he => absurd he List.not_mem_nil)
    (fun _ => List.not_mem_nil) (fun _ => id) (fun _ => id)

/-- An errand gets on without doing anything to a session. -/
theorem Errand.Fits.on (h : t.Fits d k) {stage : ErrandStage}
    (hchores : ({ t with stage } : Errand).chores = t.chores) (hstage : stage ≠ .entered)
    (hbuilt : ∀ p, stage = .built p → p.subscriptions = [])
    (htold : ∀ r id, t.order = .request r → r.session? = some id → id ≠ [] →
      id ∈ t.past ∨ d.life id = [] →
      (t.stage = .entered ∨ ∃ o, t.stage = .answered o) →
      ∃ e, stage = .answered (.outcome (.error e)) ∧ Service.Absent id r e) :
    ({ t with stage } : Errand).Fits d k where
  past := h.past
  came := h.came
  session := h.session
  fresh hfresh := absurd hfresh hstage
  pending id hid := by
    rw [Errand.pending, hchores] at hid
    exact h.pending id hid
  removed := h.removed
  built := hbuilt
  told r id horder hnames hid habsent := by
    obtain ⟨hidle, hsession, hold⟩ := h.told r id horder hnames hid habsent
    refine ⟨hidle, hsession, .inr (htold r id horder hnames hid habsent ?_)⟩
    rcases hold with hold | ⟨e, hold, -⟩
    · exact .inl hold
    · exact .inr ⟨_, hold⟩

end

namespace Desk

variable {d d' : Desk} {k : Nat} {t t' : Errand} {es : List DeskEvent}

theorem errands_set (ht : d.errands[k]? = some t) {j : Nat} {t₂ : Errand}
    (h : (d.errands.set k t')[j]? = some t₂) :
    (j = k ∧ t₂ = t') ∨ (j ≠ k ∧ d.errands[j]? = some t₂) := by
  rw [List.getElem?_set] at h
  by_cases hj : k = j
  · subst hj
    rw [if_pos rfl, if_pos (List.getElem?_eq_some_iff.mp ht).1] at h
    exact .inl ⟨rfl, (Option.some.inj h).symm⟩
  · rw [if_neg hj] at h
    exact .inr ⟨Ne.symm hj, h⟩

theorem errands_set_self (ht : d.errands[k]? = some t) (t' : Errand) :
    (d.errands.set k t')[k]? = some t' := by
  rw [List.getElem?_set, if_pos rfl, if_pos (List.getElem?_eq_some_iff.mp ht).1]

theorem errands_set_of_ne {j : Nat} (hj : j ≠ k) {t₂ : Errand} (h : d.errands[j]? = some t₂)
    (t' : Errand) : (d.errands.set k t')[j]? = some t₂ := by
  rw [List.getElem?_set, if_neg (Ne.symm hj), h]

/-- What an errand has to do with the others when it gets on. -/
structure Goes (d d' : Desk) (k : Nat) (t t' : Errand) (es : List DeskEvent) : Prop where
  errand : d.errands[k]? = some t
  up : d'.isDown = d.isDown
  errands : d'.errands = d.errands.set k t'
  log : d'.log = d.log ++ es
  events : ∀ e ∈ es, e.errand = k ∧ e ≠ .enters k
  gone : ∀ id ∈ d.gone.map Session.id, id ∈ d'.gone.map Session.id
  all : ∀ id ∈ d.all.map Session.id, id ∈ d'.all.map Session.id
  session : ∀ id, t.session = some id → t'.session = some id
  unanswered : ∀ o, t.stage ≠ .answered o ∨ t'.stage = t.stage
  reaches : ∀ id, .reaches k id ∈ es → t'.session = some id
  opens : ∀ id, .opens k id ∈ es → ∃ o, t'.stage = .answered (.outcome (.ok o))

/-- It is enough to look at the errand that gets on, and at the sessions. -/
theorem Tidy.goes (h : d.Tidy) (hgoes : Goes d d' k t t' es) (hkept : d'.Kept)
    (hfits : t'.Fits d' k) : d'.Tidy where
  toKept := hkept
  up := hgoes.up.trans h.up
  errands j t₂ ht₂ := by
    rw [hgoes.errands] at ht₂
    rcases errands_set hgoes.errand ht₂ with ⟨rfl, rfl⟩ | ⟨hj, ht₂⟩
    · exact hfits
    · refine (h.errands j t₂ ht₂).mono hgoes.log (fun henters => ?_) (fun _ e he => ?_)
        (fun id hid => ?_) hgoes.gone hgoes.all
      · exact hj (hgoes.events _ henters).1
      · rw [(hgoes.events e he).1]
        exact hj.symm
      · exact hj (hgoes.events _ hid).1
  known e he := by
    rw [hgoes.errands, List.length_set]
    rw [hgoes.log] at he
    rcases List.mem_append.mp he with he | he
    · exact h.known e he
    · rw [(hgoes.events e he).1]
      exact (List.getElem?_eq_some_iff.mp hgoes.errand).1
  reached j id hmem := by
    rw [hgoes.errands]
    rw [hgoes.log] at hmem
    rcases List.mem_append.mp hmem with hmem | hmem
    · obtain ⟨t₂, ht₂, hsession⟩ := h.reached j id hmem
      by_cases hj : j = k
      · subst hj
        cases Option.some.inj (hgoes.errand.symm.trans ht₂)
        exact ⟨t', errands_set_self hgoes.errand t', hgoes.session id hsession⟩
      · exact ⟨t₂, errands_set_of_ne hj ht₂ t', hsession⟩
    · obtain rfl : j = k := (hgoes.events _ hmem).1
      exact ⟨t', errands_set_self hgoes.errand t', hgoes.reaches id hmem⟩
  opened j id hmem := by
    rw [hgoes.errands]
    rw [hgoes.log] at hmem
    rcases List.mem_append.mp hmem with hmem | hmem
    · obtain ⟨t₂, o, ht₂, hstage⟩ := h.opened j id hmem
      by_cases hj : j = k
      · subst hj
        cases Option.some.inj (hgoes.errand.symm.trans ht₂)
        refine ⟨t', o, errands_set_self hgoes.errand t', ?_⟩
        rcases hgoes.unanswered (.outcome (.ok o)) with hun | hsame
        · exact absurd hstage hun
        · exact hsame.trans hstage
      · exact ⟨t₂, o, errands_set_of_ne hj ht₂ t', hstage⟩
    · obtain rfl : j = k := (hgoes.events _ hmem).1
      obtain ⟨o, hstage⟩ := hgoes.opens id hmem
      exact ⟨t', o, errands_set_self hgoes.errand t', hstage⟩

/-- Nothing happens but in sessions. -/
theorem Tidy.alike (h : d.Tidy) (halike : d.Alike d') (hup : d'.isDown = d.isDown)
    (hlog : d'.log = d.log) (herrands : d'.errands = d.errands) : d'.Tidy where
  toKept := h.toKept.alike halike (fun id => by rw [life, hlog, life]) fun k t ht =>
    ⟨t, herrands ▸ ht, rfl⟩
  up := hup.trans h.up
  errands k t ht := (h.errands k t (herrands ▸ ht)).mono (hlog.trans (List.append_nil _).symm)
    List.not_mem_nil (fun _ _ he => absurd he List.not_mem_nil) (fun _ => List.not_mem_nil)
    (fun id hid => halike.goneIds ▸ hid) (fun id hid => halike.all ▸ hid)
  known e he := by
    rw [herrands]
    exact h.known e (hlog ▸ he)
  reached k id hmem := by
    rw [herrands]
    exact h.reached k id (hlog ▸ hmem)
  opened k id hmem := by
    rw [herrands]
    exact h.opened k id (hlog ▸ hmem)

/-! ### Steps that leave the lists of sessions alone -/

theorem alike_set (d : Desk) (k : Nat) (t : Errand) : d.Alike (d.set k t) :=
  alike_of_eq rfl rfl rfl rfl

theorem chores_set (ht : d.errands[k]? = some t) (hchores : t'.chores = t.chores) (j : Nat)
    (t₂ : Errand) (ht₂ : d.errands[j]? = some t₂) :
    ∃ t₃ : Errand, (d.errands.set k t')[j]? = some t₃ ∧ t₃.chores = t₂.chores := by
  by_cases hj : j = k
  · subst hj
    cases Option.some.inj (ht.symm.trans ht₂)
    exact ⟨t', errands_set_self ht t', hchores⟩
  · exact ⟨t₂, errands_set_of_ne hj ht₂ t', rfl⟩

theorem Kept.set (h : d.Kept) (ht : d.errands[k]? = some t) (hchores : t'.chores = t.chores) :
    (d.set k t').Kept :=
  h.alike (alike_set d k t') (fun _ => rfl) (chores_set ht hchores)

theorem goes_set (ht : d.errands[k]? = some t) (hun : ∀ o, t.stage ≠ .answered o)
    (hsession : ∀ id, t.session = some id → t'.session = some id) :
    Goes d (d.set k t') k t t' [] where
  errand := ht
  up := rfl
  errands := rfl
  log := (List.append_nil _).symm
  events _ he := absurd he List.not_mem_nil
  gone _ := id
  all _ := id
  session := hsession
  unanswered o := .inl (hun o)
  reaches _ hmem := absurd hmem List.not_mem_nil
  opens _ hmem := absurd hmem List.not_mem_nil

/-- An errand that nothing was answered to gets on without doing anything to a session. -/
theorem Tidy.on (h : d.Tidy) (ht : d.errands[k]? = some t) (hun : ∀ o, t.stage ≠ .answered o)
    {stage : ErrandStage} (hchores : ({ t with stage } : Errand).chores = t.chores)
    (hstage : stage ≠ .entered) (hbuilt : ∀ p, stage = .built p → p.subscriptions = [])
    (htold : ∀ r id, t.order = .request r → r.session? = some id → id ≠ [] →
      id ∈ t.past ∨ d.life id = [] → t.stage = .entered →
      ∃ e, stage = .answered (.outcome (.error e)) ∧ Service.Absent id r e) :
    (d.set k { t with stage }).Tidy := by
  refine h.goes (goes_set ht hun fun _ => id) (h.toKept.set ht hchores) ?_
  refine Errand.Fits.set ?_ _
  refine (h.errands k t ht).on hchores hstage hbuilt fun r id horder hnames hid habsent hold => ?_
  rcases hold with hentered | ⟨o, hanswered⟩
  · exact htold r id horder hnames hid habsent hentered
  · exact absurd hanswered (hun o)

/-- An errand that has just come. -/
theorem Tidy.fits_newcomer (h : d.Tidy) (order : Order) (errands : List Errand) :
    Errand.Fits { d with errands, log := d.log ++ [.enters d.errands.length] }
      d.errands.length { order, past := d.gone.map Session.id } where
  past _ hid := hid
  came j id hcame := by
    have hnew : .enters d.errands.length ∉ d.log := fun hmem =>
      Nat.lt_irrefl _ (h.known _ hmem)
    obtain ⟨s, hs, hid, -⟩ := h.buried_of_removes (mem_of_cameAfter rfl hnew hcame)
    exact List.mem_map.mpr ⟨s, hs, hid⟩
  session id hid := by cases hid
  fresh _ := rfl
  pending id hid := absurd rfl hid
  removed id hid := by
    rcases List.mem_append.mp hid with hid | hid
    · exact absurd (h.known _ hid) (Nat.lt_irrefl _)
    · cases List.mem_singleton.mp hid
  built p hp := by cases hp
  told r id _ _ _ _ := by
    refine ⟨fun e he hk => ?_, rfl, .inl rfl⟩
    rcases List.mem_append.mp he with he | he
    · exact absurd hk (Nat.ne_of_lt (h.known e he))
    · exact List.mem_singleton.mp he

/-- An errand comes. -/
theorem Tidy.comes (h : d.Tidy) (order : Order) :
    ({ d with
        errands := d.errands ++ [{ order, past := d.gone.map Session.id }]
        log := d.log ++ [.enters d.errands.length] } : Desk).Tidy := by
  have hold : ∀ {j : Nat} {t : Errand}, d.errands[j]? = some t →
      (d.errands ++ [({ order, past := d.gone.map Session.id } : Errand)])[j]? = some t := by
    intro j t ht
    rw [List.getElem?_append_left (List.getElem?_eq_some_iff.mp ht).1, ht]
  have hmem : ∀ e ∈ d.log ++ [DeskEvent.enters d.errands.length],
      e ∈ d.log ∨ e = .enters d.errands.length := fun e he =>
    (List.mem_append.mp he).imp_right List.mem_singleton.mp
  refine ⟨h.toKept.alike (alike_of_eq rfl rfl rfl rfl) (fun id => ?_) fun j t ht =>
    ⟨t, hold ht, rfl⟩, h.up, fun j t ht => ?_, fun e he => ?_, fun j id he => ?_,
    fun j id he => ?_⟩
  · rw [life_append rfl]
    exact List.append_nil _
  · by_cases hj : j < d.errands.length
    · rw [List.getElem?_append_left hj] at ht
      refine (h.errands j t ht).mono rfl (fun henters => ?_) (fun _ e he => ?_) (fun id hid => ?_)
        (fun _ => id) (fun _ => id)
      · cases List.mem_singleton.mp henters
        exact Nat.lt_irrefl _ hj
      · obtain rfl := List.mem_singleton.mp he
        exact (Nat.ne_of_lt hj).symm
      · cases List.mem_singleton.mp hid
    · have hlen : j < d.errands.length + 1 := by
        have hlt := (List.getElem?_eq_some_iff.mp ht).1
        rwa [List.length_append] at hlt
      obtain rfl : j = d.errands.length := by omega
      rw [List.getElem?_append_right (Nat.le_refl _), Nat.sub_self] at ht
      cases ht
      exact h.fits_newcomer order _
  · rw [List.length_append]
    rcases hmem e he with he | rfl
    · exact Nat.lt_succ_of_lt (h.known e he)
    · exact Nat.lt_succ_self _
  · rcases hmem _ he with he | he
    · obtain ⟨t, ht, hsession⟩ := h.reached j id he
      exact ⟨t, hold ht, hsession⟩
    · cases he
  · rcases hmem _ he with he | he
    · obtain ⟨t, o, ht, hstage⟩ := h.opened j id he
      exact ⟨t, o, hold ht, hstage⟩
    · cases he

/-- A request is refused. -/
theorem Tidy.refuses (h : d.Tidy) (ht : d.errands[k]? = some t) {r : Request} {e : ServiceError}
    (hstage : t.stage = .entered) (horder : t.order = .request r)
    (hrefusal : d.service.refusal? r = some e) :
    (d.set k { t with stage := .answered (.outcome (.error e)) }).Tidy := by
  refine h.on ht (fun o ho => by cases hstage.symm.trans ho) ?_ (fun hentered => by cases hentered)
    (fun p hp => by cases hp) fun r' id horder' hnames hid habsent _ => ⟨e, rfl, ?_⟩
  · simp only [Errand.chores, hstage]
  · cases horder.symm.trans horder'
    have hgone : id ∈ d.gone.map Session.id ∨ d.life id = [] :=
      habsent.imp_left ((h.errands k t ht).past id)
    obtain ⟨e', hrefusal', he'⟩ := Service.refusal?_absent hnames hid (h.absent hgone)
    cases hrefusal.symm.trans hrefusal'
    exact he'

/-- A request finds its session. -/
theorem Tidy.finds (h : d.Tidy) (ht : d.errands[k]? = some t) {r : Request} {id : Text}
    (hstage : t.stage = .entered) (horder : t.order = .request r) (hnames : r.session? = some id)
    (hadmitted : d.service.refusal? r = none) :
    (d.set k { t with session := some id, stage := .served }).Tidy := by
  have hfits := h.errands k t ht
  obtain ⟨-, s, hsession⟩ := Service.session?_of_admitted hnames hadmitted
  have hthere : ¬ (id ∈ t.past ∨ d.life id = []) := fun habsent => by
    cases hsession.symm.trans (h.absent (habsent.imp_left (hfits.past id)))
  obtain ⟨hs, rfl⟩ := session?_eq_some hsession
  have hchores :
      ({ t with session := some s.id, stage := .served } : Errand).chores = t.chores := by
    simp only [Errand.chores, hstage]
  have hgoes : Goes d (d.set k { t with session := some s.id, stage := .served }) k t
      { t with session := some s.id, stage := .served } [] := by
    refine goes_set ht (fun o ho => by cases hstage.symm.trans ho) fun id hid => ?_
    rw [hfits.fresh hstage] at hid
    cases hid
  have hfits' : Errand.Fits d k { t with session := some s.id, stage := .served } := by
    refine ⟨hfits.past, hfits.came, fun id hid => ?_, (fun hentered => by cases hentered),
      fun id hid => ?_, hfits.removed, (fun p hp => by cases hp),
      fun r' id' horder' hnames' _ habsent => ?_⟩
    · cases hid
      exact ⟨fun hpast => hthere (.inl hpast), List.mem_map_of_mem (List.mem_append_left _ hs)⟩
    · rw [Errand.pending, hchores] at hid
      exact hfits.pending id hid
    · cases horder.symm.trans horder'
      cases hnames.symm.trans hnames'
      exact absurd habsent hthere
  exact h.goes hgoes (h.toKept.set ht hchores) (hfits'.set _)

theorem Kept.alike_act (h : d.Kept) {id : Text} {s : Session} (hfind : d.find? id = some s)
    {f : Session → Session} (hstays : ∀ s : Session, s.Stays (f s)) : d.Alike (d.act s f) := by
  have hput := h.alike_put (find?_eq_some hfind).1 (Service.stays_act (v := d.service) hstays)
  exact ⟨hput.sessions, hput.gone, hput.all, hput.goneIds, rfl, rfl⟩

/-- A request gets at its session. -/
theorem Tidy.reaches (h : d.Tidy) (ht : d.errands[k]? = some t) {id : Text} {s : Session}
    {f : Session → Session} (hsession : t.session = some id) (hfind : d.find? id = some s)
    (hstays : ∀ s : Session, s.Stays (f s)) :
    ({ d.act s f with log := d.log ++ [.reaches k id] } : Desk).Tidy := by
  have hact := h.toKept.alike_act hfind hstays
  have halike : d.Alike { d.act s f with log := d.log ++ [.reaches k id] } :=
    ⟨hact.sessions, hact.gone, hact.all, hact.goneIds, rfl, rfl⟩
  have hgone : ∀ id ∈ d.gone.map Session.id, id ∈ (d.act s f).gone.map Session.id :=
    fun id hid => hact.goneIds ▸ hid
  have hall : ∀ id ∈ d.all.map Session.id, id ∈ (d.act s f).all.map Session.id :=
    fun id hid => hact.all ▸ hid
  have hset : d.errands.set k t = d.errands := by
    obtain ⟨hlt, rfl⟩ := List.getElem?_eq_some_iff.mp ht
    exact List.set_getElem_self hlt
  have hgoes : Goes d { d.act s f with log := d.log ++ [.reaches k id] } k t t
      [.reaches k id] := by
    refine ⟨ht, rfl, hset.symm, rfl, fun e he => ?_, hgone, hall, fun _ hid => hid,
      fun _ => .inr rfl, fun id' hmem => ?_, fun id' hmem => by cases List.mem_singleton.mp hmem⟩
    · obtain rfl := List.mem_singleton.mp he
      exact ⟨rfl, fun hsame => by cases hsame⟩
    · cases List.mem_singleton.mp hmem
      exact hsession
  refine h.goes hgoes (h.toKept.alike halike (fun id' => ?_) fun j t₂ ht₂ => ⟨t₂, ht₂, rfl⟩)
    ((h.errands k t ht).mono rfl (fun hmem => by cases List.mem_singleton.mp hmem)
      (fun hnone => by cases hnone.symm.trans hsession)
      (fun _ hmem => by cases List.mem_singleton.mp hmem) hgone hall)
  exact (life_append hgoes.log id').trans (List.append_nil _)

end Desk

end SchemePlayer
