import SchemePlayer.Proofs.Service.Invariant

/-!
# Sessions come and go

The invariant of sessions and requests in flight is kept when a session is opened, when sessions are
taken out of the store and when a step of closing one of those is taken, and therefore by all that
happens.

- `Tidy.opens`, `Tidy.removes`, `Tidy.attends`: the three kinds of moves that change what sessions
  there are; `Tidy.attend?`: the next step of closing a session can be taken.
- `Tidy.move`, `Tidy.step`, `Tidy.run`: **whatever happens, everything stays tidy.**
-/

namespace SchemePlayer

namespace Desk

variable {d d' : Desk} {k : Nat} {t t' : Errand}

/-! ### Sessions that are opened -/

/-- The name of the next session is new. -/
theorem Kept.fresh (h : d.Kept) : d.service.sessionId d.service.opened ∉ d.all.map Session.id := by
  intro hmem
  obtain ⟨s, hs, hsame⟩ := List.mem_map.mp hmem
  obtain ⟨n, hn, hid⟩ := h.ids s hs
  have heq : n = d.service.opened := h.injective (hid.symm.trans hsame)
  exact Nat.lt_irrefl _ (heq ▸ hn)

theorem Kept.opens (h : d.Kept) {s : Session}
    (hid : s.id = d.service.sessionId d.service.opened) (heffect : s.Did [])
    (hsessions : d'.service.sessions = d.service.sessions ++ [s]) (hgone : d'.gone = d.gone)
    (hopened : d'.service.opened = d.service.opened + 1)
    (hsessionId : d'.service.sessionId = d.service.sessionId)
    (hlog : d'.log = d.log ++ [.opens k s.id])
    (herrands : ∀ (j : Nat) (t : Errand), d.errands[j]? = some t →
      ∃ t' : Errand, d'.errands[j]? = some t' ∧ t'.chores = t.chores) : d'.Kept := by
  have hfresh : s.id ∉ d.all.map Session.id := hid ▸ h.fresh
  have hall : d'.all.Perm (s :: d.all) := by
    rw [all, hsessions, hgone, List.append_assoc]
    exact List.perm_middle
  have hlife : ∀ id, id ≠ s.id → d'.life id = d.life id := by
    intro id hne
    rw [life_append hlog]
    simp [DeskEvent.isAbout, Ne.symm hne]
  have hborn : d'.life s.id = [.opens k s.id] := by
    rw [life_append hlog, h.unknown _ hfresh]
    simp [DeskEvent.isAbout]
  have hold : ∀ s' ∈ d.all, s'.id ≠ s.id := fun s' hs' hsame =>
    hfresh (hsame ▸ List.mem_map_of_mem hs')
  refine ⟨hsessionId ▸ h.injective, fun s' hs' => ?_, ?_, fun s' hs' => ?_, fun s' hs' => ?_,
    fun id hnew => ?_⟩
  · rw [hopened, hsessionId]
    rcases List.mem_cons.mp (hall.subset hs') with rfl | hs'
    · exact ⟨_, Nat.lt_succ_self _, hid⟩
    · obtain ⟨n, hn, hid'⟩ := h.ids s' hs'
      exact ⟨n, Nat.lt_succ_of_lt hn, hid'⟩
  · refine (hall.map Session.id).nodup_iff.mpr ?_
    exact List.nodup_cons.mpr ⟨hfresh, h.distinct⟩
  · rw [hsessions] at hs'
    rcases List.mem_append.mp hs' with hs' | hs'
    · rw [hlife _ (hold s' (List.mem_append_left _ hs'))]
      exact h.stored s' hs'
    · obtain rfl := List.mem_singleton.mp hs'
      exact ⟨heffect, k, hborn⟩
  · rw [hgone] at hs'
    obtain ⟨k', j, t, did, hburied⟩ := h.buried s' hs'
    obtain ⟨t', ht', hchores⟩ := herrands j t hburied.errand
    refine ⟨k', j, t', did, ht', ?_, ?_, hburied.effect⟩
    · rw [hlife _ (hold s' (List.mem_append_right _ hs'))]
      exact hburied.life
    · rw [Errand.pending, hchores]
      exact hburied.chores
  · have hnew' : id ∉ (s :: d.all).map Session.id := fun hmem =>
      hnew ((hall.map Session.id).mem_iff.mpr hmem)
    rw [hlife id fun hsame => hnew' (hsame ▸ List.mem_cons_self ..)]
    exact h.unknown id fun hmem => hnew' (List.mem_cons_of_mem _ hmem)

/-- A session is opened. -/
theorem Tidy.opens (h : d.Tidy) (ht : d.errands[k]? = some t) {name root : Text}
    {restore strict : Bool} {p : Project} {s : Session} (hstage : t.stage = .built p)
    (horder : t.order = .request (.open name root restore strict))
    (hid : s.id = d.service.sessionId d.service.opened) (heffect : s.Did []) (o : Json) :
    ({ d.set k { t with stage := .answered (.outcome (.ok o)) } with
        service := { d.service with
          sessions := d.service.sessions ++ [s]
          opened := d.service.opened + 1 }
        log := d.log ++ [.opens k s.id] } : Desk).Tidy := by
  have hchores : ({ t with stage := .answered (.outcome (.ok o)) } : Errand).chores = t.chores := by
    simp only [Errand.chores, hstage]
  have hall : ∀ id ∈ d.all.map Session.id,
      id ∈ (d.service.sessions ++ [s] ++ d.gone).map Session.id := by
    intro id hmem
    rw [all, List.map_append] at hmem
    simp only [List.map_append, List.mem_append] at hmem ⊢
    exact hmem.imp_left .inl
  have hgoes : Goes d { d.set k { t with stage := .answered (.outcome (.ok o)) } with
        service := { d.service with
          sessions := d.service.sessions ++ [s]
          opened := d.service.opened + 1 }
        log := d.log ++ [.opens k s.id] }
      k t { t with stage := .answered (.outcome (.ok o)) } [.opens k s.id] := by
    refine ⟨ht, rfl, rfl, rfl, fun e he => ?_, fun _ hid => hid, hall, fun _ hid => hid,
      fun o => .inl fun ho => ?_, fun id hmem => ?_, fun _ _ => ⟨o, rfl⟩⟩
    · obtain rfl := List.mem_singleton.mp he
      exact ⟨rfl, fun hsame => by cases hsame⟩
    · cases hstage.symm.trans ho
    · cases List.mem_singleton.mp hmem
  refine h.goes hgoes
    (h.toKept.opens hid heffect rfl rfl rfl rfl rfl (chores_set ht hchores))
    ((h.errands k t ht).onward hgoes.log (fun hmem => (hgoes.events _ hmem).2 rfl) hgoes.gone
      hgoes.all (fun hentered => by cases hentered) (fun p hp => by cases hp)
      (fun id hpending => ?_) (fun id hmem => ?_) fun r id horder' hnames _ _ => ?_)
  · exact absurd rfl hpending
  · cases List.mem_singleton.mp hmem
  · cases horder.symm.trans horder'
    cases hnames

/-! ### Sessions that are taken out -/

/-- What is to be done for sessions is to be done for each of them. -/
theorem pending_choresFor {taken : List Session} (h : (taken.map Session.id).Nodup)
    (ht : t.chores = choresFor taken) (id : Text) :
    t.pending id = if id ∈ taken.map Session.id then Chore.all else [] := by
  rw [Errand.pending, ht]
  clear ht
  induction taken with
  | nil => rfl
  | cons s taken ih =>
    obtain ⟨hnew, hrest⟩ := List.nodup_cons.mp h
    have hfirst : ((Chore.all.map fun chore => (s.id, chore)).filter (·.1 = id)).map Prod.snd =
        if s.id = id then Chore.all else [] := by
      by_cases hid : s.id = id <;> simp [Chore.all, hid]
    rw [choresFor, List.flatMap_cons, List.filter_append, List.map_append, hfirst, ← choresFor,
      ih hrest]
    by_cases hid : s.id = id
    · subst hid
      rw [if_pos rfl, if_neg hnew, List.append_nil, List.map_cons, if_pos (List.mem_cons_self ..)]
    · simp [hid, Ne.symm hid]

/-- It is noted of each session that it was taken out. -/
theorem filter_removes {taken : List Session} (h : (taken.map Session.id).Nodup) (id : Text) :
    (taken.map fun s => DeskEvent.removes k s.id).filter (·.isAbout id) =
      if id ∈ taken.map Session.id then [.removes k id] else [] := by
  induction taken with
  | nil => rfl
  | cons s taken ih =>
    obtain ⟨hnew, hrest⟩ := List.nodup_cons.mp h
    rw [List.map_cons, List.filter_cons, ih hrest]
    by_cases hid : s.id = id
    · subst hid
      simp [DeskEvent.isAbout, hnew]
    · simp [DeskEvent.isAbout, hid, Ne.symm hid]

/-- Who has begun to do something for a session has taken it out. -/
theorem Tidy.buried_of_pending (h : d.Tidy) (ht : d.errands[k]? = some t) {id : Text}
    (hpending : t.pending id ≠ []) :
    ∃ s ∈ d.gone, s.id = id ∧ ∃ k' did, d.Buried s k' k t did := by
  have hremoves := (h.errands k t ht).pending id hpending
  obtain ⟨s, hs, hid, k', t', did, hburied⟩ := h.buried_of_removes hremoves
  cases Option.some.inj (ht.symm.trans hburied.errand)
  exact ⟨s, hs, hid, k', did, hburied⟩

/-- Whether they are open or were taken out, they are the same sessions. -/
theorem perm_removes {isTaken : Session → Bool} {taken : List Session}
    (htaken : taken.Perm (d.service.sessions.filter isTaken)) :
    ((d.service.sessions.filter fun s => !isTaken s) ++ (d.gone ++ taken)).Perm d.all := by
  have hsplit : (taken ++ d.service.sessions.filter fun s => !isTaken s).Perm d.service.sessions :=
    (htaken.append_right _).trans (List.filter_append_perm isTaken d.service.sessions)
  refine List.Perm.trans ?_ (hsplit.append_right d.gone)
  rw [List.append_assoc]
  exact (List.perm_append_comm.append_left _).trans (List.perm_append_comm_assoc ..)

theorem Kept.nodup_taken (h : d.Kept) {isTaken : Session → Bool} {taken : List Session}
    (htaken : taken.Perm (d.service.sessions.filter isTaken)) : (taken.map Session.id).Nodup := by
  have hdistinct := h.distinct
  rw [all, List.map_append] at hdistinct
  refine (htaken.map Session.id).nodup_iff.mpr ?_
  exact ((List.filter_sublist).map Session.id).nodup (List.nodup_append.mp hdistinct).1

theorem Kept.removes (h : d.Kept) {isTaken : Session → Bool} {taken : List Session}
    (ht : d.errands[k]? = some t) (hstage : t.chores = []) (hchores : t'.chores = choresFor taken)
    (htaken : taken.Perm (d.service.sessions.filter isTaken))
    (hsessions : d'.service.sessions = d.service.sessions.filter fun s => !isTaken s)
    (hgone : d'.gone = d.gone ++ taken) (hopened : d'.service.opened = d.service.opened)
    (hsessionId : d'.service.sessionId = d.service.sessionId)
    (hlog : d'.log = d.log ++ taken.map fun s => .removes k s.id)
    (herrands : d'.errands = d.errands.set k t') : d'.Kept := by
  have hmem : ∀ s ∈ taken, s ∈ d.service.sessions := fun s hs =>
    (List.mem_filter.mp (htaken.subset hs)).1
  have hall : d'.all.Perm d.all := by
    rw [all, hsessions, hgone]
    exact perm_removes htaken
  have hnodup : (taken.map Session.id).Nodup := h.nodup_taken htaken
  have hlife : ∀ id, d'.life id =
      d.life id ++ if id ∈ taken.map Session.id then [.removes k id] else [] := fun id => by
    rw [life_append hlog, filter_removes hnodup]
  have hpending : ∀ id, t'.pending id = if id ∈ taken.map Session.id then Chore.all else [] :=
    pending_choresFor hnodup hchores
  refine ⟨hsessionId ▸ h.injective, fun s hs => ?_, (hall.map Session.id).nodup_iff.mpr h.distinct,
    fun s hs => ?_, fun s hs => ?_, fun id hid => ?_⟩
  · rw [hopened, hsessionId]
    exact h.ids s (hall.subset hs)
  · rw [hsessions] at hs
    obtain ⟨hs, hleft⟩ := List.mem_filter.mp hs
    have hkept : s.id ∉ taken.map Session.id := by
      intro hid
      obtain ⟨s', hs', hsame⟩ := List.mem_map.mp hid
      cases h.eq_of_id (List.mem_append_left _ (hmem s' hs')) (List.mem_append_left _ hs) hsame
      have htaken' := (List.mem_filter.mp (htaken.subset hs')).2
      rw [htaken'] at hleft
      cases hleft
    rw [hlife, if_neg hkept, List.append_nil]
    exact h.stored s hs
  · rw [hgone] at hs
    rcases List.mem_append.mp hs with hs | hs
    · -- what was taken out before is as it was
      have hother : s.id ∉ taken.map Session.id := by
        intro hid
        obtain ⟨s', hs', hsame⟩ := List.mem_map.mp hid
        exact h.not_mem_gone (hmem s' hs') hs hsame
      obtain ⟨k', j, t₂, did, hburied⟩ := h.buried s hs
      have hlife' : d'.life s.id = d.life s.id := by
        rw [hlife, if_neg hother, List.append_nil]
      by_cases hj : j = k
      · subst hj
        cases Option.some.inj (ht.symm.trans hburied.errand)
        refine ⟨k', j, t', did, herrands ▸ errands_set_self ht t', hlife'.trans hburied.life, ?_,
          hburied.effect⟩
        have hnone : t.pending s.id = [] := by rw [Errand.pending, hstage]; rfl
        rw [hpending, if_neg hother, ← hnone]
        exact hburied.chores
      · exact ⟨k', j, t₂, did, herrands ▸ errands_set_of_ne hj hburied.errand t',
          hlife'.trans hburied.life, hburied.chores, hburied.effect⟩
    · obtain ⟨heffect, k', hopen⟩ := h.stored s (hmem s hs)
      have hid : s.id ∈ taken.map Session.id := List.mem_map_of_mem hs
      refine ⟨k', k, t', [], herrands ▸ errands_set_self ht t', ?_, ?_, heffect⟩
      · rw [hlife, hopen, if_pos hid]
        rfl
      · rw [hpending, if_pos hid]
        rfl
  · have hnew : id ∉ d.all.map Session.id := fun hold =>
      hid ((hall.map Session.id).mem_iff.mpr hold)
    have hother : id ∉ taken.map Session.id := by
      intro hmem'
      obtain ⟨s', hs', rfl⟩ := List.mem_map.mp hmem'
      exact hnew (List.mem_map_of_mem (List.mem_append_left _ (hmem s' hs')))
    rw [hlife, if_neg hother, List.append_nil]
    exact h.unknown id hnew

/-- Sessions are taken out. -/
theorem Tidy.removes (h : d.Tidy) (ht : d.errands[k]? = some t) {isTaken : Session → Bool}
    {result : ErrandResult} {taken : List Session} (hstage : t.stage = .entered)
    (htakes : Takes d.service t.order isTaken result)
    (htaken : taken.Perm (d.service.sessions.filter isTaken)) :
    ({ d.set k { t with stage := .burying (choresFor taken) result } with
        service := { d.service with sessions := d.service.sessions.filter fun s => !isTaken s }
        gone := d.gone ++ taken
        log := d.log ++ taken.map fun s => .removes k s.id } : Desk).Tidy := by
  have hfits := h.errands k t ht
  have hkept : ({ d.set k { t with stage := .burying (choresFor taken) result } with
        service := { d.service with sessions := d.service.sessions.filter fun s => !isTaken s }
        gone := d.gone ++ taken
        log := d.log ++ taken.map fun s => .removes k s.id } : Desk).Kept :=
    h.toKept.removes ht (by simp only [Errand.chores, hstage]) rfl htaken rfl rfl rfl rfl rfl rfl
  have hevents : ∀ e ∈ taken.map fun s => DeskEvent.removes k s.id, ∃ id, e = .removes k id := by
    intro e he
    obtain ⟨s, -, rfl⟩ := List.mem_map.mp he
    exact ⟨s.id, rfl⟩
  have hgoes : Goes d { d.set k { t with stage := .burying (choresFor taken) result } with
        service := { d.service with sessions := d.service.sessions.filter fun s => !isTaken s }
        gone := d.gone ++ taken
        log := d.log ++ taken.map fun s => .removes k s.id }
      k t { t with stage := .burying (choresFor taken) result }
      (taken.map fun s => .removes k s.id) := by
    refine ⟨ht, rfl, rfl, rfl, fun e he => ?_, fun id hid => ?_,
      fun id hid => ((perm_removes htaken).map Session.id).mem_iff.mpr hid, fun _ hid => hid,
      fun o => .inl fun ho => ?_, fun id hmem => ?_, fun id hmem => ?_⟩
    · obtain ⟨id, rfl⟩ := hevents e he
      exact ⟨rfl, fun hsame => by cases hsame⟩
    · rw [List.map_append]
      exact List.mem_append_left _ hid
    · cases hstage.symm.trans ho
    · obtain ⟨_, hsame⟩ := hevents _ hmem
      cases hsame
    · obtain ⟨_, hsame⟩ := hevents _ hmem
      cases hsame
  refine h.goes hgoes hkept (hfits.onward hgoes.log (fun hmem => (hgoes.events _ hmem).2 rfl)
    hgoes.gone hgoes.all (fun hentered => by cases hentered) (fun p hp => by cases hp)
    (fun id hid => ?_) (fun id hmem hpast => ?_) fun r id horder hnames _ habsent => ?_)
  · -- what is left to be done is for those that were taken out
    rw [pending_choresFor (h.toKept.nodup_taken htaken) rfl] at hid
    split at hid
    · rename_i hmem
      obtain ⟨s, hs, rfl⟩ := List.mem_map.mp hmem
      exact List.mem_append_right _
        (List.mem_map_of_mem (f := fun s => DeskEvent.removes k s.id) hs)
    · exact absurd rfl hid
  · -- what is taken out had not been taken out before
    obtain ⟨s, hs, hsame⟩ := List.mem_map.mp hmem
    cases hsame
    obtain ⟨s', hs', hid⟩ := List.mem_map.mp (hfits.past _ hpast)
    exact h.toKept.not_mem_gone (List.mem_filter.mp (htaken.subset hs)).1 hs' hid.symm
  · -- who closes a session has found it
    rw [horder] at htakes
    cases htakes with
    | close hadmitted =>
      cases hnames
      obtain ⟨-, s, hsession⟩ := Service.session?_of_admitted rfl hadmitted
      cases hsession.symm.trans (h.absent (habsent.imp_left (hfits.past id)))

/-! ### Sessions that are ended -/

/-- A worker is not stopped before it is its turn. -/
theorem Buried.stop_not_mem {s : Session} {k' : Nat} {did rest : List Chore}
    (h : d.Buried s k' k t did) (hpending : t.pending s.id = .stop :: rest) : .stop ∉ did := by
  intro hmem
  have hall : (did ++ .stop :: rest).Nodup := by
    rw [← hpending, h.chores]
    decide
  exact (List.nodup_append.mp hall).2.2 _ hmem _ (.head _) rfl

theorem Kept.attends (h : d.Kept) {s s' : Session} {k' : Nat} {did : List Chore} {chore : Chore}
    {chores : List (Text × Chore)} (hs : s ∈ d.gone) (hburied : d.Buried s k' k t did)
    (hchores : t.chores = (s.id, chore) :: chores) (hchores' : t'.chores = chores)
    (hid : s'.id = s.id) (heffect : s'.Did (did ++ [chore]))
    (hsessions : d'.service.sessions =
      d.service.sessions.map fun t => if t.id = s'.id then s' else t)
    (hgone : d'.gone = d.gone.map fun t => if t.id = s'.id then s' else t)
    (hopened : d'.service.opened = d.service.opened)
    (hsessionId : d'.service.sessionId = d.service.sessionId)
    (hlog : d'.log = d.log ++ [.does k chore s.id])
    (herrands : d'.errands = d.errands.set k t') : d'.Kept := by
  have hall : d'.all.map Session.id = d.all.map Session.id := by
    rw [all, all, hsessions, hgone, List.map_append, List.map_append]
    exact congrArg₂ _ (map_id_replace _ _) (map_id_replace _ _)
  have hlife : ∀ id, id ≠ s.id → d'.life id = d.life id := by
    intro id hne
    rw [life_append hlog]
    simp [DeskEvent.isAbout, Ne.symm hne]
  have hpending : t.pending s.id = chore :: t'.pending s.id := by
    simp [Errand.pending, hchores, hchores']
  have hother : ∀ id, id ≠ s.id → t'.pending id = t.pending id := by
    intro id hne
    simp [Errand.pending, hchores, hchores', Ne.symm hne]
  refine ⟨hsessionId ▸ h.injective, fun s₂ hs₂ => ?_, hall ▸ h.distinct, fun s₂ hs₂ => ?_,
    fun s₂ hs₂ => ?_, fun id hnew => ?_⟩
  · have hmem : s₂.id ∈ d.all.map Session.id := hall ▸ List.mem_map_of_mem hs₂
    obtain ⟨s₃, hs₃, hsame⟩ := List.mem_map.mp hmem
    rw [hopened, hsessionId, ← hsame]
    exact h.ids s₃ hs₃
  · rw [hsessions] at hs₂
    obtain ⟨s₃, hs₃, hsame, hcase⟩ := mem_replace hs₂
    rcases hcase with rfl | ⟨rfl, -⟩
    · exact absurd (hsame.symm.trans hid) (h.not_mem_gone hs₃ hs)
    · rw [hlife _ (h.not_mem_gone hs₃ hs)]
      exact h.stored _ hs₃
  · rw [hgone] at hs₂
    obtain ⟨s₃, hs₃, hsame, hcase⟩ := mem_replace hs₂
    rcases hcase with rfl | ⟨rfl, hne⟩
    · refine ⟨k', k, t', did ++ [chore], herrands ▸ errands_set_self hburied.errand t', ?_, ?_,
        heffect⟩
      · rw [hid, life_append hlog, hburied.life]
        simp [DeskEvent.isAbout]
      · rw [hid, List.append_assoc, List.singleton_append, ← hpending]
        exact hburied.chores
    · rw [hid] at hne
      obtain ⟨k₂, j, t₂, did₂, hburied₂⟩ := h.buried _ hs₃
      by_cases hj : j = k
      · subst hj
        cases Option.some.inj (hburied.errand.symm.trans hburied₂.errand)
        refine ⟨k₂, j, t', did₂, herrands ▸ errands_set_self hburied.errand t',
          (hlife _ hne).trans hburied₂.life, ?_, hburied₂.effect⟩
        rw [hother _ hne]
        exact hburied₂.chores
      · exact ⟨k₂, j, t₂, did₂, herrands ▸ errands_set_of_ne hj hburied₂.errand t',
          (hlife _ hne).trans hburied₂.life, hburied₂.chores, hburied₂.effect⟩
  · rw [hall] at hnew
    have hne : id ≠ s.id := fun hsame =>
      hnew (hsame ▸ List.mem_map_of_mem (List.mem_append_right _ hs))
    rw [hlife id hne]
    exact h.unknown id hnew

/-- What an errand does next for a session that it has taken out can be done, and has its effect. -/
theorem Tidy.attend? (h : d.Tidy) (ht : d.errands[k]? = some t) {id : Text} {chore : Chore}
    {chores : List (Text × Chore)} {result : ErrandResult} {s : Session}
    (hstage : t.stage = .burying ((id, chore) :: chores) result) (hfind : d.find? id = some s) :
    s ∈ d.gone ∧ s.id = id ∧ ∃ k' did, d.Buried s k' k t did ∧
      ∃ s' v, d.service.attend? s chore = some (s', v) ∧ s'.id = s.id ∧
        s'.Did (did ++ [chore]) := by
  have hpending : ∃ rest, t.pending id = chore :: rest := by
    simp [Errand.pending, Errand.chores, hstage]
  obtain ⟨rest, hrest⟩ := hpending
  have hsome : t.pending id ≠ [] := by simp [hrest]
  obtain ⟨s₂, hs₂, hid, k', did, hburied⟩ := h.buried_of_pending ht hsome
  obtain ⟨hs, hid'⟩ := find?_eq_some hfind
  obtain rfl := h.eq_of_id hs (List.mem_append_right _ hs₂) (hid'.trans hid.symm)
  refine ⟨hs₂, hid, k', did, hburied, hburied.effect.attend? fun hstop => ?_⟩
  subst hstop hid
  exact hburied.stop_not_mem hrest

/-- Something is done for a session that was taken out. -/
theorem Tidy.attends (h : d.Tidy) (ht : d.errands[k]? = some t) {id : Text} {chore : Chore}
    {chores : List (Text × Chore)} {result : ErrandResult} {s s' : Session} {v : Service}
    (hstage : t.stage = .burying ((id, chore) :: chores) result) (hfind : d.find? id = some s)
    (hattend : d.service.attend? s chore = some (s', v)) :
    ({ ({ d with service := v }.put s').set k { t with stage := .burying chores result } with
        log := d.log ++ [.does k chore id] } : Desk).Tidy := by
  have hfits := h.errands k t ht
  obtain ⟨hs, rfl, k', did, hburied, s₂, v₂, hattend', hid, heffect⟩ := h.attend? ht hstage hfind
  cases hattend.symm.trans hattend'
  obtain ⟨hsessions, hopened, hsessionId⟩ := Service.attend?_eq_some hattend
  have hchores : t.chores = (s.id, chore) :: chores := by simp only [Errand.chores, hstage]
  have hkept : ({ ({ d with service := v }.put s').set k { t with
        stage := .burying chores result } with
        log := d.log ++ [.does k chore s.id] } : Desk).Kept := by
    refine h.toKept.attends hs hburied hchores rfl hid heffect ?_ rfl hopened hsessionId rfl rfl
    show (v.put s').sessions = _
    rw [Service.put, hsessions]
  have hgone : ∀ id ∈ d.gone.map Session.id, id ∈ ({ d with service := v }.put s').gone.map
      Session.id := fun id hmem => (map_id_replace d.gone s').symm ▸ hmem
  have hall : ∀ id ∈ d.all.map Session.id, id ∈ ({ d with service := v }.put s').all.map
      Session.id := by
    intro id hmem
    rw [all, List.map_append] at hmem ⊢
    have hsame : ({ d with service := v }.put s').service.sessions.map Session.id =
        d.service.sessions.map Session.id := by
      show (v.put s').sessions.map Session.id = _
      rw [Service.put, hsessions]
      exact map_id_replace _ _
    rw [hsame]
    exact (List.mem_append.mp hmem).elim (List.mem_append_left _)
      fun hmem => List.mem_append_right _ (hgone id hmem)
  have hgoes : Goes d { ({ d with service := v }.put s').set k { t with
        stage := .burying chores result } with
        log := d.log ++ [.does k chore s.id] }
      k t { t with stage := .burying chores result } [.does k chore s.id] := by
    refine ⟨ht, rfl, rfl, rfl, fun e he => ?_, hgone, hall, fun _ hid => hid,
      fun o => .inl fun ho => ?_, fun id hmem => ?_, fun id hmem => ?_⟩
    · obtain rfl := List.mem_singleton.mp he
      exact ⟨rfl, fun hsame => by cases hsame⟩
    · cases hstage.symm.trans ho
    · cases List.mem_singleton.mp hmem
    · cases List.mem_singleton.mp hmem
  refine h.goes hgoes hkept (hfits.onward hgoes.log (fun hmem => (hgoes.events _ hmem).2 rfl)
    hgoes.gone hgoes.all (fun hentered => by cases hentered) (fun p hp => by cases hp)
    (fun id hid => ?_) (fun id hmem => ?_) fun r id horder hnames hid habsent => ?_)
  · refine List.mem_append_left _ (hfits.pending id fun hnone => hid ?_)
    rw [Errand.pending, hchores, List.filter_cons] at hnone
    split at hnone
    · cases hnone
    · exact hnone
  · cases List.mem_singleton.mp hmem
  · obtain ⟨-, -, hold⟩ := hfits.told r id horder hnames hid habsent
    rw [hstage] at hold
    rcases hold with hold | ⟨e, hold, -⟩ <;> cases hold

/-! ### Any step -/

/-- **What an errand does next, it does properly.** -/
theorem Tidy.move (h : d.Tidy) (ht : d.errands[k]? = some t) (hmove : d.Move k t d') : d'.Tidy := by
  cases hmove with
  | refuses hstage horder hrefusal => exact h.refuses ht hstage horder hrefusal
  | restores hstage horder _ _ | unrestored hstage horder _ _ | lists hstage horder =>
    refine h.on ht (fun o ho => by cases hstage.symm.trans ho)
      (by simp only [Errand.chores, hstage]) (fun hentered => by cases hentered)
      (fun p hp => by cases hp) fun r id horder' hnames _ _ _ => ?_
    cases horder.symm.trans horder'
    cases hnames
  | builds hstage horder hcreate =>
    refine h.on ht (fun o ho => by cases hstage.symm.trans ho)
      (by simp only [Errand.chores, hstage]) (fun hentered => by cases hentered)
      (fun p hp => ?_) fun _ _ _ _ _ _ hentered => by cases hstage.symm.trans hentered
    cases hp
    exact Project.subscriptions_create hcreate
  | unbuilt hstage _ _ | answers hstage _ | finishes hstage =>
    exact h.on ht (fun o ho => by cases hstage.symm.trans ho)
      (by simp only [Errand.chores, hstage]) (fun hentered => by cases hentered)
      (fun p hp => by cases hp) fun _ _ _ _ _ _ hentered => by cases hstage.symm.trans hentered
  | opens hstage horder hsession =>
    subst hsession
    have hnobody := (h.errands k t ht).built _ hstage
    exact h.opens ht hstage horder rfl (Service.did_newSession _ _ hnobody) _
  | finds hstage horder hnames _ hadmitted => exact h.finds ht hstage horder hnames hadmitted
  | touches hsession hfind =>
    exact h.alike (h.toKept.alike_put (find?_eq_some hfind).1 (.of_project rfl rfl rfl rfl)) rfl rfl
      rfl
  | reaches hsession hfind hstays => exact h.reaches ht hsession hfind hstays
  | removes hstage htakes htaken => exact h.removes ht hstage htakes htaken
  | attends hstage hfind hattend => exact h.attends ht hstage hfind hattend
  | crashes hstage hfind hattend =>
    obtain ⟨-, -, _, _, -, s', v, hattend', -⟩ := h.attend? ht hstage hfind
    cases hattend.symm.trans hattend'
  | misses hstage horder _ =>
    refine h.on ht (fun o ho => by cases hstage.symm.trans ho)
      (by simp only [Errand.chores, hstage]) (fun hentered => by cases hentered)
      (fun p hp => by cases hp) fun r id horder' _ _ _ _ => ?_
    cases horder.symm.trans horder'

theorem Tidy.step (h : d.Tidy) (hstep : Step d d') : d'.Tidy := by
  cases hstep with
  | comes order => exact h.comes order
  | moves ht hmove => exact h.move ht hmove
  | lives hfind hstays => exact h.alike (h.toKept.alike_act hfind hstays) rfl rfl rfl
  | disk files => exact h.alike (alike_of_eq rfl rfl rfl rfl) rfl rfl rfl
  | passes time => exact h.alike (alike_of_eq rfl rfl rfl rfl) rfl rfl rfl

theorem tidy_start {v : Service} (hids : Function.Injective v.sessionId)
    (hnone : v.sessions = []) : (start v).Tidy where
  injective := hids
  ids s hs := by
    rw [all, start, hnone] at hs
    cases hs
  distinct := by
    rw [all, start, hnone]
    exact List.nodup_nil
  stored s hs := by
    rw [start, hnone] at hs
    cases hs
  buried _ hs := absurd hs List.not_mem_nil
  unknown _ _ := rfl
  up := rfl
  errands k t ht := by cases ht
  known _ he := absurd he List.not_mem_nil
  reached _ _ hmem := absurd hmem List.not_mem_nil
  opened _ _ hmem := absurd hmem List.not_mem_nil

theorem Tidy.run (h : d.Tidy) (hreaches : Reaches d d') : d'.Tidy := by
  induction hreaches with
  | refl => exact h
  | tail _ hstep ih => exact ih.step hstep

end Desk

end SchemePlayer
