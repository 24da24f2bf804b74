import SchemePlayer.Proofs.Service.Moves

/-!
# One thing at a time

Requests in flight at one service are what the service does, taken apart: a request that comes and
is let through before anything else happens leaves behind what `Service.serve`, `destroy`,
`destroyAll` and `sweep` say.

- `Order.fulfil`: what the service does for an order.
- `works_bury`: the steps of closing the sessions that were taken out, one after another, come to
  `Service.bury`.
- `fulfil_alone`: **an errand that is alone at the service comes to what the service does for it.**
- `drive_alone`: so does what the executor of a session does by itself.
-/

namespace SchemePlayer

/-- What the service does for an order at one go. -/
def Order.fulfil (v : Service) : Order → ErrandResult × Service
  | .request r => ((v.serve r).1 |> .outcome, (v.serve r).2)
  | .destroy id => (.flag (v.destroy id).1, (v.destroy id).2)
  | .destroyAll => (.nothing, v.destroyAll)
  | .sweep age => (.count (v.sweep age).1, (v.sweep age).2)

namespace Service

variable {v : Service} {s s' : Session}

/-- Who is put in a place twice is there as the second one. -/
theorem put_put (h : s'.id = s.id) : (v.put s).put s' = v.put s' := by
  unfold put
  simp only [List.map_map]
  congr 1
  refine List.map_congr_left fun t _ => ?_
  show (if (if t.id = s.id then s else t).id = s'.id then s' else if t.id = s.id then s else t) =
    if t.id = s'.id then s' else t
  by_cases hid : t.id = s.id
  · rw [if_pos hid, if_pos h.symm, if_pos (hid.trans h.symm)]
  · rw [if_neg hid]

theorem put_of_absent (h : ∀ t ∈ v.sessions, t.id ≠ s.id) : v.put s = v := by
  have hsame : (v.sessions.map fun t => if t.id = s.id then s else t) = v.sessions := by
    refine (List.map_congr_left fun t ht => ?_).trans (List.map_id _)
    exact if_neg (h t ht)
  rw [put, hsame]

/-- What is asked of a project on behalf of a request. -/
def controlJob (f : Player → Except PlayError Unit × Player) (p : Player) : Outcome × Player :=
  match f p with
  | (.error e, p) => (.error (.notPlayed e), p)
  | (.ok _, p) => (.ok .null, p)

theorem careful_controlJob {f : Player → Except PlayError Unit × Player}
    (hcareful : Session.Careful f) : Session.Careful (controlJob f) := by
  intro p hp
  have hf := hcareful p hp
  unfold controlJob
  split
  · rename_i heq
    rw [heq] at hf
    exact hf
  · rename_i heq
    rw [heq] at hf
    exact hf

theorem careful_assign (path : List Int) (name text : Text) :
    Session.Careful (assign path name text) := by
  intro p _
  unfold assign
  split
  · exact .refl _
  · split
    · exact .refl _
    · split
      · exact .refl _
      · split
        · exact .refl _
        · rename_i hset
          exact Project.lasts_setVar hset

/-- **What a request that is not refused does with its session** is one careful job on the worker. -/
theorem serve_of_admitted {r : Request} {id : Text} (hr : r.session? = some id)
    (hclose : r ≠ .close id) (hadmitted : v.refusal? r = none) (hs : v.session? id = some s) :
    ∃ job, Session.Careful job ∧
      (v.serve r).2 = (v.change { s with lastUsed := v.now } (·.ask job)).2 := by
  have hid : id ≠ [] := (session?_of_admitted hr hadmitted).1
  have hwithin : ∀ job, v.within id job = v.change { s with lastUsed := v.now } (·.ask job) := by
    intro job
    rw [within, if_neg hid, hs]
  have hreport : ∀ x : Outcome × Service, (reportState id x).2 = x.2 := by
    rintro ⟨_ | _, v'⟩
    · rfl
    · unfold reportState
      dsimp only
      split <;> rfl
  have hcontrol : ∀ f, Session.Careful f → ∃ job, Session.Careful job ∧
      (reportState id (v.control id f)).2 =
        (v.change { s with lastUsed := v.now } (·.ask job)).2 := fun f hf =>
    ⟨controlJob f, careful_controlJob hf, (hreport _).trans (congrArg Prod.snd (hwithin _))⟩
  cases r with
  | «open» | listSessions => cases hr
  | close id' =>
    cases hr
    exact absurd rfl hclose
  | step id' count =>
    cases hr
    unfold refusal? at hadmitted
    dsimp only at hadmitted
    split at hadmitted
    · cases hadmitted
    · rename_i hcount
      rw [serve, if_neg hcount]
      exact hcontrol _ fun _ hp => Playback.lasts_steps hp _ _
  | play id' target =>
    cases hr
    exact hcontrol _ fun p _ => Playback.lasts_play _ _ p
  | pause id' =>
    cases hr
    exact hcontrol _ fun p _ => Playback.lasts_pause p
  | resume id' =>
    cases hr
    exact hcontrol _ fun p _ => Playback.lasts_resume p
  | state id' =>
    cases hr
    exact hcontrol _ fun _ _ => .refl _
  | readVariables id' path =>
    cases hr
    exact ⟨fun p => (lookAt path p, p), fun _ _ => .refl _, congrArg Prod.snd (hwithin _)⟩
  | setVariable id' path name text =>
    cases hr
    exact ⟨_, careful_assign path name text, congrArg Prod.snd (hwithin _)⟩

end Service

namespace Desk

variable {d : Desk} {k : Nat} {t : Errand}

theorem find?_put (d : Desk) (s : Session) (id : Text) :
    (d.put s).find? id = (d.find? id).map fun t => if t.id = s.id then s else t := by
  have hid : ∀ t : Session, (if t.id = s.id then s else t).id = t.id := by
    intro t
    split
    · rename_i hsame
      exact hsame.symm
    · rfl
  unfold find? all put Service.put
  dsimp only
  rw [← List.map_append, List.find?_map]
  congr 2
  funext t
  show decide ((if t.id = s.id then s else t).id = id) = decide (t.id = id)
  rw [hid]

/-- One thing is done for a session that was taken out. -/
theorem attends_alone {id : Text} {s s' : Session} {chore : Chore} {chores : List (Text × Chore)}
    {result : ErrandResult} {v : Service} (ht : d.errands[k]? = some t)
    (hstage : t.stage = .burying ((id, chore) :: chores) result) (hfind : d.find? id = some s)
    (hgone : ∀ t ∈ d.service.sessions, t.id ≠ id)
    (hattend : d.service.attend? s chore = some (s', v)) (hid : s'.id = id) :
    ∃ d', Works k d d' ∧ d'.errands = d.errands.set k { t with stage := .burying chores result } ∧
      d'.service = v ∧ d'.service.sessions = d.service.sessions ∧ d'.find? id = some s' ∧
      ∀ id', id' ≠ id → d'.find? id' = d.find? id' := by
  obtain ⟨hsessions, -, -⟩ := Service.attend?_eq_some hattend
  have hfind' : ∀ id', ({ d with service := v }.put s').find? id' =
      (d.find? id').map fun t => if t.id = s'.id then s' else t := by
    intro id'
    rw [find?_put]
    simp only [find?, all, hsessions]
  have hservice : v.put s' = v := Service.put_of_absent fun t ht => by
    rw [hid]
    exact hgone t (hsessions ▸ ht)
  refine ⟨_, .single ⟨t, ht, .attends hstage hfind hattend⟩, rfl, hservice,
    (congrArg Service.sessions hservice).trans hsessions, ?_, fun id' hne => ?_⟩
  · refine (hfind' id).trans ?_
    rw [hfind, Option.map_some, if_pos ((find?_eq_some hfind).2.trans hid.symm)]
  · refine (hfind' id').trans ?_
    cases hother : d.find? id' with
    | none => rfl
    | some t =>
      rw [Option.map_some, if_neg]
      rw [(find?_eq_some hother).2, hid]
      exact hne

/-- A session that was taken out is ended. -/
theorem ends_alone {s : Session} {chores : List (Text × Chore)} {result : ErrandResult}
    (ht : d.errands[k]? = some t)
    (hstage : t.stage = .burying ((Chore.all.map fun chore => (s.id, chore)) ++ chores) result)
    (hfind : d.find? s.id = some s) (hdid : s.Did [])
    (hgone : ∀ t ∈ d.service.sessions, t.id ≠ s.id) :
    ∃ d', Works k d d' ∧ d'.errands = d.errands.set k { t with stage := .burying chores result } ∧
      d'.service = d.service.bury [s] ∧ d'.service.sessions = d.service.sessions ∧
      ∀ id, id ≠ s.id → d'.find? id = d.find? id := by
  have hbury : d.service.bury [s] = (d.service.act s (·.update (·.close Session.host))).2 :=
    Service.share_shut
  have hstays : s.Stays (d.service.act s (·.update (·.close Session.host))).1 :=
    Service.stays_act fun s => Session.stays_update s fun _ hp => Playback.lasts_close hp
  have hclose : d.service.attend? s .close =
      some (d.service.act s (·.update (·.close Session.host))) := rfl
  rw [hbury]
  generalize d.service.act s (·.update (·.close Session.host)) = closed at hstays hclose ⊢
  obtain ⟨s₁, v⟩ := closed
  -- 1. the project is closed
  obtain ⟨d₁, hworks₁, herrands₁, hservice₁, hsessions₁, hfind₁, hothers₁⟩ :=
    attends_alone ht hstage hfind hgone hclose hstays.id
  have ht₁ := herrands₁ ▸ errands_set_self ht _
  have hrunning : s₁.worker.isStopped = false := by
    rw [Bool.eq_false_iff, ne_eq, (hdid.stays hstays).isStopped_iff]
    exact List.not_mem_nil
  have hstop : d₁.service.attend? s₁ .stop =
      some ({ s₁ with worker := { s₁.worker with isStopped := true } }, d₁.service) := by
    rw [Service.attend?, Worker.stop?, hrunning]
    rfl
  -- 2. the worker is stopped
  obtain ⟨d₂, hworks₂, herrands₂, hservice₂, hsessions₂, hfind₂, hothers₂⟩ :=
    attends_alone ht₁ rfl hfind₁ (fun t ht => hgone t (hsessions₁ ▸ ht)) hstop hstays.id
  have ht₂ := herrands₂ ▸ errands_set_self ht₁ _
  let s₂ : Session := { s₁ with worker := { s₁.worker with isStopped := true } }
  have hcancel : d₂.service.attend? s₂ .cancel =
      some (s₂.update fun p => p.update (·.unsubscribe s₂.watcher), d₂.service) := rfl
  -- 3. the subscription ends
  obtain ⟨d₃, hworks₃, herrands₃, hservice₃, hsessions₃, -, hothers₃⟩ :=
    attends_alone ht₂ rfl hfind₂ (fun t ht => hgone t (hsessions₁ ▸ hsessions₂ ▸ ht)) hcancel
      ((Session.stays_catchUp _).id.trans hstays.id)
  refine ⟨d₃, (hworks₁.trans hworks₂).trans hworks₃, ?_, ?_, ?_, fun id hne => ?_⟩
  · rw [herrands₃, herrands₂, herrands₁, List.set_set, List.set_set]
    rfl
  · rw [hservice₃, hservice₂, hservice₁]
  · rw [hsessions₃, hsessions₂, hsessions₁]
  · rw [hothers₃ id hne, hothers₂ id hne, hothers₁ id hne]

/-- **To do one thing after another for the sessions that were taken out is to end them**, if
nothing happens in between. -/
theorem works_bury {taken : List Session} {result : ErrandResult}
    (ht : d.errands[k]? = some t) (hstage : t.stage = .burying (choresFor taken) result)
    (hnodup : (taken.map Session.id).Nodup)
    (hthere : ∀ s ∈ taken, d.find? s.id = some s ∧ s.Did [])
    (hgone : ∀ s ∈ taken, ∀ t ∈ d.service.sessions, t.id ≠ s.id) :
    ∃ d', Works k d d' ∧ d'.errands = d.errands.set k { t with stage := .answered result } ∧
      d'.service = d.service.bury taken := by
  induction taken generalizing d t with
  | nil => exact ⟨_, .single ⟨t, ht, .finishes hstage⟩, rfl, rfl⟩
  | cons s taken ih =>
    obtain ⟨hnew, hrest⟩ := List.nodup_cons.mp hnodup
    obtain ⟨hfind, hdid⟩ := hthere s (.head _)
    have hfirst : t.stage =
        .burying ((Chore.all.map fun chore => (s.id, chore)) ++ choresFor taken) result := hstage
    obtain ⟨d₁, hworks₁, herrands₁, hservice₁, hsessions₁, hothers₁⟩ :=
      ends_alone ht hfirst hfind hdid (hgone s (.head _))
    have hthere₁ : ∀ s₂ ∈ taken, d₁.find? s₂.id = some s₂ ∧ s₂.Did [] := by
      intro s₂ hs₂
      have hne : s₂.id ≠ s.id := fun hsame => hnew (hsame ▸ List.mem_map_of_mem hs₂)
      rw [hothers₁ _ hne]
      exact hthere s₂ (.tail _ hs₂)
    obtain ⟨d₂, hworks₂, herrands₂, hservice₂⟩ := ih
      (herrands₁ ▸ errands_set_self ht { t with stage := .burying (choresFor taken) result }) rfl
      hrest hthere₁ fun s₂ hs₂ t ht => hgone s₂ (.tail _ hs₂) t (hsessions₁ ▸ ht)
    refine ⟨d₂, hworks₁.trans hworks₂, ?_, ?_⟩
    · rw [herrands₂, herrands₁, List.set_set]
    · rw [hservice₂, hservice₁]
      exact List.foldl_append.symm

/-! ### Whole errands -/

/-- What an errand comes to that is alone. -/
def ComesTo (d : Desk) (k : Nat) (t : Errand) (x : ErrandResult × Service) : Prop :=
  ∃ (d' : Desk) (t' : Errand), Works k d d' ∧ t'.order = t.order ∧
    d'.errands = d.errands.set k { t' with stage := .answered x.1 } ∧ d'.service = x.2

/-- There is one session with a name. -/
theorem Kept.filter_id (h : d.Kept) {id : Text} {s : Session}
    (hsession : d.service.session? id = some s) :
    d.service.sessions.filter (·.id = id) = [s] := by
  obtain ⟨hs, rfl⟩ := session?_eq_some hsession
  have hdistinct := h.distinct
  rw [all, List.map_append] at hdistinct
  have hnodup := (List.nodup_append.mp hdistinct).1
  obtain ⟨before, after, hsplit⟩ := List.append_of_mem hs
  rw [hsplit, List.map_append, List.map_cons] at hnodup
  have hbefore : ∀ t ∈ before, t.id ≠ s.id := fun t ht =>
    (List.nodup_append.mp hnodup).2.2 _ (List.mem_map_of_mem ht) _ (.head _)
  have hafter : ∀ t ∈ after, t.id ≠ s.id := fun t ht hsame =>
    (List.nodup_cons.mp (List.nodup_append.mp hnodup).2.1).1 (hsame ▸ List.mem_map_of_mem ht)
  have hnobody : ∀ {sessions : List Session}, (∀ t ∈ sessions, t.id ≠ s.id) →
      sessions.filter (·.id = s.id) = [] := fun hothers =>
    List.filter_eq_nil_iff.mpr fun t ht => by simpa using hothers t ht
  rw [hsplit, List.filter_append, List.filter_cons, hnobody hbefore, hnobody hafter]
  simp

/-- Sessions are taken out and ended. -/
theorem Tidy.comesTo_bury (h : d.Tidy) (ht : d.errands[k]? = some t) (hstage : t.stage = .entered)
    {isTaken : Session → Bool} {result : ErrandResult}
    (htakes : Takes d.service t.order isTaken result) :
    d.ComesTo k t (result, { d.service with
      sessions := d.service.sessions.filter fun s => !isTaken s }.bury
        (d.service.sessions.filter isTaken)) := by
  have hmove : d.Move k t _ := .removes hstage htakes (List.Perm.refl _)
  have htidy := h.move ht hmove
  have hthere : ∀ s ∈ d.service.sessions.filter isTaken,
      _ ∧ s.Did [] := fun s hs =>
    ⟨htidy.toKept.find?_of_mem (List.mem_append_right _ (List.mem_append_right _ hs)),
      (h.stored s (List.mem_filter.mp hs).1).1⟩
  obtain ⟨d', hworks, herrands, hservice⟩ := works_bury (errands_set_self ht _) rfl
    (h.toKept.nodup_taken (List.Perm.refl _)) hthere
    fun s hs s' hs' => htidy.toKept.not_mem_gone hs' (List.mem_append_right _ hs)
  refine ⟨d', t, .head ⟨t, ht, hmove⟩ hworks, rfl, ?_, hservice⟩
  exact herrands.trans (List.set_set ..)

/-- A session is destroyed. -/
theorem Kept.destroy_eq (h : d.Kept) {id : Text} {s : Session}
    (hsession : d.service.session? id = some s) :
    d.service.destroy id = (true, { d.service with
      sessions := d.service.sessions.filter fun s => !decide (s.id = id) }.bury
        (d.service.sessions.filter (·.id = id))) := by
  rw [Service.destroy, hsession, h.filter_id hsession]
  simp only [ne_eq, decide_not]

/-- A session is opened. -/
theorem comesTo_open (ht : d.errands[k]? = some t) (hstage : t.stage = .entered)
    {name root : Text} {restore strict : Bool}
    (horder : t.order = .request (.open name root restore strict)) (hroot : root ≠ []) :
    d.ComesTo k t ((Order.request (.open name root restore strict)).fulfil d.service) := by
  show d.ComesTo k t (.outcome (d.service.openSession name root restore strict).1,
    (d.service.openSession name root restore strict).2)
  unfold Service.openSession
  rw [if_neg hroot]
  dsimp only
  split
  · rename_i e hset
    exact ⟨_, t, .single ⟨t, ht, .unrestored hstage horder hroot hset⟩, rfl, rfl, rfl⟩
  · rename_i varSet hset
    have hrestores : d.Move k t _ := .restores hstage horder hroot hset
    have ht₁ := errands_set_self ht { t with stage := .restored varSet }
    split
    · rename_i e hcreate
      refine ⟨_, t, .tail (.single ⟨t, ht, hrestores⟩) ⟨_, ht₁, .unbuilt rfl horder hcreate⟩, rfl,
        ?_, rfl⟩
      exact List.set_set ..
    · rename_i p hcreate
      refine ⟨_, t, .tail (.tail (.single ⟨t, ht, hrestores⟩)
        ⟨_, ht₁, .builds rfl horder hcreate⟩)
        ⟨_, errands_set_self ht₁ _, .opens rfl horder rfl⟩, rfl, ?_, rfl⟩
      exact (List.set_set ..).trans (List.set_set ..)

/-- A session is used. -/
theorem comesTo_served (ht : d.errands[k]? = some t) (hstage : t.stage = .entered)
    {r : Request} (horder : t.order = .request r) {id : Text} (hr : r.session? = some id)
    (hclose : r ≠ .close id) (hadmitted : d.service.refusal? r = none) :
    d.ComesTo k t ((Order.request r).fulfil d.service) := by
  obtain ⟨-, s, hsession⟩ := Service.session?_of_admitted hr hadmitted
  obtain ⟨job, hjob, hserve⟩ := Service.serve_of_admitted hr hclose hadmitted hsession
  have hfind : d.find? id = some s := by
    rw [find?, all, List.find?_append]
    exact congrArg (Option.or · _) hsession
  let t₁ : Errand := { t with session := some id, stage := .served }
  have ht₁ : (d.set k t₁).errands[k]? = some t₁ := errands_set_self ht t₁
  let s₁ : Session := { s with lastUsed := d.service.now }
  have hfinds : d.Move k t (d.set k t₁) := .finds hstage horder hr hclose hadmitted
  have htouches : (d.set k t₁).Move k t₁ ((d.set k t₁).put s₁) := .touches rfl hfind
  have hfind₁ : ((d.set k t₁).put s₁).find? id = some s₁ := by
    rw [find?_put]
    refine (congrArg (Option.map _) hfind).trans ?_
    exact congrArg some (if_pos rfl)
  have hreaches := Move.reaches (k := k) (t := t₁) rfl hfind₁ fun s => Session.stays_ask s hjob
  refine ⟨_, t₁, .tail (.tail (.tail (.single ⟨t, ht, hfinds⟩) ⟨t₁, ht₁, htouches⟩)
    ⟨t₁, ht₁, hreaches⟩) ⟨t₁, ht₁, .answers rfl (d.service.serve r).1⟩, rfl, ?_, ?_⟩
  · exact List.set_set ..
  · refine Eq.trans ?_ hserve.symm
    have hid := (Service.stays_act (v := d.service) (s := s₁) fun s => Session.stays_ask s hjob).id
    exact Service.put_put (v := (d.service.act s₁ fun s => (s.ask job).2).2) hid

/-- What an errand comes to that has just come and is alone. -/
theorem Tidy.comesTo (h : d.Tidy) (ht : d.errands[k]? = some t) (hstage : t.stage = .entered) :
    d.ComesTo k t (t.order.fulfil d.service) := by
  cases horder : t.order with
  | destroyAll =>
    have htakes : Takes d.service t.order (fun _ => true) .nothing := horder ▸ .destroyAll
    simpa [Order.fulfil, Service.destroyAll] using h.comesTo_bury ht hstage htakes
  | sweep age =>
    let isStale (s : Session) : Bool := s.lastUsed < d.service.now - age
    have htakes : Takes d.service t.order isStale
        (.count (d.service.sessions.filter isStale).length) := horder ▸ .sweep age isStale
    exact h.comesTo_bury ht hstage htakes
  | destroy id =>
    cases hsession : d.service.session? id with
    | none =>
      refine ⟨_, t, .single ⟨t, ht, .misses hstage horder hsession⟩, rfl, ?_, ?_⟩
      · simp [Order.fulfil, Service.destroy, hsession, set]
      · simp [Order.fulfil, Service.destroy, hsession, set]
    | some s =>
      have htakes : Takes d.service t.order (·.id = id) (.flag true) := horder ▸ .destroy hsession
      rw [Order.fulfil, h.toKept.destroy_eq hsession]
      exact h.comesTo_bury ht hstage htakes
  | request r =>
    cases hrefusal : d.service.refusal? r with
    | some e =>
      refine ⟨_, t, .single ⟨t, ht, .refuses hstage horder hrefusal⟩, rfl, ?_, ?_⟩
      · rw [Order.fulfil, Service.serve_of_refusal hrefusal]
        rfl
      · rw [Order.fulfil, Service.serve_of_refusal hrefusal]
        rfl
    | none =>
      cases r with
      | «open» name root restore strict =>
        refine comesTo_open ht hstage horder fun hroot => ?_
        cases hrefusal.symm.trans (if_pos hroot)
      | listSessions => exact ⟨_, t, .single ⟨t, ht, .lists hstage horder⟩, rfl, rfl, rfl⟩
      | close id =>
        have hnames : (Request.close id).session? = some id := rfl
        obtain ⟨hid, s, hsession⟩ := Service.session?_of_admitted hnames hrefusal
        have htakes : Takes d.service t.order (·.id = id) (.outcome (.ok (.record []))) :=
          horder ▸ .close hrefusal
        have hserve : d.service.serve (.close id) =
            (.ok (.record []), (d.service.destroy id).2) := by
          rw [Service.serve, if_neg hid, h.toKept.destroy_eq hsession]
        rw [Order.fulfil, hserve, h.toKept.destroy_eq hsession]
        exact h.comesTo_bury ht hstage htakes
      | _ => exact comesTo_served ht hstage horder rfl (fun hclose => by cases hclose) hrefusal

/-- **An errand that is alone at the service comes to what the service does for it.** -/
theorem Tidy.fulfil_alone (h : d.Tidy) (order : Order) :
    ∃ d' t, Reaches d d' ∧ d'.errands = d.errands ++ [t] ∧ t.order = order ∧
      t.stage = .answered (order.fulfil d.service).1 ∧ d'.service = (order.fulfil d.service).2 := by
  have hcomes : Step d _ := .comes order
  have ht : (d.errands ++ [({ order, past := d.gone.map Session.id } : Errand)])[
      d.errands.length]? = some { order, past := d.gone.map Session.id } := by
    rw [List.getElem?_append_right (Nat.le_refl _), Nat.sub_self]
    rfl
  obtain ⟨d', t', hworks, horder, herrands, hservice⟩ := (h.comes order).comesTo ht rfl
  refine ⟨d', { t' with stage := .answered (order.fulfil d.service).1 },
    .head hcomes hworks.reaches, ?_, horder, rfl, hservice⟩
  rw [herrands, List.set_append_right _ _ (Nat.le_refl _), Nat.sub_self]
  rfl

/-- What the executor of a session does is something that may happen next. -/
theorem drive_alone {id : Text} {s : Session} (hsession : d.service.session? id = some s) :
    ∃ d', Step d d' ∧ d'.errands = d.errands ∧ d'.service = d.service.drive id := by
  have hfind : d.find? id = some s := by
    rw [find?, all, List.find?_append]
    exact congrArg (Option.or · _) hsession
  refine ⟨_, .lives hfind Session.stays_drive, rfl, ?_⟩
  rw [Service.drive, hsession]
  rfl

end Desk

end SchemePlayer
