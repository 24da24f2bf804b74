import Mathlib.Logic.Relation
import SchemePlayer.Proofs.Service.Session

/-!
# Many requests at one session store

Requests of clients, and what a server does by itself, are under way at the same time. Only what is
done to the store of open sessions is done at one go: a session is put in, looked up, or taken out.
Between any two such moments the others get on, and sessions live their own lives, also when they
have been taken out.

- `Service.refusal?`: why a request is refused at once. **A request that is refused changes
  nothing** (`serve_of_refusal`), and who names a session that is not there is refused
  (`refusal?_absent`).
- `Errand`: a request in flight, of a client or of the server itself, which destroys and sweeps
  sessions. When it has taken sessions out of the store it is `burying`: for each of them the steps
  of the store's `close`, the chores, are left to be taken.
- `Desk`: the session store, the sessions that were taken out of it, the requests in flight and what
  has happened so far; `Desk.Move`: what a request does next, and `Desk.Step`: what may happen next.
-/

namespace SchemePlayer

/-! ### Requests that are refused at once -/

/-- The session that a request names. -/
def Request.session? : Request → Option Text
  | .play id _ | .pause id | .resume id | .step id _ | .close id | .state id
  | .readVariables id _ | .setVariable id .. => some id
  | .open .. | .listSessions => none

namespace Service

variable {v : Service}

/-- What is wrong with the name of a session. -/
def absence? (v : Service) (id : Text) : Option ServiceError :=
  if id = [] then some .sessionMissing
  else match v.session? id with
    | none => some (.unknownSession id)
    | some _ => none

/-- Why a request is refused before anything was done for it. -/
def refusal? (v : Service) : Request → Option ServiceError
  | .open _ root _ _ => if root = [] then some .rootMissing else none
  | .step id count =>
    if count > stepLimit then some (.tooManySteps count stepLimit) else v.absence? id
  | .listSessions => none
  | .play id _ | .pause id | .resume id | .close id | .state id | .readVariables id _
  | .setVariable id .. => v.absence? id

theorem absence?_eq_some {id : Text} {e : ServiceError} (h : v.absence? id = some e) :
    id = [] ∧ e = .sessionMissing ∨
      id ≠ [] ∧ v.session? id = none ∧ e = .unknownSession id := by
  unfold absence? at h
  by_cases hid : id = []
  · rw [if_pos hid] at h
    cases h
    exact .inl ⟨hid, rfl⟩
  · rw [if_neg hid] at h
    cases hsession : v.session? id with
    | none =>
      rw [hsession] at h
      cases h
      exact .inr ⟨hid, rfl, rfl⟩
    | some s =>
      rw [hsession] at h
      cases h

theorem absence?_eq_none {id : Text} (h : v.absence? id = none) :
    id ≠ [] ∧ ∃ s, v.session? id = some s := by
  unfold absence? at h
  by_cases hid : id = []
  · rw [if_pos hid] at h
    cases h
  · rw [if_neg hid] at h
    cases hsession : v.session? id with
    | none =>
      rw [hsession] at h
      cases h
    | some s => exact ⟨hid, s, rfl⟩

theorem within_of_absence {id : Text} {e : ServiceError} (h : v.absence? id = some e)
    (job : Player → Outcome × Player) : v.within id job = (.error e, v) := by
  rcases absence?_eq_some h with ⟨rfl, rfl⟩ | ⟨hid, hsession, rfl⟩
  · rfl
  · rw [within, if_neg hid, hsession]

theorem reportState_of_absence {id : Text} {e : ServiceError} (h : v.absence? id = some e)
    (f : Player → Except PlayError Unit × Player) :
    reportState id (v.control id f) = (.error e, v) := by
  unfold control
  rw [within_of_absence h]
  rfl

/-- **A request that is refused changes nothing.** -/
theorem serve_of_refusal {r : Request} {e : ServiceError} (h : v.refusal? r = some e) :
    v.serve r = (.error e, v) := by
  cases r with
  | «open» name root restore strict =>
    unfold refusal? at h
    dsimp only at h
    split at h
    · rename_i hroot
      cases h
      exact if_pos hroot
    · cases h
  | step id count =>
    unfold refusal? at h
    unfold serve
    dsimp only at h ⊢
    split at h
    · rename_i hcount
      cases h
      exact if_pos hcount
    · rename_i hcount
      rw [if_neg hcount]
      exact reportState_of_absence h _
  | listSessions => cases h
  | close id =>
    rcases absence?_eq_some h with ⟨rfl, rfl⟩ | ⟨hid, hsession, rfl⟩
    · rfl
    · rw [serve, if_neg hid, destroy, hsession]
  | play id _ => exact reportState_of_absence h _
  | pause id => exact reportState_of_absence h _
  | resume id => exact reportState_of_absence h _
  | state id => exact reportState_of_absence h _
  | readVariables id _ => exact within_of_absence h _
  | setVariable id _ _ _ => exact within_of_absence h _

/-- What a client is told that names a session which is not there: that it is not found, unless the
request is out of bounds anyway. -/
inductive Absent (id : Text) : Request → ServiceError → Prop where
  | unknown (r : Request) : Absent id r (.unknownSession id)
  | excess {count : Int} (h : count > stepLimit) :
      Absent id (.step id count) (.tooManySteps count stepLimit)

theorem Absent.code {id : Text} {r : Request} {e : ServiceError} (h : Absent id r e) :
    e.code = .notFound ∨ e.code = .invalidArgument ∧ ∃ count > stepLimit, r = .step id count := by
  cases h with
  | unknown r => exact .inl rfl
  | excess hcount => exact .inr ⟨rfl, _, hcount, rfl⟩

/-- **Who names a session that is not there is refused.** -/
theorem refusal?_absent {r : Request} {id : Text} (hr : r.session? = some id) (hid : id ≠ [])
    (habsent : v.session? id = none) : ∃ e, v.refusal? r = some e ∧ Absent id r e := by
  have habsence : v.absence? id = some (.unknownSession id) := by
    unfold absence?
    rw [if_neg hid, habsent]
  cases r with
  | «open» | listSessions => cases hr
  | step id' count =>
    cases hr
    by_cases hcount : count > stepLimit
    · exact ⟨_, if_pos hcount, .excess hcount⟩
    · exact ⟨_, (if_neg hcount).trans habsence, .unknown _⟩
  | _ =>
    cases hr
    exact ⟨_, habsence, .unknown _⟩

/-- A request that is not refused and names a session names one that is there. -/
theorem session?_of_admitted {r : Request} {id : Text} (hr : r.session? = some id)
    (h : v.refusal? r = none) : id ≠ [] ∧ ∃ s, v.session? id = some s := by
  have habsence : v.absence? id = none := by
    cases r with
    | «open» | listSessions => cases hr
    | step id' count =>
      cases hr
      unfold refusal? at h
      dsimp only at h
      split at h
      · cases h
      · exact h
    | _ =>
      cases hr
      exact h
  exact absence?_eq_none habsence

end Service

/-! ### Requests in flight -/

/-- What is to be done: what a client asks for, or what the server does by itself. -/
inductive Order where
  | request (r : Request)
  | destroy (id : Text)
  | destroyAll
  /-- ends the sessions that nobody used for so long -/
  | sweep (age : Int)

/-- What an errand comes to. -/
inductive ErrandResult where
  | outcome (o : Outcome)
  | flag (wasThere : Bool)
  | count (n : Nat)
  | nothing

/-- How far a request in flight has got. -/
inductive ErrandStage where
  | entered
  /-- a session is to be opened, and this is what its variables are to be -/
  | restored (varSet : Option VarSet)
  /-- a session is to be opened for this project -/
  | built (p : Project)
  /-- the session was found -/
  | served
  /-- sessions were taken out of the store; these steps of closing them are left -/
  | burying (chores : List (Text × Chore)) (result : ErrandResult)
  | answered (result : ErrandResult)

/-- A request that is in flight, or was. -/
structure Errand where
  order : Order
  /-- the sessions that had been taken out before -/
  past : List Text
  /-- the session that was found for it -/
  session : Option Text := none
  stage : ErrandStage := .entered

/-- The steps that are left of closing sessions that were taken out. -/
def Errand.chores (t : Errand) : List (Text × Chore) :=
  match t.stage with
  | .burying chores _ => chores
  | _ => []

/-- What happens to sessions, and by which errand. -/
inductive DeskEvent where
  | enters (errand : Nat)
  | opens (errand : Nat) (id : Text)
  | removes (errand : Nat) (id : Text)
  /-- a step of closing a session is taken -/
  | does (errand : Nat) (chore : Chore) (id : Text)
  /-- a request gets at the project of a session -/
  | reaches (errand : Nat) (id : Text)

/-- A service with its session store, and the requests that are in flight at it. -/
structure Desk where
  service : Service
  /-- the sessions that were taken out -/
  gone : List Session := []
  errands : List Errand := []
  /-- what has happened, in order -/
  log : List DeskEvent := []
  /-- whether the server broke down -/
  isDown : Bool := false

namespace Desk

/-- The sessions that were ever opened. -/
def all (d : Desk) : List Session := d.service.sessions ++ d.gone

/-- A session, open or not. -/
def find? (d : Desk) (id : Text) : Option Session := d.all.find? (·.id = id)

/-- Puts a session in the place of the one with its name. -/
def put (d : Desk) (s : Session) : Desk :=
  { d with
    service := d.service.put s
    gone := d.gone.map fun t => if t.id = s.id then s else t }

/-- Lets something happen in a session. -/
def act (d : Desk) (s : Session) (f : Session → Session) : Desk :=
  { d with service := (d.service.act s f).2 }.put (d.service.act s f).1

/-- An errand gets on. -/
def set (d : Desk) (k : Nat) (t : Errand) : Desk := { d with errands := d.errands.set k t }

/-- Which sessions an errand takes out, and what it comes to. A sweep looks at the sessions one by
one while others use them, so that it is left open which of them it finds idle. -/
inductive Takes (v : Service) : Order → (Session → Bool) → ErrandResult → Prop where
  | close {id : Text} (hadmitted : v.refusal? (.close id) = none) :
      Takes v (.request (.close id)) (·.id = id) (.outcome (.ok (.record [])))
  | destroy {id : Text} {s : Session} (hsession : v.session? id = some s) :
      Takes v (.destroy id) (·.id = id) (.flag true)
  | destroyAll : Takes v .destroyAll (fun _ => true) .nothing
  | sweep (age : Int) (isStale : Session → Bool) :
      Takes v (.sweep age) isStale (.count (v.sessions.filter isStale).length)

/-- All steps of closing some sessions, one session after the other. -/
def choresFor (sessions : List Session) : List (Text × Chore) :=
  sessions.flatMap fun s => Chore.all.map fun chore => (s.id, chore)

/-- What the request `t` with number `k` does next. What a request does to the session that was found
for it is left open, also when: it may still be going on when the client has been told that the
session is closed. -/
inductive Move (d : Desk) (k : Nat) (t : Errand) : Desk → Prop where
  | refuses {r : Request} {e : ServiceError} (hstage : t.stage = .entered)
      (horder : t.order = .request r) (hrefusal : d.service.refusal? r = some e) :
      Move d k t (d.set k { t with stage := .answered (.outcome (.error e)) })
  -- a session is opened
  | restores {name root : Text} {restore strict : Bool} {varSet : Option VarSet}
      (hstage : t.stage = .entered) (horder : t.order = .request (.open name root restore strict))
      (hroot : root ≠ [])
      (hset : d.service.restored (if name = [] then root else name) root restore = .ok varSet) :
      Move d k t (d.set k { t with stage := .restored varSet })
  | unrestored {name root : Text} {restore strict : Bool} {e : ServiceError}
      (hstage : t.stage = .entered) (horder : t.order = .request (.open name root restore strict))
      (hroot : root ≠ [])
      (hset : d.service.restored (if name = [] then root else name) root restore = .error e) :
      Move d k t (d.set k { t with stage := .answered (.outcome (.error e)) })
  | builds {name root : Text} {restore strict : Bool} {varSet : Option VarSet} {id : Nat}
      {p : Project} (hstage : t.stage = .restored varSet)
      (horder : t.order = .request (.open name root restore strict))
      (hcreate : Project.create { id, root, classes := d.service.classes, dir := d.service.dir
                                  strict, varSet } = .ok p) :
      Move d k t (d.set k { t with stage := .built p })
  | unbuilt {name root : Text} {restore strict : Bool} {varSet : Option VarSet} {id : Nat}
      {e : Tree.BuildError} (hstage : t.stage = .restored varSet)
      (horder : t.order = .request (.open name root restore strict))
      (hcreate : Project.create { id, root, classes := d.service.classes, dir := d.service.dir
                                  strict, varSet } = .error e) :
      Move d k t (d.set k { t with stage := .answered (.outcome (.error (.notBuilt e))) })
  | opens {name root : Text} {restore strict : Bool} {p : Project} {s : Session}
      (hstage : t.stage = .built p) (horder : t.order = .request (.open name root restore strict))
      (hsession : s = d.service.newSession (if name = [] then root else name) p) :
      Move d k t { d.set k { t with stage := .answered (.outcome (.ok (Service.openedOf s))) } with
        service := { d.service with
          sessions := d.service.sessions ++ [s]
          opened := d.service.opened + 1 }
        log := d.log ++ [.opens k s.id] }
  -- a session is used
  | finds {r : Request} {id : Text} (hstage : t.stage = .entered) (horder : t.order = .request r)
      (hnames : r.session? = some id) (hclose : r ≠ .close id)
      (hadmitted : d.service.refusal? r = none) :
      Move d k t (d.set k { t with session := some id, stage := .served })
  | touches {id : Text} {s : Session} (hsession : t.session = some id)
      (hfind : d.find? id = some s) : Move d k t (d.put { s with lastUsed := d.service.now })
  | reaches {id : Text} {s : Session} {f : Session → Session} (hsession : t.session = some id)
      (hfind : d.find? id = some s) (hstays : ∀ s : Session, s.Stays (f s)) :
      Move d k t { d.act s f with log := d.log ++ [.reaches k id] }
  | answers (hstage : t.stage = .served) (o : Outcome) :
      Move d k t (d.set k { t with stage := .answered (.outcome o) })
  -- sessions are ended
  | removes {isTaken : Session → Bool} {result : ErrandResult} {taken : List Session}
      (hstage : t.stage = .entered) (htakes : Takes d.service t.order isTaken result)
      (htaken : taken.Perm (d.service.sessions.filter isTaken)) :
      Move d k t { d.set k { t with stage := .burying (choresFor taken) result } with
        service := { d.service with sessions := d.service.sessions.filter fun s => !isTaken s }
        gone := d.gone ++ taken
        log := d.log ++ taken.map fun s => .removes k s.id }
  | attends {id : Text} {chore : Chore} {chores : List (Text × Chore)} {result : ErrandResult}
      {s s' : Session} {v : Service} (hstage : t.stage = .burying ((id, chore) :: chores) result)
      (hfind : d.find? id = some s) (hattend : d.service.attend? s chore = some (s', v)) :
      Move d k t { ({ d with service := v }.put s').set k { t with
          stage := .burying chores result } with
        log := d.log ++ [.does k chore id] }
  | crashes {id : Text} {chore : Chore} {chores : List (Text × Chore)} {result : ErrandResult}
      {s : Session} (hstage : t.stage = .burying ((id, chore) :: chores) result)
      (hfind : d.find? id = some s) (hattend : d.service.attend? s chore = none) :
      Move d k t { d with isDown := true }
  | finishes {result : ErrandResult} (hstage : t.stage = .burying [] result) :
      Move d k t (d.set k { t with stage := .answered result })
  -- the rest
  | misses {id : Text} (hstage : t.stage = .entered) (horder : t.order = .destroy id)
      (hsession : d.service.session? id = none) :
      Move d k t (d.set k { t with stage := .answered (.flag false) })
  | lists (hstage : t.stage = .entered) (horder : t.order = .request .listSessions) :
      Move d k t
        (d.set k { t with stage := .answered (.outcome (d.service.serve .listSessions).1) })

/-- What may happen next. -/
inductive Step : Desk → Desk → Prop where
  | comes {d : Desk} (order : Order) :
      Step d { d with
        errands := d.errands ++ [{ order, past := d.gone.map Session.id }]
        log := d.log ++ [.enters d.errands.length] }
  | moves {d d' : Desk} {k : Nat} {t : Errand} (herrand : d.errands[k]? = some t)
      (hmove : d.Move k t d') : Step d d'
  /-- something happens in a session, by itself -/
  | lives {d : Desk} {id : Text} {s : Session} {f : Session → Session}
      (hfind : d.find? id = some s) (hstays : ∀ s : Session, s.Stays (f s)) : Step d (d.act s f)
  /-- the files change in any way -/
  | disk {d : Desk} (files : Files) : Step d { d with service := { d.service with files } }
  | passes {d : Desk} (time : Nat) :
      Step d { d with service := { d.service with now := d.service.now + time } }

/-- Some steps. -/
abbrev Reaches : Desk → Desk → Prop := Relation.ReflTransGen Step

/-- Some moves of one errand, and nothing else. -/
abbrev Works (k : Nat) : Desk → Desk → Prop :=
  Relation.ReflTransGen fun d d' => ∃ t, d.errands[k]? = some t ∧ d.Move k t d'

theorem Works.reaches {d d' : Desk} {k : Nat} (h : Works k d d') : Reaches d d' :=
  h.lift id fun _ _ ⟨_, herrand, hmove⟩ => .moves herrand hmove

/-- A service at which nothing is under way. -/
def start (service : Service) : Desk := { service }

end Desk

end SchemePlayer
