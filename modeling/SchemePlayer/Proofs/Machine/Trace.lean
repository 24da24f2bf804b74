import SchemePlayer.Proofs.Machine.Request
import SchemePlayer.Proofs.Memory.Size

/-!
# Traces of a tick

The trace of a tick lists the instructions that it executes, in order, each with the call
it makes to the host, if any (`Entry`, `Occurrence`). `Runs` relates the beginning of a run
to its trace and its end by the three things that a step can be: quiet, a call that gets a
value, or a call that gets none and ends the tick; every fact about whole runs is an
induction on it.

- `Runs.forall_occurrences`: a property of all calls of a run follows from an invariant of its
  steps.
- `Runs.keys_nodup`: a tick makes each of its calls (site and turn) once.
- `Runs.reception_eq`: a call is answered from the record iff it is recorded, and otherwise
  the host is asked.
- `Runs.outcome`: a tick yields iff the host promised a reply to the last call of its
  trace, and then that call is the pending one.
- `Runs.site`: calls of one site are calls of one operation, with arguments of its kinds.
-/

namespace SchemePlayer

/-- An execution of an instance that the tree has under the execution's number. -/
def Frame.Known (s : Setting) (f : Frame) : Prop := s.tree.instance? f.id = some f.inst

namespace Machine

variable {σ : Type}

/-! ### What a step without a request leaves alone -/

/-- What holds of a step that makes no call. -/
structure Quiet (s : Setting) (m m' : Machine σ) (how : Option TickEnd) : Prop where
  host : m'.host = m.host
  reached : m'.reached = m.reached
  pending : m'.pending = m.pending
  waiting : m'.waiting = m.waiting
  memory : m'.memory = m.memory ∨ ∃ slot v, m.memory.write slot v = .ok m'.memory
  closing : m'.closing = true →
    m.closing = true ∨ ∃ f outer i, m.next? = some (f, outer, i) ∧ i.op = .closeAll
  known : (∀ f ∈ m.frames, f.Known s) → ∀ f ∈ m'.frames, f.Known s
  ending : how ≠ some .yielded

/-- A step that changes at most the visit and the count of executions left out is quiet. -/
theorem Quiet.still {s : Setting} {m : Machine σ} {how : Option TickEnd} {agenda : List Visit}
    {denied : Nat} (hhow : how ≠ some .yielded) : Quiet s m { m with agenda, denied } how :=
  ⟨rfl, rfl, rfl, rfl, .inl rfl, .inl, fun hknown => hknown, hhow⟩

/-- A step that goes on with other known executions is quiet. -/
theorem Quiet.frames {s : Setting} {m : Machine σ} {frames : List Frame}
    (hknown : (∀ f ∈ m.frames, f.Known s) → ∀ f ∈ frames, f.Known s) :
    Quiet s m { m with frames } none :=
  ⟨rfl, rfl, rfl, rfl, .inl rfl, .inl, hknown, by simp⟩

theorem quiet_begin (s : Setting) (m : Machine σ) (id : Nat) :
    Quiet s m (m.begin s id) none := by
  unfold begin
  split
  · split
    · rename_i inst hinst
      refine Quiet.frames fun hknown f hf => ?_
      rcases List.mem_cons.mp hf with rfl | hf
      · exact hinst
      · exact hknown f hf
    · exact Quiet.still (by simp)
  · exact Quiet.still (by simp)

theorem closing_begin (s : Setting) (m : Machine σ) (id : Nat) :
    (m.begin s id).closing = m.closing := by
  unfold begin
  split
  · split <;> rfl
  · rfl

theorem quiet_visit (s : Setting) (m : Machine σ) (v : Visit) :
    Quiet s m (m.visit s v) none := by
  cases v with
  | run id => exact quiet_begin s m id
  | enter id =>
    unfold visit
    dsimp only
    split
    · exact Quiet.still (by simp)
    · split
      · exact Quiet.still (by simp)
      · exact Quiet.still (by simp)

/-- An execution that goes on is an execution of the same instance. -/
theorem known_replace {s : Setting} {m : Machine σ} {f f' : Frame} {outer : List Frame}
    (hframes : m.frames = f :: outer) (hid : f'.id = f.id) (hinst : f'.inst = f.inst)
    (hknown : ∀ g ∈ m.frames, g.Known s) : ∀ g ∈ f' :: outer, g.Known s := by
  rw [hframes] at hknown
  intro g hg
  rcases List.mem_cons.mp hg with rfl | hg
  · have hf := hknown f (List.mem_cons_self ..)
    rw [Frame.Known, hid, hinst]
    exact hf
  · exact hknown g (List.mem_cons_of_mem _ hg)

/-- An instruction that makes no call is quiet. -/
theorem quiet_perform {h : Host σ} {s : Setting} {m : Machine σ} {f : Frame} {outer : List Frame}
    {i : Instruction} {e : Effect} (hnext : m.next? = some (f, outer, i))
    (heffect : i.effect (m.scenery s f) f.stack = .ok e) (hcall : e.call? = none) :
    Quiet s m (m.perform h s f outer i e).1 (m.perform h s f outer i e).2 := by
  have hframes : m.frames = f :: outer := (next?_eq_some hnext).1
  cases e with
  | ask call stack => cases hcall
  | store slot value stack =>
    simp only [perform]
    split
    · rename_i memory hwrite
      exact ⟨rfl, rfl, rfl, rfl, .inr ⟨slot, value, hwrite⟩, .inl, known_replace hframes rfl rfl,
        by simp [goesOn]⟩
    · exact Quiet.still (by simp [fail])
  | finish =>
    refine Quiet.frames fun hknown g hg => ?_
    rw [hframes] at hknown
    exact hknown g (List.mem_cons_of_mem _ hg)
  | closeAll =>
    exact ⟨rfl, rfl, rfl, rfl, .inl rfl,
      fun _ => .inr ⟨f, outer, i, hnext, Instruction.closeAll_of_effect heffect⟩,
      known_replace hframes rfl rfl, by simp [perform, goesOn]⟩
  | next stack => exact Quiet.frames (known_replace hframes rfl rfl)
  | jump target stack => exact Quiet.frames (known_replace hframes rfl rfl)
  | send className stack => exact Quiet.frames (known_replace hframes rfl rfl)

/-- **A step without a request is quiet.** -/
theorem quiet_step {h : Host σ} {s : Setting} {m : Machine σ} (hr : m.request? s = none) :
    Quiet s m (m.step h s).1 (m.step h s).2 := by
  cases hnext : m.next? with
  | some found =>
    obtain ⟨f, outer, i⟩ := found
    rw [step_of_next hnext]
    cases heffect : i.effect (m.scenery s f) f.stack with
    | error fault => exact Quiet.still (by simp [fail])
    | ok e =>
      refine quiet_perform hnext heffect ?_
      cases e with
      | ask call stack =>
        -- an instruction that makes a call is a request
        simp [request?, hnext, requestOf, heffect] at hr
      | _ => rfl
  | none =>
    rcases step_of_not_next (h := h) (s := s) hnext with ⟨-, hstep⟩ | ⟨v, agenda, -, -, hstep⟩ |
      ⟨f, outer, target, targets, hframes, -, hstep⟩ | ⟨f, outer, hframes, -, hstep⟩ |
      ⟨f, outer, fault, -, -, -, hstep⟩
    · rw [hstep]
      exact Quiet.still (by simp)
    · rw [hstep]
      have hvisit := quiet_visit s { m with agenda } v
      exact { hvisit with }
    · rw [hstep]
      have hbegin := quiet_begin s { m with frames := { f with targets } :: outer } target
      have hclosing := closing_begin s { m with frames := { f with targets } :: outer } target
      -- to begin at the target does not close, and the sender is as known as before
      exact { hbegin with
        closing := fun hc => .inl (hclosing.symm.trans hc)
        known := fun hknown => hbegin.known (known_replace hframes rfl rfl hknown) }
    · rw [hstep]
      refine Quiet.frames fun hknown g hg => ?_
      exact hknown g (by rw [hframes]; exact List.mem_cons_of_mem _ hg)
    · rw [hstep]
      exact Quiet.still (by simp [fail])

theorem quiet_of_step {h : Host σ} {s : Setting} {m m' : Machine σ} {how : Option TickEnd}
    (hr : m.request? s = none) (hstep : m.step h s = (m', how)) : Quiet s m m' how := by
  have hquiet := quiet_step (h := h) hr
  rw [hstep] at hquiet
  exact hquiet

/-! ### Traces -/

/-- A call that a tick makes, and what becomes of it. -/
structure Occurrence where
  key : CallKey
  call : HyperCall
  reception : Reception
  deriving DecidableEq

/-- The value that code gets for a call, if it gets one now. -/
def Occurrence.value? (o : Occurrence) : Option Value := o.reception.value? o.call.op

/-- An instruction that a tick executes, with the call it makes. -/
structure Entry where
  op : Opcode
  occurrence : Option Occurrence
  deriving DecidableEq

/-- The call that the next step makes. -/
def occurrence? (h : Host σ) (s : Setting) (m : Machine σ) : Option Occurrence :=
  (m.request? s).map fun r => ⟨m.keyOf r.frame, r.call, m.reception h s r.frame r.call⟩

/-- The instruction that the next step executes. -/
def executed? (h : Host σ) (s : Setting) (m : Machine σ) : Option Entry :=
  m.next?.map fun (_, _, i) => ⟨i.op, m.occurrence? h s⟩

/-- The instructions that a run executes. -/
def trace (h : Host σ) (s : Setting) : Nat → Machine σ → List Entry
  | 0, _ => []
  | budget + 1, m =>
    (m.executed? h s).toList ++
      match m.step h s with
      | (m', none) => trace h s budget m'
      | (_, some _) => []

/-- The calls of a trace. -/
def occurrences (es : List Entry) : List Occurrence := es.filterMap Entry.occurrence

@[simp] theorem occurrences_append (es es' : List Entry) :
    occurrences (es ++ es') = occurrences es ++ occurrences es' := List.filterMap_append

theorem mem_occurrences {es : List Entry} {o : Occurrence} :
    o ∈ occurrences es ↔ ∃ e ∈ es, e.occurrence = some o := List.mem_filterMap

theorem occurrences_executed? (h : Host σ) (s : Setting) (m : Machine σ) :
    occurrences (m.executed? h s).toList = (m.occurrence? h s).toList := by
  unfold executed? occurrence? request?
  cases m.next? with
  | none => rfl
  | some found =>
    obtain ⟨f, outer, i⟩ := found
    dsimp only [Option.map]
    cases hr : m.requestOf s f outer i <;> simp [occurrences]

/-- How a run with a trace goes: the steps it takes are quiet, make a call that gets a
value, or end it. -/
inductive Runs (h : Host σ) (s : Setting) :
    Nat → Machine σ → List Entry → Machine σ → TickEnd → Prop where
  | exhausted (m : Machine σ) : Runs h s 0 m [] m (.failed .exhausted)
  | quiet {budget : Nat} {m m' : Machine σ} {es : List Entry} {last : Machine σ} {how : TickEnd} :
    m.request? s = none → m.step h s = (m', none) → Runs h s budget m' es last how →
      Runs h s (budget + 1) m ((m.executed? h s).toList ++ es) last how
  | ended {budget : Nat} {m last : Machine σ} {how : TickEnd} :
    m.request? s = none → m.step h s = (last, some how) →
      Runs h s (budget + 1) m (m.executed? h s).toList last how
  | answered {budget : Nat} {m : Machine σ} {r : Request} {v : Value} {es : List Entry}
      {last : Machine σ} {how : TickEnd} :
    m.request? s = some r → (m.reception h s r.frame r.call).value? r.call.op = some v →
      Runs h s budget { m.afterCall h s r.frame r.call with frames := r.next v } es last how →
      Runs h s (budget + 1) m ((m.executed? h s).toList ++ es) last how
  | stopped {budget : Nat} {m : Machine σ} {r : Request} {last : Machine σ} {how : TickEnd} :
    m.request? s = some r → (m.reception h s r.frame r.call).value? r.call.op = none →
      m.step h s = (last, some how) → Runs h s (budget + 1) m (m.executed? h s).toList last how

/-- Every run has its trace. -/
theorem runs_trace (h : Host σ) (s : Setting) (budget : Nat) (m : Machine σ) :
    Runs h s budget m (m.trace h s budget) (m.run h s budget).1 (m.run h s budget).2 := by
  induction budget generalizing m with
  | zero => exact .exhausted m
  | succ budget ih =>
    unfold trace run
    cases hr : m.request? s with
    | none =>
      rcases hstep : m.step h s with ⟨m', _ | how⟩
      · exact .quiet hr hstep (ih m')
      · rw [List.append_nil]
        exact .ended hr hstep
    | some r =>
      cases hv : (m.reception h s r.frame r.call).value? r.call.op with
      | some v =>
        rw [step_of_value hr hv]
        exact .answered hr hv (ih _)
      | none =>
        -- a call without a value ends the tick in each of its three ways
        have hends : ∃ last how, m.step h s = (last, some how) := by
          rcases step_of_no_value hr hv with ⟨-, hstep⟩ | ⟨_, -, hstep⟩ | ⟨_, -, -, hstep⟩
          · exact ⟨_, _, hstep⟩
          · exact ⟨_, _, hstep⟩
          · exact ⟨_, _, hstep⟩
        obtain ⟨last, how, hstep⟩ := hends
        rw [hstep, List.append_nil]
        exact .stopped hr hv hstep

/-! ### Calls of one tick -/

section Runs

variable {h : Host σ} {s : Setting} {budget : Nat} {m last : Machine σ} {es : List Entry}
  {how : TickEnd}

theorem occurrence?_of_not_request (hr : m.request? s = none) : m.occurrence? h s = none := by
  rw [occurrence?, hr]
  rfl

theorem occurrence?_of_request {r : Request} (hr : m.request? s = some r) :
    m.occurrence? h s =
      some ⟨m.keyOf r.frame, r.call, m.reception h s r.frame r.call⟩ := by
  rw [occurrence?, hr]
  rfl

/-- A call is made by an instruction. -/
theorem executed?_of_request {r : Request} (hr : m.request? s = some r) :
    ∃ op, m.executed? h s =
      some ⟨op, some ⟨m.keyOf r.frame, r.call, m.reception h s r.frame r.call⟩⟩ := by
  rw [executed?, occurrence?_of_request hr]
  unfold request? at hr
  split at hr
  · cases hr
  · rename_i f outer i hnext
    rw [hnext]
    exact ⟨i.op, rfl⟩

/-- The calls of a run, step by step. -/
theorem occurrences_cons (m : Machine σ) (es : List Entry) :
    occurrences ((m.executed? h s).toList ++ es) =
      (m.occurrence? h s).toList ++ occurrences es := by
  rw [occurrences_append, occurrences_executed?]

/-- **What holds of every call of a run.** It is enough to find an invariant of the machine that
no step breaks and under which a call has the property. -/
theorem Runs.forall_occurrences {I : Machine σ → Prop} {P : Occurrence → Prop}
    (quiet : ∀ m m', I m → m.request? s = none → m.step h s = (m', none) → I m')
    (answered : ∀ m r v, I m → m.request? s = some r →
      (m.reception h s r.frame r.call).value? r.call.op = some v →
        I { m.afterCall h s r.frame r.call with frames := r.next v })
    (call : ∀ m r, I m → m.request? s = some r →
      P ⟨m.keyOf r.frame, r.call, m.reception h s r.frame r.call⟩)
    (hrun : Runs h s budget m es last how) (hm : I m) : ∀ o ∈ occurrences es, P o := by
  induction hrun with
  | exhausted m =>
    intro o ho
    cases ho
  | quiet hr hstep _ ih =>
    rw [occurrences_cons, occurrence?_of_not_request hr]
    exact ih (quiet _ _ hm hr hstep)
  | ended hr _ =>
    rw [occurrences_executed?, occurrence?_of_not_request hr]
    intro o ho
    cases ho
  | answered hr hv _ ih =>
    intro o ho
    rw [occurrences_cons, occurrence?_of_request hr] at ho
    rcases List.mem_cons.mp ho with rfl | ho
    · exact call _ _ hm hr
    · exact ih (answered _ _ _ hm hr hv) o ho
  | stopped hr _ _ =>
    intro o ho
    rw [occurrences_executed?, occurrence?_of_request hr] at ho
    obtain rfl := List.mem_singleton.mp ho
    exact call _ _ hm hr

/-- A site that was reached so often before is reached at a later turn. -/
theorem Runs.turn_ge (hrun : Runs h s budget m es last how) :
    ∀ o ∈ occurrences es, m.reached.count o.key.site ≤ o.key.turn := by
  -- the sites reached before are still among those reached
  refine hrun.forall_occurrences
    (I := fun m' => ∀ site, m.reached.count site ≤ m'.reached.count site) ?_ ?_ ?_
    fun _ => Nat.le_refl _
  · intro m₁ m₂ hm hr hstep site
    rw [(quiet_of_step hr hstep).reached]
    exact hm site
  · intro m₁ r v hm hr hv site
    exact Nat.le_trans (hm site) List.count_le_count_cons
  · intro m₁ r hm hr
    exact hm ⟨r.frame.id, r.frame.pc⟩

/-- **A tick makes each of its calls once.** -/
theorem Runs.keys_nodup (hrun : Runs h s budget m es last how) :
    ((occurrences es).map Occurrence.key).Nodup := by
  induction hrun with
  | exhausted m => exact List.nodup_nil
  | quiet hr _ _ ih =>
    rw [occurrences_cons, occurrence?_of_not_request hr]
    exact ih
  | ended hr _ =>
    rw [occurrences_executed?, occurrence?_of_not_request hr]
    exact List.nodup_nil
  | answered hr _ hrest ih =>
    rename_i m r v es last how
    rw [occurrences_cons, occurrence?_of_request hr]
    refine List.nodup_cons.mpr ⟨fun hmem => ?_, ih⟩
    -- a later call of the same site has a later turn
    obtain ⟨o, ho, hkey⟩ := List.mem_map.mp hmem
    have hturn := hrest.turn_ge o ho
    rw [hkey] at hturn
    simp only [afterCall, keyOf, List.count_cons_self] at hturn
    omega
  | stopped hr _ _ =>
    rw [occurrences_executed?, occurrence?_of_request hr]
    exact List.pairwise_singleton ..

/-! ### What becomes of the calls -/

/-- **A call is answered from the record iff it is recorded, and otherwise by the host.** -/
theorem Runs.reception_eq (hrun : Runs h s budget m es last how) (hp : m.pending = none) :
    ∀ o ∈ occurrences es,
      (∃ v, s.delivered.lookup o.key = some v ∧ o.reception = .recorded v) ∨
      (s.delivered.lookup o.key = none ∧ ∃ answer, o.reception = .asked answer) := by
  -- nothing is pending as long as the tick goes on, so no call is held back
  refine hrun.forall_occurrences (I := fun m => m.pending = none) ?_ ?_ ?_ hp
  · intro m m' hp hr hstep
    exact (quiet_of_step hr hstep).pending.trans hp
  · intro m r v hp hr hv
    exact hp
  · intro m r hp hr
    show (∃ v, s.delivered.lookup (m.keyOf r.frame) = some v ∧
        m.reception h s r.frame r.call = .recorded v) ∨
      (s.delivered.lookup (m.keyOf r.frame) = none ∧
        ∃ answer, m.reception h s r.frame r.call = .asked answer)
    unfold reception
    cases s.delivered.lookup (m.keyOf r.frame) with
    | some v => exact .inl ⟨v, rfl, rfl⟩
    | none =>
      refine .inr ⟨rfl, (h.call m.host (callerOf s r.frame) r.call).1, ?_⟩
      simp only [hp, Option.isSome_none, Bool.false_eq_true, if_false]

/-- A tick that yields was ended by the last call of its trace, which is pending now. -/
def EndsPending (es : List Entry) (last : Machine σ) : Prop :=
  ∃ before e o ticket, es = before ++ [e] ∧ e.occurrence = some o ∧
    o.reception = .asked (.pending ticket) ∧
    last.pending = some ⟨o.key, o.call.op, ticket⟩ ∧ last.waiting = true

theorem EndsPending.append (hends : EndsPending es last) (es' : List Entry) :
    EndsPending (es' ++ es) last := by
  obtain ⟨before, e, o, ticket, rfl, hrest⟩ := hends
  exact ⟨es' ++ before, e, o, ticket, by rw [List.append_assoc], hrest⟩

/-- **A tick yields iff the host promised a reply to its last call.** -/
theorem Runs.outcome (hrun : Runs h s budget m es last how) (hp : m.pending = none) :
    (how = .yielded ∧ EndsPending es last) ∨
    (how ≠ .yielded ∧ last.pending = none ∧ last.waiting = m.waiting ∧
      ∀ o ∈ occurrences es, ∀ ticket, o.reception ≠ .asked (.pending ticket)) := by
  induction hrun with
  | exhausted m => exact .inr ⟨by simp, hp, rfl, fun o ho => absurd ho List.not_mem_nil⟩
  | quiet hr hstep _ ih =>
    have hquiet := quiet_of_step hr hstep
    rcases ih (hquiet.pending.trans hp) with ⟨hyield, hends⟩ | ⟨hother, hnone, hwait, hocc⟩
    · exact .inl ⟨hyield, hends.append _⟩
    · refine .inr ⟨hother, hnone, hwait.trans hquiet.waiting, ?_⟩
      rw [occurrences_cons, occurrence?_of_not_request hr]
      exact hocc
  | ended hr hstep =>
    have hquiet := quiet_of_step hr hstep
    refine .inr ⟨fun hyield => hquiet.ending (by rw [hyield]), hquiet.pending.trans hp,
      hquiet.waiting, ?_⟩
    rw [occurrences_executed?, occurrence?_of_not_request hr]
    intro o ho
    cases ho
  | answered hr hv _ ih =>
    rcases ih hp with ⟨hyield, hends⟩ | ⟨hother, hnone, hwait, hocc⟩
    · exact .inl ⟨hyield, hends.append _⟩
    · refine .inr ⟨hother, hnone, hwait, fun o ho ticket hticket => ?_⟩
      rw [occurrences_cons, occurrence?_of_request hr] at ho
      rcases List.mem_cons.mp ho with rfl | ho
      · -- a call that got a value was not promised one
        dsimp only at hticket
        rw [hticket] at hv
        cases hv
      · exact hocc o ho ticket hticket
  | @stopped _ m r last how hr hv hstep =>
    obtain ⟨op, hentry⟩ := executed?_of_request (h := h) hr
    rcases step_of_no_value hr hv with ⟨hheld, -⟩ | ⟨ticket, hasked, hlast⟩ |
      ⟨cause, hasked, -, hlast⟩
    · -- a call is held back only while another one is pending
      unfold reception at hheld
      split at hheld
      · cases hheld
      · simp [hp] at hheld
    · rw [hstep] at hlast
      cases hlast
      refine .inl ⟨rfl, [], ⟨op, some ⟨m.keyOf r.frame, r.call, _⟩⟩, _, ticket, ?_, rfl, hasked,
        rfl, rfl⟩
      rw [hentry]
      rfl
    · rw [hstep] at hlast
      cases hlast
      refine .inr ⟨by simp, hp, rfl, fun o ho ticket hticket => ?_⟩
      rw [occurrences_executed?, occurrence?_of_request hr] at ho
      obtain rfl := List.mem_singleton.mp ho
      dsimp only at hticket
      rw [hasked] at hticket
      cases hticket

/-- A call that gets no value is the last one of its tick. -/
theorem Runs.last_of_no_value (hrun : Runs h s budget m es last how) {before after : List Entry}
    {op : Opcode} {o : Occurrence} (hes : es = before ++ ⟨op, some o⟩ :: after)
    (hv : o.value? = none) : after = [] := by
  -- an instruction that the rest of the run does not begin with
  have hskip : ∀ {as es before : List Entry}, (∀ e ∈ as, e ≠ ⟨op, some o⟩) →
      as ++ es = before ++ ⟨op, some o⟩ :: after →
        ∃ before', es = before' ++ ⟨op, some o⟩ :: after := by
    intro as es before has heq
    rcases List.append_eq_append_iff.mp heq with ⟨mid, rfl, hes⟩ | ⟨mid, rfl, hes⟩
    · exact ⟨mid, hes⟩
    · cases mid with
      | nil => exact ⟨[], hes.symm⟩
      | cons e mid =>
        cases hes
        exact absurd rfl (has _ (List.mem_append_right _ (List.mem_cons_self ..)))
  have hquiet : ∀ {m : Machine σ}, m.request? s = none →
      ∀ e ∈ (m.executed? h s).toList, e ≠ ⟨op, some o⟩ := by
    rintro m hr _ he rfl
    have hmem : o ∈ occurrences (m.executed? h s).toList := mem_occurrences.mpr ⟨_, he, rfl⟩
    rw [occurrences_executed?, occurrence?_of_not_request hr] at hmem
    cases hmem
  induction hrun generalizing before with
  | exhausted m => simp at hes
  | quiet hr hstep _ ih =>
    obtain ⟨before', hrest⟩ := hskip (hquiet hr) hes
    exact ih hrest
  | ended hr hstep =>
    rw [← List.append_nil (executed? ..).toList] at hes
    obtain ⟨before', hrest⟩ := hskip (hquiet hr) hes
    simp at hrest
  | @answered budget m r v es last how hr hvalue _ ih =>
    -- the call in question gets no value, so it is not the one of this step
    have hanswered : ∀ e ∈ (m.executed? h s).toList, e ≠ ⟨op, some o⟩ := by
      rintro _ he rfl
      have hmem : o ∈ occurrences (m.executed? h s).toList := mem_occurrences.mpr ⟨_, he, rfl⟩
      rw [occurrences_executed?, occurrence?_of_request hr] at hmem
      obtain rfl := List.mem_singleton.mp hmem
      rw [Occurrence.value?, hvalue] at hv
      cases hv
    obtain ⟨before', hrest⟩ := hskip hanswered hes
    exact ih hrest
  | stopped hr _ _ =>
    obtain ⟨op', hentry⟩ := executed?_of_request (h := h) hr
    rw [hentry] at hes
    cases before with
    | nil => exact (List.cons.inj hes).2.symm
    | cons e before => simp at hes

/-! ### Where calls come from -/

/-- The operation of the instruction at a place of an instance's code. -/
def opcodeAt? (t : Tree) (site : CallSite) : Option Opcode :=
  match t.instance? site.inst with
  | none => none
  | some inst =>
    match inst.proto.program.bytes[site.offset]? with
    | none => none
    | some b =>
      match Instruction.fetchAt inst.proto.program.bytes site.offset b with
      | .error _ => none
      | .ok i => some i.op

/-- The call of a request is one of the instruction at its place. -/
theorem opcodeAt?_of_request {r : Request} (hknown : ∀ f ∈ m.frames, f.Known s)
    (hr : m.request? s = some r) :
    ∃ op, opcodeAt? s.tree ⟨r.frame.id, r.frame.pc⟩ = some op ∧
      op.hyperOp? = some r.call.op ∧ r.call.args.map Value.kind = r.call.op.args := by
  unfold request? at hr
  split at hr
  · cases hr
  · rename_i f outer i hnext
    unfold requestOf at hr
    split at hr
    · rename_i call stack heffect
      cases hr
      obtain ⟨hframes, -, b, hbyte, hfetch⟩ := next?_eq_some hnext
      have hf : s.tree.instance? f.id = some f.inst :=
        hknown f (by rw [hframes]; exact List.mem_cons_self ..)
      refine ⟨i.op, ?_, (Instruction.call?_effect heffect).symm,
        Instruction.kinds_of_effect heffect⟩
      simp only [opcodeAt?, hf, hbyte, hfetch]
    · cases hr

/-- The executions after a call that got a value are of known instances. -/
theorem known_of_request {r : Request} {v : Value} (hknown : ∀ f ∈ m.frames, f.Known s)
    (hr : m.request? s = some r) : ∀ f ∈ r.next v, f.Known s := by
  unfold request? at hr
  split at hr
  · cases hr
  · rename_i f outer i hnext
    unfold requestOf at hr
    split at hr
    · cases hr
      exact known_replace (next?_eq_some hnext).1 rfl rfl hknown
    · cases hr

/-- **Calls of one site are calls of one operation, with arguments of its kinds.** -/
theorem Runs.site (hrun : Runs h s budget m es last how) (hknown : ∀ f ∈ m.frames, f.Known s) :
    ∀ o ∈ occurrences es, ∃ op, opcodeAt? s.tree o.key.site = some op ∧
      op.hyperOp? = some o.call.op ∧ o.call.args.map Value.kind = o.call.op.args := by
  refine hrun.forall_occurrences (I := fun m => ∀ f ∈ m.frames, f.Known s) ?_ ?_ ?_ hknown
  · intro m m' hknown hr hstep
    exact (quiet_of_step hr hstep).known hknown
  · intro m r v hknown hr hv
    exact known_of_request hknown hr
  · intro m r hknown hr
    exact opcodeAt?_of_request hknown hr

/-! ### Memory and closing -/

/-- What a call that gets no value leaves alone. -/
theorem last_of_stopped {r : Request} (hr : m.request? s = some r)
    (hv : (m.reception h s r.frame r.call).value? r.call.op = none)
    (hstep : m.step h s = (last, some how)) :
    last.memory = m.memory ∧ last.closing = m.closing ∧
      last.host = m.hostAfter h s r.frame r.call := by
  rcases step_of_no_value hr hv with ⟨-, hlast⟩ | ⟨_, -, hlast⟩ | ⟨_, -, -, hlast⟩
  all_goals
    rw [hstep] at hlast
    cases hlast
    exact ⟨rfl, rfl, rfl⟩

/-- **Code changes memory only by writing working values**: what a write keeps, a tick keeps. -/
theorem Runs.memory {P : Memory → Prop} (hrun : Runs h s budget m es last how)
    (write : ∀ m m' slot v, Memory.write m slot v = .ok m' → P m → P m') (hm : P m.memory) :
    P last.memory := by
  have hquiet : ∀ {m m' : Machine σ} {x : Option TickEnd}, Quiet s m m' x → P m.memory →
      P m'.memory := by
    intro m m' x hquiet hm
    rcases hquiet.memory with hsame | ⟨slot, v, hwrite⟩
    · rw [hsame]
      exact hm
    · exact write _ _ slot v hwrite hm
  induction hrun with
  | exhausted m => exact hm
  | quiet hr hstep _ ih => exact ih (hquiet (quiet_of_step hr hstep) hm)
  | ended hr hstep => exact hquiet (quiet_of_step hr hstep) hm
  | answered _ _ _ ih => exact ih hm
  | stopped hr hv hstep =>
    rw [(last_of_stopped hr hv hstep).1]
    exact hm

/-- A tick changes what is in memory and not how much there is. -/
theorem Runs.size (hrun : Runs h s budget m es last how) (k : Kind) :
    last.memory.size k = m.memory.size k :=
  hrun.memory (P := fun memory => memory.size k = m.memory.size k)
    (fun _ _ _ _ hwrite hsize => (Memory.size_write hwrite k).trans hsize) rfl

/-- A tick closes the project only by `CLOSE_ALL`. -/
theorem Runs.closing (hrun : Runs h s budget m es last how) (hclose : last.closing = true) :
    m.closing = true ∨ ∃ e ∈ es, e.op = .closeAll := by
  -- the instruction of a step that closes is in the trace
  have hquiet : ∀ {m m' : Machine σ} {x : Option TickEnd}, m.request? s = none →
      m.step h s = (m', x) → m'.closing = true →
        m.closing = true ∨ ∃ e ∈ (m.executed? h s).toList, e.op = .closeAll := by
    intro m m' x hr hstep hm'
    have hquiet := quiet_of_step hr hstep
    refine (hquiet.closing hm').imp_right ?_
    rintro ⟨f, outer, i, hnext, hop⟩
    refine ⟨⟨i.op, m.occurrence? h s⟩, ?_, hop⟩
    rw [executed?, hnext]
    exact List.mem_singleton.mpr rfl
  induction hrun with
  | exhausted m => exact .inl hclose
  | quiet hr hstep _ ih =>
    rcases ih hclose with hm' | ⟨e, he, hop⟩
    · refine (hquiet hr hstep hm').imp_right ?_
      rintro ⟨e, he, hop⟩
      exact ⟨e, List.mem_append_left _ he, hop⟩
    · exact .inr ⟨e, List.mem_append_right _ he, hop⟩
  | ended hr hstep => exact hquiet hr hstep hclose
  | answered _ _ _ ih =>
    refine (ih hclose).imp_right ?_
    rintro ⟨e, he, hop⟩
    exact ⟨e, List.mem_append_right _ he, hop⟩
  | stopped hr hv hstep =>
    rw [(last_of_stopped hr hv hstep).2.1] at hclose
    exact .inl hclose

end Runs

end Machine

end SchemePlayer
