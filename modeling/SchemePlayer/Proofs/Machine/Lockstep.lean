import SchemePlayer.Proofs.Machine.Trace

/-!
# Ticks in lockstep

Two ticks that begin in the same machine do the same for as long as their calls get the same
values, whatever their hosts are and whatever was recorded before them. They may even begin at
different times, unless an instruction asks for the time (`SYSTEM`).

- `Agreement`: two runs with the same trace and the same end. Where the values of the calls
  came from is not compared (`Entry.view`).
- `Parting`: two traces that agree up to a call which does not get the same value in both.
- `lockstep`: two runs from the same machine agree or part.
-/

namespace SchemePlayer

namespace Machine

variable {σ τ : Type}

/-- An instruction of a trace, without where the value of its call came from. -/
def Entry.view (e : Entry) : Opcode × Option (CallKey × HyperCall × Option Value) :=
  (e.op, e.occurrence.map fun o => (o.key, o.call, o.value?))

/-- Two runs that do the same to the end. -/
structure Agreement (es₁ es₂ : List Entry) (end₁ : Machine σ × TickEnd)
    (end₂ : Machine τ × TickEnd) : Prop where
  trace : es₁.map Entry.view = es₂.map Entry.view
  valued : ∀ o ∈ occurrences es₁, o.value?.isSome
  core : end₁.1.core = end₂.1.core
  how : end₁.2 = end₂.2

/-- Two traces that agree up to a call which does not get the same value in both. -/
structure Parting (es₁ es₂ : List Entry) where
  before₁ : List Entry
  before₂ : List Entry
  op : Opcode
  left : Occurrence
  right : Occurrence
  rest₁ : List Entry
  rest₂ : List Entry
  eq₁ : es₁ = before₁ ++ ⟨op, some left⟩ :: rest₁
  eq₂ : es₂ = before₂ ++ ⟨op, some right⟩ :: rest₂
  agree : before₁.map Entry.view = before₂.map Entry.view
  valued : ∀ o ∈ occurrences before₁, o.value?.isSome
  key : left.key = right.key
  call : left.call = right.call
  differ : ∀ v, left.value? = some v → right.value? ≠ some v
  /-- a call without a value is the last one -/
  last₁ : left.value? = none → rest₁ = []
  last₂ : right.value? = none → rest₂ = []

section Parting

variable {es₁ es₂ : List Entry}

theorem Parting.occurrences₁ (p : Parting es₁ es₂) :
    occurrences es₁ = occurrences p.before₁ ++ p.left :: occurrences p.rest₁ := by
  rw [congrArg occurrences p.eq₁, occurrences_append]
  rfl

theorem Parting.occurrences₂ (p : Parting es₁ es₂) :
    occurrences es₂ = occurrences p.before₂ ++ p.right :: occurrences p.rest₂ := by
  rw [congrArg occurrences p.eq₂, occurrences_append]
  rfl

theorem Parting.left_mem (p : Parting es₁ es₂) : p.left ∈ occurrences es₁ := by
  rw [p.occurrences₁]
  exact List.mem_append_right _ (List.mem_cons_self ..)

theorem Parting.right_mem (p : Parting es₁ es₂) : p.right ∈ occurrences es₂ := by
  rw [p.occurrences₂]
  exact List.mem_append_right _ (List.mem_cons_self ..)

/-- Traces that part where a call gets no value in the first end there in the first. -/
theorem Parting.getLast?_left (p : Parting es₁ es₂) (hv : p.left.value? = none) :
    (occurrences es₁).getLast? = some p.left := by
  rw [p.occurrences₁, p.last₁ hv]
  exact List.getLast?_concat ..

/-- Traces that part where a call gets no value in the second: no instruction is executed in the
second that is not executed in the first. -/
theorem Parting.op_mem (p : Parting es₁ es₂) (hv : p.right.value? = none) {e : Entry}
    (he : e ∈ es₂) : ∃ e' ∈ es₁, e'.op = e.op := by
  have hes₁ : ∀ e' ∈ p.before₁ ++ ⟨p.op, some p.left⟩ :: p.rest₁, e' ∈ es₁ := by
    intro e' he'
    rw [← p.eq₁] at he'
    exact he'
  have hes₂ : e ∈ p.before₂ ++ [⟨p.op, some p.right⟩] := by
    rw [← p.last₂ hv, ← p.eq₂]
    exact he
  rcases List.mem_append.mp hes₂ with hbefore | hlast
  · have hview := List.mem_map_of_mem (f := Entry.view) hbefore
    rw [← p.agree] at hview
    obtain ⟨e', he', heq⟩ := List.mem_map.mp hview
    exact ⟨e', hes₁ e' (List.mem_append_left _ he'), congrArg Prod.fst heq⟩
  · obtain rfl := List.mem_singleton.mp hlast
    exact ⟨⟨p.op, some p.left⟩, hes₁ _ (List.mem_append_right _ (List.mem_cons_self ..)), rfl⟩

end Parting

/-! ### One step of two machines -/

section Step

variable {h : Host σ} {g : Host τ} {s : Setting} {n : Nat} {d : List (CallKey × Value)}
  {m₁ : Machine σ} {m₂ : Machine τ}

/-- Equal machines make equal requests. -/
theorem request?_of_core (hcore : m₁.core = m₂.core)
    (hsys : n = s.iterations ∨ ∀ f outer i, m₁.next? = some (f, outer, i) → i.op ≠ .system) :
    m₂.request? (s.rerun n d) = m₁.request? s := by
  rw [← request?_core, ← hcore, request?_core]
  exact request?_rerun hsys

/-- Steps without a request keep equal machines equal. -/
theorem step_of_core (hcore : m₁.core = m₂.core)
    (hsys : n = s.iterations ∨ ∀ f outer i, m₁.next? = some (f, outer, i) → i.op ≠ .system)
    (hr : m₁.request? s = none) :
    (m₁.step h s).1.core = (m₂.step g (s.rerun n d)).1.core ∧
      (m₁.step h s).2 = (m₂.step g (s.rerun n d)).2 := by
  have hr₂ : m₂.request? (s.rerun n d) = none := (request?_of_core hcore hsys).trans hr
  have hsys₂ : n = (s.rerun n d).iterations ∨
      ∀ f outer i, m₂.next? = some (f, outer, i) → i.op ≠ .system := .inl rfl
  rw [step_of_not_request hsys hr, step_of_not_request (n := n) (d := d) hsys₂ hr₂, hcore]
  exact ⟨rfl, rfl⟩

/-- Equal machines deal with a call that gets the same value in the same way. -/
theorem afterCall_core (hcore : m₁.core = m₂.core) (f : Frame) (call : HyperCall)
    (frames : List Frame) :
    ({ m₁.afterCall h s f call with frames } : Machine σ).core =
      ({ m₂.afterCall g (s.rerun n d) f call with frames } : Machine τ).core := by
  have hafter : ({ m₁.afterCall h s f call with frames } : Machine σ).core =
      { m₁.core with reached := ⟨f.id, f.pc⟩ :: m₁.core.reached, frames } := rfl
  rw [hafter, hcore]
  rfl

theorem keyOf_of_core (hcore : m₁.core = m₂.core) (f : Frame) : m₁.keyOf f = m₂.keyOf f := by
  have hkey : m₁.keyOf f = m₁.core.keyOf f := rfl
  rw [hkey, hcore]
  rfl

theorem next?_of_core (hcore : m₁.core = m₂.core) : m₁.next? = m₂.next? := by
  rw [← next?_core, hcore, next?_core]

/-- Instructions without a request look the same in both traces. -/
theorem view_of_not_request (hcore : m₁.core = m₂.core) (hr₁ : m₁.request? s = none)
    (hr₂ : m₂.request? (s.rerun n d) = none) :
    (m₁.executed? h s).toList.map Entry.view =
      (m₂.executed? g (s.rerun n d)).toList.map Entry.view := by
  simp only [executed?, occurrence?_of_not_request hr₁, occurrence?_of_not_request hr₂,
    next?_of_core hcore]

/-- The rest of a trace after a call that gets no value. -/
theorem trace_of_no_value {r : Request} (hr : m₁.request? s = some r)
    (hv : (m₁.reception h s r.frame r.call).value? r.call.op = none) (budget : Nat) :
    (match m₁.step h s with
      | (m', none) => m'.trace h s budget
      | (_, some _) => []) = [] := by
  rcases step_of_no_value hr hv with ⟨-, hstep⟩ | ⟨_, -, hstep⟩ | ⟨_, -, -, hstep⟩
  · rw [hstep]
  · rw [hstep]
  · rw [hstep]
    rfl

/-- A call that does not get the same value in both machines is where their traces part. -/
theorem parting_of_request {r : Request} (hcore : m₁.core = m₂.core)
    (hr₁ : m₁.request? s = some r) (hr₂ : m₂.request? (s.rerun n d) = some r)
    (hdiffer : ∀ v, (m₁.reception h s r.frame r.call).value? r.call.op = some v →
      (m₂.reception g (s.rerun n d) r.frame r.call).value? r.call.op ≠ some v) (budget : Nat) :
    Nonempty (Parting (m₁.trace h s (budget + 1)) (m₂.trace g (s.rerun n d) (budget + 1))) := by
  obtain ⟨op₁, hentry₁⟩ := executed?_of_request (h := h) hr₁
  obtain ⟨op₂, hentry₂⟩ := executed?_of_request (h := g) hr₂
  -- the same instruction makes the call, since only the hosts differ
  have hop : op₁ = op₂ := by
    have hops : (m₁.executed? h s).map Entry.op = (m₂.executed? g (s.rerun n d)).map Entry.op := by
      simp only [executed?, next?_of_core hcore, Option.map_map]
      rfl
    rw [hentry₁, hentry₂] at hops
    exact Option.some.inj hops
  refine ⟨{
    before₁ := [], before₂ := [], op := op₁
    left := ⟨m₁.keyOf r.frame, r.call, m₁.reception h s r.frame r.call⟩
    right := ⟨m₂.keyOf r.frame, r.call, m₂.reception g (s.rerun n d) r.frame r.call⟩
    rest₁ := _, rest₂ := _
    eq₁ := by rw [trace, hentry₁]; rfl
    eq₂ := by rw [trace, hentry₂, ← hop]; rfl
    agree := rfl
    valued := fun o ho => absurd ho List.not_mem_nil
    key := keyOf_of_core hcore r.frame
    call := rfl
    differ := hdiffer
    last₁ := fun hv => trace_of_no_value hr₁ hv budget
    last₂ := fun hv => trace_of_no_value hr₂ hv budget }⟩

end Step

/-! ### Whole runs -/

/-- Traces that part later part as well. -/
def Parting.append {es₁ es₂ : List Entry} (p : Parting es₁ es₂) {as₁ as₂ : List Entry}
    (hview : as₁.map Entry.view = as₂.map Entry.view)
    (hvalued : ∀ o ∈ occurrences as₁, o.value?.isSome) : Parting (as₁ ++ es₁) (as₂ ++ es₂) :=
  { p with
    before₁ := as₁ ++ p.before₁
    before₂ := as₂ ++ p.before₂
    eq₁ := by rw [List.append_assoc, ← p.eq₁]
    eq₂ := by rw [List.append_assoc, ← p.eq₂]
    agree := by rw [List.map_append, List.map_append, hview, p.agree]
    valued := by
      intro o ho
      rw [occurrences_append] at ho
      exact (List.mem_append.mp ho).elim (hvalued o) (p.valued o) }

theorem Agreement.append {es₁ es₂ as₁ as₂ : List Entry} {end₁ : Machine σ × TickEnd}
    {end₂ : Machine τ × TickEnd} (a : Agreement es₁ es₂ end₁ end₂)
    (hview : as₁.map Entry.view = as₂.map Entry.view)
    (hvalued : ∀ o ∈ occurrences as₁, o.value?.isSome) :
    Agreement (as₁ ++ es₁) (as₂ ++ es₂) end₁ end₂ := by
  refine ⟨by rw [List.map_append, List.map_append, hview, a.trace], fun o ho => ?_, a.core, a.how⟩
  rw [occurrences_append] at ho
  exact (List.mem_append.mp ho).elim (hvalued o) (a.valued o)

/-- Traces that agree or part go on doing so behind a common beginning. -/
theorem lockstep_append {es₁ es₂ as₁ as₂ : List Entry} {end₁ : Machine σ × TickEnd}
    {end₂ : Machine τ × TickEnd}
    (hrest : Agreement es₁ es₂ end₁ end₂ ∨ Nonempty (Parting es₁ es₂))
    (hview : as₁.map Entry.view = as₂.map Entry.view)
    (hvalued : ∀ o ∈ occurrences as₁, o.value?.isSome) :
    Agreement (as₁ ++ es₁) (as₂ ++ es₂) end₁ end₂ ∨
      Nonempty (Parting (as₁ ++ es₁) (as₂ ++ es₂)) := by
  rcases hrest with hagree | ⟨⟨hpart⟩⟩
  · exact .inl (hagree.append hview hvalued)
  · exact .inr ⟨hpart.append hview hvalued⟩

/-- **Two runs from the same machine agree, or part at a call that does not get the same value
in both.** -/
theorem lockstep {h : Host σ} {g : Host τ} {s : Setting} {n : Nat} {d : List (CallKey × Value)}
    (budget : Nat) (m₁ : Machine σ) (m₂ : Machine τ) (hcore : m₁.core = m₂.core)
    (hsys : n = s.iterations ∨ ∀ e ∈ m₁.trace h s budget, e.op ≠ .system) :
    Agreement (m₁.trace h s budget) (m₂.trace g (s.rerun n d) budget)
        (m₁.run h s budget) (m₂.run g (s.rerun n d) budget) ∨
      Nonempty (Parting (m₁.trace h s budget) (m₂.trace g (s.rerun n d) budget)) := by
  induction budget generalizing m₁ m₂ with
  | zero => exact .inl ⟨rfl, fun o ho => absurd ho List.not_mem_nil, hcore, rfl⟩
  | succ budget ih =>
    -- the instruction of this step is in the trace, so it does not ask for the time
    have hnow : n = s.iterations ∨
        ∀ f outer i, m₁.next? = some (f, outer, i) → i.op ≠ .system := by
      refine hsys.imp_right fun hne f outer i hnext => hne ⟨i.op, m₁.occurrence? h s⟩ ?_
      rw [trace, executed?, hnext]
      exact List.mem_append_left _ (List.mem_singleton.mpr rfl)
    cases hr : m₁.request? s with
    | none =>
      have hr₂ := (request?_of_core (d := d) hcore hnow).trans hr
      have hview := view_of_not_request (h := h) (g := g) hcore hr hr₂
      have hvalued : ∀ o ∈ occurrences (m₁.executed? h s).toList, o.value?.isSome := by
        rw [occurrences_executed?, occurrence?_of_not_request hr]
        intro o ho
        cases ho
      -- without a request both machines make the same step, and end together if they end
      obtain ⟨hcore', hhow⟩ := step_of_core (h := h) (g := g) (d := d) hcore hnow hr
      unfold trace at hsys
      unfold trace run
      rcases hstep₁ : m₁.step h s with ⟨m₁', _ | how⟩
      all_goals
        rcases hstep₂ : m₂.step g (s.rerun n d) with ⟨m₂', x⟩
        rw [hstep₁, hstep₂] at hcore' hhow
        obtain rfl : _ = x := hhow
      · refine lockstep_append (ih m₁' m₂' hcore' ?_) hview hvalued
        rw [hstep₁] at hsys
        exact hsys.imp_right fun hne e he => hne e (List.mem_append_right _ he)
      · exact lockstep_append (.inl ⟨rfl, fun o ho => absurd ho List.not_mem_nil, hcore', rfl⟩)
          hview hvalued
    | some r =>
      have hr₂ := (request?_of_core (d := d) hcore hnow).trans hr
      by_cases hsame : ∃ v, (m₁.reception h s r.frame r.call).value? r.call.op = some v ∧
          (m₂.reception g (s.rerun n d) r.frame r.call).value? r.call.op = some v
      · obtain ⟨v, hv₁, hv₂⟩ := hsame
        have hkey := keyOf_of_core hcore r.frame
        unfold trace at hsys
        unfold trace run
        rw [step_of_value hr hv₁] at hsys ⊢
        rw [step_of_value hr₂ hv₂]
        -- the call gets one value in both, so the machines still differ in their hosts only
        refine lockstep_append (ih _ _ (afterCall_core hcore _ _ _) ?_) ?_ ?_
        · exact hsys.imp_right fun hne e he => hne e (List.mem_append_right _ he)
        · simp only [executed?, occurrence?_of_request hr, occurrence?_of_request hr₂,
            next?_of_core hcore, Option.toList_map, List.map_map]
          congr 1
          funext x
          simp only [Function.comp_apply, Entry.view, Option.map_some, Occurrence.value?, hkey, hv₁, hv₂]
        · rw [occurrences_executed?, occurrence?_of_request hr]
          intro o ho
          obtain rfl := List.mem_singleton.mp ho
          exact Option.isSome_iff_exists.mpr ⟨v, hv₁⟩
      · refine .inr (parting_of_request hcore hr hr₂ (fun v hv₁ hv₂ => hsame ⟨v, hv₁, hv₂⟩) budget)

end Machine

end SchemePlayer
