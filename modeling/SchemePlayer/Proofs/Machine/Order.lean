import SchemePlayer.Proofs.Machine.Isolation
import SchemePlayer.Proofs.Machine.Stride
import SchemePlayer.Proofs.Tree.Postorder

/-!
# The order of executions

The machine looks at the switch of an instance when it comes to it, in the middle of a tick whose
executions go on changing memory. Without messages, what an execution changes are the variables of
its own instance, and it begins after the machine has looked at them for the last time. So it comes
to the same as if all switches had been looked at when the tick began:

- `Machine.executions`: the instances whose code begins to run, in order.
- `Machine.Advance`, `advance_of_step`: what a step does in a tick that sends no messages;
  `Machine.Ending`, `ending_of_step`: how a step ends a tick.
- `Ahead`: which instances the rest of a visit runs, by the switches as they were at first.
- `Machine.Underway`: the invariant of the moments of a tick; `Underway.step` carries it through a
  step, `Underway.run` through a run: **what has begun and what is left to run always make up the
  same order.**
-/

namespace SchemePlayer

/-! ### Steps without messages -/

/-- Only `SEND_MESSAGE` sends messages. -/
theorem Instruction.sendMessage_of_effect {i : Instruction} {w : Scenery} {stack rest : List Value}
    {className : Text} (h : i.effect w stack = .ok (.send className rest)) :
    i.op = .sendMessage := by
  unfold effect at h
  split at h <;> first | assumption | grind

/-- The tree is one that was built. -/
def Tree.Built (t : Tree) : Prop :=
  ∃ classes name strict varSet memory, build classes name strict varSet = .ok (t, memory)

namespace Machine

variable {σ : Type} {h : Host σ} {s : Setting} {m m' : Machine σ}

/-- The instance whose code begins to run in a step from `m` to `m'`. -/
def begun? (m m' : Machine σ) : Option Nat :=
  if m.frames.length < m'.frames.length then m'.frames.head?.map Frame.id else none

/-- The instances whose code begins to run, in order. -/
def executions (h : Host σ) (s : Setting) : Nat → Machine σ → List Nat
  | 0, _ => []
  | budget + 1, m =>
    match m.step h s with
    | (m', none) => (m.begun? m').toList ++ executions h s budget m'
    | (_, some _) => []

/-- **What a step does that neither sends a message nor ends the tick**, while no more than one
execution is active. -/
inductive Advance (s : Setting) (m m' : Machine σ) : Prop where
  /-- an instruction is carried out, and changes no variables but those of its instance -/
  | works {f f' : Frame} (hold : m.frames = [f]) (hnew : m'.frames = [f']) (hid : f'.id = f.id)
      (htargets : f'.targets = [])
      (hmemory : ∀ x ∉ f.inst.slots, m'.memory.cell? x = m.memory.cell? x)
      (hagenda : m'.agenda = m.agenda)
  | ends {f : Frame} (hold : m.frames = [f]) (hnew : m'.frames = [])
      (hmemory : m'.memory = m.memory) (hagenda : m'.agenda = m.agenda)
  | begins {id : Nat} {inst : Instance} (hold : m.frames = [])
      (hvisit : m.agenda = .run id :: m'.agenda) (hnew : m'.frames = [{ id, inst }])
      (hmemory : m'.memory = m.memory)
  /-- the visit comes to an instance, and leaves it out or goes on below it -/
  | enters {id : Nat} {inst : Instance} {agenda : List Visit} (hold : m.frames = [])
      (hvisit : m.agenda = .enter id :: agenda) (hinst : s.tree.instance? id = some inst)
      (hnew : m'.frames = []) (hmemory : m'.memory = m.memory)
      (hagenda : m'.agenda =
        if m.isDisabled inst then agenda else inst.children.map .enter ++ .run id :: agenda)

/-- A call after which the tick goes on changes no more than what code goes on with. -/
theorem eq_of_ask {f : Frame} {call : HyperCall} {next : Value → List Frame}
    (hask : m.ask h s f call next = (m', none)) :
    ∃ v, m' = { m.afterCall h s f call with frames := next v } := by
  rw [ask_eq] at hask
  dsimp only at hask
  split at hask
  · cases hask
    exact ⟨_, rfl⟩
  · cases hask
  · cases hask
    exact ⟨_, rfl⟩
  · split at hask
    · cases hask
    · cases hask
      exact ⟨_, rfl⟩
  · cases hask

theorem advance_perform {f : Frame} {i : Instruction} {e : Effect}
    (hnext : m.next? = some (f, [], i)) (hop : i.op ≠ .sendMessage)
    (heffect : i.effect (m.scenery s f) f.stack = .ok e)
    (hstep : m.perform h s f [] i e = (m', none)) : Advance s m m' := by
  obtain ⟨hframes, htargets, -⟩ := next?_eq_some hnext
  cases e with
  | next stack =>
    cases hstep
    exact .works hframes rfl rfl htargets (fun _ _ => rfl) rfl
  | jump target stack =>
    cases hstep
    exact .works hframes rfl rfl htargets (fun _ _ => rfl) rfl
  | store slot value stack =>
    obtain ⟨hmine, -⟩ := Instruction.lands_effect heffect
    dsimp only [perform] at hstep
    split at hstep
    · rename_i memory hwrite
      cases hstep
      refine .works hframes rfl rfl htargets (fun x hx => ?_) rfl
      have hother : x ≠ slot := fun heq => hx (heq ▸ hmine)
      exact (Memory.cell?_assign hwrite x).trans (if_neg hother)
    · cases hstep
  | finish =>
    cases hstep
    exact .ends hframes rfl rfl rfl
  | closeAll =>
    cases hstep
    exact .works hframes rfl rfl htargets (fun _ _ => rfl) rfl
  | send className stack => exact absurd (Instruction.sendMessage_of_effect heffect) hop
  | ask call stack =>
    obtain ⟨v, rfl⟩ := eq_of_ask hstep
    exact .works hframes rfl rfl htargets (fun _ _ => rfl) rfl

theorem advance_visit (hm : m.Safe s) (hdepth : 0 < s.maxDepth) (hold : m.frames = []) {v : Visit}
    {agenda : List Visit} (hvisit : m.agenda = v :: agenda) :
    Advance s m (({ m with agenda } : Machine σ).visit s v) := by
  obtain ⟨inst, hinst⟩ := Option.isSome_iff_exists.mp
    (hm.agenda v (by rw [hvisit]; exact List.mem_cons_self ..))
  cases v with
  | run id =>
    have hinst : s.tree.instance? id = some inst := hinst
    have hbegin : ({ m with agenda } : Machine σ).visit s (.run id) =
        { m with agenda, frames := [{ id, inst }] } := by
      simp only [visit, begin, hold, List.length_nil, hdepth, if_true, hinst]
    rw [hbegin]
    exact .begins hold hvisit rfl rfl
  | enter id =>
    have hinst : s.tree.instance? id = some inst := hinst
    have hsame : ({ m with agenda } : Machine σ).isDisabled inst = m.isDisabled inst := rfl
    unfold visit
    simp only [hinst, hsame]
    by_cases hdisabled : m.isDisabled inst = true
    · rw [if_pos hdisabled]
      exact .enters hold hvisit hinst hold rfl (if_pos hdisabled).symm
    · rw [if_neg hdisabled]
      exact .enters hold hvisit hinst hold rfl (if_neg hdisabled).symm

/-- **Without messages, what a step does that does not end the tick.** -/
theorem advance_of_step (hm : m.Safe s) (hdepth : 0 < s.maxDepth)
    (hsingle : m.frames = [] ∨ ∃ f, m.frames = [f] ∧ f.targets = [])
    (hop : ∀ f outer i, m.next? = some (f, outer, i) → i.op ≠ .sendMessage)
    (hstep : m.step h s = (m', none)) : Advance s m m' := by
  cases hnext : m.next? with
  | some found =>
    obtain ⟨f, outer, i⟩ := found
    obtain ⟨hframes, -⟩ := next?_eq_some hnext
    obtain rfl : outer = [] := by
      rcases hsingle with hnone | ⟨g, hone, -⟩
      · cases hframes.symm.trans hnone
      · cases hframes.symm.trans hone
        rfl
    rw [step_of_next hnext] at hstep
    cases heffect : i.effect (m.scenery s f) f.stack with
    | error fault =>
      rw [heffect] at hstep
      cases hstep
    | ok e =>
      rw [heffect] at hstep
      exact advance_perform hnext (hop f [] i hnext) heffect hstep
  | none =>
    rcases step_of_not_next (h := h) (s := s) hnext with ⟨-, heq⟩ |
      ⟨v, agenda, hframes, hvisit, heq⟩ | ⟨f, outer, target, targets, hframes, htargets, heq⟩ |
      ⟨f, outer, hframes, htargets, heq⟩ | ⟨f, outer, fault, -, -, -, heq⟩
    · cases heq.symm.trans hstep
    · cases heq.symm.trans hstep
      exact advance_visit hm hdepth hframes hvisit
    · -- there is nobody to whom a message is still to be brought
      rcases hsingle with hnone | ⟨g, hone, hnobody⟩
      · cases hframes.symm.trans hnone
      · cases hframes.symm.trans hone
        cases htargets.symm.trans hnobody
    · cases heq.symm.trans hstep
      rcases hsingle with hnone | ⟨g, hone, -⟩
      · cases hframes.symm.trans hnone
      · cases hframes.symm.trans hone
        exact .ends hframes rfl rfl rfl
    · cases heq.symm.trans hstep

/-- A step that does not end the tick leaves no reply to be awaited. -/
theorem pending_of_step (hstep : m.step h s = (m', none)) : m'.pending = m.pending := by
  cases hr : m.request? s with
  | none => exact (quiet_of_step hr hstep).pending
  | some r =>
    rw [step_of_request hr] at hstep
    obtain ⟨v, rfl⟩ := eq_of_ask hstep
    rfl

/-! ### The last step -/

/-- How a step ends a tick: nothing is left to do, or the innermost execution makes a call whose
reply is to be awaited, or there is a fault in it. -/
inductive Ending (m m' : Machine σ) : TickEnd → Prop where
  | completed (hold : m.frames = []) (hagenda : m.agenda = []) : Ending m m' .completed
  | yielded {f : Frame} {outer : List Frame} (hold : m.frames = f :: outer)
      (hsame : m'.frames = m.frames)
      (hcall : m.pending = none →
        ∃ call, m'.pending = some call ∧ call.key.site = ⟨f.id, f.pc⟩) : Ending m m' .yielded
  | failed {f : Frame} {outer : List Frame} {fault : Fault} (hold : m.frames = f :: outer)
      (hsame : m'.frames = m.frames) :
      Ending m m' (.failed (.at f.inst.proto.name f.pc fault))

theorem ending_fail {f : Frame} {outer : List Frame} {fault : Fault} {how : TickEnd}
    {m₀ : Machine σ} (hold : m.frames = f :: outer) (hsame : m₀.frames = m.frames)
    (hend : m₀.fail f fault = (m', some how)) : Ending m m' how := by
  cases hend
  exact .failed hold hsame

theorem ending_ask {f : Frame} {outer : List Frame} {call : HyperCall} {next : Value → List Frame}
    {how : TickEnd} (hold : m.frames = f :: outer)
    (hend : m.ask h s f call next = (m', some how)) : Ending m m' how := by
  have hheld : m.pending = none → m.reception h s f call ≠ .held := by
    intro hnone
    unfold reception
    rw [hnone]
    split <;> simp
  rw [ask_eq] at hend
  dsimp only at hend
  split at hend
  · cases hend
  · rename_i hreception
    cases hend
    exact .yielded hold rfl fun hnone => absurd hreception (hheld hnone)
  · cases hend
  · split at hend
    · have hsame : (m.afterCall h s f call).frames = m.frames := rfl
      exact ending_fail hold hsame hend
    · cases hend
  · cases hend
    exact .yielded hold rfl fun _ => ⟨_, rfl, rfl⟩

theorem ending_perform {f : Frame} {outer : List Frame} {i : Instruction} {e : Effect}
    {how : TickEnd} (hold : m.frames = f :: outer)
    (hend : m.perform h s f outer i e = (m', some how)) : Ending m m' how := by
  cases e with
  | ask call stack => exact ending_ask hold hend
  | store slot value stack =>
    dsimp only [perform] at hend
    split at hend
    · cases hend
    · exact ending_fail hold rfl hend
  | _ => cases hend

/-- **How a step ends a tick.** -/
theorem ending_of_step {how : TickEnd} (hend : m.step h s = (m', some how)) : Ending m m' how := by
  cases hnext : m.next? with
  | some found =>
    obtain ⟨f, outer, i⟩ := found
    obtain ⟨hframes, -⟩ := next?_eq_some hnext
    rw [step_of_next hnext] at hend
    cases heffect : i.effect (m.scenery s f) f.stack with
    | error fault =>
      rw [heffect] at hend
      exact ending_fail hframes rfl hend
    | ok e =>
      rw [heffect] at hend
      exact ending_perform hframes hend
  | none =>
    rcases step_of_not_next (h := h) (s := s) hnext with ⟨hframes, heq⟩ | ⟨v, agenda, -, -, heq⟩ |
      ⟨f, outer, target, targets, -, -, heq⟩ | ⟨f, outer, -, -, heq⟩ |
      ⟨f, outer, fault, hframes, -, -, heq⟩
    · have hagenda : m.agenda = [] := by
        cases hvisit : m.agenda with
        | nil => rfl
        | cons v agenda =>
          -- as long as something is left to visit, the tick goes on
          simp [step, hframes, hvisit, goesOn] at heq
      cases heq.symm.trans hend
      exact .completed hframes hagenda
    · cases heq.symm.trans hend
    · cases heq.symm.trans hend
    · cases heq.symm.trans hend
    · exact ending_fail hframes rfl (heq.symm.trans hend)

/-! ### What is left to run -/

section Ahead

variable {t : Tree} {memory : Memory} {agenda : List Visit} {rest : List Nat}

/-- `Ahead t memory agenda rest`: what is left of a visit runs the instances `rest`, if instances
are left out by the switches as they are in `memory`. -/
inductive Ahead (t : Tree) (memory : Memory) : List Visit → List Nat → Prop where
  | nil : Ahead t memory [] []
  | run {id : Nat} {agenda : List Visit} {rest : List Nat} : Ahead t memory agenda rest →
      Ahead t memory (.run id :: agenda) (id :: rest)
  | enter {id : Nat} {order : List Nat} {agenda : List Visit} {rest : List Nat} :
      t.Schedule memory [id] order → Ahead t memory agenda rest →
      Ahead t memory (.enter id :: agenda) (order ++ rest)

/-- Subtrees are visited one after another. -/
theorem Ahead.enters {roots order : List Nat} (horder : t.Schedule memory roots order)
    (hrest : Ahead t memory agenda rest) :
    Ahead t memory (roots.map .enter ++ agenda) (order ++ rest) := by
  induction horder with
  | nil => exact hrest
  | @skip id inst siblings beside hid hdisabled _ ih =>
    have hnobody : t.Schedule memory [id] [] := .skip hid hdisabled .nil
    have hfirst := Ahead.enter hnobody ih
    exact hfirst
  | @cons id inst below siblings beside hid hawake hbelow _ _ ih =>
    have hfirst := Ahead.enter (.cons hid hawake hbelow .nil) ih
    rw [List.append_assoc, List.singleton_append] at hfirst
    rw [List.append_assoc]
    exact hfirst

/-- **To visit an instance is to leave it out, or to visit what is below it and then to run its
code.** -/
theorem Ahead.visit {id : Nat} {inst : Instance} (h : Ahead t memory (.enter id :: agenda) rest)
    (hid : t.instance? id = some inst) :
    (inst.Disabled memory ∧ Ahead t memory agenda rest) ∨
      (¬inst.Disabled memory ∧ id ∈ rest ∧
        Ahead t memory (inst.children.map .enter ++ .run id :: agenda) rest) := by
  cases h with
  | enter horder hrest =>
    cases horder with
    | skip hid' hdisabled hnone =>
      cases hnone
      cases Option.some.inj (hid.symm.trans hid')
      exact .inl ⟨hdisabled, hrest⟩
    | cons hid' hawake hbelow hnone =>
      cases hnone
      cases Option.some.inj (hid.symm.trans hid')
      refine .inr ⟨hawake, List.mem_append_left _ (List.mem_append_right _ ?_), ?_⟩
      · exact List.mem_cons_self ..
      · rw [List.append_assoc]
        exact .enters hbelow (.run hrest)

end Ahead

/-! ### The moments of a tick -/

theorem isDisabled_iff (htree : s.tree.Built) {id : Nat} {inst : Instance}
    (hid : s.tree.instance? id = some inst) :
    m.isDisabled inst = true ↔ inst.Disabled m.memory := by
  obtain ⟨classes, name, strict, varSet, memory, hbuild⟩ := htree
  rw [← Tree.disable_iff hbuild hid]
  unfold isDisabled
  constructor
  · intro hpositive
    split at hpositive
    · rename_i a hread
      obtain ⟨x, hx, hread⟩ := Option.bind_eq_some_iff.mp hread
      exact ⟨x, a, hx, hread, of_decide_eq_true hpositive⟩
    · cases hpositive
  · rintro ⟨x, a, hx, hread, hpositive⟩
    rw [hx, Option.bind_some, hread]
    exact decide_eq_true hpositive

/-- A moment of a tick that began in `memory`: the instances `done` have begun to run, and `rest`
are still to run. No more than one execution is active, which is the last one that began, and the
variables of instances that have not begun are as they were. -/
structure Underway (s : Setting) (memory : Memory) (done rest : List Nat) (m : Machine σ) :
    Prop where
  safe : m.Safe s
  ahead : Ahead s.tree memory m.agenda rest
  active : m.frames = [] ∨ ∃ f, m.frames = [f] ∧ f.targets = [] ∧ done.getLast? = some f.id
  untouched : ∀ id inst, s.tree.instance? id = some inst → id ∉ done →
    ∀ x ∈ inst.slots, m.memory.cell? x = memory.cell? x
  pending : m.pending = none

section Underway

variable {memory : Memory} {done rest : List Nat}

theorem begun?_of_length_le (h : m'.frames.length ≤ m.frames.length) : m.begun? m' = none :=
  if_neg (Nat.not_lt.mpr h)

/-- **One step of a tick**, from one moment to the next. -/
theorem Underway.step (htree : s.tree.Built) (hclosed : s.tree.Closed) (hdepth : 0 < s.maxDepth)
    (hnodup : (done ++ rest).Nodup)
    (hawake : ∀ id ∈ done ++ rest, ∀ inst, s.tree.instance? id = some inst →
      ¬inst.Disabled memory)
    (hop : ∀ f outer i, m.next? = some (f, outer, i) → i.op ≠ .sendMessage)
    (h₀ : Underway s memory done rest m) (hstep : m.step h s = (m', none)) :
    ∃ rest', done ++ rest = done ++ (m.begun? m').toList ++ rest' ∧
      Underway s memory (done ++ (m.begun? m').toList) rest' m' := by
  have hsafe : m'.Safe s := by
    have hsure := (sure_step (h := h) hclosed h₀.safe).safe
    rwa [hstep] at hsure
  have hpending : m'.pending = none := (pending_of_step hstep).trans h₀.pending
  have hsingle : m.frames = [] ∨ ∃ f, m.frames = [f] ∧ f.targets = [] :=
    h₀.active.imp_right fun ⟨f, hone, hnobody, _⟩ => ⟨f, hone, hnobody⟩
  cases advance_of_step h₀.safe hdepth hsingle hop hstep with
  | @works f f' hold hnew hid htargets hmemory hagenda =>
    rw [begun?_of_length_le (by rw [hold, hnew]; exact Nat.le_refl _), Option.toList_none,
      List.append_nil]
    have hlast : done.getLast? = some f.id := by
      rcases h₀.active with hnone | ⟨g, hone, -, hlast⟩
      · cases hold.symm.trans hnone
      · cases hold.symm.trans hone
        exact hlast
    have hknown : s.tree.instance? f.id = some f.inst :=
      (h₀.safe.frames f (by rw [hold]; exact List.mem_cons_self ..)).known
    refine ⟨rest, rfl, hsafe, by rw [hagenda]; exact h₀.ahead,
      .inr ⟨f', hnew, htargets, by rw [hid]; exact hlast⟩, fun id inst hinst hnot x hx => ?_,
      hpending⟩
    -- the execution is of another instance, which has other slots
    have hother : id ≠ f.id := fun heq => hnot (heq ▸ List.mem_of_getLast? hlast)
    obtain ⟨_, _, _, _, _, hbuild⟩ := htree
    have hapart := Tree.apart_of_nodup (Tree.nodup_slots_of_build hbuild) hknown hinst hother hx
    rw [hmemory x hapart]
    exact h₀.untouched id inst hinst hnot x hx
  | @ends f hold hnew hmemory hagenda =>
    rw [begun?_of_length_le (by rw [hnew]; exact Nat.zero_le _), Option.toList_none,
      List.append_nil]
    exact ⟨rest, rfl, hsafe, by rw [hagenda]; exact h₀.ahead, .inl hnew,
      by rw [hmemory]; exact h₀.untouched, hpending⟩
  | @begins id inst hold hvisit hnew hmemory =>
    have hbegun : m.begun? m' = some id := by
      rw [begun?, hold, hnew]
      rfl
    have hahead := h₀.ahead
    rw [hvisit] at hahead
    rw [hbegun, Option.toList_some]
    cases hahead with
    | run hrest =>
      refine ⟨_, (List.append_cons ..), hsafe, hrest, .inr ⟨_, hnew, rfl, by simp⟩,
        fun j i hj hnot => ?_, hpending⟩
      rw [hmemory]
      exact h₀.untouched j i hj fun hmem => hnot (List.mem_append_left _ hmem)
  | @enters id inst agenda hold hvisit hinst hnew hmemory hagenda =>
    rw [begun?_of_length_le (by rw [hnew]; exact Nat.zero_le _), Option.toList_none,
      List.append_nil]
    have hahead := h₀.ahead
    rw [hvisit] at hahead
    -- the instance has not begun, so that its switch is as it was at first
    have hsame : id ∉ done → (m.isDisabled inst = true ↔ inst.Disabled memory) := by
      intro hnot
      rw [isDisabled_iff htree hinst]
      exact Instance.disabled_congr (h₀.untouched id inst hinst hnot)
    refine ⟨rest, rfl, hsafe, ?_, .inl hnew, by rw [hmemory]; exact h₀.untouched, hpending⟩
    rw [hagenda]
    rcases hahead.visit hinst with ⟨hdisabled, hskip⟩ | ⟨hon, hmem, hbelow⟩
    · have hnot : id ∉ done := fun hdone =>
        hawake id (List.mem_append_left _ hdone) inst hinst hdisabled
      rw [if_pos ((hsame hnot).mpr hdisabled)]
      exact hskip
    · have hnot : id ∉ done := fun hdone =>
        List.disjoint_of_nodup_append hnodup hdone hmem
      rw [if_neg (mt (hsame hnot).mp hon)]
      exact hbelow

/-- **A whole run** comes to a last moment, and ends there with a step or because it takes too
long. -/
theorem Underway.run (htree : s.tree.Built) (hclosed : s.tree.Closed) (hdepth : 0 < s.maxDepth)
    (hnodup : (done ++ rest).Nodup)
    (hawake : ∀ id ∈ done ++ rest, ∀ inst, s.tree.instance? id = some inst →
      ¬inst.Disabled memory) {budget : Nat}
    (hop : ∀ e ∈ m.trace h s budget, e.op ≠ .sendMessage) (h₀ : Underway s memory done rest m) :
    ∃ m₁ rest', done ++ rest = done ++ m.executions h s budget ++ rest' ∧
      Underway s memory (done ++ m.executions h s budget) rest' m₁ ∧
      ((m.run h s budget).2 = .failed .exhausted ∨
        Ending m₁ (m.run h s budget).1 (m.run h s budget).2) := by
  induction budget generalizing m done rest with
  | zero =>
    unfold executions
    rw [List.append_nil]
    exact ⟨m, rest, rfl, h₀, .inl rfl⟩
  | succ budget ih =>
    unfold trace at hop
    unfold executions Machine.run
    have hfirst : ∀ f outer i, m.next? = some (f, outer, i) → i.op ≠ .sendMessage := by
      intro f outer i hnext
      refine hop ⟨i.op, m.occurrence? h s⟩ (List.mem_append_left _ ?_)
      rw [executed?, hnext]
      exact List.mem_singleton.mpr rfl
    rcases hstep : m.step h s with ⟨m', _ | how⟩
    · rw [hstep] at hop
      obtain ⟨rest₁, horder, h₁⟩ := h₀.step htree hclosed hdepth hnodup hawake hfirst hstep
      rw [horder] at hnodup hawake
      obtain ⟨m₁, rest₂, horder', h₂, hend⟩ := ih hnodup hawake
        (fun e he => hop e (List.mem_append_right _ he)) h₁
      rw [horder, horder']
      dsimp only
      rw [← List.append_assoc]
      exact ⟨m₁, rest₂, rfl, h₂, hend⟩
    · dsimp only
      rw [List.append_nil]
      exact ⟨m, rest, rfl, h₀, .inr (ending_of_step hstep)⟩

end Underway

end Machine

end SchemePlayer
