import Mathlib.Algebra.Order.Ring.Nat
import SchemePlayer.Proofs.Bytecode.Decode
import SchemePlayer.Proofs.Machine.Stride

/-!
# Termination of the machine

In code that never jumps backwards an execution goes through each byte at most once. What it sends
messages to is executed inside of it, one level deeper, and there are only so many levels. So the
number of steps that can still be taken is bounded, and each step takes one away:

- `Forward`: code in which no jump, wherever it may be found, leads backwards.
- `effort`: how many steps an execution takes at most, by the number of levels that are free;
  `Frame.effort`: how many it still takes.
- `Remaining`: how many steps are left of a visit.
- `Machine.Work`, `Stride.work`: **every step takes work**; `Stride.length_le`: no step makes more
  executions active than may be.
- `run_ne_exhausted`, `fate_ne_runsOn`: **a tick and an execution end before their work is done**;
  `run_of_le`: how long a tick might have gone on does not matter then.
-/

namespace SchemePlayer

/-! ### Code that goes forwards -/

/-- No byte that stands for a jump is followed by a negative distance, wherever in the code it
stands. -/
def Forward (bytes : Array UInt8) : Prop :=
  ∀ (place : Nat) (op : Opcode) (low high : UInt8), op.operand = .jump →
    bytes[place]? = some op.code → bytes[place + 1]? = some low →
    bytes[place + 2]? = some high → 0 ≤ Word.signedOfBytes [low, high]

/-- Whether code goes forwards can be found out. -/
instance (bytes : Array UInt8) : Decidable (Forward bytes) :=
  decidable_of_iff
    (∀ place < bytes.size, ∀ op ∈ Opcode.all, op.operand = .jump → bytes[place]? = some op.code →
      bytes[place + 1]?.all fun low =>
        bytes[place + 2]?.all fun high => 0 ≤ Word.signedOfBytes [low, high]) <| by
    simp only [Option.all_eq_true, decide_eq_true_eq]
    constructor
    · intro h place op low high hjump hcode hlow hhigh
      have hlt := (Array.getElem?_eq_some_iff.mp hcode).1
      exact h place hlt op op.mem_all hjump hcode low hlow high hhigh
    · intro h place _ op _ hjump hcode low hlow high hhigh
      exact h place op low high hjump hcode hlow hhigh

/-- What is fetched stands where it was fetched, and under its own code. -/
theorem Instruction.offset_of_fetchAt {bytes : Array UInt8} {offset : Nat} {b : UInt8}
    {i : Instruction} (h : fetchAt bytes offset b = .ok i) :
    i.offset = offset ∧ i.op.code = b ∧ i.operand = operandAt bytes offset i.op := by
  unfold fetchAt at h
  split at h
  · cases h
  · rename_i op hop
    split at h
    · cases h
      exact ⟨rfl, Opcode.code_of_ofByte? hop, rfl⟩
    · cases h

theorem Forward.distance {bytes : Array UInt8} (hforward : Forward bytes) {offset : Nat} {b : UInt8}
    {i : Instruction} (hbyte : bytes[offset]? = some b)
    (hfetch : Instruction.fetchAt bytes offset b = .ok i) (hjump : i.op.operand = .jump) :
    0 ≤ i.distance := by
  obtain ⟨hle, hlength⟩ := Instruction.fetchAt_eq_ok hfetch
  obtain ⟨-, rfl, hoperand⟩ := Instruction.offset_of_fetchAt hfetch
  have hwidth : i.size = 3 := by rw [Instruction.size, hlength, hjump]; rfl
  have hlow : offset + 1 < bytes.size := by omega
  have hhigh : offset + 2 < bytes.size := by omega
  have htwo : i.operand = [bytes[offset + 1], bytes[offset + 2]] := by
    rw [hoperand, Instruction.operandAt_eq, hjump,
      List.drop_eq_getElem_cons (by simpa using hlow),
      List.drop_eq_getElem_cons (by simpa using hhigh)]
    rfl
  rw [Instruction.distance, htwo]
  exact hforward offset i.op _ _ hjump hbyte (Array.getElem?_eq_getElem hlow)
    (Array.getElem?_eq_getElem hhigh)

/-! ### Effort -/

/-- How many steps an execution takes at most, if from it on `free` executions may be active at
once: code has at most `limit` bytes, and a message goes to at most `fan` instances. -/
def effort (limit fan : Nat) : Nat → Nat
  | 0 => 0
  | free + 1 => 1 + limit * (1 + fan * (1 + effort limit fan free))

/-- How many steps an execution still takes at most, if `free` more may be active above it. -/
def Frame.effort (limit fan free : Nat) (f : Frame) : Nat :=
  1 + (limit - f.pc) * (1 + fan * (1 + SchemePlayer.effort limit fan free)) +
    f.targets.length * (1 + SchemePlayer.effort limit fan free)

/-- How many steps all executions together still take at most, if `depth` may be active. -/
def framesEffort (limit fan depth : Nat) : List Frame → Nat
  | [] => 0
  | f :: outer =>
    f.effort limit fan (depth - (outer.length + 1)) + framesEffort limit fan depth outer

variable {limit fan : Nat}

/-- An execution that begins takes the effort of an execution. -/
theorem effort_of_begun (free id : Nat) (inst : Instance) :
    ({ id, inst } : Frame).effort limit fan free = effort limit fan (free + 1) := by
  rw [Frame.effort, effort]
  simp

theorem effort_mono (limit fan : Nat) {a b : Nat} (hle : a ≤ b) :
    effort limit fan a ≤ effort limit fan b := by
  induction b generalizing a with
  | zero => exact Nat.le_of_eq (congrArg _ (Nat.le_zero.mp hle))
  | succ b ih =>
    cases a with
    | zero => exact Nat.zero_le _
    | succ a =>
      have hbelow := ih (Nat.le_of_succ_le_succ hle)
      rw [effort, effort]
      gcongr

/-- **An instruction that goes forwards takes effort**, even if it sends a message. -/
theorem Frame.effort_lt {f f' : Frame} (hplace : f.pc < f'.pc) (hlimit : f.pc < limit)
    (hnone : f.targets = []) (htargets : f'.targets.length ≤ fan) (free : Nat) :
    f'.effort limit fan free < f.effort limit fan free := by
  rw [Frame.effort, Frame.effort, hnone]
  generalize SchemePlayer.effort limit fan free = e
  have hleft : limit - f'.pc + 1 ≤ limit - f.pc := by omega
  calc 1 + (limit - f'.pc) * (1 + fan * (1 + e)) + f'.targets.length * (1 + e)
      ≤ 1 + (limit - f'.pc) * (1 + fan * (1 + e)) + fan * (1 + e) := by gcongr
    _ < 1 + (limit - f'.pc + 1) * (1 + fan * (1 + e)) := by rw [Nat.add_mul]; omega
    _ ≤ 1 + (limit - f.pc) * (1 + fan * (1 + e)) := by gcongr
    _ = 1 + (limit - f.pc) * (1 + fan * (1 + e)) + [].length * (1 + e) := by simp

/-! ### What is left of a visit -/

/-- `Remaining t cost agenda n`: what is left of a visit takes at most `n` steps, if an execution
takes at most `cost`. -/
inductive Remaining (t : Tree) (cost : Nat) : List Visit → Nat → Prop where
  | nil : Remaining t cost [] 0
  | run {id : Nat} {agenda : List Visit} {n : Nat} : Remaining t cost agenda n →
      Remaining t cost (.run id :: agenda) (1 + cost + n)
  | enter {id : Nat} {order : List Nat} {agenda : List Visit} {n : Nat} : t.Preorder [id] order →
      Remaining t cost agenda n →
      Remaining t cost (.enter id :: agenda) (order.length * (2 + cost) + n)

/-- Subtrees are visited one after another. -/
theorem Remaining.enters {t : Tree} {cost n : Nat} {roots order : List Nat} {agenda : List Visit}
    (horder : t.Preorder roots order) (hrest : Remaining t cost agenda n) :
    Remaining t cost (roots.map .enter ++ agenda) (order.length * (2 + cost) + n) := by
  induction horder with
  | nil => simpa using hrest
  | @cons id inst below siblings beside hid hbelow hbeside _ ih =>
    have hfirst := Remaining.enter (.cons hid hbelow .nil) ih
    have hsum : (id :: (below ++ [])).length * (2 + cost) + (beside.length * (2 + cost) + n) =
        (id :: (below ++ beside)).length * (2 + cost) + n := by
      simp only [List.length_cons, List.length_append, List.length_nil, Nat.add_mul]
      omega
    rw [← hsum]
    exact hfirst

/-- **To visit an instance is to visit what is below it, and then to run its code.** -/
theorem Remaining.expand {t : Tree} {cost n : Nat} {id : Nat} {inst : Instance}
    {agenda : List Visit} (h : Remaining t cost (.enter id :: agenda) n)
    (hid : t.instance? id = some inst) :
    ∃ n' < n, Remaining t cost (inst.children.map .enter ++ .run id :: agenda) n' := by
  cases h with
  | enter horder hrest =>
    cases horder with
    | cons hid' hbelow hnone =>
      cases hnone
      obtain rfl := Option.some.inj (hid.symm.trans hid')
      refine ⟨_, ?_, .enters hbelow (.run hrest)⟩
      simp only [List.length_cons, List.length_append, List.length_nil, Nat.add_mul]
      omega

/-- An instance that is left out takes one step. -/
theorem Remaining.skip {t : Tree} {cost n : Nat} {id : Nat} {agenda : List Visit}
    (h : Remaining t cost (.enter id :: agenda) n) : ∃ n' < n, Remaining t cost agenda n' := by
  cases h with
  | @enter _ order _ n horder hrest =>
    refine ⟨n, ?_, hrest⟩
    cases horder
    simp only [List.length_cons, Nat.add_mul]
    omega

/-! ### One step -/

/-- All code goes forwards and is no longer than `limit`. -/
def Tree.Forwards (limit : Nat) (t : Tree) : Prop :=
  ∀ id inst, t.instance? id = some inst →
    Forward inst.proto.program.bytes ∧ inst.proto.program.bytes.size ≤ limit

theorem Tree.length_instancesOf_le (t : Tree) (className : Text) :
    (t.instancesOf className).length ≤ t.instances.size := by
  have hle := List.length_filter_le
    (fun id => (t.instance? id).any fun i => Text.foldKey i.proto.name == Text.foldKey className)
    (List.range t.instances.size)
  rwa [List.length_range] at hle

namespace Machine

variable {σ : Type} {h : Host σ} {s : Setting} {m m' : Machine σ} {n : Nat}

/-- The tick takes at most `n` more steps. -/
def Work (limit : Nat) (s : Setting) (m : Machine σ) (n : Nat) : Prop :=
  ∃ k, Remaining s.tree (effort limit s.tree.instances.size s.maxDepth) m.agenda k ∧
    n = framesEffort limit s.tree.instances.size s.maxDepth m.frames + k

/-- One more execution takes no more than the effort of an execution at its depth. -/
theorem Begins.effort_le {id : Nat} {old new : List Frame} (hbegins : Begins s id old new)
    (limit fan : Nat) :
    framesEffort limit fan s.maxDepth new ≤
      framesEffort limit fan s.maxDepth old + effort limit fan (s.maxDepth - old.length) := by
  cases hbegins with
  | denied => exact Nat.le_add_right ..
  | begun hinst hdepth =>
    have hfree : s.maxDepth - (old.length + 1) + 1 = s.maxDepth - old.length := by omega
    rw [framesEffort, effort_of_begun, hfree, Nat.add_comm]

/-- An instruction of code that goes forwards leads its execution forwards. -/
theorem lt_of_after {f f' : Frame} {outer : List Frame} {i : Instruction}
    (hnext : m.next? = some (f, outer, i)) (hforward : Forward f.inst.proto.program.bytes)
    (hafter : f.After i f') : f.pc < f'.pc := by
  obtain ⟨-, -, b, hbyte, hfetch⟩ := next?_eq_some hnext
  have hoffset := (Instruction.offset_of_fetchAt hfetch).1
  have hplace := hafter.place
  cases htaken : i.taken f.stack with
  | true =>
    have hdistance := hforward.distance hbyte hfetch (Instruction.jump_of_taken htaken)
    rw [htaken, if_pos rfl, Instruction.target, hoffset] at hplace
    omega
  | false =>
    rw [htaken] at hplace
    simp only [Bool.false_eq_true, if_false] at hplace
    omega

/-- **Every step takes work.** -/
theorem Stride.work (hs : s.tree.Forwards limit) (hm : m.Safe s) (hstride : Stride s m m')
    (hwork : m.Work limit s n) : ∃ n' < n, m'.Work limit s n' := by
  obtain ⟨k, hleft, rfl⟩ := hwork
  cases hstride with
  | @executes f f' outer i hnext hafter hmessage hframes hagenda =>
    obtain ⟨hold, hmem, hnone, hlt, -⟩ := within_of_next? hnext
    obtain ⟨hforward, hlimit⟩ := hs f.id f.inst (hm.frames f hmem).known
    have htargets : f'.targets.length ≤ s.tree.instances.size := by
      rcases hmessage with hnone | ⟨className, hsent⟩
      · rw [hnone]
        exact Nat.zero_le _
      · rw [hsent]
        exact s.tree.length_instancesOf_le className
    refine ⟨_, ?_, k, by rw [hagenda]; exact hleft, rfl⟩
    rw [hold, hframes, framesEffort, framesEffort]
    have := Frame.effort_lt (lt_of_after hnext hforward hafter) (Nat.lt_of_lt_of_le hlt hlimit)
      hnone htargets (s.maxDepth - (outer.length + 1))
    omega
  | @returns f outer i hnext hop hframes hagenda =>
    refine ⟨_, ?_, k, by rw [hagenda]; exact hleft, rfl⟩
    rw [(within_of_next? hnext).1, hframes, framesEffort, Frame.effort]
    omega
  | @ends f outer hnone hold htargets hframes hagenda =>
    refine ⟨_, ?_, k, by rw [hagenda]; exact hleft, rfl⟩
    rw [hold, hframes, framesEffort, Frame.effort]
    omega
  | @sends f outer target targets hold htargets hframes hagenda =>
    refine ⟨_, ?_, k, by rw [hagenda]; exact hleft, rfl⟩
    have hbegun := hframes.effort_le limit s.tree.instances.size
    rw [framesEffort, Frame.effort, List.length_cons] at hbegun
    dsimp only at hbegun
    rw [hold, framesEffort, Frame.effort, htargets, List.length_cons, Nat.succ_mul]
    omega
  | @runs id agenda hold hvisit hframes hagenda =>
    rw [hvisit] at hleft
    cases hleft with
    | run hrest =>
      refine ⟨_, ?_, _, by rw [hagenda]; exact hrest, rfl⟩
      have hbegun := hframes.effort_le limit s.tree.instances.size
      rw [framesEffort, List.length_nil, Nat.sub_zero] at hbegun
      rw [hold, framesEffort]
      omega
  | @enters id agenda hold hvisit hframes hagenda =>
    rw [hvisit] at hleft
    have hleft' : ∃ k' < k, Remaining s.tree
        (effort limit s.tree.instances.size s.maxDepth) m'.agenda k' := by
      rcases hagenda with hskip | ⟨inst, hinst, hexpand⟩
      · rw [hskip]
        exact hleft.skip
      · rw [hexpand]
        exact hleft.expand hinst
    obtain ⟨k', hlt, hleft'⟩ := hleft'
    refine ⟨_, ?_, k', hleft', rfl⟩
    rw [hold, hframes]
    omega

theorem Begins.length_le {id : Nat} {old new : List Frame} (hbegins : Begins s id old new)
    (hdepth : old.length ≤ s.maxDepth) : new.length ≤ s.maxDepth := by
  cases hbegins with
  | denied => exact hdepth
  | begun _ hlt => exact hlt

/-- **No step makes more executions active than may be.** -/
theorem Stride.length_le (hstride : Stride s m m') (hdepth : m.frames.length ≤ s.maxDepth) :
    m'.frames.length ≤ s.maxDepth := by
  cases hstride with
  | executes hnext _ _ hframes =>
    rw [(within_of_next? hnext).1] at hdepth
    rwa [hframes]
  | returns hnext _ hframes =>
    rw [(within_of_next? hnext).1] at hdepth
    rw [hframes]
    exact Nat.le_of_succ_le hdepth
  | ends _ hold _ hframes =>
    rw [hold] at hdepth
    rw [hframes]
    exact Nat.le_of_succ_le hdepth
  | sends hold _ hframes =>
    rw [hold] at hdepth
    exact hframes.length_le hdepth
  | runs _ _ hframes => exact hframes.length_le (Nat.zero_le _)
  | enters _ _ hframes =>
    rw [hframes]
    exact Nat.zero_le _

/-! ### Whole ticks -/

/-- No more executions than may be are active at any moment. -/
theorem Reaches.length_le (hreach : Reaches h s m m') (hdepth : m.frames.length ≤ s.maxDepth) :
    m'.frames.length ≤ s.maxDepth := by
  induction hreach with
  | refl => exact hdepth
  | step _ hstep ih => exact (stride_of_step hstep).length_le ih

/-- At every moment no more work is left than at the first one. -/
theorem Reaches.work (hreach : Reaches h s m m') (ht : s.tree.Closed)
    (hs : s.tree.Forwards limit) (hm : m.Safe s) (hwork : m.Work limit s n) :
    ∃ n' ≤ n, m'.Work limit s n' := by
  induction hreach with
  | refl => exact ⟨n, Nat.le_refl _, hwork⟩
  | step hreach hstep ih =>
    obtain ⟨n₁, hle, hwork₁⟩ := ih
    obtain ⟨n₂, hlt, hwork₂⟩ := (stride_of_step hstep).work hs (hreach.safe ht hm) hwork₁
    exact ⟨n₂, Nat.le_trans (Nat.le_of_lt hlt) hle, hwork₂⟩

/-- **A tick ends before its work is done.** -/
theorem run_ne_exhausted (ht : s.tree.Closed) (hs : s.tree.Forwards limit) (hm : m.Safe s)
    (hwork : m.Work limit s n) {budget : Nat} (hlt : n < budget) :
    (m.run h s budget).2 ≠ .failed .exhausted := by
  induction budget generalizing m n with
  | zero => exact absurd hlt (Nat.not_lt_zero _)
  | succ budget ih =>
    have hsure := sure_step (h := h) ht hm
    unfold run
    rcases hstep : m.step h s with ⟨m', _ | how⟩
    · rw [hstep] at hsure
      obtain ⟨n', hless, hwork'⟩ := (stride_of_step hstep).work hs hm hwork
      exact ih hsure.safe hwork' (by omega)
    · rw [hstep] at hsure
      rintro rfl
      exact hsure.failure .exhausted rfl

/-- A tick that ends by itself does not depend on how long it may go on. -/
theorem run_of_le {budget more : Nat} (hended : (m.run h s budget).2 ≠ .failed .exhausted)
    (hle : budget ≤ more) : m.run h s more = m.run h s budget := by
  induction budget generalizing m more with
  | zero => exact absurd rfl hended
  | succ budget ih =>
    obtain ⟨more, rfl⟩ := Nat.exists_eq_add_of_le' (Nat.le_trans (Nat.le_add_left 1 budget) hle)
    unfold run at hended ⊢
    rcases hstep : m.step h s with ⟨m', _ | how⟩
    · rw [hstep] at hended
      exact ih hended (Nat.le_of_succ_le_succ hle)
    · rfl

/-- **An execution ends before the work is done.** -/
theorem fate_ne_runsOn (ht : s.tree.Closed) (hs : s.tree.Forwards limit) (hm : m.Safe s)
    (hwork : m.Work limit s n) {count : Nat} (hle : n ≤ count) (depth : Nat) :
    fate h s depth count m ≠ .runsOn := by
  induction count generalizing m n with
  | zero =>
    obtain rfl := Nat.le_zero.mp hle
    obtain ⟨k, -, hzero⟩ := hwork
    have hnone : m.frames = [] := by
      cases hframes : m.frames with
      | nil => rfl
      | cons f outer =>
        rw [hframes, framesEffort, Frame.effort] at hzero
        omega
    unfold fate
    rw [hnone, List.length_nil, if_pos (Nat.zero_le _)]
    simp
  | succ count ih =>
    have hsure := sure_step (h := h) ht hm
    unfold fate
    split
    · simp
    · rcases hstep : m.step h s with ⟨m', _ | how⟩
      · rw [hstep] at hsure
        obtain ⟨n', hless, hwork'⟩ := (stride_of_step hstep).work hs hm hwork
        exact ih hsure.safe hwork' (by omega)
      · cases how <;> simp

/-- The work of one more execution. -/
theorem Work.begin (hwork : m.Work limit s n) (id : Nat) :
    ∃ n' ≤ n + effort limit s.tree.instances.size s.maxDepth, (m.begin s id).Work limit s n' := by
  obtain ⟨k, hleft, rfl⟩ := hwork
  refine ⟨_, ?_, k, by rw [agenda_begin]; exact hleft, rfl⟩
  have hbegun := (begins_begin (s := s) (m := m) rfl id).effort_le limit s.tree.instances.size
  have hmono := effort_mono limit s.tree.instances.size
    (Nat.sub_le s.maxDepth m.frames.length)
  omega

theorem executeFor_ne_runsOn (ht : s.tree.Closed) (hs : s.tree.Forwards limit) (hm : m.Safe s)
    (hwork : m.Work limit s n) {count : Nat}
    (hle : n + effort limit s.tree.instances.size s.maxDepth ≤ count) (id : Nat) :
    m.executeFor h s count id ≠ .runsOn := by
  unfold executeFor
  split
  · obtain ⟨n', hless, hwork'⟩ := hwork.begin id
    exact fate_ne_runsOn ht hs (hm.begin id) hwork' (Nat.le_trans hless hle) _
  · simp

/-- How many steps a tick takes at most. -/
def tickWork (limit : Nat) (s : Setting) : Nat :=
  s.tree.instances.size * (2 + effort limit s.tree.instances.size s.maxDepth)

theorem work_start (limit : Nat)
    (horder : s.tree.Preorder [Tree.root] (List.range s.tree.instances.size))
    (memory : Memory) (host : σ) (pending : Option PendingCall) (waiting : Bool) :
    (start memory host pending waiting).Work limit s (tickWork limit s) := by
  refine ⟨_, .enter horder .nil, ?_⟩
  rw [List.length_range]
  exact (Nat.zero_add _).symm

end Machine

end SchemePlayer
