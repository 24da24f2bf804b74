import SchemePlayer.Proofs.Machine.Order
import SchemePlayer.Proofs.Project.Termination

/-!
# The order of a tick

Which instances a tick runs, and in which order, is settled when it begins. They are those of the
post-order of the tree for which neither they nor any instance above them is disabled then. A tick
that ends by itself runs exactly these, one that yields or fails runs them up to the instance whose
call or fault ends it:

- `Playback.executions`: the instances that a tick runs, in order.
- `Playback.order_of_tick`: **the order of a tick**.
- `shadedGarden`: a tree in which an instance is disabled that has another one below it.
-/

namespace SchemePlayer.Playback

variable {σ : Type} {h : Host σ} {p : Playback σ}

/-- The instances whose code a tick runs, in order. -/
def executions (h : Host σ) (p : Playback σ) : List Nat :=
  (Machine.start p.project.memory p.host p.project.pending p.project.waiting).executions h
    p.project.setting p.project.budget

theorem built_create {o : ProjectOptions} {q : Project} (h : Project.create o = .ok q) :
    q.tree.Built := by
  unfold Project.create at h
  split at h
  · cases h
  · rename_i tree memory hbuild
    cases h
    exact ⟨_, _, _, _, _, hbuild⟩

theorem maxDepth_pos_create {o : ProjectOptions} {q : Project} (h : Project.create o = .ok q) :
    0 < q.maxDepth := by
  unfold Project.create at h
  split at h
  · cases h
  · cases h
    dsimp only
    split
    · exact Nat.succ_pos _
    · omega

open scoped Classical in
/-- **The order of a tick.** Whatever a project was set up from, and whatever its memory holds when
a tick begins, a tick that executes no `SEND_MESSAGE` goes by the post-order of the tree, in which
every instance occurs once and children come in the order in which they are declared, without the
instances that are silenced when it begins. If it neither yields nor fails, these are the instances
that it runs, in that order. If it yields or fails, the instances that it runs are the first ones
of them, and the last of these is the one whose call is pending, or in whose code the fault is. -/
theorem order_of_tick {o : ProjectOptions} {q : Project} (hq : Project.create o = .ok q)
    (hp : q.SameBuild p.project) (hd : p.project.Departing)
    (hquiet : ∀ e ∈ p.trace h, e.op ≠ .sendMessage) :
    ∃ post, p.project.tree.Postorder [Tree.root] post ∧
      post.Perm (List.range p.project.tree.instances.size) ∧
      (∀ id inst, p.project.tree.instance? id = some inst →
        Tree.Follows o.classes p.project.tree id inst) ∧
      let order := post.filter fun id => ¬p.project.tree.Silenced p.project.memory id
      let last := (p.walk h).1
      match (p.walk h).2 with
      | .completed => p.executions h = order
      | .yielded => p.executions h <+: order ∧
        ∃ f call, last.frames = [f] ∧ (p.executions h).getLast? = some f.id ∧
          last.pending = some call ∧ call.key.site = ⟨f.id, f.pc⟩
      | .failed (.at className offset _) => p.executions h <+: order ∧
        ∃ f, last.frames = [f] ∧ (p.executions h).getLast? = some f.id ∧
          f.inst.proto.name = className ∧ f.pc = offset
      | .failed .exhausted => p.executions h <+: order := by
  have htree := hp.tree
  have hclosed : p.project.tree.Closed := by
    rw [htree]
    exact Project.closed_create hq
  have hbuilt : p.project.tree.Built := by
    rw [htree]
    exact built_create hq
  have hnumbered : p.project.tree.Numbered o.classes o.root := by
    rw [htree]
    exact Project.numbered_create hq
  have hdepth : 0 < p.project.setting.maxDepth := by
    show 0 < p.project.maxDepth
    rw [hp.maxDepth]
    exact maxDepth_pos_create hq
  obtain ⟨post, hpost, hperm⟩ := hnumbered.postorder
  refine ⟨post, hpost, hperm, hnumbered.follows, ?_⟩
  intro order last
  -- 1. the schedule of the visit, which no instance above the root keeps from running
  have hschedule : p.project.tree.Schedule p.project.memory [Tree.root] order :=
    hpost.schedule hnumbered.rooted fun id hid a inst ha hchild => by
      obtain rfl := List.mem_singleton.mp hid
      exact absurd hchild (hnumbered.root_not_child ha)
  have hnodup : order.Nodup := (hperm.nodup_iff.mpr List.nodup_range).filter _
  -- 2. the first moment
  have hfirst : Machine.Underway p.project.setting p.project.memory [] order
      (Machine.start p.project.memory p.host p.project.pending p.project.waiting) := by
    refine ⟨Machine.safe_start hclosed hd.inBounds _ _ _, ?_, .inl rfl, fun _ _ _ _ _ _ => rfl,
      hd.pending⟩
    have hahead := Machine.Ahead.enter hschedule .nil
    rwa [List.append_nil] at hahead
  -- 3. the last one
  obtain ⟨m₁, rest, horder, hlast, hend⟩ := hfirst.run (h := h) hbuilt hclosed hdepth hnodup
    hschedule.awake hquiet
  rw [List.nil_append] at hlast horder
  have hbegun : p.executions h <+: order := ⟨rest, horder.symm⟩
  have hactive : ∀ {f outer}, m₁.frames = f :: outer →
      m₁.frames = [f] ∧ (p.executions h).getLast? = some f.id := by
    intro f outer hframes
    rcases hlast.active with hnone | ⟨g, hone, -, hg⟩
    · cases hframes.symm.trans hnone
    · cases hframes.symm.trans hone
      exact ⟨hone, hg⟩
  change (p.walk h).2 = _ ∨ Machine.Ending m₁ last (p.walk h).2 at hend
  generalize (p.walk h).2 = how at hend
  rcases hend with rfl | hend
  · exact hbegun
  · cases hend with
    | completed _ hagenda =>
      have hahead := hlast.ahead
      rw [hagenda] at hahead
      cases hahead
      rw [List.append_nil] at horder
      exact horder.symm
    | @yielded f outer hold hsame hcall =>
      obtain ⟨hone, hg⟩ := hactive hold
      obtain ⟨call, hpending, hsite⟩ := hcall hlast.pending
      exact ⟨hbegun, f, call, hsame.trans hone, hg, hpending, hsite⟩
    | @failed f outer fault hold hsame =>
      obtain ⟨hone, hg⟩ := hactive hold
      exact ⟨hbegun, f, hsame.trans hone, hg, rfl, rfl⟩

/-- A root with three instances in it. The first one is disabled and has an instance below it, the
second one turns its own switch on when it runs, and the third one asks the host for something. -/
def shadedGarden : ProjectOptions where
  id := 1
  root := "garden"
  classes := .ofList
    [{ name := "garden"
       children := [{ className := "shade", handle := 1 }, { className := "lamp", handle := 2 },
         { className := "bird", handle := 3 }] },
     { name := "shade"
       vars := [{ name := "_disable", type := .float },
         { name := "_DISABLE", type := .float, dflt := "1" }]
       children := [{ className := "bird", handle := 1 }] },
     { name := "lamp"
       vars := [{ name := "_disable", type := .float }]
       code := some ⟨#[0x10, 0, 0, 0, 0, 0, 0, 0xF0, 0x3F, 0x22, 0, 0], #[]⟩ },
     { name := "bird"
       code := some ⟨#[0x80, 0x01], #[]⟩ }]
  keys := { states := #[] }

open scoped Classical in
/-- The tick yields in the third one, whose number is 4; the root is left. -/
theorem order_of_tick_shadedGarden :
    ∃ q, Project.create shadedGarden = .ok q ∧
      let p : Playback ScriptedHost := { project := q, host := { usual := .pending } }
      (p.walk ScriptedHost.host).2 = .yielded ∧ p.executions ScriptedHost.host = [3, 4] ∧
        (∃ call, (p.walk ScriptedHost.host).1.pending = some call ∧ call.key.site = ⟨4, 0⟩) ∧
        ∃ post, q.tree.Postorder [Tree.root] post ∧
          [3, 4] <+: post.filter fun id => ¬q.tree.Silenced q.memory id := by
  obtain ⟨q, hq, heval⟩ := Project.exists_create
    (o := shadedGarden)
    (P := fun q =>
      let p : Playback ScriptedHost := { project := q, host := { usual := .pending } }
      decide ((q.lifecycle.isTerminal = false ∧ q.pending = none ∧ q.waiting = false ∧
          q.queue = []) ∧ (∀ e ∈ p.trace ScriptedHost.host, e.op ≠ .sendMessage) ∧
        (p.walk ScriptedHost.host).2 = .yielded ∧ p.executions ScriptedHost.host = [3, 4] ∧
        (p.walk ScriptedHost.host).1.frames.map Frame.pc = [0]))
    (by decide +kernel)
  obtain ⟨⟨hlive, hpending, hwaiting, hqueue⟩, hquiet, hyields, hbegun, hplace⟩ :=
    of_decide_eq_true heval
  have hd : q.Departing :=
    ⟨hlive, hpending, hwaiting, hqueue, (Project.sound_create hq).inBounds⟩
  obtain ⟨post, hpost, -, -, hends⟩ := order_of_tick hq (p := { project := q, host := _ })
    (Project.SameBuild.refl q) hd hquiet
  rw [hyields, hbegun] at hends
  obtain ⟨hearlier, f, call, hframes, hlast, hcall, hsite⟩ := hends
  refine ⟨q, hq, hyields, hbegun, ⟨call, hcall, ?_⟩, post, hpost, hearlier⟩
  rw [hframes] at hplace
  have hid : f.id = 4 := (Option.some.inj hlast).symm
  rw [hsite, hid, (List.cons.inj hplace).1]

end SchemePlayer.Playback
