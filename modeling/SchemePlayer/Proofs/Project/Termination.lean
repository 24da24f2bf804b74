import Mathlib.Algebra.Order.BigOperators.Group.List
import SchemePlayer.Proofs.Machine.Termination
import SchemePlayer.Proofs.Project.Safety

/-!
# Termination of ticks

A project is set up from classes whose code never jumps backwards. Messages may go around in
circles between its instances, and each may reach many of them. Still every tick ends, and so does
every execution in it, because executions that would be too deep are left out.

- `ClassTable.Forwards`: the condition on the classes.
- `ticks_end`: **every tick of every run ends, and so does every execution.** One bound serves for
  all hosts and all runs.
- `echo`: two classes that send each other messages.
-/

namespace SchemePlayer

/-! ### The code of a project -/

/-- The code of all classes goes forwards. -/
def ClassTable.Forwards (classes : ClassTable) : Prop :=
  ∀ name p, classes.find? name = some p → Forward p.program.bytes

namespace Tree

/-- The size of the code of all instances together. -/
def codeSize (t : Tree) : Nat := (t.instances.toList.map (·.proto.program.bytes.size)).sum

theorem size_le_codeSize {t : Tree} {id : Nat} {inst : Instance} (h : t.instance? id = some inst) :
    inst.proto.program.bytes.size ≤ t.codeSize := by
  have hmem : inst ∈ t.instances.toList := Array.mem_toList_iff.mpr (Array.mem_of_getElem? h)
  exact List.le_sum_of_mem (List.mem_map_of_mem hmem)

end Tree

theorem Project.numbered_create {o : ProjectOptions} {q : Project} (h : create o = .ok q) :
    q.tree.Numbered o.classes o.root := by
  unfold create at h
  split at h
  · cases h
  · rename_i tree memory hbuild
    cases h
    obtain ⟨p, seedling, slots, s, hp, hseedling, hgrow, rfl, -⟩ := Tree.build_eq_ok hbuild
    exact Tree.numbered_grow hp hseedling hgrow

theorem Project.forwards_create {o : ProjectOptions} {q : Project} (h : create o = .ok q)
    (hforward : o.classes.Forwards) : q.tree.Forwards q.tree.codeSize := by
  intro id inst hid
  obtain ⟨name, hproto⟩ := (numbered_create h).proto hid
  exact ⟨hforward name _ hproto, Tree.size_le_codeSize hid⟩

namespace Playback

/-- Every tick of a run is one of the project that was set up. -/
theorem sameBuild_of_mem {σ : Type} {h : Host σ} {o : ProjectOptions} {q : Project}
    (hq : Project.create o = .ok q) {host : σ} {ms : List (Move σ)} {t : Playback σ}
    (ht : t ∈ ({ project := q, host } : Playback σ).ticks h ms) :
    q.SameBuild (t.poll h).project := by
  obtain ⟨before, after, hlog⟩ := List.append_of_mem ht
  have hbegins := begins_of_ticks (h := h) (Project.sound_create hq) (standing_create hq) hlog
  exact hbegins.2.trans (poll_keeps h t).1

/-- **Every tick ends, and so does every execution.** Whatever the options of the project are, there
is a bound for all of its runs, under all hosts. A tick that is given as many steps ends by itself,
and ends in the same way when it is given more. At no moment are more executions active than may
be. An execution of any instance that begins at any moment does not run on for longer than the
bound, and keeps to the depth as well. -/
theorem ticks_end {o : ProjectOptions} {q : Project} (hq : Project.create o = .ok q)
    (hforward : o.classes.Forwards) :
    ∃ bound, ∀ {σ : Type} (h : Host σ) (host : σ) (ms : List (Move σ)),
      ∀ t ∈ ({ project := q, host } : Playback σ).ticks h ms,
        let s := (t.poll h).project.setting
        let first := Machine.start (t.poll h).project.memory (t.poll h).host
          (t.poll h).project.pending (t.poll h).project.waiting
        (∀ budget, bound ≤ budget → (first.run h s budget).2 ≠ .failed .exhausted ∧
          first.run h s budget = first.run h s bound) ∧
        ∀ m, t.Moment h m → m.frames.length ≤ q.maxDepth ∧
          ∀ id, (∀ m', Machine.Reaches h s (m.begin s id) m' → m'.frames.length ≤ q.maxDepth) ∧
            ∀ count, bound ≤ count → m.executeFor h s count id ≠ .runsOn := by
  let limit := q.tree.codeSize
  let one := effort limit q.tree.instances.size q.maxDepth
  refine ⟨Machine.tickWork limit q.setting + 1 + one, fun {σ} h host ms t ht => ?_⟩
  intro s first
  obtain ⟨hclosed, hbounds⟩ := safe_of_mem_ticks hq ht
  have hsame := sameBuild_of_mem hq ht
  have htree : s.tree = q.tree := hsame.tree
  have hdepth : s.maxDepth = q.maxDepth := hsame.maxDepth
  have hforwards : s.tree.Forwards limit := by
    rw [htree]
    exact Project.forwards_create hq hforward
  have horder : s.tree.Preorder [Tree.root] (List.range s.tree.instances.size) := by
    rw [htree]
    exact (Project.numbered_create hq).preorder
  have hsafe : first.Safe s := Machine.safe_start hclosed hbounds _ _ _
  have hwork : first.Work limit s (Machine.tickWork limit q.setting) := by
    have hstart := Machine.work_start limit horder (t.poll h).project.memory
      (t.poll h).host (t.poll h).project.pending (t.poll h).project.waiting
    rwa [Machine.tickWork, htree, hdepth] at hstart
  refine ⟨fun budget hle => ⟨?_, ?_⟩, fun m hm => ⟨?_, fun id => ⟨fun m' hreach => ?_, ?_⟩⟩⟩
  · exact Machine.run_ne_exhausted hclosed hforwards hsafe hwork (by omega)
  · exact Machine.run_of_le
      (Machine.run_ne_exhausted hclosed hforwards hsafe hwork (by omega)) hle
  · rw [← hdepth]
    exact Machine.Reaches.length_le hm (Nat.zero_le _)
  · have hbegun := (Machine.begins_begin (s := s) (m := m) rfl id).length_le
      (Machine.Reaches.length_le hm (Nat.zero_le _))
    rw [← hdepth]
    exact hreach.length_le hbegun
  · intro count hle
    obtain ⟨n, hless, hleft⟩ := Machine.Reaches.work hm hclosed hforwards hsafe hwork
    refine Machine.executeFor_ne_runsOn hclosed hforwards
      (Machine.Reaches.safe hm hclosed hsafe) hleft ?_ id
    rw [htree, hdepth]
    omega

/-- Two classes whose code jumps forwards and sends a message to the other one, of which there are
two instances. -/
def echo : ProjectOptions where
  id := 1
  root := "a"
  classes := .ofList
    [{ name := "a"
       children := [{ className := "b", handle := 1 }, { className := "b", handle := 2 }]
       code := some ⟨#[0x60, 0, 0, 0x12, 0, 0, 0x76], #["b"]⟩ },
     { name := "b"
       code := some ⟨#[0x60, 0, 0, 0x12, 0, 0, 0x76], #["a"]⟩ }]
  keys := { states := #[] }
  maxDepth := 3

theorem forwards_echo : echo.classes.Forwards := by
  intro name p hp
  obtain ⟨before, after, hentries, -⟩ := List.lookup_eq_some_iff.mp hp
  have hall : ∀ e ∈ echo.classes.entries, Forward e.2.program.bytes := by decide +kernel
  exact hall (Text.lower name, p) (by rw [hentries]; exact List.mem_append_cons_self)

/-- Each message comes to both instances of a class and is answered by as many. The tick ends, and
eight executions were one too many. -/
theorem ticks_end_echo :
    ∃ q bound, Project.create echo = .ok q ∧
      let first : Machine ScriptedHost := Machine.start q.memory {} q.pending q.waiting
      ∀ budget, bound ≤ budget →
        (first.run ScriptedHost.host q.setting budget).2 = .completed ∧
          (first.run ScriptedHost.host q.setting budget).1.denied = 8 := by
  obtain ⟨q, hq, heval⟩ := Project.exists_create
    (o := echo)
    (P := fun q =>
      let start : Playback ScriptedHost := { project := q, host := {} }
      let first := Machine.start q.memory ({} : ScriptedHost) q.pending q.waiting
      let last := first.run ScriptedHost.host q.setting 77
      decide (q.pending = none ∧ start.ticksOn ScriptedHost.host .step = true ∧
        last.2 = .completed ∧ last.1.denied = 8))
    (by decide +kernel)
  obtain ⟨hpending, hticks, hcompleted, hdenied⟩ := of_decide_eq_true heval
  let start : Playback ScriptedHost := { project := q, host := {} }
  let first : Machine ScriptedHost := Machine.start q.memory {} q.pending q.waiting
  have hpoll : start.poll ScriptedHost.host = start := by
    simp only [poll, start, hpending]
  have hmem : start ∈ start.ticks ScriptedHost.host [.step] := by
    rw [ticks, if_pos hticks]
    exact List.mem_cons_self ..
  obtain ⟨bound, hbound⟩ := ticks_end hq forwards_echo
  obtain ⟨hends, -⟩ := hbound ScriptedHost.host {} [.step] start hmem
  rw [hpoll] at hends
  refine ⟨q, bound, hq, fun budget hle => ?_⟩
  -- both bounds are large enough, so that the tick ends in the same way within either of them
  have hsame : first.run ScriptedHost.host q.setting budget =
      first.run ScriptedHost.host q.setting 77 := by
    rcases Nat.le_total 77 budget with hmore | hless
    · exact Machine.run_of_le (by rw [hcompleted]; simp) hmore
    · exact (Machine.run_of_le (hends budget hle).1 hless).symm
  show (first.run ScriptedHost.host q.setting budget).2 = .completed ∧
    (first.run ScriptedHost.host q.setting budget).1.denied = 8
  rw [hsame]
  exact ⟨hcompleted, hdenied⟩

end Playback

end SchemePlayer
