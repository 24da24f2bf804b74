import SchemePlayer.Proofs.Project.Commit
import SchemePlayer.Proofs.Tree.Restore

/-!
# Restoring a project

A project that is set up anew with its own snapshot goes on from what was committed. The tree is
the one that was built first, and defaults are what they were when it was:

- `Project.build_of_create`: where the tree and the memory of a project come from.
- `sameDefaults_tick`, `sameDefaults_perform`: no move changes a default.
- `built_performs`: after any moves the tree is as it was built, and so are the defaults.
- `build_of_snapshot`: **building with a snapshot, at any moment of any run, gives the same tree,
  with everything that was committed and nothing else.**
-/

namespace SchemePlayer

theorem Project.build_of_create {o : ProjectOptions} {q : Project} (h : Project.create o = .ok q) :
    Tree.build o.classes o.root o.strict o.varSet = .ok (q.tree, q.memory) := by
  unfold Project.create at h
  split at h
  · cases h
  · rename_i tree memory hbuild
    cases h
    exact hbuild

namespace Playback

variable {σ : Type} {h : Host σ} {p : Playback σ}

/-! ### Defaults -/

/-- Whatever code writes, it writes no default. -/
theorem sameDefaults_walk (h : Host σ) (p : Playback σ) :
    p.project.memory.SameDefaults (p.walk h).1.memory :=
  (Machine.runs_trace h p.project.setting p.project.budget
      (Machine.start p.project.memory p.host p.project.pending p.project.waiting)).memory
    (P := p.project.memory.SameDefaults)
    (fun _ _ _ _ hwrite hold => hold.trans (Memory.sameDefaults_write hwrite))
    (.refl _)

theorem sameDefaults_tick (hs : p.project.Sound) (hlive : p.project.lifecycle.isTerminal = false) :
    p.project.memory.SameDefaults (p.tick h).project.memory := by
  have hwalk : p.project.memory.SameDefaults ((p.poll h).walk h).1.memory := by
    rw [← (poll_keeps h p).2.1]
    exact sameDefaults_walk h (p.poll h)
  have hout := tick_outcome (h := h) hs hlive
  generalize p.tick h = t at hout ⊢
  cases hout with
  | waits host => exact .refl _
  | refuses call cause => exact .refl _
  | fails cause => exact hwalk
  | lands memory yielded _ _ hlinks =>
    have hlanded : p.project.memory.SameDefaults memory.commit :=
      (hwalk.trans (Memory.sameDefaults_propagate hlinks)).trans (Memory.sameDefaults_commit _)
    split
    · exact hlanded
    · exact hlanded

/-- **No move changes a default.** -/
theorem sameDefaults_perform (hs : p.project.Sound) (m : Move σ) :
    p.project.memory.SameDefaults (p.perform h m).project.memory := by
  cases hask : m.asksTick p.project with
  | true =>
    rw [perform_of_asksTick hask, (memory_deliverAll (sound_tick hs)).1]
    exact sameDefaults_tick hs (live_of_asksTick hask)
  | false =>
    have haside := aside_perform (h := h) hask
    generalize p.perform h m = p' at haside ⊢
    cases haside with
    | writes x v memory _ hwrite => exact Memory.sameDefaults_write hwrite
    | ends =>
      rw [(memory_deliverAll (h := h) (p := p.shut) (sound_shut hs.inBounds)).1]
      exact .refl _
    | _ => exact .refl _

/-- After any moves the tree is as it was, and so are the defaults. -/
theorem built_performs (hs : p.project.Sound) (ms : List (Move σ)) :
    (p.performs h ms).project.tree = p.project.tree ∧
      p.project.memory.SameDefaults (p.performs h ms).project.memory := by
  induction ms generalizing p with
  | nil => exact ⟨rfl, .refl _⟩
  | cons m ms ih =>
    obtain ⟨htree, hdefaults⟩ := ih (sound_perform (h := h) hs m)
    exact ⟨htree.trans (sameBuild_perform hs m).tree, (sameDefaults_perform hs m).trans hdefaults⟩

/-! ### Snapshots -/

/-- **A snapshot restores what is committed.** After any moves under any host, if no two variables
of a class in the tree have the same name up to case and no two children of an instance the same
handle: building again from the same table and root, with the snapshot for a variable set, gives
the same tree, and in its memory every slot has for its committed and its working value what the
project has committed, and the same default. The order of the values in the snapshot does not
matter. -/
theorem build_of_snapshot {h : Host σ} {o : ProjectOptions} {q : Project}
    (hq : Project.create o = .ok q) (host : σ) (ms : List (Move σ)) :
    let start : Playback σ := { project := q, host }
    let p := (start.performs h ms).project
    p.tree.DistinctNames → p.tree.DistinctHandles → ∀ set, p.snapshot.Reordered set →
      ∃ m, Tree.build o.classes o.root o.strict (some set) = .ok (p.tree, m) ∧
        ∀ s, m.readOld? s = p.memory.readOld? s ∧ m.read? s = p.memory.readOld? s ∧
          m.readDefault? s = p.memory.readDefault? s := by
  intro start p hnames hhandles set hset
  obtain ⟨htree, hdefaults⟩ : p.tree = q.tree ∧ q.memory.SameDefaults p.memory :=
    built_performs (Project.sound_create hq) ms
  have hbuild := Project.build_of_create hq
  rw [← htree] at hbuild
  refine ⟨p.memory.restored, Tree.build_snapshot hbuild hdefaults hnames hhandles hset, fun s => ?_⟩
  unfold Memory.readOld? Memory.read? Memory.readDefault?
  rw [Memory.cell?_restored]
  cases p.memory.cell? s with
  | none => exact ⟨rfl, rfl, rfl⟩
  | some c => exact ⟨rfl, rfl, rfl⟩

/-- A class that holds two instances of another one. Each of the two adds a letter to its text and
looks for a file. -/
def twins : ProjectOptions where
  id := 1
  root := "a"
  classes := .ofList
    [{ name := "a"
       vars := [{ name := "x", type := .float, dflt := "0.1" },
         { name := "N", type := .handle, dflt := "-7" }]
       children := [{ className := "b", handle := 1 }, { className := "b", handle := 2 }] },
     { name := "b"
       vars := [{ name := "S", type := .string }]
       code := some ⟨#[0x20, 0, 0, 0x12, 0, 0, 0x58, 0x22, 0, 0, 0x12, 0, 0, 0x86, 0x01], #["x"]⟩ }]
  keys := { states := #[] }

/-- A host that answers three calls, and stops the project at the fourth. -/
def failsAtFourth : ScriptedHost :=
  { script := [.ready (.float 1), .ready (.float 1), .ready (.float 1),
      .failed (.unrecoverable "lost")] }

/-- What the root and its children have in the snapshot after one tick. -/
def twinsValues : List (List (Text × Text)) :=
  [[("x", "0.1"), ("N", "-7")], [("S", "x")], [("S", "x")]]

/-- Both texts have been written twice and committed once when the project stops. What is built
from the snapshot has what was committed, though the values of the root are read the other way
round. -/
theorem build_of_snapshot_twins :
    ∃ q, Project.create twins = .ok q ∧
      let start : Playback ScriptedHost := { project := q, host := failsAtFourth }
      let p := (start.performs ScriptedHost.host [.step, .step]).project
      let set := p.snapshot
      p.tree.DistinctNames ∧ p.tree.DistinctHandles ∧ p.lifecycle = .error ∧
        [1, 2].map (p.var? · "S") = [some (.string "xx"), some (.string "xx")] ∧
        set.values :: set.children.map VarSet.values = twinsValues ∧
        ∃ m, Tree.build twins.classes twins.root twins.strict
            (some (.mk set.className set.handle set.values.reverse set.children)) =
              .ok (p.tree, m) ∧
          [1, 2].map (fun id => (p.tree.slot? id "S").bind m.read?) =
            [some (.string "x"), some (.string "x")] := by
  obtain ⟨q, hq, heval⟩ := Project.exists_create
    (o := twins)
    (P := fun q =>
      let start : Playback ScriptedHost := { project := q, host := failsAtFourth }
      let p := (start.performs ScriptedHost.host [.step, .step]).project
      decide (p.tree.DistinctNames ∧ p.tree.DistinctHandles ∧ p.lifecycle = .error ∧
        [1, 2].map (p.var? · "S") = [some (.string "xx"), some (.string "xx")] ∧
        p.snapshot.values :: p.snapshot.children.map VarSet.values = twinsValues ∧
        [1, 2].map (fun id => (p.tree.slot? id "S").bind p.memory.readOld?) =
          [some (.string "x"), some (.string "x")]))
    (by decide +kernel)
  obtain ⟨hnames, hhandles, herror, hvars, hvalues, hold⟩ := of_decide_eq_true heval
  have hset : ∀ set : VarSet,
      set.Reordered (.mk set.className set.handle set.values.reverse set.children) := by
    rintro ⟨className, handle, values, children⟩
    exact .mk values.reverse_perm.symm (VarSet.Reordered.refl_children children)
  obtain ⟨m, hbuild, hm⟩ := build_of_snapshot (h := ScriptedHost.host) hq failsAtFourth
    [.step, .step] hnames hhandles _ (hset _)
  refine ⟨q, hq, hnames, hhandles, herror, hvars, hvalues, m, hbuild, ?_⟩
  rw [← hold]
  exact List.map_congr_left fun id _ => Option.bind_congr fun s _ => (hm s).2.1

end Playback

end SchemePlayer
