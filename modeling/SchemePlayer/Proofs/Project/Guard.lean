import SchemePlayer.Host.Scripted
import SchemePlayer.Proofs.Machine.Unwinding
import SchemePlayer.Proofs.Project.Series

/-!
# The guard between ticks

Executions nest, through messages, no deeper than a project allows. The guard that sees to it is one
number, which every execution raises and lowers again; nothing ever resets it. If some way out of an
execution forgot to lower it, a project would run less and less of its code from tick to tick.

- `Playback.nested`: the code of a tick as nested executions, from a given level of the guard on.
- `Playback.nested_eq_walk`: it is what the tick does.
- `Playback.levelAfter`: the level of the guard after any ticks.
- `Playback.guard_balanced`: **every execution leaves the guard as it found it, and an execution
  that the guard denies leaves everything else as it was.**
-/

namespace SchemePlayer.Playback

variable {σ : Type} {h : Host σ}

/-- The code of a tick as nested executions, when the guard is at a level. -/
def nested (h : Host σ) (level : Nat) (t : Playback σ) : Option (Guarded σ × Verdict) :=
  let p := t.poll h
  Guarded.visit h p.project.setting p.project.budget
    { base := Machine.start p.project.memory p.host p.project.pending p.project.waiting, level }
    Tree.root

/-- The instructions that a tick begins, in order. -/
def begun (h : Host σ) (t : Playback σ) : List CallSite :=
  let p := t.poll h
  (Machine.start p.project.memory p.host p.project.pending p.project.waiting).sites h
    p.project.setting p.project.budget

/-- The level of the guard after some ticks, one after the other, if all of them end. -/
def levelAfter (h : Host σ) : List (Playback σ) → Nat → Option Nat
  | [], level => some level
  | t :: ts, level =>
    match t.nested h level with
    | none => none
    | some (w, _) => levelAfter h ts w.level

/-- **Nested executions do what the tick does**, and leave the guard at the bottom. -/
theorem nested_eq_walk {t : Playback σ} (hends : t.ending h ≠ .failed .exhausted) :
    ∃ w verdict visits frames, t.nested h 0 = some (w, verdict) ∧ w.level = 0 ∧
      t.ending h = verdict.end?.getD .completed ∧
      ((t.poll h).walk h).1 = w.base.within visits frames ∧ w.log = t.begun h :=
  Guarded.visit_eq_run rfl rfl hends

/-- The guard is at the bottom between any two ticks. -/
theorem levelAfter_eq_zero {ts : List (Playback σ)}
    (hends : ∀ t ∈ ts, t.ending h ≠ .failed .exhausted) : levelAfter h ts 0 = some 0 := by
  induction ts with
  | nil => rfl
  | cons t ts ih =>
    obtain ⟨w, verdict, _, _, hrun, hlevel, -⟩ := nested_eq_walk (hends t (List.mem_cons_self ..))
    rw [levelAfter, hrun]
    dsimp only
    rw [hlevel]
    exact ih fun u hu => hends u (List.mem_cons_of_mem _ hu)

/-- **The guard is balanced.** Whatever an execution reports, at whatever level it began and
whatever executions it caused, the level is afterwards what it was before. At full depth an
execution changes nothing but the count of those that were left out, and a message adds the number
of instances of its class to that count and is done, for nested executions as for the machine. The
ticks of a run are visits by nested executions; they begin and end with the guard at the bottom. -/
theorem guard_balanced {p : Playback σ} {ms : List (Move σ)}
    (hends : ∀ t ∈ p.ticks h ms, t.ending h ≠ .failed .exhausted) :
    (∀ s fuel (w w' : Guarded σ) id verdict, w.execute h s fuel id = some (w', verdict) →
      w'.level = w.level) ∧
    (∀ s fuel (w : Guarded σ) id, s.maxDepth ≤ w.level →
      w.execute h s fuel id = some (w.deny 1, .denied)) ∧
    (∀ s (w : Guarded σ) f i className stack,
      (w.base.within [] [f]).next? = some (f, [], i) →
      i.effect (w.base.scenery s f) f.stack = .ok (.send className stack) →
      s.maxDepth ≤ w.level → ∀ fuel offset,
        let count := (s.tree.instancesOf className).length
        Guarded.loop h s (count + fuel + 1) w f offset =
          Guarded.loop h s fuel { w.deny count with log := w.log ++ [⟨f.id, f.pc⟩] }
            { f with pc := f.pc + i.size, stack, targets := [] } f.pc) ∧
    (∀ s (m : Machine σ) f outer i className stack, m.next? = some (f, outer, i) →
      i.effect (m.scenery s f) f.stack = .ok (.send className stack) →
      s.maxDepth ≤ m.frames.length → ∀ budget,
        let count := (s.tree.instancesOf className).length
        m.run h s (count + budget + 1) =
          Machine.run h s budget
            { m with
              frames := { f with pc := f.pc + i.size, stack, targets := [] } :: outer
              denied := m.denied + count }) ∧
    (∀ t ∈ p.ticks h ms, ∃ w verdict visits frames,
      t.nested h 0 = some (w, verdict) ∧ w.level = 0 ∧
      t.ending h = verdict.end?.getD .completed ∧
      ((t.poll h).walk h).1 = w.base.within visits frames) ∧
    levelAfter h (p.ticks h ms) 0 = some 0 := by
  refine ⟨?_, ?_, ?_, ?_, ?_, levelAfter_eq_zero hends⟩
  · intro s fuel w w' id verdict hrun
    exact Guarded.level_execute hrun
  · intro s fuel w id hfull
    exact Guarded.execute_of_full hfull id
  · intro s w f i className stack hnext heffect hfull fuel offset
    exact Guarded.loop_of_send hnext heffect hfull offset
  · intro s m f outer i className stack hnext heffect hfull budget
    exact Machine.run_of_send hnext heffect hfull budget
  · intro t ht
    obtain ⟨w, verdict, visits, frames, hrun, hlevel, hend, hlast, -⟩ :=
      nested_eq_walk (hends t ht)
    exact ⟨w, verdict, visits, frames, hrun, hlevel, hend, hlast⟩

/-- Two classes that send messages to each other, an instance of one inside an instance of the
other. -/
def volley : ProjectOptions where
  id := 1
  root := "a"
  classes := .ofList
    [{ name := "a"
       children := [{ className := "b", handle := 1 }]
       code := some ⟨#[0x12, 0, 0, 0x76], #["b"]⟩ },
     { name := "b"
       code := some ⟨#[0x12, 0, 0, 0x76], #["a"]⟩ }]
  keys := { states := #[] }
  maxDepth := 3

/-- Two ticks begin one execution at full depth for each instance and end at the bottom. -/
theorem guard_balanced_volley :
    ∃ q, Project.create volley = .ok q ∧
      let start : Playback ScriptedHost := { project := q, host := {} }
      let first := Machine.start q.memory ({} : ScriptedHost) q.pending q.waiting
      (∀ t ∈ start.ticks ScriptedHost.host [.step, .step],
        t.ending ScriptedHost.host ≠ .failed .exhausted) ∧
      (start.performs ScriptedHost.host [.step, .step]).project.denied = 4 ∧
      levelAfter ScriptedHost.host (start.ticks ScriptedHost.host [.step, .step]) 0 = some 0 ∧
      (∃ w, Guarded.execute ScriptedHost.host q.setting 30 { base := first, level := 1 } 0 =
        some (w, .done) ∧ w.base.denied = 1 ∧ w.level = 1) ∧
      Guarded.execute ScriptedHost.host q.setting 0 { base := first, level := 3 } 0 =
        some (Guarded.deny 1 { base := first, level := 3 }, .denied) ∧
      ∃ inst i, q.tree.instance? 0 = some inst ∧
        let f : Frame := { id := 0, inst, pc := 3, stack := [.string "b"] }
        let m := first.within [] [f, f, f]
        m.next? = some (f, [f, f], i) ∧
        Machine.run ScriptedHost.host q.setting 2 m =
          Machine.run ScriptedHost.host q.setting 0
            { m with frames := [{ f with pc := 3 + i.size, stack := [] }, f, f], denied := 1 } := by
  obtain ⟨q, hq, heval⟩ := Project.exists_create
    (o := volley)
    (P := fun q =>
      let start : Playback ScriptedHost := { project := q, host := {} }
      let first := Machine.start q.memory ({} : ScriptedHost) q.pending q.waiting
      decide ((∀ t ∈ start.ticks ScriptedHost.host [.step, .step],
          t.ending ScriptedHost.host ≠ .failed .exhausted) ∧
        (start.performs ScriptedHost.host [.step, .step]).project.denied = 4 ∧ q.maxDepth = 3 ∧
        (q.tree.instancesOf "b").length = 1) &&
      ((Guarded.execute ScriptedHost.host q.setting 30 { base := first, level := 1 } 0).any
        fun x : Guarded ScriptedHost × Verdict => decide (x.1.base.denied = 1 ∧ x.2 = .done)) &&
      ((q.tree.instance? 0).any fun inst : Instance =>
        let f : Frame := { id := 0, inst, pc := 3, stack := [.string "b"] }
        (first.within [] [f, f, f]).next?.any fun x : Frame × List Frame × Instruction =>
          decide (x.2.2.effect (first.scenery q.setting f) f.stack = .ok (.send "b" []))))
    (by decide +kernel)
  obtain ⟨hrest, hsends⟩ := Bool.and_eq_true_iff.mp heval
  obtain ⟨hall, hdone⟩ := Bool.and_eq_true_iff.mp hrest
  obtain ⟨hends, hdenied, hdepth, hcount⟩ := of_decide_eq_true hall
  obtain ⟨⟨w, verdict⟩, hexecutes, hverdict⟩ := (Option.any_eq_true ..).mp hdone
  obtain ⟨hone, rfl⟩ := of_decide_eq_true hverdict
  obtain ⟨inst, hinst, hnext⟩ := (Option.any_eq_true ..).mp hsends
  obtain ⟨⟨f, outer, i⟩, hnext, heffect⟩ := (Option.any_eq_true ..).mp hnext
  obtain ⟨hframes, -⟩ := Machine.next?_eq_some hnext
  obtain ⟨rfl, rfl⟩ := List.cons.inj hframes
  obtain ⟨hbalanced, hfull, -, hsend, -, hbottom⟩ := guard_balanced hends
  refine ⟨q, hq, hends, hdenied, hbottom, ⟨w, hexecutes, hone, hbalanced _ _ _ _ _ _ hexecutes⟩,
    hfull _ _ _ _ ?_, inst, i, hinst, hnext, ?_⟩
  · exact Nat.le_of_eq hdepth
  · have hpast := hsend q.setting _ _ _ i "b" [] hnext (of_decide_eq_true heffect)
      (Nat.le_of_eq hdepth) 0
    dsimp only at hpast
    rw [show (q.setting.tree.instancesOf "b").length = 1 from hcount] at hpast
    exact hpast

end SchemePlayer.Playback
