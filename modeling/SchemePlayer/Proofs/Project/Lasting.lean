import SchemePlayer.Proofs.Project.Tick

/-!
# What lasts of a project

Subscribers may act on a project when they are told of something. Those that only take note leave it
alone, and as long as there are no others nothing that is done with a project changes who is
subscribed to it, and a project that has closed is never opened again.

- `Project.Passive`: subscribers only take note; `Project.Lasts`: what is left as it is then.
- `lasts_deliver`: to tell subscribers, and `lasts_play`, `lasts_step`, `lasts_drive` and others: the
  operations of a project.
- `closed_close`: **a project that was told to close has closed.**
-/

namespace SchemePlayer

namespace Project

variable {q q' q'' : Project}

/-- Subscribers only take note of what they are told. -/
def Passive (q : Project) : Prop := ∀ s ∈ q.subscriptions, s.reaction = .nothing

/-- The same are subscribed, and a project that had closed stays so. -/
structure Lasts (q q' : Project) : Prop where
  subscriptions : q'.subscriptions = q.subscriptions
  closed : q.lifecycle = .closed → q'.lifecycle = .closed

theorem Lasts.refl (q : Project) : q.Lasts q := ⟨rfl, fun hclosed => hclosed⟩

theorem Lasts.trans (h : q.Lasts q') (h' : q'.Lasts q'') : q.Lasts q'' :=
  ⟨h'.subscriptions.trans h.subscriptions, fun hclosed => h'.closed (h.closed hclosed)⟩

theorem Lasts.passive (h : q.Lasts q') (hq : q.Passive) : q'.Passive := by
  intro s hs
  rw [h.subscriptions] at hs
  exact hq s hs

/-- Of a project that has not closed, nothing is asked but that the same are subscribed. -/
theorem Lasts.of_open (hopen : q.lifecycle ≠ .closed)
    (hsubscriptions : q'.subscriptions = q.subscriptions) : q.Lasts q' :=
  ⟨hsubscriptions, fun hclosed => absurd hclosed hopen⟩

/-- Nobody is subscribed to a new project. -/
theorem subscriptions_create {o : ProjectOptions} (h : create o = .ok q) :
    q.subscriptions = [] := by
  unfold create at h
  split at h
  · cases h
  · cases h
    rfl

/-- One more subscriber takes note. -/
theorem Passive.subscribe (hq : q.Passive) (event : Text) :
    (q.subscribe event .nothing).2.Passive := by
  intro s hs
  rcases List.mem_append.mp hs with hs | hs
  · exact hq s hs
  · obtain rfl := List.mem_singleton.mp hs
    rfl

/-- A variable that is set is neither a subscriber nor the end of the project. -/
theorem lasts_setVar {id : Nat} {name : Text} {v : Value} (h : q.setVar? id name v = some q') :
    q.Lasts q' := by
  unfold setVar? at h
  split at h
  · cases h
  · split at h
    · cases h
    · split at h
      · cases h
        exact ⟨rfl, fun hclosed => hclosed⟩
      · cases h

end Project

namespace Playback

variable {σ : Type} {h : Host σ} {p : Playback σ}

/-! ### Ticks -/

theorem subscriptions_poll (h : Host σ) (p : Playback σ) :
    (p.poll h).project.subscriptions = p.project.subscriptions := by
  rcases poll_cases h p with ⟨-, heq⟩ | ⟨_, -, -, heq⟩ | ⟨_, _, -, -, -, heq⟩ |
    ⟨_, _, _, -, -, -, heq⟩ <;> rw [heq] <;> rfl

theorem subscriptions_conclude (p : Playback σ) (m : Machine σ) (yielded : Bool) :
    (p.conclude m yielded).project.subscriptions = p.project.subscriptions := by
  unfold conclude
  split
  · rfl
  · dsimp only
    split <;> rfl

/-- A tick subscribes nobody, and nobody leaves. -/
theorem subscriptions_tick (h : Host σ) (p : Playback σ) :
    (p.tick h).project.subscriptions = p.project.subscriptions := by
  rw [← subscriptions_poll h p]
  unfold tick
  dsimp only
  split
  · rfl
  · split
    · rfl
    · exact subscriptions_conclude _ _ true
    · exact subscriptions_conclude _ _ false

/-! ### Telling subscribers -/

/-- **To tell subscribers that only take note leaves the project as it is**, but for the notices. -/
theorem lasts_deliver (hp : p.project.Passive) (depth : Nat) :
    p.project.Lasts (p.deliver h depth).project := by
  cases depth with
  | zero => exact .refl _
  | succ depth =>
    have hclear : p.project.Lasts (p.update fun q => { q with queue := [] }).project :=
      ⟨rfl, fun hclosed => hclosed⟩
    unfold deliver takeNotices
    refine List.foldlRecOn (motive := fun p' : Playback σ => p.project.Lasts p'.project) _ _
      hclear ?_
    rintro p' hp' ⟨n, audience⟩ hmem
    obtain ⟨n', -, heq⟩ := List.mem_map.mp hmem
    have haudience : ∀ s ∈ audience, s.reaction = .nothing := by
      intro s hs
      cases heq
      exact hp s (List.mem_filter.mp hs).1
    have hrelease : p.project.Lasts (p'.releaseFor h n).project := by
      unfold releaseFor
      split <;> exact hp'
    refine List.foldlRecOn (motive := fun p' : Playback σ => p.project.Lasts p'.project) _ _
      hrelease ?_
    intro p₁ hp₁ s hs
    rw [haudience s hs]
    exact hp₁

theorem lasts_deliverAll (hp : p.project.Passive) : p.project.Lasts (p.deliverAll h).project :=
  lasts_deliver hp 3

/-- A tick of a project that had not closed, of which subscribers are told. -/
theorem lasts_tick (hp : p.project.Passive) (hopen : p.project.lifecycle ≠ .closed) :
    p.project.Lasts ((p.tick h).deliverAll h).project := by
  have htick : p.project.Lasts (p.tick h).project := .of_open hopen (subscriptions_tick h p)
  exact htick.trans (lasts_deliverAll (htick.passive hp))

/-! ### Operations -/

theorem lasts_play (h : Host σ) (target : Text) (p : Playback σ) :
    p.project.Lasts (p.play h target).2.project := by
  unfold play
  split
  · exact .refl _
  · exact .refl _
  · exact .refl _
  · rename_i hpaused
    exact .of_open (by rw [hpaused]; decide) rfl
  · rename_i hready
    split
    · exact .refl _
    · exact .of_open (by rw [hready]; decide) rfl

theorem lasts_pause (p : Playback σ) : p.project.Lasts p.pause.project := by
  unfold pause
  split
  · rename_i hplaying
    exact .of_open (by rw [hplaying]; decide) rfl
  · exact .refl _

theorem lasts_resume (p : Playback σ) : p.project.Lasts p.resume.project := by
  unfold resume
  split
  · rename_i hpaused
    exact .of_open (by rw [hpaused]; decide) rfl
  · exact .refl _

theorem lasts_step (hp : p.project.Passive) : p.project.Lasts (p.step h).2.project := by
  unfold step
  split
  · exact .refl _
  · rename_i hlive
    refine lasts_tick hp fun hclosed => hlive ?_
    rw [hclosed]
    rfl

theorem lasts_steps (hp : p.project.Passive) (settle : σ → σ) (count : Nat) :
    p.project.Lasts (p.steps h settle count).2.project := by
  induction count generalizing p with
  | zero => exact .refl _
  | succ count ih =>
    have hstep : p.project.Lasts (p.step h).2.project := lasts_step hp
    unfold steps
    split
    · rename_i heq
      rw [heq] at hstep
      exact hstep
    · rename_i p' heq
      rw [heq] at hstep
      exact hstep.trans (ih (p := { p' with host := settle p'.host }) (hstep.passive hp))

theorem lasts_callback (hp : p.project.Passive) (generation : Nat) :
    p.project.Lasts (p.callback h generation).2.project := by
  unfold callback
  split
  · rename_i hplaying
    exact lasts_tick hp (by rw [hplaying.2]; decide)
  · exact .refl _

theorem lasts_drive (hp : p.project.Passive) (settle : σ → σ) (budget : Nat) :
    p.project.Lasts (p.drive h settle budget).project := by
  induction budget generalizing p with
  | zero => exact .refl _
  | succ budget ih =>
    unfold drive
    split
    · have hcall : p.project.Lasts (p.compute h).2.project := lasts_callback hp _
      exact hcall.trans (ih (p := { (p.compute h).2 with host := settle (p.compute h).2.host })
        (hcall.passive hp))
    · exact .refl _

theorem lasts_close (hp : p.project.Passive) : p.project.Lasts (p.close h).project := by
  unfold close
  split
  · exact .refl _
  · rename_i hopen
    have hshut : p.project.Lasts p.shut.project := .of_open hopen rfl
    exact hshut.trans (lasts_deliverAll (hshut.passive hp))

/-- **A project that was told to close has closed.** -/
theorem closed_close (hp : p.project.Passive) : (p.close h).project.lifecycle = .closed := by
  unfold close
  split
  · assumption
  · exact (lasts_deliverAll (p := p.shut) hp).closed rfl

end Playback

end SchemePlayer
