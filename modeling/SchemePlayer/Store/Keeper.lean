import SchemePlayer.Project.Playback
import SchemePlayer.Store.Basic

/-!
# Keeping snapshots of projects

A project that is kept leaves its snapshot in a store when it closes, by whatever cause.

- `Kept.start`: subscribes to the closing of a project.
- `Kept.change`: lets something happen to the project, and saves when it has closed.
-/

namespace SchemePlayer

/-- A project that is played, and the subscription that its snapshot is kept by. -/
structure Kept (σ : Type) where
  /-- the name that snapshots are kept by -/
  name : Text
  play : Playback σ
  subscription : Option Nat := none

namespace Kept

variable {σ : Type}

/-- Whether a subscription was told of something. -/
def isTold (subscription : Nat) (acts : List Act) : Bool :=
  acts.any fun a =>
    match a with
    | .notify id _ _ => id == subscription
    | _ => false

/-- Subscribes to the closing of a project. -/
def start (name : Text) (p : Playback σ) : Kept σ :=
  let (id, project) := p.project.subscribe Event.closed.name .nothing
  { name, play := { p with project }, subscription := some id }

/-- Ends the subscription. -/
def cancel (k : Kept σ) : Kept σ :=
  match k.subscription with
  | some id => { k with play := k.play.update (·.unsubscribe id), subscription := none }
  | none => k

/-- Lets something happen to a project. If the project closes, its snapshot goes into the
store; a store that refuses it is passed over. -/
def change {α : Type} (k : Kept σ) (store : SnapshotStore) (f : Playback σ → α × Playback σ) :
    α × Kept σ × SnapshotStore :=
  let (a, play) := f { k.play with acts := [] }
  let store :=
    if k.subscription.any fun id => isTold id play.acts then
      (store.save k.name (some play.project.snapshot)).toOption.getD store
    else store
  (a, { k with play }, store)

end Kept

end SchemePlayer
