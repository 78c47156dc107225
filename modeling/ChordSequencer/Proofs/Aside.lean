import ChordSequencer.Proofs.Places
import ChordSequencer.Proofs.Unseen

/-!
# What a performance does not look at

Who performs makes no difference: the playback task, and whether it runs, stand aside while anything
is performed (`Conductor.withTask`).  While a block is under way, so does the number of blocks that
were performed (`Conductor.aside`), which is why nothing but the beginning of a block counts one
(`Conductor.resumeBlock_blocks`, `Conductor.beginBlock_blocks`).

* `Conductor.aside_unseen`, `Conductor.withTask_unseen` : what is not seen.
* `Conductor.resumePlayback_withTask` : playback from one wait to the next.
-/

namespace ChordSequencer

namespace Conductor

/-- What stands aside while a block is under way. -/
structure Aside where
  /-- Playback was started and has not come to its end. -/
  running : Bool
  /-- The playback task. -/
  task : Option Task
  /-- The number of blocks performed. -/
  blocks : Nat

variable (c : Conductor)

/-- The conductor with something else standing aside. -/
def aside (a : Aside) : Conductor :=
  { c with running := a.running, task := a.task, blocksPerformed := a.blocks }

/-- The conductor with another playback task. -/
def withTask (running : Bool) (task : Option Task) : Conductor := { c with running, task }

variable {c c' : Conductor} (a : Aside)

theorem aside_unseen : Unseen (aside · a) where
  catalog _ := rfl
  bpm _ := rfl
  instrument _ := rfl
  sounding _ := rfl
  stopRequested _ := rfl
  sends c t := by cases audible : c.audible <;> simp [send, aside, audible]
  counts _ := rfl
  sounds _ _ := rfl
  plays _ _ := rfl
  warns _ _ _ := rfl

/-! ### The number of blocks -/

theorem aside_self (c : Conductor) : c.aside ⟨c.running, c.task, c.blocksPerformed⟩ = c := rfl

theorem nextSelector_blocks (base : Nat) (todo all : List String) (again : Nat) :
    (c.nextSelector base todo all again).1.blocksPerformed = c.blocksPerformed := by
  have same :=
    (aside_unseen ⟨c.running, c.task, c.blocksPerformed⟩).nextSelector (c := c) base todo all again
  rw [aside_self] at same
  rw [same]
  rfl

theorem resumeBlock_blocks (cursor : BlockCursor) :
    (c.resumeBlock cursor).1.blocksPerformed = c.blocksPerformed := by
  have same :=
    (aside_unseen ⟨c.running, c.task, c.blocksPerformed⟩).resumeBlock (c := c) cursor
  rw [aside_self] at same
  rw [same]
  rfl

theorem beginBlock_blocks {b : Block} (begun : ∀ why, (c.beginBlock b).2 ≠ .failed why) :
    (c.beginBlock b).1.blocksPerformed = c.blocksPerformed + 1 := by
  rcases beginBlock_prepared (c := c) b with ⟨why, failed⟩ | ⟨c₁, j, prepared⟩
  · exact absurd failed (begun why)
  · obtain ⟨sent, announced⟩ := prepared.announced
    rw [prepared.beginBlock, nextSelector_blocks, announced]

/-! ### The playback task -/

variable (running : Bool) (task : Option Task)

theorem withTask_unseen : Unseen (withTask · running task) where
  catalog _ := rfl
  bpm _ := rfl
  instrument _ := rfl
  sounding _ := rfl
  stopRequested _ := rfl
  sends c t := by cases audible : c.audible <;> simp [send, withTask, audible]
  counts _ := rfl
  sounds _ _ := rfl
  plays _ _ := rfl
  warns _ _ _ := rfl

/-- **A block begins** alike whoever performs it. -/
theorem beginBlock_withTask (c : Conductor) (b : Block) :
    (c.withTask running task).beginBlock b = (c.beginBlock b).map (withTask · running task) id :=
  (withTask_unseen running task).beginBlock (fun _ => rfl) rfl rfl fun c _ =>
    (withTask_unseen running task).applyCommands (fun _ _ => rfl) b.base b.commands c

/-- **Playback goes on** alike whatever is noted of its task. -/
theorem resumePlayback_withTask (place : Place) :
    (c.withTask running task).resumePlayback place =
      ((c.resumePlayback place).1.withTask running task, (c.resumePlayback place).2) := by
  have alike := (withTask_unseen running task).resumePlayback (g := id) (c := c)
    (beginBlock_withTask running task) (fun c => (List.map_id c.songBlocks).symm) (fun _ => rfl)
    place
  rw [Place.map_id, Outcome.map_id] at alike
  exact alike

end Conductor

end ChordSequencer
