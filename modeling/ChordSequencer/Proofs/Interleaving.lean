import ChordSequencer.Conductor.Scene
import ChordSequencer.Proofs.Stretch

/-!
# Interleavings

Whatever happens next in a scene is a sequence of moves of its conductor (`Scene.step_moves`), and
so is every operation under the virtual clock (`Operation.perform_moves`): an invariant that the
moves keep holds at every wait and between all operations, in whatever order the waits end.
-/

namespace ChordSequencer

open Conductor

namespace Scene

variable {s : Scene}

/-! ### Actions are moves -/

theorem attempting_moves {r : Except Failure Conductor}
    (h : ∀ c, r = .ok c → Moves s.conductor c) : Moves s.conductor (s.attempting r).conductor := by
  simp only [attempting, returning, Operation.attempt]
  cases r with
  | ok c => exact h c rfl
  | error why => exact .refl

theorem halt_moves : Moves s.conductor s.halt.conductor := by
  simp only [halt]
  split
  · exact requestStop_moves
  · exact .refl

theorem beginPlay_moves (limited : Bool) : Moves s.conductor (s.beginPlay limited).conductor := by
  simp only [beginPlay]
  split
  · rename_i h
    exact start_moves h
  · exact .refl

theorem exchange_moves (i : Instrument) : Moves s.conductor (s.exchange i).conductor := by
  simp only [exchange]
  split
  · rename_i h
    exact setInstrument_moves h
  · exact .refl

theorem operate_moves (o : Operation) : Moves s.conductor (s.operate o).conductor := by
  cases o with
  | setSong song => exact attempting_moves fun _ => setSong_moves
  | setInstrument i => exact exchange_moves i
  | setTempo bpm => exact attempting_moves fun _ => setTempo_moves
  | start => exact attempting_moves fun _ => start_moves
  | stop => exact halt_moves
  | play seconds => exact beginPlay_moves _
  | playCancelled seconds after => exact beginPlay_moves _
  | sleep | performBlock | performSelector => exact .refl

theorem follow_moves {κ : Type} {f : κ → Call} {r : Conductor × Outcome κ} {others : List Call}
    (h : Changes s.conductor r.1) :
    Moves s.conductor (s.follow (r.map id (.map f)) others).conductor := by
  obtain ⟨c, outcome⟩ := r
  cases outcome <;> exact h.moves

theorem proceed_moves (c : Conductor) : Moves c (proceed c) := by
  simp only [proceed]
  split
  · exact turn_moves _
  · exact turn_moves _
  · exact .refl

theorem call_resume_moves (call : Call) (others : List Call) :
    Moves s.conductor (s.follow (call.resume s.conductor) others).conductor := by
  cases call with
  | selector hold => exact follow_moves (resumeSelector_changes hold)
  | block cursor => exact follow_moves (resumeBlock_changes cursor)

theorem call_drop_moves (c : Conductor) (call : Call) : Moves c (call.drop c) := by
  cases call with
  | selector hold => exact .refl
  | block cursor => exact .single (.change .silences)

/-- **Every action is a sequence of moves.** -/
theorem step_moves (s : Scene) (a : Action) : Moves s.conductor (s.step a).conductor := by
  cases a with
  | begin o =>
    cases o with
    | performBlock b => exact follow_moves (beginBlock_changes b)
    | performSelector selector base => exact follow_moves (beginSelector_changes selector base)
    | _ =>
      simp only [step]
      split
      · exact operate_moves _
      · exact .refl
  | expire =>
    simp only [step]
    split
    · exact halt_moves
    · exact .refl
  | cancel =>
    simp only [step]
    split
    · exact halt_moves
    · exact .refl
    · exact .refl
  | finish =>
    simp only [step]
    split
    · exact .refl
    · split
      · exact .refl
      · exact collect_moves
      · exact halt_moves
  | turn =>
    simp only [step]
    split
    · exact .refl
    · exact proceed_moves _
  | interrupt =>
    simp only [step]
    split
    · exact interrupt_moves
    · exact .refl
  | resume index =>
    simp only [step]
    split
    · exact call_resume_moves _ _
    · exact .refl
  | drop index =>
    simp only [step]
    split
    · exact call_drop_moves _ _
    · exact .refl
  | pass time => exact Moves.steer .refl rfl rfl rfl id

theorem run_moves (actions : List Action) :
    ∀ s : Scene, Moves s.conductor (s.run actions).conductor := by
  induction actions with
  | nil => exact fun _ => .refl
  | cons a actions ih => exact fun s => (step_moves s a).trans (ih _)

end Scene

/-! ### Operations under the virtual clock are moves -/

namespace Conductor

theorem advance_moves (limit : Option Float) :
    ∀ (n : Nat) (c : Conductor), Moves c (advance n c limit) := by
  intro n
  induction n with
  | zero => exact fun _ => .refl
  | succ n ih =>
    intro c
    simp only [advance]
    split
    · exact (turn_moves _).trans (ih _)
    · rename_i wakes place _
      split
      · have woken : Moves c { c with clock := wakes } := Moves.steer .refl rfl rfl rfl id
        exact (woken.trans (turn_moves _)).trans (ih _)
      · exact .refl
    · exact .refl
    · exact .refl

variable (turns : Nat) (c : Conductor)

theorem yield_moves : Moves c c.yield := by
  simp only [yield]
  split
  · exact turn_moves _
  · exact .refl

theorem waitUntil_moves (time : Float) : Moves c (c.waitUntil turns time) :=
  (advance_moves _ _ _).steer rfl rfl rfl id

theorem wait_moves (seconds : Float) : Moves c (c.wait turns seconds) := by
  simp only [wait]
  split
  · exact yield_moves c
  · exact waitUntil_moves ..

theorem finish_moves {κ : Type} {resume : Conductor → κ → Conductor × Outcome κ}
    (hr : ∀ c next, Changes c (resume c next).1) :
    ∀ (n : Nat) (r : Conductor × Outcome κ), Moves r.1 (finish turns resume n r).1 := by
  intro n
  induction n with
  | zero =>
    rintro ⟨c, outcome⟩
    cases outcome <;> exact .refl
  | succ n ih =>
    rintro ⟨c, outcome⟩
    cases outcome with
    | waits seconds next =>
      -- the playback task goes on during the wait
      exact ((wait_moves turns c seconds).trans (hr _ _).moves).trans (ih _)
    | ended => exact .refl
    | failed why => exact .refl

theorem performSelector_moves (selector : String) (base : Nat) :
    Moves c (c.performSelector turns selector base).1 :=
  (beginSelector_changes selector base).moves.trans
    (finish_moves turns (fun _ _ => resumeSelector_changes _) _ _)

theorem performBlock_moves (b : Block) : Moves c (c.performBlock turns b).1 :=
  (beginBlock_changes b).moves.trans
    (finish_moves turns (fun _ _ => resumeBlock_changes _) _ _)

theorem stopAt_moves (time : Float) : Moves c (playOut.stopAt turns c time) := by
  simp only [playOut.stopAt]
  split
  · exact (advance_moves _ _ _).steer rfl rfl rfl id
  · exact advance_moves _ _ _

theorem playOut_moves (seconds cut : Option Float) : Moves c (c.playOut turns seconds cut).1 := by
  unfold playOut
  split
  · exact (advance_moves _ _ _).trans stop_moves
  · exact (stopAt_moves ..).trans stop_moves
  · split
    · exact (yield_moves c).trans stop_moves
    · dsimp only
      split
      · exact (stopAt_moves ..).trans stop_moves
      · exact (stopAt_moves ..).trans stop_moves

theorem play_moves (seconds : Option Float) : Moves c (c.play turns seconds).1 := by
  simp only [play]
  split
  · exact .refl
  · rename_i h
    exact (start_moves h).trans (playOut_moves ..)

theorem playCancelled_moves (seconds : Option Float) (after : Float) :
    Moves c (c.playCancelled turns seconds after).1 := by
  have yielded := yield_moves c
  simp only [playCancelled]
  split
  · split
    · exact yielded
    · rename_i started
      exact (yielded.trans (start_moves started)).trans stop_moves
    · rename_i started
      exact ((yielded.trans (start_moves started)).trans (yield_moves _)).trans stop_moves
  · split
    · exact yielded.trans (waitUntil_moves ..)
    · rename_i started
      have begun := yielded.trans (start_moves started)
      exact Moves.steer (begun.trans (playOut_moves ..)) rfl rfl rfl id

end Conductor

namespace Operation

theorem attempt_moves {c : Conductor} {r : Except Failure Conductor}
    (h : ∀ c', r = .ok c' → Moves c c') : Moves c (attempt c r).1 := by
  cases r with
  | ok c' => exact h c' rfl
  | error why => exact .refl

/-- **Every operation under the virtual clock is a sequence of moves.** -/
theorem perform_moves (turns : Nat) (c : Conductor) (o : Operation) :
    Moves c (o.perform turns c).1 := by
  cases o with
  | setSong song => exact attempt_moves fun _ => setSong_moves
  | setInstrument i => exact attempt_moves fun _ => setInstrument_moves
  | setTempo bpm => exact attempt_moves fun _ => setTempo_moves
  | start => exact attempt_moves fun _ => start_moves
  | stop => exact stop_moves
  | sleep seconds => exact wait_moves turns c seconds
  | play seconds => exact play_moves turns c seconds
  | playCancelled seconds after => exact playCancelled_moves turns c seconds after
  | performBlock b => exact performBlock_moves turns c b
  | performSelector selector base => exact performSelector_moves turns c selector base

theorem performAll_moves (turns : Nat) (operations : List Operation) :
    ∀ c : Conductor, Moves c (performAll turns c operations) := by
  induction operations with
  | nil => exact fun _ => .refl
  | cons o operations ih => exact fun c => (perform_moves turns c o).trans (ih _)

end Operation

end ChordSequencer
