import ChordSequencer.Proofs.Deeds

/-!
# What a stretch of a performance does to its output

As far as the output and the voices that sound are concerned, what a performance does between two
waits is a sequence of five kinds of changes (`Conductor.Change`): a note begins, a note ends, all
notes end, a channel changes its sound, or neither the output nor the voices are touched.

* `Conductor.beginSelector_changes`, `Conductor.resumeSelector_changes` : a selector, from its
  beginning or from a wait to the next wait.
* `Conductor.beginBlock_changes`, `Conductor.resumeBlock_changes` : the same for a block.
* `Conductor.Changes.frame_eq` : all of them leave the task, the tempo, the song and the clock
  alone.
* `Conductor.turn_moves`, `Conductor.stop_moves` and their relatives : what controls playback makes
  the same changes and otherwise touches neither the output nor the voices (`Conductor.Move`).
-/

namespace ChordSequencer

namespace Conductor

/-! ### Changes -/

/-- A change that a performance makes between two waits. -/
inductive Change : Conductor → Conductor → Prop
  /-- A note begins, or begins once more, with the channel and the velocity of an instrument. -/
  | begins {c : Conductor} (i : Instrument) (note : Int) : Change c (c.noteOnOf i note)
  /-- A note ends if it sounds. -/
  | ends {c : Conductor} (channel note : Int) : Change c (c.noteOff channel note)
  /-- All notes end. -/
  | silences {c : Conductor} : Change c c.release
  /-- The channel of the instrument takes its sound. -/
  | chooses {c : Conductor} {i : Instrument} (hi : c.instrument = some i) :
      Change c (c.send (.program i.channel i.timbre))
  /-- The output and the voices stay as they are. -/
  | quietly {c c' : Conductor} (frame : c'.frame = c.frame) (sent : c'.sent = c.sent)
      (sounding : c'.sounding = c.sounding) : Change c c'

/-- Changes one after another. -/
abbrev Changes : Conductor → Conductor → Prop := Relation.ReflTransGen Change

variable {c : Conductor}

theorem Changes.release {c c' : Conductor} (h : Changes c c') : Changes c c'.release :=
  h.tail .silences

theorem startVoice_changes (i : Instrument) (seconds : Float) (note : Int) (rest : List Int)
    (own : Option Instrument) : Changes c (c.startVoice i seconds note rest own).1 := by
  simp only [startVoice]
  split
  · exact .refl
  · exact .single (.begins i note)

theorem Deed.change {hold : Hold} {c c' : Conductor} (h : Deed hold c c') : Change c c' := by
  cases h with
  | begins => exact .begins ..
  | resumes => exact .begins ..
  | ends => exact .ends ..
  | silences => exact .silences
  | announces hi => exact .chooses hi
  | reworks | warns | counts | countsBlock => exact .quietly rfl rfl rfl

theorem Deeds.changes {hold : Hold} {c c' : Conductor} (h : Deeds hold c c') : Changes c c' :=
  Relation.ReflTransGen.mono (fun _ _ => Deed.change) _ _ h

theorem beginSelector_changes (selector : String) (base : Nat) :
    Changes c (c.beginSelector selector base).1 :=
  (beginSelector_does selector base : Does .step id c _).deeds.changes

theorem resumeSelector_changes (hold : Hold) : Changes c (c.resumeSelector hold).1 :=
  (resumeSelector_does hold).deeds.changes

theorem applyCommands_changes (base : Nat) (commands : List Command) :
    Changes c (applyCommands base c commands).1 :=
  (applyCommands_deeds base commands : Deeds .step c _).changes

theorem beginBlock_changes (b : Block) : Changes c (c.beginBlock b).1 :=
  (beginBlock_does b : Does .step BlockCursor.hold c _).deeds.changes

theorem resumeBlock_changes (cursor : BlockCursor) : Changes c (c.resumeBlock cursor).1 :=
  (resumeBlock_does cursor).deeds.changes

theorem resumePlayback_changes (place : Place) : Changes c (c.resumePlayback place).1 :=
  (resumePlayback_does place).deeds.changes

theorem Change.frame_eq {c c' : Conductor} (h : Change c c') : c'.frame = c.frame := by
  cases h with
  | begins i note =>
    obtain ⟨sent, sounding, h⟩ := c.noteOn_frame i.channel note i.velocity
    rw [noteOnOf, h]; rfl
  | ends channel note =>
    obtain ⟨sent, sounding, h⟩ := c.noteOff_frame channel note
    rw [h]; rfl
  | silences =>
    obtain ⟨sent, h⟩ := c.release_frame
    rw [h]; rfl
  | @chooses i _ =>
    obtain ⟨sent, h⟩ := c.send_frame (.program i.channel i.timbre)
    rw [h]; rfl
  | quietly frame => exact frame

theorem Changes.frame_eq {c c' : Conductor} (h : Changes c c') : c'.frame = c.frame := by
  induction h with
  | refl => rfl
  | tail _ hstep ih => exact hstep.frame_eq.trans ih

/-! ### Control -/

/-- A conductor that runs has a task. -/
def Manned (c : Conductor) : Prop := c.running = true → c.task.isSome = true

/-- What can happen to a conductor: a performance goes on, or playback is controlled, which touches
neither the output nor the voices and never leaves a running conductor without a task. -/
inductive Move : Conductor → Conductor → Prop
  /-- A performance makes a change. -/
  | change {c c' : Conductor} (h : Change c c') : Move c c'
  /-- The output and the voices stay as they are. -/
  | steer {c c' : Conductor} (audible : c'.audible = c.audible) (sent : c'.sent = c.sent)
      (sounding : c'.sounding = c.sounding) (manned : c.Manned → c'.Manned) : Move c c'

/-- Moves one after another. -/
abbrev Moves : Conductor → Conductor → Prop := Relation.ReflTransGen Move

theorem Changes.moves {c c' : Conductor} (h : Changes c c') : Moves c c' :=
  Relation.ReflTransGen.mono (fun _ _ => .change) _ _ h

theorem Moves.steer {c c' c'' : Conductor} (h : Moves c c') (audible : c''.audible = c'.audible)
    (sent : c''.sent = c'.sent) (sounding : c''.sounding = c'.sounding)
    (manned : c'.Manned → c''.Manned) : Moves c c'' :=
  h.tail (.steer audible sent sounding manned)

theorem manned_of_task (h : c.task.isSome = true) : c.Manned := fun _ => h

theorem manned_of_idle (h : c.running = false) : c.Manned := by
  intro hr
  rw [h] at hr
  cases hr

theorem Changes.task_eq {c c' : Conductor} (h : Changes c c') : c'.task = c.task :=
  congrArg Frame.task h.frame_eq

theorem Changes.running_eq {c c' : Conductor} (h : Changes c c') : c'.running = c.running :=
  congrArg Frame.running h.frame_eq

theorem Moves.audible_eq {c c' : Conductor} (h : Moves c c') : c'.audible = c.audible := by
  induction h with
  | refl => rfl
  | tail _ hstep ih =>
    cases hstep with
    | change hc => exact (congrArg Frame.audible hc.frame_eq).trans ih
    | steer ha => exact ha.trans ih

theorem Moves.manned {c c' : Conductor} (h : Moves c c') (hm : c.Manned) : c'.Manned := by
  induction h with
  | refl => exact hm
  | tail _ hstep ih =>
    cases hstep with
    | change hc =>
      -- a performance touches neither the task nor the note that it runs
      have kept := Changes.task_eq (.single hc)
      intro hr
      rw [Changes.running_eq (.single hc)] at hr
      rw [kept]
      exact ih hr
    | steer _ _ _ manned => exact manned ih

theorem settle_moves {r : Conductor × Outcome Place} (h : Moves c r.1) : Moves c (settle r) := by
  simp only [settle]
  split <;> exact h.steer rfl rfl rfl fun _ => manned_of_task rfl

theorem turn_moves (place : Place) : Moves c (c.turn place) :=
  settle_moves (resumePlayback_changes place).moves

theorem leave_moves (place : Place) : Moves c (c.leave place) := by
  cases place with
  | beginning => exact .refl
  | filler => exact Moves.steer .refl rfl rfl rfl fun _ => manned_of_idle rfl
  | inBlock =>
    exact (Changes.release .refl).moves.steer rfl rfl rfl fun _ => manned_of_idle rfl

theorem interrupt_moves : Moves c c.interrupt := by
  simp only [interrupt]
  split
  · exact (leave_moves _).steer rfl rfl rfl fun _ => manned_of_task rfl
  · exact (leave_moves _).steer rfl rfl rfl fun _ => manned_of_task rfl
  · exact .refl

theorem requestStop_moves : Moves c c.requestStop := Moves.steer .refl rfl rfl rfl id

theorem collect_moves : Moves c c.collect.1 := by
  have cleared : Moves c { c with task := none, running := false } :=
    Moves.steer .refl rfl rfl rfl fun _ => manned_of_idle rfl
  exact cleared.tail (.change .silences)

theorem stop_moves : Moves c c.stop.1 := by
  simp only [stop]
  split
  · exact .refl
  · exact (requestStop_moves.trans interrupt_moves).trans collect_moves

/-- The conductor with a task that begins with the first block. -/
def restart (c : Conductor) : Conductor :=
  { c with running := true, task := some (.ready .beginning) }

/-- Playback that can be started runs already, or begins with the first block. -/
theorem start_cases {c' : Conductor} (h : c.start = .ok c') : (c.running = true ∧ c' = c) ∨
    (c.running = false ∧ c.song.isSome = true ∧ c.instrument.isSome = true ∧
      c' = restart { c with stopRequested := false }) := by
  simp only [start] at h
  split at h
  · rename_i runs
    cases h
    exact .inl ⟨runs, rfl⟩
  · rename_i idle
    split at h
    · cases h
    · rename_i song
      split at h <;> cases h
      rename_i instrument
      exact .inr ⟨Bool.eq_false_iff.2 idle, by simpa [Option.isSome_iff_ne_none] using song,
        by simpa [Option.isSome_iff_ne_none] using instrument, rfl⟩

theorem start_moves {c' : Conductor} (h : c.start = .ok c') : Moves c c' := by
  obtain ⟨-, rfl⟩ | ⟨-, -, -, rfl⟩ := start_cases h
  · exact .refl
  · exact Moves.steer .refl rfl rfl rfl fun _ => manned_of_task rfl

theorem setSong_moves {song : Option Song} {c' : Conductor} (h : c.setSong song = .ok c') :
    Moves c c' := by
  simp only [setSong] at h
  split at h <;> cases h
  exact Moves.steer .refl rfl rfl rfl id

theorem setInstrument_moves {i : Instrument} {c' : Conductor} (h : c.setInstrument i = .ok c') :
    Moves c c' := by
  simp only [setInstrument] at h
  split at h <;> cases h
  exact Moves.steer .refl rfl rfl rfl id

theorem setTempo_moves {bpm : Float} {c' : Conductor} (h : c.setTempo bpm = .ok c') :
    Moves c c' := by
  simp only [setTempo, checkTempo] at h
  split at h <;> cases h
  exact Moves.steer .refl rfl rfl rfl id

end Conductor

end ChordSequencer
