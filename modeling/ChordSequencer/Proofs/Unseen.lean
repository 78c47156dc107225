import ChordSequencer.Proofs.Meaning
import ChordSequencer.Proofs.Reports

/-!
# Changes that a performance does not see

A performance reads the scales, the tempo, the instrument, the voices that sound and whether it was
asked to stop.  It sends triggers, counts selectors, exchanges the instrument and logs warnings.  A
change of a conductor is unseen if it leaves alone what is read and goes together with what is done
(`Conductor.Unseen`).  Then every function of a performance comes to the same wait or end before the
change and after it, and leaves conductors that differ by the change.

* `Conductor.Unseen.beginSelector`, `Conductor.Unseen.resumeBlock` : selectors and blocks.
* `Conductor.Unseen.resumePlayback` : playback, if the blocks of the song may change as well.
-/

namespace ChordSequencer

open Text

/-- The line does not warn about an unknown command. -/
def LogLine.other (line : LogLine) : Bool :=
  !"Ignoring unknown command type".toList.isPrefixOf line.text.toList

namespace LogLine

theorem unplayable_other (notes : List Int) :
    (warn s!"Skipping pitches outside the MIDI range: {bracketed (notes.map toString)}").other =
      true := by
  simp [other, warn, List.isPrefixOf, toString]

theorem unknownSelector_other (selector : String) : (unknownSelector selector).other = true := by
  simp [unknownSelector, other, warn, List.isPrefixOf, toString]

theorem refusedCommand_other (command : Command) (why : Refusal) :
    (warn s!"Ignoring command {command.render}: {why.message}").other = true := by
  simp [other, warn, List.isPrefixOf, toString]

theorem unknownCommand_other (command : Command) : (unknownCommand command).other = false := by
  simp [unknownCommand, other, warn, List.isPrefixOf, toString]

end LogLine

/-- What is left of a pass, with other blocks. -/
def Place.map (g : Block → Block) : Place → Place
  | beginning => .beginning
  | filler => .filler
  | inBlock left before cursor => .inBlock (left.map g) before cursor

@[simp] theorem Place.map_id : Place.map id = id := by
  funext place
  cases place <;> simp [Place.map]

@[simp] theorem Outcome.map_id {κ : Type} : Outcome.map (id : κ → κ) = id := by
  funext outcome
  cases outcome <;> rfl

namespace Conductor

/-- A change of a conductor that no performance sees. -/
structure Unseen (f : Conductor → Conductor) : Prop where
  /-- The scales stay. -/
  catalog (c : Conductor) : (f c).catalog = c.catalog
  /-- The tempo stays. -/
  bpm (c : Conductor) : (f c).bpm = c.bpm
  /-- The instrument stays. -/
  instrument (c : Conductor) : (f c).instrument = c.instrument
  /-- The voices stay. -/
  sounding (c : Conductor) : (f c).sounding = c.sounding
  /-- Playback was stopped or not. -/
  stopRequested (c : Conductor) : (f c).stopRequested = c.stopRequested
  /-- Triggers are sent. -/
  sends (c : Conductor) (t : Trigger) : (f c).send t = f (c.send t)
  /-- Selectors are counted. -/
  counts (c : Conductor) : (f c).counted = f c.counted
  /-- Voices begin and end. -/
  sounds (c : Conductor) (voices : List Voice) :
    { f c with sounding := voices } = f { c with sounding := voices }
  /-- Another instrument plays. -/
  plays (c : Conductor) (i : Option Instrument) :
    { f c with instrument := i } = f { c with instrument := i }
  /-- Pitches, selectors and commands are passed over. -/
  warns (c : Conductor) {text : String} (other : (LogLine.warn text).other = true) :
    (f c).warn text = f (c.warn text)

namespace Unseen

variable {f : Conductor → Conductor} (h : Unseen f) {c : Conductor}

include h

/-! ### Notes -/

theorem requireInstrument : (f c).requireInstrument = c.requireInstrument := by
  simp only [Conductor.requireInstrument, h.instrument]

theorem stepSeconds : (f c).stepSeconds = c.stepSeconds := by
  simp only [Conductor.stepSeconds, h.requireInstrument, h.bpm]

theorem noteOn (channel note velocity : Int) :
    (f c).noteOn channel note velocity = f (c.noteOn channel note velocity) := by
  simp only [Conductor.noteOn, h.sends, h.sounding]
  split
  · rfl
  · exact h.sounds ..

theorem noteOff (channel note : Int) :
    (f c).noteOff channel note = f (c.noteOff channel note) := by
  simp only [Conductor.noteOff, h.sends, h.sounding]
  split
  · exact h.sounds ..
  · rfl

theorem foldl_noteOnOf (i : Instrument) (notes : List Int) : ∀ c : Conductor,
    notes.foldl (noteOnOf · i) (f c) = f (notes.foldl (noteOnOf · i) c) := by
  induction notes with
  | nil => exact fun _ => rfl
  | cons note notes ih =>
    intro c
    rw [List.foldl_cons, List.foldl_cons, ← ih, noteOnOf, h.noteOn]
    rfl

theorem release : (f c).release = f c.release := by
  have sent (voices : List Voice) : ∀ c : Conductor,
      voices.foldl (fun c v => c.send v.off) (f c) =
        f (voices.foldl (fun c v => c.send v.off) c) := by
    induction voices with
    | nil => exact fun _ => rfl
    | cons v voices ih =>
      intro c
      rw [List.foldl_cons, List.foldl_cons, ← ih, h.sends]
  unfold Conductor.release
  rw [h.sounding, sent]
  exact h.sounds ..

/-! ### Selectors -/

theorem startVoice (i : Instrument) (seconds : Float) (note : Int) (rest : List Int)
    (own : Option Instrument) :
    (f c).startVoice i seconds note rest own =
      (c.startVoice i seconds note rest own).map f id := by
  simp only [Conductor.startVoice, noteOnOf, h.noteOn, h.stopRequested]
  split <;> rfl

theorem sound (i : Instrument) (step : Float) (notes : List Int) :
    (f c).sound i step notes = (c.sound i step notes).map f id := by
  simp only [Conductor.sound, h.foldl_noteOnOf]
  split
  · rfl
  · split
    · rfl
    · exact h.startVoice ..

theorem warnUnplayable (notes : List Int) :
    (f c).warnUnplayable notes = f (c.warnUnplayable notes) := by
  simp only [Conductor.warnUnplayable]
  split
  · rfl
  · exact h.warns c (LogLine.unplayable_other _)

theorem playDegree (i : Instrument) (step : Float) (degree : Int) :
    (f c).playDegree i step degree = (c.playDegree i step degree).map f id := by
  cases selected : { i with selectedNote := degree }.selectNotes c.catalog with
  | error why =>
    have same : { i with selectedNote := degree }.selectNotes (f c).catalog = .error why := by
      rw [h.catalog, selected]
    simp only [Conductor.playDegree, selected, same]
    exact Prod.ext (h.plays ..) rfl
  | ok r =>
    have same : { i with selectedNote := degree }.selectNotes (f c).catalog = .ok r := by
      rw [h.catalog, selected]
    simp only [Conductor.playDegree, selected, same]
    have chosen := h.plays c (some r.2)
    rw [chosen, h.warnUnplayable, h.sound]

/-- **A selector begins** alike. -/
theorem beginSelector (selector : String) (base : Nat) :
    (f c).beginSelector selector base = (c.beginSelector selector base).map f id := by
  cases length : c.stepSeconds with
  | error why =>
    have same : (f c).stepSeconds = .error why := h.stepSeconds.trans length
    simp only [Conductor.beginSelector, length, same, h.instrument]
    cases c.instrument <;> rfl
  | ok step =>
    have same : (f c).stepSeconds = .ok step := h.stepSeconds.trans length
    have released : (f c).counted.release = f c.counted.release := by rw [h.counts, h.release]
    obtain ⟨i, hi⟩ := stepSeconds_instrument length
    by_cases signs : selector = "=" ∨ selector = "." ∨ selector = "s"
    · rcases signs with hold | rest
      · rw [beginSelector_hold same hold, beginSelector_hold length hold, h.counts]
        rfl
      · rw [beginSelector_rest same rest, beginSelector_rest length rest, released]
        rfl
    · cases number : selectorDegree? selector base with
      | none =>
        rw [beginSelector_unknown same signs number, beginSelector_unknown length signs number,
          released, h.warns _ (LogLine.unknownSelector_other selector)]
        rfl
      | some degree =>
        rw [beginSelector_number same signs number ((h.instrument c).trans hi),
          beginSelector_number length signs number hi, released, h.playDegree]

theorem resumeSelector (hold : Hold) :
    (f c).resumeSelector hold = (c.resumeSelector hold).map f id := by
  cases hold with
  | step => rfl
  | voice note rest seconds own =>
    simp only [Conductor.resumeSelector, h.noteOff, h.instrument]
    split
    · rfl
    · split
      · rfl
      · exact h.startVoice ..

/-! ### Blocks -/

theorem enterSelector (base : Nat) (selector : String) (todo all : List String) (again : Nat) :
    (f c).enterSelector base selector todo all again =
      (c.enterSelector base selector todo all again).map f id := by
  simp only [Conductor.enterSelector, h.beginSelector, h.release, h.stopRequested]
  split
  · rfl
  · cases c.beginSelector selector base with
    | mk c' outcome => cases outcome <;> simp only [Prod.map_apply, id_eq, h.release]

theorem nextSelector (base : Nat) (todo all : List String) (again : Nat) :
    (f c).nextSelector base todo all again =
      (c.nextSelector base todo all again).map f id := by
  simp only [Conductor.nextSelector, h.enterSelector, h.release]
  split <;> rfl

/-- **A block goes on** alike. -/
theorem resumeBlock (cursor : BlockCursor) :
    (f c).resumeBlock cursor = (c.resumeBlock cursor).map f id := by
  simp only [Conductor.resumeBlock, h.resumeSelector]
  cases c.resumeSelector cursor.hold with
  | mk c' outcome =>
    cases outcome <;> simp only [Prod.map_apply, id_eq, h.release, h.nextSelector]

theorem applyCommand {command : Command} (unknown : Setting.ofCode? command.code = none →
      ∀ c : Conductor, (f c).warn (LogLine.unknownCommand command).text =
        f (c.warn (LogLine.unknownCommand command).text)) (base : Nat) :
    (f c).applyCommand command base =
      (c.applyCommand command base).map (Prod.map f id) := by
  have scales (i : Instrument) : Setting.applyCode (f c).catalog i command.value base command.code =
      Setting.applyCode c.catalog i command.value base command.code := by rw [h.catalog]
  simp only [Conductor.applyCommand, h.requireInstrument, scales]
  cases c.requireInstrument with
  | error why => rfl
  | ok i =>
    simp only [Except.bind]
    split
    · exact congrArg (fun c => Except.ok (c, true)) (h.plays ..)
    · rename_i missing
      obtain ⟨none, rfl⟩ := Setting.applyCode_unknown_iff.1 missing
      exact congrArg (fun c => Except.ok (c, false)) (unknown none c)
    · exact congrArg (fun c => Except.ok (c, false)) (h.warns c (LogLine.refusedCommand_other ..))
    · rfl

theorem applyCommands (warns : ∀ (c : Conductor) (text : String), (f c).warn text = f (c.warn text))
    (base : Nat) (commands : List Command) : ∀ c : Conductor,
    Conductor.applyCommands base (f c) commands =
      (Conductor.applyCommands base c commands).map f id := by
  induction commands with
  | nil => exact fun _ => rfl
  | cons command rest ih =>
    intro c
    rw [Conductor.applyCommands, Conductor.applyCommands,
      h.applyCommand fun _ c => warns c _]
    cases c.applyCommand command base with
    | error why => rfl
    | ok r => exact ih r.1

/-- **A block begins** alike if its commands are applied alike and blocks are counted alike. -/
theorem beginBlock (counts : ∀ c : Conductor,
      { f c with blocksPerformed := (f c).blocksPerformed + 1 } =
        f { c with blocksPerformed := c.blocksPerformed + 1 })
    {b b' : Block} (base : b'.base = b.base) (selectors : b'.selectors = b.selectors)
    (applied : ∀ c : Conductor, (∃ i, c.instrument = some i) →
      Conductor.applyCommands b.base (f c) b'.commands =
        (Conductor.applyCommands b.base c b.commands).map f id) :
    (f c).beginBlock b' = (c.beginBlock b).map f id := by
  simp only [Conductor.beginBlock, base, selectors]
  rw [h.instrument]
  cases c.instrument with
  | none => rfl
  | some i =>
    dsimp only
    rw [h.plays, applied _ ⟨_, rfl⟩]
    cases Conductor.applyCommands b.base { c with instrument := some { i with repeats := 1 } }
        b.commands with
    | mk c₁ failed =>
      cases failed with
      | some why => rfl
      | none =>
        dsimp only [Prod.map_apply, id_eq]
        rw [h.instrument]
        cases c₁.instrument with
        | none => rfl
        | some j =>
          dsimp only
          rw [h.sends, counts, h.nextSelector]

/-! ### Playback -/

variable {g : Block → Block}
  (begins : ∀ (c : Conductor) (b : Block), (f c).beginBlock (g b) = (c.beginBlock b).map f id)
  (song : ∀ c : Conductor, (f c).songBlocks = c.songBlocks.map g)
  (steps : ∀ c : Conductor, (f c).stepsPerformed = c.stepsPerformed)

include begins

theorem playBlocks (before : Nat) (blocks : List Block) : ∀ c : Conductor,
    playBlocks before (f c) (blocks.map g) =
      (Conductor.playBlocks before c blocks).map f (.map (.map g)) := by
  induction blocks with
  | nil => exact fun _ => rfl
  | cons b left ih =>
    intro c
    rw [List.map_cons, Conductor.playBlocks, Conductor.playBlocks, begins, h.stopRequested]
    split
    · rfl
    · cases c.beginBlock b with
      | mk c' outcome =>
        cases outcome with
        | waits seconds cursor => rfl
        | ended => exact ih c'
        | failed why => rfl

omit begins in
theorem fillStep : (f c).fillStep = c.fillStep.map f (.map (.map g)) := by
  simp only [Conductor.fillStep, h.stepSeconds]
  split <;> rfl

include song steps

theorem newPass : (f c).newPass = c.newPass.map f (.map (.map g)) := by
  simp only [Conductor.newPass, song, steps, h.stopRequested, h.playBlocks begins]
  split
  · rfl
  · cases Conductor.playBlocks c.stepsPerformed c c.songBlocks with
    | mk c' outcome =>
      cases outcome with
      | waits seconds next => rfl
      | failed why => rfl
      | ended =>
        dsimp only [Prod.map_apply, Outcome.map]
        rw [h.stopRequested, h.fillStep]
        split <;> rfl

theorem endPass (before : Nat) :
    (f c).endPass before = (c.endPass before).map f (.map (.map g)) := by
  simp only [Conductor.endPass, steps, h.stopRequested, h.fillStep (g := g),
    h.newPass begins song steps]
  split
  · rfl
  · split <;> rfl

/-- **Playback goes on** alike. -/
theorem resumePlayback (place : Place) :
    (f c).resumePlayback (place.map g) =
      (c.resumePlayback place).map f (.map (.map g)) := by
  cases place with
  | beginning => exact h.newPass begins song steps
  | filler => exact h.newPass begins song steps
  | inBlock left before cursor =>
    simp only [Conductor.resumePlayback, Place.map, h.resumeBlock]
    cases c.resumeBlock cursor with
    | mk c₁ outcome =>
      cases outcome with
      | waits seconds cursor => rfl
      | failed why => rfl
      | ended =>
        dsimp only [Prod.map_apply, id_eq]
        rw [h.playBlocks begins]
        cases Conductor.playBlocks before c₁ left with
        | mk c₂ outcome =>
          cases outcome with
          | waits seconds next => rfl
          | failed why => rfl
          | ended => exact h.endPass begins song steps before

end Unseen

end Conductor

end ChordSequencer
