import ChordSequencer.Conductor.Basic

/-!
# Performing selectors and blocks

A selector picks the degree that the instrument plays for one step. A number picks the degree before
it, so `1` is the tonic; `.` and `s` are rests, `=` keeps the notes that sound, and anything else is
reported and played as a rest. A block applies its commands and plays its selectors as often as the
instrument repeats.

Each function goes on to the next wait, if there is one.
-/

namespace ChordSequencer

open Text

/-- The degree that a selector picks, counted from 0. -/
def selectorDegree? (selector : String) (base : Nat) : Option Int :=
  (Numeral.read? base selector.toList).map (· - 1)

/-- The pitches of MIDI. -/
def isPlayable (note : Int) : Bool := 0 ≤ note && note ≤ 127

namespace Conductor

variable (c : Conductor)

/-- Warns about the pitches that cannot be played. -/
def warnUnplayable (notes : List Int) : Conductor :=
  match notes.filter (!isPlayable ·) with
  | [] => c
  | skipped =>
    c.warn s!"Skipping pitches outside the MIDI range: {bracketed (skipped.map toString)}"

/-- Begins a note with the channel and the velocity of the instrument. -/
def noteOnOf (i : Instrument) (note : Int) : Conductor := c.noteOn i.channel note i.velocity

/-- Begins a note of an arpeggio, unless playback was stopped. -/
def startVoice (i : Instrument) (seconds : Float) (note : Int) (rest : List Int)
    (own : Option Instrument) : Conductor × Outcome Hold :=
  if c.stopRequested then (c, .ended)
  else (c.noteOnOf i note, .waits seconds (.voice note rest seconds own))

/-- Plays the pitches that an instrument has selected, all at once or as an arpeggio. -/
def sound (i : Instrument) (step : Float) (notes : List Int) : Conductor × Outcome Hold :=
  if i.playMode = .chord then (notes.foldl (noteOnOf · i) c, .waits step .step)
  else match i.playMode.arpeggio notes with
    | [] => (c, .waits step .step)
    | note :: rest => c.startVoice i (step / (Number.nearest (rest.length + 1) 1)) note rest none

/-- Selects a degree and plays it. -/
def playDegree (i : Instrument) (step : Float) (degree : Int) : Conductor × Outcome Hold :=
  match { i with selectedNote := degree }.selectNotes c.catalog with
  | .error why =>
    ({ c with instrument := some { i with selectedNote := degree } }, .failed (.refused why))
  | .ok (notes, j) =>
    (({ c with instrument := some j }.warnUnplayable notes).sound j step
      (notes.filter isPlayable))

/-- Begins a selector. -/
def beginSelector (selector : String) (base : Nat) : Conductor × Outcome Hold :=
  match c.instrument, c.stepSeconds with
  | none, _ => (c, .failed .noInstrument)
  | some _, .error why => (c, .failed why)
  | some i, .ok step =>
    let c := { c with stepsPerformed := c.stepsPerformed + 1 }
    if selector = "=" then (c, .waits step .step)
    else
      let c := c.release
      if selector = "." ∨ selector = "s" then (c, .waits step .step)
      else match selectorDegree? selector base with
        | none => (c.warn s!"Playing unknown selector '{selector}' as a rest", .waits step .step)
        | some degree => c.playDegree i step degree

/-- Goes on with a selector after a wait. -/
def resumeSelector (hold : Hold) : Conductor × Outcome Hold :=
  match hold with
  | .step => (c, .ended)
  | .voice note rest seconds own =>
    match own.or c.instrument with
    | none => (c, .ended)
    | some i =>
      let c := c.noteOff i.channel note
      match rest with
      | [] => (c, .ended)
      | next :: rest => c.startVoice i seconds next rest own

/-- Begins a selector of a block, unless playback was stopped. A selector that ends without a wait
was stopped, and so is the block. -/
def enterSelector (base : Nat) (selector : String) (todo all : List String) (again : Nat) :
    Conductor × Outcome BlockCursor :=
  if c.stopRequested then (c.release, .ended)
  else match c.beginSelector selector base with
    | (c, .waits seconds hold) => (c, .waits seconds ⟨base, todo, all, again, hold⟩)
    | (c, .ended) => (c.release, .ended)
    | (c, .failed why) => (c.release, .failed why)

/-- Goes on to the next selector of a block, or to its next repetition. At the end of the block all
notes end. -/
def nextSelector (base : Nat) (todo all : List String) (again : Nat) :
    Conductor × Outcome BlockCursor :=
  match todo, again, all with
  | selector :: rest, _, _ => c.enterSelector base selector rest all again
  | [], n + 1, selector :: rest => c.enterSelector base selector rest all n
  | [], _, _ => (c.release, .ended)

/-- Begins a block: its commands are applied to the instrument, its sound is chosen, and the first
selector begins. -/
def beginBlock (b : Block) : Conductor × Outcome BlockCursor :=
  match c.instrument with
  | none => (c, .failed .noInstrument)
  | some i =>
    match applyCommands b.base { c with instrument := some { i with repeats := 1 } } b.commands with
    | (c, some why) => (c, .failed why)
    | (c, none) =>
      match c.instrument with
      | none => (c, .failed .noInstrument)
      | some i =>
        let c := c.send (.program i.channel i.timbre)
        { c with blocksPerformed := c.blocksPerformed + 1 }.nextSelector b.base [] b.selectors
          i.repeats.toNat

/-- Goes on with a block after a wait. -/
def resumeBlock (cursor : BlockCursor) : Conductor × Outcome BlockCursor :=
  match c.resumeSelector cursor.hold with
  | (c, .waits seconds hold) => (c, .waits seconds { cursor with hold })
  | (c, .ended) => c.nextSelector cursor.base cursor.todo cursor.all cursor.again
  | (c, .failed why) => (c.release, .failed why)

end Conductor

end ChordSequencer
