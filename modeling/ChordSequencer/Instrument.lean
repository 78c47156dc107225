import ChordSequencer.NoteValue
import ChordSequencer.PlayMode
import ChordSequencer.Scale.Catalog
import ChordSequencer.Wheel

/-!
# Instruments

An instrument is the state of one voice of a performance, and `Instrument.play` turns it into
pitches. The chord on the selected degree is stacked over a scale of the catalog, or walked around
the instrument's wheel when it has one. It is then raised by the octave, and its lowest voices by
one octave more for the inversion.
-/

namespace ChordSequencer

/-- The state of one voice. -/
structure Instrument where
  /-- The MIDI channel. -/
  channel : Int
  /-- The number of the scale in the catalog. -/
  scaleId : Int
  /-- The key. -/
  tonality : Int
  /-- The MIDI program. -/
  timbre : Int
  /-- The octave that is added to every pitch. -/
  octave : Int
  /-- The degree that is played, counted from 0. -/
  selectedNote : Int
  /-- The number of tones above the root. -/
  density : Int
  /-- The number of voices that are raised by an octave. -/
  inversion : Int
  /-- The MIDI velocity. -/
  velocity : Int
  /-- How the voices are played. -/
  playMode : PlayMode
  /-- The note value of a step. -/
  duration : String
  /-- How often a block is played. -/
  repeats : Int
  /-- The wheel that replaces the scale. -/
  wheel : Option Wheel
  /-- The pitches last selected. -/
  notes : List Int
  deriving DecidableEq, Repr

namespace Instrument

/-- The instrument to begin with. -/
def initial : Instrument where
  channel := 0
  scaleId := 0
  tonality := 0
  timbre := 0
  octave := 5
  selectedNote := 0
  density := 0
  inversion := 0
  velocity := 100
  playMode := .chord
  duration := NoteValue.quarter
  repeats := 1
  wheel := none
  notes := []

/-- Raises all pitches by a number of octaves. -/
def raise (octave : Int) (notes : List Int) : List Int := notes.map (· + octave * semitones)

/-- Raises the first voices, as many as the inversion says, by an octave. -/
def invert (inversion : Int) (notes : List Int) : List Int :=
  notes.mapIdx fun n note => if (n : Int) < inversion then note + semitones else note

variable (i : Instrument) (c : Catalog)

/-- The scale of the instrument. -/
def scale : Except Refusal Scale := c.byId i.scaleId

/-- The wheel with the chord that the instrument selects. -/
def turn (w : Wheel) : Wheel := (w.startAt (i.selectedNote + 1)).setVoices (i.density + 1)

/-- The chord of the instrument before it is raised. -/
def chord : Except Refusal (List Int) :=
  match i.wheel with
  | some w => .ok ((i.turn w).chordNotes.map (· + i.tonality))
  | none => (i.scale c).map fun s => s.chord i.selectedNote i.density i.tonality

/-- The pitches that the instrument plays. -/
def pitches : Except Refusal (List Int) :=
  (i.chord c).map fun notes => invert i.inversion (raise i.octave notes)

/-- The instrument after playing: the chord of its wheel is the one played. -/
def played : Instrument := { i with wheel := i.wheel.map i.turn }

/-- The pitches that the instrument plays, and the instrument after playing them. -/
def play : Except Refusal (List Int × Instrument) :=
  (i.pitches c).map fun notes => (notes, i.played)

/-- Plays and keeps the pitches. -/
def selectNotes : Except Refusal (List Int × Instrument) :=
  (i.play c).map fun (notes, j) => (notes, { j with notes })

/-- Chooses the scale of a number, counted around the catalog. -/
def selectScale (id : Int) : Instrument := { i with scaleId := id % c.size }

/-- Chooses the next scale of the catalog, after the last one the first. -/
def nextScale : Instrument := i.selectScale c (i.scaleId + 1)

/-- Chooses the scale before, before the first one the last. -/
def prevScale : Instrument := i.selectScale c (i.scaleId - 1)

end Instrument

end ChordSequencer
