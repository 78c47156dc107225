import ChordSequencer.Scale.Basic

/-!
# Wheels

A wheel is a ring of positions of which some are flagged, and chords are walked around it from one
flagged position to another. Positions are never folded back: a walk counts on past the end of the
wheel or below zero, and only the look-up of a flag folds a position, by its distance from zero.
-/

namespace ChordSequencer

/-- A chord on a wheel. -/
structure WheelChord where
  /-- The position of the root. -/
  root : Int
  /-- The number of voices. -/
  voices : Int
  /-- The octave of the chord. -/
  octave : Int
  deriving DecidableEq, Repr

/-- A ring of positions, at least one of them flagged, and the chord built on it. -/
structure Wheel where
  /-- Which positions are flagged. -/
  flags : List Bool
  /-- Some position is flagged. -/
  hasFlag : true ∈ flags
  /-- A label. -/
  name : String
  /-- The octave that the wheel is drawn in. -/
  octave : Int
  /-- The label of the key that the wheel begins with. -/
  startNote : Int
  /-- The chord. -/
  chord : WheelChord
  deriving DecidableEq, Repr

namespace Wheel

/-- A wheel with a chord of no voices. -/
def ofFlags (flags : List Int) (name : String) (octave startNote : Int) :
    Except Refusal Wheel :=
  if flags = [] then .error .emptyScheme
  else if flags.all (fun f => f == 0 || f == 1) = false then .error .schemeFlag
  else if h : true ∈ flags.map (· == 1) then
    .ok ⟨flags.map (· == 1), h, name, octave, startNote, ⟨0, 0, 0⟩⟩
  else .error .schemeUnflagged

/-- The wheel of a text of flags. -/
def ofText (flags : String) (name : String) : Except Refusal Wheel :=
  if flags = "" ∨ flags.toList.all (fun c => c == '0' || c == '1') = false then
    .error (.schemeText flags)
  else ofFlags (flags.toList.map fun c => if c = '1' then 1 else 0) name 0 0

/-- The wheel of twelve positions on which the semitones of a scale are flagged. -/
def ofScale (scale : Scale) (name : String) : Except Refusal Wheel :=
  ofFlags
    ((List.range 12).map fun (i : Nat) =>
      if (i : Int) ∈ scale.offsets.map (· % semitones) then 1 else 0)
    name 0 0

variable (w : Wheel)

/-- The number of positions. -/
def size : Nat := w.flags.length

/-- The number of flagged positions. -/
def tones : Nat := w.flags.count true

/-- The position is flagged. -/
def flagged (position : Int) : Bool := w.flags.getD (position.natAbs % w.size) false

/-- The first flagged position at or above a position, looked for in so many places. -/
def seekUp : Nat → Int → Int
  | 0, position => position
  | n + 1, position => if w.flagged position then position else seekUp n (position + 1)

/-- The first flagged position at or below a position, looked for in so many places. -/
def seekDown : Nat → Int → Int
  | 0, position => position
  | n + 1, position => if w.flagged position then position else seekDown n (position - 1)

/-- The next flagged position above. Of two turns one lies on one side of zero, so it is in
reach. -/
def next (position : Int) : Int := w.seekUp (2 * w.size) (position + 1)

/-- The next flagged position below. -/
def prev (position : Int) : Int := w.seekDown (2 * w.size) (position - 1)

/-- Two flagged positions up: a third. -/
def nextThird (position : Int) : Int := w.next (w.next position)

/-- Two flagged positions down. -/
def prevThird (position : Int) : Int := w.prev (w.prev position)

/-- Puts the root on a position. -/
def withRoot (root : Int) : Wheel := { w with chord := { w.chord with root } }

/-- Gives the chord a number of voices. -/
def withVoices (voices : Int) : Wheel := { w with chord := { w.chord with voices } }

/-- Puts the root on a tone, counted from 1. Position 0 counts as the first tone even where it is
not flagged. -/
def startAt (tone : Int) : Wheel := w.withRoot (Nat.repeat w.next (tone - 1).toNat 0)

/-- Moves the root to the next flagged position. -/
def rootUp : Wheel := w.withRoot (w.next w.chord.root)

/-- Moves the root to the flagged position below. -/
def rootDown : Wheel := w.withRoot (w.prev w.chord.root)

/-- A number of positions in thirds, from the given one upwards. -/
def climb : Nat → Int → List Int
  | 0, _ => []
  | n + 1, position => position :: climb n (w.nextThird position)

/-- The positions of the chord, root first. -/
def chordNotes : List Int := w.climb w.chord.voices.toNat w.chord.root

/-- Gives the chord a number of voices, at least none and at most one for each tone. -/
def setVoices (voices : Int) : Wheel := w.withVoices (max 0 (min voices w.tones))

/-- Adds a voice if there is a tone for it. -/
def addVoice : Wheel := if w.chord.voices < w.tones then w.withVoices (w.chord.voices + 1) else w

/-- Removes a voice if there is one. -/
def removeVoice : Wheel := if 0 < w.chord.voices then w.withVoices (w.chord.voices - 1) else w

end Wheel

end ChordSequencer
