import ChordSequencer.Number.Double
import ChordSequencer.Refusal
import ChordSequencer.Text.Blank
import ChordSequencer.Text.Digit

/-!
# Note values

A note value is a number with a unit: `8n` is an eighth note, `8t` one of a triplet of eighths, `2m`
two measures. Lengths are in beats, of which a quarter note has one.
-/

namespace ChordSequencer

open Text

/-- What the number of a note value counts. -/
inductive NoteUnit
  /-- How many of the notes fill a measure. -/
  | note
  /-- The same, for notes of which three take the time of two. -/
  | triplet
  /-- Measures. -/
  | measure
  deriving DecidableEq, Repr

/-- A length in musical terms. -/
structure NoteValue where
  /-- The number, which is positive in every note value that is read. -/
  count : Nat
  /-- What the number counts. -/
  unit : NoteUnit
  deriving DecidableEq, Repr

namespace NoteValue

/-- The note value of an instrument to begin with, a quarter note. -/
def quarter : String := "4n"

/-- The unit that a letter stands for. -/
def unit? : Char → Option NoteUnit
  | 'n' => some .note
  | 't' => some .triplet
  | 'm' => some .measure
  | _ => none

/-- The number and the unit of a text of digits and one letter. -/
def split? (s : List Char) : Option (Nat × NoteUnit) :=
  match s.takeWhile isDigit, s.dropWhile isDigit with
  | d :: ds, [u] => (unit? u).map fun unit => (decimalNumber (d :: ds), unit)
  | _, _ => none

/-- The note value that a text gives, with or without blanks around it. -/
def ofText (text : String) : Except Refusal NoteValue :=
  match split? (strip text.toList) with
  | none => .error (.noteValue text)
  | some (count, unit) =>
    if count = 0 then .error (.noteValueZero text) else .ok ⟨count, unit⟩

/-- The length in beats. Measures multiply, notes divide a whole note. -/
def beats? (v : NoteValue) : Option Float :=
  (Number.ofInt? v.count).map fun x =>
    match v.unit with
    | .measure => x * 4.0
    | .note => 4.0 / x
    | .triplet => 4.0 / x * (2.0 / 3.0)

/-- The length in beats of a written note value. -/
def beatsOfText (text : String) : Except Failure Float :=
  match ofText text with
  | .error why => .error (.refused why)
  | .ok v =>
    match v.beats? with
    | some x => .ok x
    | none => .error .tooLarge

/-- The note value of a pulse: as many notes to the measure. -/
def ofPulse (pulse : Int) : Except Refusal String :=
  if pulse ≤ 0 then .error (.pulse pulse) else .ok s!"{pulse}n"

end NoteValue

end ChordSequencer
