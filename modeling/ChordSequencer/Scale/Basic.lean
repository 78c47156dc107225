import ChordSequencer.Refusal

/-!
# Scales

A scale is a non-empty list of semitone offsets from a tonic. `Scale.chord` stacks thirds over one
of its degrees.

* `length_chord`: a chord has one voice for its root and one for each tone stacked on it.
-/

namespace ChordSequencer

open Text

/-- The number of semitones in an octave. -/
def semitones : Int := 12

/-- Semitone offsets from a tonic, of which there is at least one. -/
structure Scale where
  /-- The offsets by degree. -/
  offsets : List Int
  /-- There is at least one offset. -/
  nonempty : offsets ≠ []
  deriving DecidableEq, Repr

namespace Scale

/-- The scale of some offsets. -/
def ofOffsets (offsets : List Int) : Except Refusal Scale :=
  if h : offsets ≠ [] then .ok ⟨offsets, h⟩ else .error .emptyScale

variable (s : Scale)

/-- The number of notes of a scale. -/
def size : Nat := s.offsets.length

/-- The offset of a degree, counted from 0, or from -1 downwards from the end. -/
def offset? (degree : Int) : Option Int :=
  if 0 ≤ degree then s.offsets[degree.toNat]?
  else if -(s.size : Int) ≤ degree then s.offsets[(degree + s.size).toNat]?
  else none

/-- The offset of a degree of the scale. -/
def offset (degree : Nat) : Int := s.offsets.getD degree 0

/-- Stacks `count` tones on the one at `degree`, all raised by `shift`. Each tone lies two degrees
above the one before; when that is beyond the last degree, it is the tonic of the next octave. -/
def stack : Nat → Nat → Int → List Int
  | 0, degree, shift => [s.offset degree + shift]
  | count + 1, degree, shift =>
    (s.offset degree + shift) ::
      if degree + 2 < s.size then stack count (degree + 2) shift
      else stack count 0 (shift + semitones)

/-- The chord on a degree moved by the tonality, with `density` tones above the root. Degrees
outside the scale are folded into it, an octave for each turn. -/
def chord (root density tonality : Int) : List Int :=
  let degree := root + tonality
  s.stack density.toNat (degree % s.size).toNat (degree / s.size * semitones)

/-- The written form of a scale. -/
def render : String := s!"Scale({bracketed (s.offsets.map toString)})"

theorem length_stack (count degree : Nat) (shift : Int) :
    (s.stack count degree shift).length = count + 1 := by
  induction count generalizing degree shift with
  | zero => rfl
  | succ n ih => simp only [stack]; split <;> simp [ih]

/-- A chord has one voice for its root and one for each tone stacked on it. -/
theorem length_chord (root density tonality : Int) :
    (s.chord root density tonality).length = density.toNat + 1 :=
  s.length_stack ..

end Scale

end ChordSequencer
