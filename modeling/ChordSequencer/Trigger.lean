/-!
# Triggers and voices

What a performance sends to its output, and the voices that sound between a note's beginning and its
end.
-/

namespace ChordSequencer

/-- A message to the output of a performance. -/
inductive Trigger
  /-- A note begins. -/
  | noteOn (channel note velocity : Int)
  /-- A note ends. -/
  | noteOff (channel note : Int)
  /-- A channel changes its sound. -/
  | program (channel number : Int)
  deriving DecidableEq, Repr

/-- A note on a channel. -/
structure Voice where
  /-- The channel. -/
  channel : Int
  /-- The pitch. -/
  note : Int
  deriving DecidableEq, Repr

namespace Voice

/-- Voices are ordered by channel, then by pitch. -/
def le (a b : Voice) : Bool :=
  a.channel < b.channel || (a.channel == b.channel && a.note ≤ b.note)

/-- Voices in ascending order. -/
def sorted (voices : List Voice) : List Voice := voices.mergeSort le

/-- The end of a voice. -/
def off (v : Voice) : Trigger := .noteOff v.channel v.note

end Voice

end ChordSequencer
