import ChordSequencer.Midi.Track

/-!
# Recordings

A recording keeps messages with the time since the first one. It is written as a MIDI file, unless
it is empty.
-/

namespace ChordSequencer

/-- Messages and when they came. -/
structure Recording where
  /-- The tempo in beats per minute. -/
  bpm : Float
  /-- The time of the first message. -/
  start : Option Float
  /-- The messages with the seconds since the first one, the latest first. -/
  events : List (Float × Message)

namespace Recording

/-- A recording without messages; the tempo must be positive. -/
def create (bpm : Float) : Except Refusal Recording :=
  if bpm ≤ 0.0 then .error .tempo else .ok ⟨bpm, none, []⟩

variable (r : Recording)

/-- Keeps a message that was checked. -/
def keep (clock : Float) (m : Message) : Recording :=
  let start := r.start.getD clock
  { r with start := some start, events := (clock - start, m) :: r.events }

/-- Checks a message and keeps it. -/
def record (clock : Float) (m : Message) : Except Refusal Recording :=
  m.check.map (r.keep clock)

/-- The messages with their times in the order in which they came. -/
def recorded : List (Float × Message) := r.events.reverse

/-- The track of the recording. -/
def track : Except Failure Track := Track.ofRecorded r.bpm r.recorded

/-- The file of the recording; there is none of an empty one. -/
def file : Except Failure (Option (List UInt8)) :=
  if r.events.isEmpty then .ok none else r.track.map fun t => some t.file

end Recording

end ChordSequencer
