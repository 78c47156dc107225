import ChordSequencer.Conductor.Time

/-!
# Operations

What a caller can ask of a conductor, as data, so that a history of a conductor is a list. Under the
virtual clock each operation is performed to its end before the next one begins; the playback task
goes on meanwhile.
-/

namespace ChordSequencer

/-- What a caller can ask of a conductor. -/
inductive Operation
  /-- Another song, or none. -/
  | setSong (song : Option Song)
  /-- Another instrument. -/
  | setInstrument (i : Instrument)
  /-- Another tempo. -/
  | setTempo (bpm : Float)
  /-- To start playback. -/
  | start
  /-- To stop playback. -/
  | stop
  /-- To let some seconds pass. -/
  | sleep (seconds : Float)
  /-- To play for some seconds, or without limit. -/
  | play (seconds : Option Float)
  /-- The same, and to cancel it after a time. -/
  | playCancelled (seconds : Option Float) (after : Float)
  /-- To perform a block. -/
  | performBlock (b : Block)
  /-- To perform a selector whose numbers are in a base. -/
  | performSelector (selector : String) (base : Nat)

namespace Operation

/-- An operation that succeeds or leaves the conductor as it is. -/
def attempt (c : Conductor) : Except Failure Conductor → Conductor × Except Failure Unit
  | .ok c' => (c', .ok ())
  | .error why => (c, .error why)

/-- Performs an operation to its end. -/
def perform (turns : Nat) (c : Conductor) : Operation → Conductor × Except Failure Unit
  | setSong song => attempt c (c.setSong song)
  | setInstrument i => attempt c (c.setInstrument i)
  | setTempo bpm => attempt c (c.setTempo bpm)
  | start => attempt c c.start
  | stop => c.stop
  | sleep seconds => (c.wait turns seconds, .ok ())
  | play seconds => c.play turns seconds
  | playCancelled seconds after => c.playCancelled turns seconds after
  | performBlock b => c.performBlock turns b
  | performSelector selector base => c.performSelector turns selector base

/-- Performs operations one after another, whatever each comes to. -/
def performAll (turns : Nat) (c : Conductor) (operations : List Operation) : Conductor :=
  operations.foldl (fun c o => (o.perform turns c).1) c

end Operation

end ChordSequencer
