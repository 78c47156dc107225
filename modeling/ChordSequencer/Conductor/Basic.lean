import ChordSequencer.Song
import ChordSequencer.Trigger

/-!
# The conductor

A conductor performs a song on an instrument. Its state is kept between waits: a performance goes on
from one wait to the next without interruption, so a place in it is described by what is left to do
after the wait. The playback task is the performance that runs beside the caller.
-/

namespace ChordSequencer

/-- What is left of a selector after a wait. -/
inductive Hold
  /-- Nothing is left. -/
  | step
  /-- A note of an arpeggio ends and the others follow, each with a wait of its own. They keep the
  instrument `own` if the conductor was given another one meanwhile. -/
  | voice (note : Int) (rest : List Int) (seconds : Float) (own : Option Instrument)

/-- What is left of a block after a wait. -/
structure BlockCursor where
  /-- The base of the block's numbers. -/
  base : Nat
  /-- The selectors left of this repetition. -/
  todo : List String
  /-- All selectors. -/
  all : List String
  /-- The repetitions left after this one. -/
  again : Nat
  /-- What is left of the selector. -/
  hold : Hold

/-- A place in the playback of a song, at a wait or before its beginning. -/
inductive Place
  /-- Before the first pass. -/
  | beginning
  /-- In the step that follows a pass which played nothing. -/
  | filler
  /-- In a block of a pass that began when `before` steps had been performed; `left` are the blocks
  left of the pass. -/
  | inBlock (left : List Block) (before : Nat) (cursor : BlockCursor)

/-- The playback task. -/
inductive Task
  /-- It goes on as soon as the caller waits. -/
  | ready (place : Place)
  /-- It waits until a time. -/
  | asleep (wakes : Float) (place : Place)
  /-- It has ended. -/
  | finished (result : Except Failure Unit)

/-- The task has not ended. -/
def Task.live : Task → Bool
  | ready _ => true
  | asleep _ _ => true
  | finished _ => false

/-- How a stretch of a performance ends: at a wait, at its end, or by a failure. -/
inductive Outcome (κ : Type)
  /-- It waits, and `next` is left to do. -/
  | waits (seconds : Float) (next : κ)
  /-- Nothing is left to do. -/
  | ended
  /-- It cannot go on. -/
  | failed (why : Failure)

/-- The state of a conductor. -/
structure Conductor where
  /-- Triggers go to an output. -/
  audible : Bool
  /-- The scales. -/
  catalog : Catalog
  /-- The tempo in beats per minute. -/
  bpm : Float
  /-- The song. -/
  song : Option Song
  /-- The instrument. -/
  instrument : Option Instrument
  /-- The playback task. -/
  task : Option Task
  /-- Playback was started and has not come to its end. -/
  running : Bool
  /-- Playback was stopped and not started again. -/
  stopRequested : Bool
  /-- The voices that sound. -/
  sounding : List Voice
  /-- The number of blocks performed. -/
  blocksPerformed : Nat
  /-- The number of selectors performed. -/
  stepsPerformed : Nat
  /-- The time in seconds. -/
  clock : Float
  /-- What was sent and when, the latest first. -/
  sent : List (Float × Trigger)
  /-- What was logged, the latest first. -/
  log : List LogLine

namespace Conductor

/-- A tempo is refused unless it is positive. -/
def checkTempo (bpm : Float) : Except Refusal Float :=
  if bpm ≤ 0.0 then .error .tempo else .ok bpm

/-- A conductor without song and instrument. -/
def create (audible : Bool) (catalog : Catalog) (bpm : Float) : Except Refusal Conductor :=
  (checkTempo bpm).map fun bpm => {
    audible, catalog, bpm
    song := none
    instrument := none
    task := none
    running := false
    stopRequested := false
    sounding := []
    blocksPerformed := 0
    stepsPerformed := 0
    clock := 0.0
    sent := []
    log := [] }

variable (c : Conductor)

/-- Logs a warning. -/
def warn (text : String) : Conductor := { c with log := .warn text :: c.log }

/-- Adds lines to the log in their order. -/
def report (lines : List LogLine) : Conductor := { c with log := lines.reverse ++ c.log }

/-- Sends a trigger at the present time. -/
def send (t : Trigger) : Conductor :=
  if c.audible then { c with sent := (c.clock, t) :: c.sent } else c

/-- Begins a note. -/
def noteOn (channel note velocity : Int) : Conductor :=
  let c := c.send (.noteOn channel note velocity)
  if ⟨channel, note⟩ ∈ c.sounding then c
  else { c with sounding := ⟨channel, note⟩ :: c.sounding }

/-- Ends a note that sounds. -/
def noteOff (channel note : Int) : Conductor :=
  if ⟨channel, note⟩ ∈ c.sounding then
    { c.send (.noteOff channel note) with
      sounding := c.sounding.filter (· ≠ ⟨channel, note⟩) }
  else c

/-- Ends all notes that sound, in ascending order. -/
def release : Conductor :=
  { (Voice.sorted c.sounding).foldl (fun c v => c.send v.off) c with sounding := [] }

/-- Changes the song. -/
def setSong (song : Option Song) : Except Failure Conductor :=
  if c.running then .error .songInUse else .ok { c with song }

/-- Changes the instrument. -/
def setInstrument (i : Instrument) : Except Failure Conductor :=
  if c.running then .error .instrumentInUse else .ok { c with instrument := some i }

/-- Changes the tempo. -/
def setTempo (bpm : Float) : Except Failure Conductor :=
  refusing ((checkTempo bpm).map fun bpm => { c with bpm })

/-- The instrument, which must be there. -/
def requireInstrument : Except Failure Instrument :=
  match c.instrument with
  | some i => .ok i
  | none => .error .noInstrument

/-- The time in seconds that a step takes with the present instrument and tempo. -/
def stepSeconds : Except Failure Float :=
  c.requireInstrument.bind fun i =>
    (NoteValue.beatsOfText i.duration).map fun beats => beats * 60.0 / c.bpm

/-- Applies a command to the instrument. A command that is unknown or refused is logged and passed
over; the answer says whether it was applied. -/
def applyCommand (command : Command) (base : Nat) : Except Failure (Conductor × Bool) :=
  c.requireInstrument.bind fun i =>
    match Setting.applyCode c.catalog i command.value base command.code with
    | .ok j => .ok ({ c with instrument := some j }, true)
    | .error (.unknownCommand code) =>
      .ok (c.warn s!"Ignoring unknown command type '{code}' (value '{command.value}')", false)
    | .error (.refused why) =>
      .ok (c.warn s!"Ignoring command {command.render}: {why.message}", false)
    | .error why => .error why

/-- Applies commands one after another, up to the first that cannot even be passed over. -/
def applyCommands (base : Nat) : Conductor → List Command → Conductor × Option Failure
  | c, [] => (c, none)
  | c, command :: rest =>
    match c.applyCommand command base with
    | .ok (c', _) => applyCommands base c' rest
    | .error why => (c, some why)

end Conductor

end ChordSequencer
