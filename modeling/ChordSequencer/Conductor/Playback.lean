import ChordSequencer.Conductor.Perform

/-!
# Playback

The playback task performs the blocks of the song in their order and begins again after the last
one. A pass that plays nothing still takes one step. Playback never ends by itself: it is stopped,
or a block fails.
-/

namespace ChordSequencer

namespace Conductor

variable (c : Conductor)

/-- The blocks of the song. -/
def songBlocks : List Block :=
  match c.song with
  | some song => song.blocks
  | none => []

/-- Performs the blocks left of a pass, up to the next wait. -/
def playBlocks (before : Nat) : Conductor → List Block → Conductor × Outcome Place
  | c, [] => (c, .ended)
  | c, b :: left =>
    if c.stopRequested then (c, .ended)
    else match c.beginBlock b with
      | (c, .waits seconds cursor) => (c, .waits seconds (.inBlock left before cursor))
      | (c, .ended) => playBlocks before c left
      | (c, .failed why) => (c, .failed why)

/-- Lets a step pass without playing. -/
def fillStep : Conductor × Outcome Place :=
  match c.stepSeconds with
  | .ok seconds => (c, .waits seconds .filler)
  | .error why => (c, .failed why)

/-- Begins a pass. One that ends before the first wait has performed no selector. -/
def newPass : Conductor × Outcome Place :=
  if c.stopRequested then (c, .ended)
  else match playBlocks c.stepsPerformed c c.songBlocks with
    | (c, .ended) => if c.stopRequested then (c, .ended) else c.fillStep
    | r => r

/-- Ends a pass that began when `before` steps had been performed. -/
def endPass (before : Nat) : Conductor × Outcome Place :=
  if c.stopRequested then (c, .ended)
  else if c.stepsPerformed = before then c.fillStep
  else c.newPass

/-- Goes on with playback from a place. -/
def resumePlayback (place : Place) : Conductor × Outcome Place :=
  match place with
  | .beginning => c.newPass
  | .filler => c.newPass
  | .inBlock left before cursor =>
    match c.resumeBlock cursor with
    | (c, .waits seconds cursor) => (c, .waits seconds (.inBlock left before cursor))
    | (c, .ended) =>
      match playBlocks before c left with
      | (c, .ended) => c.endPass before
      | r => r
    | (c, .failed why) => (c, .failed why)

/-- The playback task takes note of how it has come to its next wait or its end. -/
def settle : Conductor × Outcome Place → Conductor
  | (c, .waits seconds next) =>
    { c with
      task := some (if seconds ≤ 0.0 then .ready next else .asleep (c.clock + seconds) next) }
  | (c, .ended) => { c with running := false, task := some (.finished (.ok ())) }
  | (c, .failed why) => { c with running := false, task := some (.finished (.error why)) }

/-- The playback task goes on from a place to its next wait or its end. -/
def turn (place : Place) : Conductor := settle (c.resumePlayback place)

/-- Starts playback. The task begins when the caller waits for the first time. -/
def start : Except Failure Conductor :=
  if c.running then .ok c
  else if c.song.isNone then .error .noSong
  else if c.instrument.isNone then .error .noInstrument
  else .ok { c with stopRequested := false, running := true, task := some (.ready .beginning) }

/-- Asks playback to stop: from now on no selector and no voice begins. -/
def requestStop : Conductor := { c with stopRequested := true }

/-- The place of the task is left for good. A block ends with all its notes. -/
def leave : Place → Conductor
  | .beginning => c
  | .filler => { c with running := false }
  | .inBlock _ _ _ => { c.release with running := false }

/-- The playback task is cancelled where it waits. One that has not begun ends without a trace. -/
def interrupt : Conductor :=
  match c.task with
  | some (.ready place) => { c.leave place with task := some (.finished (.ok ())) }
  | some (.asleep _ place) => { c.leave place with task := some (.finished (.ok ())) }
  | _ => c

/-- Clears away a playback task that has ended. All notes end, and if the task had failed, the
failure comes out after this. -/
def collect : Conductor × Except Failure Unit :=
  ({ c with task := none, running := false }.release,
    match c.task with
    | some (.finished result) => result
    | _ => .ok ())

/-- Stops playback where it waits, and ends all notes. -/
def stop : Conductor × Except Failure Unit :=
  if c.task.isNone then (c, .ok ()) else c.requestStop.interrupt.collect

end Conductor

end ChordSequencer
