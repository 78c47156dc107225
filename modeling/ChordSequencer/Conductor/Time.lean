import ChordSequencer.Conductor.Playback

/-!
# Time

The caller and the playback task share one clock, which moves only while both wait. The wait that
ends first is served first; a wait that takes no time only lets the other side go on to its next
wait. Since playback has no end, the functions that let it go on are given a number of turns; with
`patience` turns they are never short of them in practice.
-/

namespace ChordSequencer

namespace Conductor

/-- A number of turns that no run needs. -/
def patience : Nat := 1000000000000000

/-- A time lies before a limit, if there is one. -/
def isBefore (time : Float) : Option Float → Bool
  | none => true
  | some limit => time < limit

/-- Lets the playback task go on, for as many turns and up to a limit at most. The clock stays at
the last time at which the task went on. -/
def advance : Nat → Conductor → Option Float → Conductor
  | 0, c, _ => c
  | n + 1, c, limit =>
    match c.task with
    | some (.ready place) => advance n (c.turn place) limit
    | some (.asleep wakes place) =>
      if isBefore wakes limit then advance n ({ c with clock := wakes }.turn place) limit else c
    | some (.finished _) => c
    | none => c

variable (turns : Nat) (c : Conductor)

/-- Lets the playback task go on once if it does not wait for a time. -/
def yield : Conductor :=
  match c.task with
  | some (.ready place) => c.turn place
  | _ => c

/-- The caller waits until a time. -/
def waitUntil (time : Float) : Conductor :=
  { advance turns c (some time) with clock := time }

/-- The caller waits. -/
def wait (seconds : Float) : Conductor :=
  if seconds ≤ 0.0 then c.yield else c.waitUntil turns (c.clock + seconds)

/-- The caller goes on to its end with a performance that resumes in a given way. -/
def finish {κ : Type} (resume : Conductor → κ → Conductor × Outcome κ) :
    Nat → Conductor × Outcome κ → Conductor × Except Failure Unit
  | n + 1, (c, .waits seconds next) => finish resume n (resume (c.wait turns seconds) next)
  | 0, (c, .waits _ _) => (c, .ok ())
  | _, (c, .ended) => (c, .ok ())
  | _, (c, .failed why) => (c, .error why)

/-- The caller performs a selector. -/
def performSelector (selector : String) (base : Nat) : Conductor × Except Failure Unit :=
  finish turns resumeSelector turns (c.beginSelector selector base)

/-- The caller performs a block. -/
def performBlock (b : Block) : Conductor × Except Failure Unit :=
  finish turns resumeBlock turns (c.beginBlock b)

/-- The caller performs blocks one after another, up to the first that fails. -/
def performBlocks : Conductor → List Block → Conductor × Except Failure Unit
  | c, [] => (c, .ok ())
  | c, b :: rest =>
    match c.performBlock turns b with
    | (c, .ok ()) => performBlocks c rest
    | r => r

/-- Lets playback go on for a number of seconds, or without limit, and stops it. With a cut it is
stopped there at the latest. -/
def playOut (seconds cut : Option Float) : Conductor × Except Failure Unit :=
  match seconds, cut with
  | none, none => (advance turns c none).stop
  | none, some time => (stopAt time).stop
  | some s, cut =>
    if s ≤ 0.0 then c.yield.stop
    else
      let time := c.clock + s
      match cut with
      | none => (stopAt time).stop
      | some limit => (stopAt (if limit < time then limit else time)).stop
where
  /-- Playback goes on up to a time; the clock gets there unless the task ends before. -/
  stopAt (time : Float) : Conductor :=
    let c := advance turns c (some time)
    if c.task.any (·.live) then { c with clock := time } else c

/-- The caller starts playback, waits, and stops it. -/
def play (seconds : Option Float) : Conductor × Except Failure Unit :=
  match c.start with
  | .error why => (c, .error why)
  | .ok c => c.playOut turns seconds none

/-- Playback is started beside the caller, who waits and then cancels it. A failure comes out at the
end of the caller's wait. -/
def playCancelled (seconds : Option Float) (after : Float) : Conductor × Except Failure Unit :=
  let c := c.yield
  if after ≤ 0.0 then
    match c.start, seconds with
    | .error why, _ => (c, .error why)
    | .ok c, none => c.stop
    | .ok c, some _ => c.yield.stop
  else
    let time := c.clock + after
    match c.start with
    | .error why => (c.waitUntil turns time, .error why)
    | .ok c =>
      let (c, result) := c.playOut turns seconds (some time)
      ({ c with clock := time }, result)

end Conductor

end ChordSequencer
