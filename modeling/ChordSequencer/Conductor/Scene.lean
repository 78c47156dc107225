import ChordSequencer.Conductor.Operation

/-!
# Scenes

Under the virtual clock it is the times that decide who goes on after a wait. A scene leaves this
open: the playback task, the caller who controls it, and any number of direct performances beside
them may go on in any order. What one of them does between two of its waits is a single action, and
`Scene.run` plays any list of actions.

A cancelled task does not go on from its wait: it only ends, and whoever has cancelled it waits for
this end.
-/

namespace ChordSequencer

/-- What a performance leaves to do after a wait, put into another form. -/
def Outcome.map {κ κ' : Type} (f : κ → κ') : Outcome κ → Outcome κ'
  | waits seconds next => .waits seconds (f next)
  | ended => .ended
  | failed why => .failed why

/-- A direct performance at one of its waits, by what it has left to do. -/
inductive Call
  | selector (hold : Hold)
  | block (cursor : BlockCursor)

/-- What is left of a selector keeps an instrument, unless it has one of its own. -/
def Hold.keep (i : Option Instrument) : Hold → Hold
  | step => .step
  | voice note rest seconds own => .voice note rest seconds (own.or i)

namespace Call

/-- A direct performance goes on after its wait. -/
def resume (c : Conductor) : Call → Conductor × Outcome Call
  | selector hold => (c.resumeSelector hold).map id (.map selector)
  | block cursor => (c.resumeBlock cursor).map id (.map block)

/-- A direct performance is cancelled at its wait. A block ends with all its notes. -/
def drop (c : Conductor) : Call → Conductor
  | selector _ => c
  | block _ => c.release

/-- A direct performance at a wait keeps its instrument to the end of its selector. -/
def keep (i : Option Instrument) : Call → Call
  | selector hold => .selector (hold.keep i)
  | block cursor => .block { cursor with hold := cursor.hold.keep i }

end Call

/-- What the caller who controls playback waits for. -/
inductive Control
  /-- Nothing: an operation may begin. -/
  | free
  /-- The end of the task, or of the time to play where this is limited. -/
  | playing (limited : Bool)
  /-- The end of the task that was cancelled together with a play without limit. -/
  | cancelled
  /-- The end of the task that `stop` has cancelled. -/
  | stopping
  deriving DecidableEq, Repr

/-- The caller has cancelled the task. -/
def Control.cancelling : Control → Bool
  | cancelled | stopping => true
  | free | playing _ => false

/-- A conductor and all who wait. -/
structure Scene where
  /-- The conductor. -/
  conductor : Conductor
  /-- The caller who controls playback. -/
  control : Control
  /-- What the last operation of this caller came to. -/
  answer : Except Failure Unit
  /-- The direct performances under way. -/
  calls : List Call

/-- What can happen next. -/
inductive Action
  /-- An operation begins and goes on to its first wait. -/
  | begin (o : Operation)
  /-- The time of a limited play is over. -/
  | expire
  /-- A play is cancelled. -/
  | cancel
  /-- The caller who waits for the end of the task learns of it. -/
  | finish
  /-- The playback task goes on to its next wait. -/
  | turn
  /-- The cancelled playback task ends. -/
  | interrupt
  /-- A direct performance goes on to its next wait. -/
  | resume (index : Nat)
  /-- A direct performance is cancelled. -/
  | drop (index : Nat)
  /-- Time passes. -/
  | pass (time : Float)

namespace Scene

/-- Nobody waits. -/
def opening (c : Conductor) : Scene := ⟨c, .free, .ok (), []⟩

variable (s : Scene)

/-- The operation of the caller comes to its end. -/
def returning (r : Conductor × Except Failure Unit) : Scene :=
  { s with conductor := r.1, control := .free, answer := r.2 }

/-- An operation of the caller has succeeded or left the conductor as it is. -/
def attempting (r : Except Failure Conductor) : Scene :=
  s.returning (Operation.attempt s.conductor r)

/-- The playback task is there and has not ended. -/
def alive : Bool := s.conductor.task.any (·.live)

/-- The caller stops playback: the task is cancelled, and the caller waits for its end. -/
def halt : Scene :=
  if s.conductor.task.isSome then
    { s with conductor := s.conductor.requestStop, control := .stopping }
  else s.returning (s.conductor, .ok ())

/-- The caller begins to play. -/
def beginPlay (limited : Bool) : Scene :=
  match s.conductor.start with
  | .ok c => { s with conductor := c, control := .playing limited }
  | .error why => { s with answer := .error why }

/-- The caller exchanges the instrument: what is under way keeps the one that it has. -/
def exchange (i : Instrument) : Scene :=
  match s.conductor.setInstrument i with
  | .ok c =>
    { s with
      conductor := c
      answer := .ok ()
      calls := s.calls.map (·.keep s.conductor.instrument) }
  | .error why => { s with answer := .error why }

/-- A direct performance has come to its next wait or to its end. -/
def follow (r : Conductor × Outcome Call) (others : List Call) : Scene :=
  match r with
  | (c, .waits _ call) => { s with conductor := c, calls := call :: others }
  | (c, _) => { s with conductor := c, calls := others }

/-- An operation of the caller who controls playback begins. -/
def operate : Operation → Scene
  | .setSong song => s.attempting (s.conductor.setSong song)
  | .setInstrument i => s.exchange i
  | .setTempo bpm => s.attempting (s.conductor.setTempo bpm)
  | .start => s.attempting s.conductor.start
  | .stop => s.halt
  | .play seconds => s.beginPlay seconds.isSome
  | .playCancelled seconds _ => s.beginPlay seconds.isSome
  | _ => s

/-- The playback task goes on from its wait, whenever it is. -/
def proceed (c : Conductor) : Conductor :=
  match c.task with
  | some (.ready place) => c.turn place
  | some (.asleep _ place) => c.turn place
  | _ => c

/-- Plays an action; one that is not possible changes nothing. -/
def step : Action → Scene
  | .begin (.performBlock b) => s.follow ((s.conductor.beginBlock b).map id (.map .block)) s.calls
  | .begin (.performSelector selector base) =>
    s.follow ((s.conductor.beginSelector selector base).map id (.map .selector)) s.calls
  | .begin o => if s.control = .free then s.operate o else s
  | .expire => if s.control = .playing true then s.halt else s
  | .cancel =>
    match s.control with
    | .playing true => s.halt
    | .playing false => { s with control := .cancelled }
    | _ => s
  | .finish =>
    if s.alive then s
    else match s.control with
      | .free => s
      | .stopping => s.returning s.conductor.collect
      | _ => s.halt
  | .turn => if s.control.cancelling then s else { s with conductor := proceed s.conductor }
  | .interrupt =>
    if s.control.cancelling then { s with conductor := s.conductor.interrupt } else s
  | .resume index =>
    match s.calls[index]? with
    | some call => s.follow (call.resume s.conductor) (s.calls.eraseIdx index)
    | none => s
  | .drop index =>
    match s.calls[index]? with
    | some call =>
      { s with conductor := call.drop s.conductor, calls := s.calls.eraseIdx index }
    | none => s
  | .pass time => { s with conductor := { s.conductor with clock := time } }

/-- Plays actions one after another. -/
def run (actions : List Action) : Scene := actions.foldl step s

end Scene

end ChordSequencer
