import ChordSequencer.Refusal
import ChordSequencer.Trigger

/-!
# MIDI messages

A message is a status with a channel, followed by one or two data bytes. Channels go from 0 to 15
and data from 0 to 127; when both are out of range, the channel is what is reported.
-/

namespace ChordSequencer

/-- A message on a channel. -/
inductive Message
  /-- A note begins. -/
  | noteOn (channel note velocity : Int)
  /-- A note ends. -/
  | noteOff (channel note : Int)
  /-- A channel changes its sound. -/
  | program (channel number : Int)
  /-- A controller of a channel moves. -/
  | control (channel number value : Int)
  deriving DecidableEq, Repr

namespace Message

/-- The message of a trigger. -/
def ofTrigger : Trigger → Message
  | .noteOn channel note velocity => noteOn channel note velocity
  | .noteOff channel note => noteOff channel note
  | .program channel number => program channel number

/-- The name of a kind of message. -/
def name : Message → String
  | noteOn _ _ _ => "note_on"
  | noteOff _ _ => "note_off"
  | program _ _ => "program_change"
  | control _ _ _ => "control_change"

/-- The channel. -/
def channel : Message → Int
  | noteOn channel _ _ => channel
  | noteOff channel _ => channel
  | program channel _ => channel
  | control channel _ _ => channel

/-- The number of a kind of message in the upper half of its status byte. -/
def status : Message → Nat
  | noteOff _ _ => 8
  | noteOn _ _ _ => 9
  | control _ _ _ => 11
  | program _ _ => 12

/-- The data after the status. The end of a note has the velocity 0. -/
def data : Message → List Int
  | noteOn _ note velocity => [note, velocity]
  | noteOff _ note => [note, 0]
  | program _ number => [number]
  | control _ number value => [number, value]

/-- A channel of MIDI. -/
def isChannel (n : Int) : Bool := 0 ≤ n && n ≤ 15

/-- A data byte of MIDI. -/
def isData (n : Int) : Bool := 0 ≤ n && n ≤ 127

/-- The message, if it can be sent. -/
def check (m : Message) : Except Refusal Message :=
  if isChannel m.channel = false then .error .channelRange
  else if m.data.all isData = false then .error .dataRange
  else .ok m

/-- The status byte. -/
def statusByte (m : Message) : Nat := m.status * 16 + m.channel.toNat

/-- The data as bytes. -/
def dataBytes (m : Message) : List Nat := m.data.map Int.toNat

/-- The bytes of a message. -/
def bytes (m : Message) : List Nat := m.statusByte :: m.dataBytes

/-- The messages that silence all channels: all notes off, and all sound off. -/
def silence : List Message :=
  (List.range 16).flatMap fun (n : Nat) => [control n 123 0, control n 120 0]

end Message

end ChordSequencer
