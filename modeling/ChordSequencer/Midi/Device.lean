import ChordSequencer.Log
import ChordSequencer.Midi.Message
import ChordSequencer.Text.LetterCase

/-!
# MIDI devices

A device is chosen by its name and opened; messages go to it until it is closed. When none can be
opened, messages are still checked but go nowhere, so that a performance needs no hardware.
-/

namespace ChordSequencer

open Text

/-- The devices that are there, and what goes wrong with them. -/
structure DeviceSupply where
  /-- The names of the devices. -/
  available : List String
  /-- Why the names cannot be listed. -/
  listFailure : Option String
  /-- Why no device can be opened. -/
  openFailure : Option String
  /-- Sending fails. -/
  sendFails : Bool

/-- The lower-case form of a name. -/
def lowerName (name : String) : List Char := lower name.toList

/-- The text begins at some place of the other one. -/
def occursIn (text : List Char) : List Char → Bool
  | [] => text.isEmpty
  | c :: r => text.isPrefixOf (c :: r) || occursIn text r

/-- The name contains the text, whatever their case. -/
def containsName (text name : String) : Bool := occursIn (lowerName text) (lowerName name)

/-- The device for a name that is asked for: the one of exactly this name, else the first whose name
contains it. When no name is asked for it is the first device. -/
def findDevice (wanted : Option String) (available : List String) : Option String :=
  match wanted with
  | none => available.head?
  | some name => if name ∈ available then some name else available.find? (containsName name)

/-- A MIDI output, which may hold a device. -/
structure Device where
  /-- The name of the device that was opened. -/
  name : Option String
  /-- The device is held. -/
  isOpen : Bool
  /-- The device was closed. -/
  closed : Bool
  /-- Sending fails. -/
  sendFails : Bool
  /-- The messages sent, the latest first. -/
  sent : List Message
  /-- What was logged, the latest first. -/
  log : List LogLine

namespace Device

/-- The output that holds a device. -/
def holding (name : String) (sendFails : Bool) : Device :=
  ⟨some name, true, false, sendFails, [], []⟩

/-- The output without a device, for a reason. -/
def without (reason : String) : Device := ⟨none, false, false, false, [], [.fail reason]⟩

/-- The wording of a name that was asked for. -/
def wantedText : Option String → String
  | none => "None"
  | some name => quote name

/-- Opens the device for a name. -/
def ofName (supply : DeviceSupply) (wanted : Option String) : Device :=
  match supply.listFailure with
  | some reason => without s!"Failed to open MIDI output: {reason}"
  | none =>
    match findDevice wanted supply.available with
    | none =>
      let available := Refusal.listed supply.available
      without s!"No MIDI output matching {wantedText wanted}. Available: {available}"
    | some name =>
      match supply.openFailure with
      | some reason => without s!"Failed to open MIDI output: {reason}"
      | none => holding name supply.sendFails

variable (d : Device)

/-- Sends a message that was checked. A failure is logged and the device stays open. -/
def transmit (m : Message) : Device :=
  if d.isOpen then
    if d.sendFails then
      { d with log := .fail "MIDI send failed (device may be disconnected)" :: d.log }
    else { d with sent := m :: d.sent }
  else d

/-- Checks a message and sends it. -/
def send (m : Message) : Except Refusal Device := m.check.map d.transmit

/-- Silences all channels. -/
def panic : Device := Message.silence.foldl transmit d

/-- Silences all channels and gives up the device. -/
def close : Device := if d.isOpen then { d.panic with isOpen := false, closed := true } else d

end Device

end ChordSequencer
