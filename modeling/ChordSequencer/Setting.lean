import ChordSequencer.Instrument
import ChordSequencer.Key

/-!
# Settings

A setting is a part of an instrument that a command can change. It is called by the one-letter code
of its command or by its name, and takes a text: numbers are read in the base of the notation, names
only where the text is no number.
-/

namespace ChordSequencer

open Text

/-- The parts of an instrument that commands can change. -/
inductive Setting
  | channel
  | timbre
  | scale
  | key
  | width
  | inversion
  | octave
  | playMode
  | velocity
  | pulse
  | duration
  | repeats
  | scheme
  deriving DecidableEq, Repr

namespace Setting

/-- All settings. -/
def all : List Setting := [
  channel, timbre, scale, key, width, inversion, octave, playMode, velocity, pulse, duration,
  repeats, scheme]

/-- The code of a setting's command. -/
def code : Setting → String
  | channel => "C"
  | timbre => "T"
  | scale => "S"
  | key => "K"
  | width => "W"
  | inversion => "I"
  | octave => "O"
  | playMode => "M"
  | velocity => "V"
  | pulse => "P"
  | duration => "D"
  | repeats => "R"
  | scheme => "N"

/-- The name of a setting. -/
def name : Setting → String
  | channel => "channel"
  | timbre => "timbre"
  | scale => "scale"
  | key => "key"
  | width => "width"
  | inversion => "inversion"
  | octave => "octave"
  | playMode => "playmode"
  | velocity => "velocity"
  | pulse => "pulse"
  | duration => "duration"
  | repeats => "repeat"
  | scheme => "scheme"

/-- The setting of a code. -/
def ofCode? (code : String) : Option Setting := all.find? (·.code == code)

/-- The setting of a name, whatever its case and the blanks around it. -/
def ofName? (name : String) : Option Setting :=
  all.find? (·.name.toList == lower (strip name.toList))

/-- A number from `low?` to `high?`, as far as these are given. -/
def number (value : String) (base : Nat) (low? high? : Option Int) : Except Refusal Int :=
  match Numeral.read? base (strip value.toList) with
  | none => .error (.notNumber value)
  | some n =>
    match low?, high? with
    | some low, some high =>
      if n < low then .error (.belowMinimum n low)
      else if high < n then .error (.aboveMaximum n high)
      else .ok n
    | some low, none => if n < low then .error (.belowMinimum n low) else .ok n
    | none, some high => if high < n then .error (.aboveMaximum n high) else .ok n
    | none, none => .ok n

/-- The wheel that a text of flags gives; a dash takes the wheel away. -/
def wheelOfText (value : String) : Except Refusal (Option Wheel) :=
  let s := strip value.toList
  if s = ['-'] then .ok none else (Wheel.ofText (String.ofList s) "").map some

/-- The note value that a text gives, as it is kept: without blanks around it. -/
def durationOfText (value : String) : Except Failure String :=
  (NoteValue.beatsOfText value).map fun _ => String.ofList (strip value.toList)

/-- The note value of a pulse that a text gives. -/
def pulseOfText (value : String) (base : Nat) : Except Refusal String :=
  (number value base (some 1) none).bind NoteValue.ofPulse

variable (c : Catalog) (i : Instrument) (value : String) (base : Nat)

/-- Changes a setting of an instrument. -/
def apply (s : Setting) : Except Failure Instrument :=
  match s with
  | channel => (refusing (number value base (some 0) (some 15))).map ({ i with channel := · })
  | timbre => (refusing (number value base (some 0) (some 127))).map ({ i with timbre := · })
  | scale => (refusing (c.idOfText value base)).map ({ i with scaleId := · })
  | key => (refusing (Key.ofText value base)).map ({ i with tonality := · })
  | width => (refusing (number value base (some 0) none)).map ({ i with density := · })
  | inversion => (refusing (number value base (some 0) none)).map ({ i with inversion := · })
  | octave => (refusing (number value base none none)).map ({ i with octave := · })
  | playMode => (refusing (PlayMode.ofText value base)).map ({ i with playMode := · })
  | velocity => (refusing (number value base (some 0) (some 127))).map ({ i with velocity := · })
  | pulse => (refusing (pulseOfText value base)).map ({ i with duration := · })
  | duration => (durationOfText value).map ({ i with duration := · })
  | repeats => (refusing (number value base (some 1) none)).map ({ i with repeats := · })
  | scheme => (refusing (wheelOfText value)).map ({ i with wheel := · })

/-- Changes the setting that a code calls. -/
def applyCode (code : String) : Except Failure Instrument :=
  match ofCode? code with
  | some s => s.apply c i value base
  | none => .error (.unknownCommand code)

end Setting

end ChordSequencer
