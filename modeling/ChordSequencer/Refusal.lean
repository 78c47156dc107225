import ChordSequencer.Text.Quoted

/-!
# Refusals and failures

`Refusal` lists the reasons for which a value is not accepted, and `Refusal.message` words them.
`Failure` is what an operation can end in instead of a result: a refused value, a command code that
does not exist, a number too large to calculate with, or a call that the player's state forbids.
-/

namespace ChordSequencer

open Text

/-- Why a value is not accepted. -/
inductive Refusal
  /-- A scale without notes. -/
  | emptyScale
  /-- No scale of the catalog has this number. -/
  | unknownScaleId (id : Int)
  /-- No scale of the catalog has this name. -/
  | unknownScale (name : String) (available : List String)
  /-- A scale name that is blank. -/
  | emptyScaleName
  /-- A scale name that the catalog has already. -/
  | scaleTaken (name : String)
  /-- A semitone offset outside an octave. -/
  | offsetRange
  /-- Semitone offsets that repeat or go down. -/
  | offsetOrder
  /-- A text that is neither a number nor the label of a key. -/
  | unknownKey (text : String) (available : List String)
  /-- A wheel without positions. -/
  | emptyScheme
  /-- A wheel flag other than 0 and 1. -/
  | schemeFlag
  /-- A wheel on which no position is flagged. -/
  | schemeUnflagged
  /-- A flag text with other characters than 0 and 1, or none. -/
  | schemeText (flags : String)
  /-- A text that is no note value. -/
  | noteValue (text : String)
  /-- A note value of number zero. -/
  | noteValueZero (text : String)
  /-- A pulse that is not positive. -/
  | pulse (count : Int)
  /-- A number that stands for no play mode. -/
  | playModeNumber (number : Int)
  /-- A written number that stands for no play mode. -/
  | playModeNumeral (text : String)
  /-- A text that is neither a number nor the name of a play mode. -/
  | playModeName (text : String) (available : List String)
  /-- A text that is not a number in the base. -/
  | notNumber (text : String)
  /-- A number below the least allowed one. -/
  | belowMinimum (number low : Int)
  /-- A number above the greatest allowed one. -/
  | aboveMaximum (number high : Int)
  /-- A tempo that is not positive. -/
  | tempo
  /-- A MIDI channel outside 0 to 15. -/
  | channelRange
  /-- A MIDI data byte outside 0 to 127. -/
  | dataRange
  /-- A time between beats that a MIDI file cannot hold. -/
  | beatRange
  /-- A time that is not a number. -/
  | undefinedTime
  /-- A value of a type without the operation that is asked for. -/
  | noOperation (type operation : String)
  /-- A value of a type that cannot be compared with a number. -/
  | noOrder (type : String)
  deriving DecidableEq, Repr

namespace Refusal

/-- Names as a message lists them. -/
def listed (names : List String) : String := bracketed (names.map quote)

/-- The wording of a refusal. -/
def message : Refusal → String
  | emptyScale => "A scale needs at least one note"
  | unknownScaleId id => s!"Unknown scale id: {id}"
  | unknownScale name available => s!"Unknown scale '{name}'. Available: {listed available}"
  | emptyScaleName => "Scale name cannot be empty"
  | scaleTaken name => s!"Scale '{name}' is already registered"
  | offsetRange => "Scale offsets must be in the range 0-11"
  | offsetOrder => "Scale offsets must be distinct and ascending"
  | unknownKey text available =>
    s!"Unknown key '{text}'. Use a number or one of {listed available}"
  | emptyScheme => "Note scheme cannot be empty"
  | schemeFlag => "Note scheme flags must be 0 or 1"
  | schemeUnflagged => "Note scheme needs at least one position flagged 1"
  | schemeText flags => s!"Invalid note scheme '{flags}': use a string of 0 and 1"
  | noteValue text => s!"Invalid note value '{text}' (expected e.g. 4n, 8t or 2m)"
  | noteValueZero text => s!"Invalid note value '{text}': the number must be positive"
  | pulse count => s!"Pulse must be positive, got {count}"
  | playModeNumber number => s!"{number} is not a valid PlayMode"
  | playModeNumeral text => s!"Unknown play mode {text}"
  | playModeName text available =>
    s!"Unknown play mode '{text}'. Available: {listed available}"
  | notNumber text => s!"Expected a number, got '{text}'"
  | belowMinimum number low => s!"Value {number} is below the minimum {low}"
  | aboveMaximum number high => s!"Value {number} is above the maximum {high}"
  | tempo => "BPM must be positive"
  | channelRange => "channel must be in range 0..15"
  | dataRange => "data byte must be in range 0..127"
  | beatRange => "attribute must be in range 0..16777215"
  | undefinedTime => "cannot convert float NaN to integer"
  | noOperation type operation => s!"'{type}' object has no attribute '{operation}'"
  | noOrder type => s!"'<=' not supported between instances of '{type}' and 'int'"

end Refusal

/-- What an operation ends in when it has no result. -/
inductive Failure
  /-- A value is not accepted. -/
  | refused (why : Refusal)
  /-- No command has this code. -/
  | unknownCommand (code : String)
  /-- A number is too large to be calculated with. -/
  | tooLarge
  /-- Playing was asked for before a song was set. -/
  | noSong
  /-- Playing was asked for before an instrument was set. -/
  | noInstrument
  /-- The song cannot change during playback. -/
  | songInUse
  /-- The instrument cannot change during playback. -/
  | instrumentInUse
  deriving DecidableEq, Repr

/-- A result that can only be refused, as one that can fail. -/
def refusing {α : Type} (result : Except Refusal α) : Except Failure α :=
  match result with
  | .ok a => .ok a
  | .error why => .error (.refused why)

/-- The wording of a failure; a number that is too large has none. -/
def Failure.message? : Failure → Option String
  | refused why => some why.message
  | unknownCommand code => some s!"Unknown command type '{code}'"
  | tooLarge => none
  | noSong => some "No song set"
  | noInstrument => some "No instrument set"
  | songInUse => some "Cannot change the song while playing"
  | instrumentInUse => some "Cannot change the instrument while playing"

end ChordSequencer
