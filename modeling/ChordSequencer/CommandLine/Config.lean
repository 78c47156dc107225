import ChordSequencer.Json.Basic
import ChordSequencer.Log
import ChordSequencer.Setting

/-!
# The configuration

A configuration is a JSON object. Its sections may set up the instrument, the tempo and the MIDI
output; a section that is missing or empty sets nothing, and one that is something else than an
object is refused when it is looked at.
-/

namespace ChordSequencer.CommandLine

namespace Config

/-- The settings of the instrument that a configuration can make. -/
def settings : List Setting :=
  [.channel, .scale, .key, .octave, .velocity, .timbre, .playMode, .duration]

/-- The setting of a key of the instrument section. -/
def setting? (key : String) : Option Setting := settings.find? (·.name == key)

/-- The members of a value that an operation takes for an object. What counts as nothing has
none. -/
def membersOf (operation : String) : Json → Except Refusal (List (String × Json))
  | .obj members => .ok members
  | v => if v.isNothing then .ok [] else .error (.noOperation v.typeName operation)

/-- The members of a section, on which an operation is used. -/
def sectionOf (config : Json) (name operation : String) :
    Except Refusal (List (String × Json)) :=
  (membersOf "get" config).bind fun sections =>
    membersOf operation ((sections.lookup name).getD .null)

/-- Makes settings one after another. What is unknown or refused is logged and passed over. -/
def applySettings (c : Catalog) (i : Instrument) :
    List (String × Json) → List LogLine × Except Failure Instrument
  | [] => ([], .ok i)
  | (key, value) :: rest =>
    match setting? key with
    | none =>
      let (log, result) := applySettings c i rest
      (.warn s!"Ignoring unknown instrument setting '{key}'" :: log, result)
    | some s =>
      match s.apply c i value.display 10 with
      | .ok j => applySettings c j rest
      | .error (.refused why) =>
        let (log, result) := applySettings c i rest
        (.warn s!"Ignoring instrument setting {key}={value.display}: {why.message}" :: log, result)
      | .error why => ([], .error why)

/-- The instrument that a configuration sets up. -/
def instrument (c : Catalog) (config : Json) : List LogLine × Except Failure Instrument :=
  match sectionOf config "instrument" "items" with
  | .error why => ([], .error (.refused why))
  | .ok settings => applySettings c .initial settings

/-- The tempo of a configuration, 120 beats per minute if it names none. -/
def bpm (config : Json) : Except Refusal Json :=
  (sectionOf config "conductor" "get").map fun settings =>
    (settings.lookup "bpm").getD (.int 120)

/-- The MIDI output that a configuration names. -/
def device (config : Json) : Except Refusal Json :=
  (sectionOf config "midi" "get").map fun settings =>
    (settings.lookup "device_name").getD .null

end Config

end ChordSequencer.CommandLine
