/-!
# The log

What a run reports besides its result: warnings about what it passed over and errors about what it
could not do.
-/

namespace ChordSequencer

/-- How serious a log line is. -/
inductive LogLevel
  | warning
  | error
  deriving DecidableEq, Repr

/-- The word that a log shows for a level. -/
def LogLevel.name : LogLevel → String
  | warning => "WARNING"
  | error => "ERROR"

/-- A line of the log. -/
structure LogLine where
  /-- How serious it is. -/
  level : LogLevel
  /-- What it says. -/
  text : String
  deriving DecidableEq, Repr

/-- A warning. -/
def LogLine.warn (text : String) : LogLine := ⟨.warning, text⟩

/-- A report of an error. -/
def LogLine.fail (text : String) : LogLine := ⟨.error, text⟩

end ChordSequencer
