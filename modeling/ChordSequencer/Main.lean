import ChordSequencer.CommandLine.Session
import ChordSequencer.Json.Reader

/-!
# The program

Reads the song and the configuration, runs the session, writes the recording and shows the log. No
MIDI device is available to it.
-/

namespace ChordSequencer.CommandLine

/-- The text of a file, if it can be read. -/
def readIfThere (path : String) : IO (Option String) := do
  try
    return some (← IO.FS.readFile path)
  catch _ => return none

/-- Writes the file of a report. -/
def save (r : Report) : IO Report := do
  match r.file with
  | none => return r
  | some (path, bytes) =>
    try
      IO.FS.writeBinFile path ⟨bytes.toArray⟩
      return r
    catch _ => return r.unsaved (Report.missingFolder path)

/-- Runs the program on the arguments of the command line. -/
def runProgram (argv : List String) : IO UInt32 := do
  match Arguments.ofTexts argv with
  | .error exit => return exit.status.toUInt32
  | .ok args =>
    let config ← readIfThere args.config
    let song ← IO.FS.readFile args.song
    let supply : DeviceSupply := ⟨[], none, none, false⟩
    let report ← save
      (run Conductor.patience args (config.map fun text => (Json.ofText? text).getD (.obj [])) song
        supply)
    for line in report.log do
      IO.eprintln s!"{line.level.name} {line.text}"
    match report.outcome with
    | .ok status => return status.toUInt32
    | .error why =>
      IO.eprintln (why.message?.getD "A number is too large")
      return 1

end ChordSequencer.CommandLine

/-- The program. -/
def main (argv : List String) : IO UInt32 := ChordSequencer.CommandLine.runProgram argv
