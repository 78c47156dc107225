import ChordSequencer.CommandLine.Arguments
import ChordSequencer.CommandLine.Config
import ChordSequencer.Conductor.Time
import ChordSequencer.Midi.Device
import ChordSequencer.Midi.Recording

/-!
# Sessions

A session is what the program does with its arguments: it loads the song, sets up the instrument,
plays on a recorder or on a MIDI device, and closes it. The recording is closed even when playback
fails, so that what was played is kept.
-/

namespace ChordSequencer.CommandLine

/-- What a session leaves behind. -/
structure Report where
  /-- What was logged. -/
  log : List LogLine
  /-- The status of the program, or why it failed. -/
  outcome : Except Failure Nat
  /-- The file to be written: its path and its bytes. -/
  file : Option (String × List UInt8)
  /-- The MIDI output. -/
  device : Option Device

namespace Report

/-- The report when a file could not be written. -/
def unsaved (r : Report) (reason : String) : Report :=
  { r with log := r.log ++ [.fail s!"Failed to save MIDI recording: {reason}"], file := none }

/-- Why a file cannot be written in a folder that is not there. -/
def missingFolder (path : String) : String :=
  s!"[Errno 2] No such file or directory: {Text.quote path}"

/-- The folder of a path: what stands before its last slash. -/
def folderOf (path : String) : List Char :=
  ((path.toList.reverse.dropWhile (· ≠ '/')).drop 1).reverse

/-- The report where only the given folders are there besides the one that the program runs in. -/
def within (r : Report) (folders : List String) : Report :=
  match r.file with
  | none => r
  | some (path, _) =>
    if (folderOf path).isEmpty || folders.any (·.toList == folderOf path) then r
    else r.unsaved (missingFolder path)

end Report

/-- The text of a file with all line ends written as line feeds. -/
def unifyLines : List Char → List Char
  | '\r' :: '\n' :: r => '\n' :: unifyLines r
  | '\r' :: r => '\n' :: unifyLines r
  | c :: r => c :: unifyLines r
  | [] => []

/-- Where the triggers of a session go. -/
inductive Output
  /-- They are recorded to be written to a file. -/
  | file (path : String) (r : Recording)
  /-- They are sent to a device. -/
  | live (d : Device)

/-- The number that a tempo is. -/
def beats (bpm : Json) : Except Refusal Float :=
  match bpm.double? with
  | some x => .ok x
  | none => .error (.noOrder bpm.typeName)

namespace Output

/-- The MIDI output that is asked for. Only a text can be the name of one; anything else fails as
soon as there is a name to compare it with. -/
def deviceFor (supply : DeviceSupply) : Json → Device
  | .null => .ofName supply none
  | .str name => .ofName supply (some name)
  | v =>
    match supply.listFailure with
    | some reason => .without s!"Failed to open MIDI output: {reason}"
    | none =>
      if supply.available.isEmpty then
        .without s!"No MIDI output matching {v.quoted}. Available: {Refusal.listed []}"
      else
        let reason := (Refusal.noOperation v.typeName "lower").message
        .without s!"Failed to open MIDI output: {reason}"

/-- The output that the arguments ask for; recording needs a positive tempo. -/
def choose (args : Arguments) (supply : DeviceSupply) (bpm device : Json) :
    Except Refusal Output :=
  match args.record with
  | none => .ok (.live (deviceFor supply device))
  | some path =>
    if path = "" then .ok (.live (deviceFor supply device))
    else (beats bpm).bind fun bpm => (Recording.create bpm).map (.file path)

/-- What opening the output logged. -/
def log : Output → List LogLine
  | file _ _ => []
  | live d => d.log.reverse

/-- Hands a trigger to the output. -/
def send (o : Output) (time : Float) (t : Trigger) : Except Refusal Output :=
  match o with
  | file path r => (r.record time (.ofTrigger t)).map (.file path)
  | live d => (d.send (.ofTrigger t)).map .live

/-- Hands triggers to the output up to the first that is refused. -/
def sendAll : Output → List (Float × Trigger) → Output × Except Failure Unit
  | o, [] => (o, .ok ())
  | o, (time, t) :: rest =>
    match o.send time t with
    | .ok o => sendAll o rest
    | .error why => (o, .error (.refused why))

end Output

/-- A report on a session that ends before its output is closed. -/
def Report.early (log : List LogLine) (o : Option Output) (outcome : Except Failure Nat) : Report :=
  { log, outcome, file := none, device := match o with
    | some (.live d) => some d
    | _ => none }

/-- Closes the output. A recording that cannot be written fails in place of what happened before. -/
def Report.closing (log : List LogLine) (o : Output) (result : Except Failure Unit) : Report :=
  let outcome : Except Failure Nat := result.map fun _ => 0
  match o with
  | .live d => { log, outcome, file := none, device := some d.close }
  | .file path r =>
    match r.file with
    | .error why => { log, outcome := .error why, file := none, device := none }
    | .ok bytes => { log, outcome, file := bytes.map (path, ·), device := none }

/-- The conductor of a session. Its tempo must also fit into a double. -/
def conductor (bpm : Json) : Except Failure Conductor :=
  match (beats bpm).bind (Conductor.create true .standard) with
  | .error why => .error (.refused why)
  | .ok c => if bpm.isTooLarge then .error .tooLarge else .ok c

/-- Plays a song on an output. -/
def perform (turns : Nat) (args : Arguments) (config : Json) (song : Song) (bpm : Json)
    (log : List LogLine) (output : Output) : Report :=
  match conductor bpm with
  | .error why => .early log (some output) (.error why)
  | .ok c =>
    match Config.instrument .standard config with
    | (warnings, .error why) => .early (log ++ warnings) (some output) (.error why)
    | (warnings, .ok i) =>
      let (c, result) := { c with song := some song, instrument := some i }.play turns args.seconds
      let (output, sending) := output.sendAll c.sent.reverse
      .closing (log ++ warnings ++ c.log.reverse) output (sending.bind fun _ => result)

/-- The tempo that the arguments name, or else the configuration. -/
def tempo (args : Arguments) (config : Json) : Except Refusal Json :=
  match args.bpm with
  | some bpm => .ok (.float bpm)
  | none => Config.bpm config

/-- The MIDI output that the arguments name, or else the configuration. -/
def wanted (args : Arguments) (config : Json) : Except Refusal Json :=
  match args.device with
  | some name => .ok (.str name)
  | none => Config.device config

/-- The tempo and the output of a session. -/
def prepare (args : Arguments) (config : Json) (supply : DeviceSupply) :
    Except Refusal (Json × Output) :=
  (tempo args config).bind fun bpm =>
    (wanted args config).bind fun device =>
      (Output.choose args supply bpm device).map (bpm, ·)

/-- Runs the program with its arguments, the configuration if there is one, and the text of the song
file. -/
def run (turns : Nat) (args : Arguments) (config : Option Json) (songText : String)
    (supply : DeviceSupply) : Report :=
  let found : List LogLine := match config with
    | some _ => []
    | none => [.warn s!"Config file {args.config} not found. Using defaults."]
  let config := config.getD (.obj [])
  match Config.sectionOf config "logging" "get" with
  | .error why => .early found none (.error (.refused why))
  | .ok _ =>
    match Song.load (String.ofList (unifyLines songText.toList)) with
    | (none, log) =>
      .early (found ++ log ++ [.fail s!"Could not load song from {args.song}"]) none (.ok 1)
    | (some song, log) =>
      match prepare args config supply with
      | .error why => .early (found ++ log) none (.error (.refused why))
      | .ok (bpm, output) => perform turns args config song bpm (found ++ log ++ output.log) output

end ChordSequencer.CommandLine
