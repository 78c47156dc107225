import ChordSequencer.Number.Reading

/-!
# Command line arguments

One argument is the song file. Options begin with two dashes, may be shortened as far as they stay
unique, and take a value, either after an equals sign or as the next argument. After two dashes
alone nothing is an option any more.
-/

namespace ChordSequencer.CommandLine

open Text

/-- What the arguments say. -/
structure Arguments where
  /-- The file of the song. -/
  song : String
  /-- The file of the configuration. -/
  config : String
  /-- The tempo in beats per minute. -/
  bpm : Option Float
  /-- The name of the MIDI output. -/
  device : Option String
  /-- The file to record to. -/
  record : Option String
  /-- How long to play, in seconds. -/
  seconds : Option Float

/-- Why the program ends before it begins. -/
inductive Exit
  /-- The help was asked for. -/
  | help
  /-- The arguments make no sense. -/
  | usage
  deriving DecidableEq, Repr

/-- The status that the program ends with. -/
def Exit.status : Exit → Nat
  | help => 0
  | usage => 2

/-- The options that take a value, and the one that does not. -/
inductive Switch
  | config
  | bpm
  | device
  | record
  | seconds
  | help
  deriving DecidableEq, Repr

namespace Switch

/-- All options. -/
def all : List Switch := [config, bpm, device, record, seconds, help]

/-- The name of an option. -/
def name : Switch → String
  | config => "--config"
  | bpm => "--bpm"
  | device => "--device"
  | record => "--record"
  | seconds => "--seconds"
  | help => "--help"

/-- The options that a text may stand for: the one of this name, or else all whose names begin with
it. -/
def candidates (text : List Char) : List Switch :=
  match all.find? (·.name.toList == text) with
  | some s => [s]
  | none => all.filter fun s => text.isPrefixOf s.name.toList

end Switch

/-- What an argument is by itself. -/
inductive Word
  /-- A value: the song, or what an option takes. -/
  | plain (text : String)
  /-- An option, with the value after its equals sign. -/
  | switch (s : Switch) (attached : Option String)
  /-- The short option for help, with the letters that follow it. -/
  | shortHelp (letters : List Char)
  /-- Something that looks like an option but is none. -/
  | unknown
  /-- The two dashes after which there are no options. -/
  | dashes
  deriving DecidableEq, Repr

namespace Word

/-- A negative number: digits after a dash, with a point among or before them. -/
def isNegativeNumber (s : List Char) : Bool :=
  match s with
  | '-' :: r =>
    let whole := r.takeWhile isDigit
    let ended (t : List Char) : Bool := t.isEmpty || t == ['\n']
    match r.dropWhile isDigit with
    | '.' :: t => !(t.takeWhile isDigit).isEmpty && ended (t.dropWhile isDigit)
    | t => !whole.isEmpty && ended t
  | _ => false

/-- A text with a dash in front that is no option: a value if it is a negative number or holds a
space. -/
def ofOther (text : String) : Word :=
  if isNegativeNumber text.toList || text.toList.contains ' ' then plain text else unknown

/-- What an argument before the two dashes is. An option that is shortened too far is an error
wherever it stands. -/
def ofText (text : String) : Except Exit Word :=
  match text.toList with
  | ['-', '-'] => .ok dashes
  | '-' :: '-' :: r =>
    let full := '-' :: '-' :: r
    let label := full.takeWhile (· ≠ '=')
    let attached := match full.dropWhile (· ≠ '=') with
      | [] => none
      | _ :: value => some (String.ofList value)
    match Switch.candidates label with
    | [] => .ok (ofOther text)
    | [s] => .ok (switch s attached)
    | _ => .error .usage
  | '-' :: 'h' :: r => .ok (shortHelp r)
  | '-' :: _ :: _ => .ok (ofOther text)
  | _ => .ok (plain text)

/-- What the arguments are. -/
def ofTexts : List String → Except Exit (List Word)
  | [] => .ok []
  | text :: rest =>
    match ofText text with
    | .error e => .error e
    | .ok dashes => .ok (dashes :: rest.map plain)
    | .ok w => (ofTexts rest).map (w :: ·)

end Word

/-- What the arguments have said so far. -/
structure Draft where
  /-- The song. -/
  song : Option String
  /-- All else. -/
  rest : Arguments
  /-- Something was left over. -/
  surplus : Bool

namespace Draft

/-- Nothing has been said. -/
def start : Draft := ⟨none, ⟨"", "config.yaml", none, none, none, none⟩, false⟩

/-- Takes the value of an option. -/
def set (d : Draft) (s : Switch) (value : String) : Except Exit Draft :=
  let a := d.rest
  match s with
  | .config => .ok { d with rest := { a with config := value } }
  | .device => .ok { d with rest := { a with device := some value } }
  | .record => .ok { d with rest := { a with record := some value } }
  | .bpm =>
    match Number.readDouble? value with
    | some x => .ok { d with rest := { a with bpm := some x } }
    | none => .error .usage
  | .seconds =>
    match Number.readDouble? value with
    | some x => .ok { d with rest := { a with seconds := some x } }
    | none => .error .usage
  | .help => .error .usage

/-- Takes a value as the song; a second one is left over. -/
def place (d : Draft) (text : String) : Draft :=
  match d.song with
  | none => { d with song := some text }
  | some _ => { d with surplus := true }

/-- What letters after the short option for help lead to: they are short options themselves, of
which the first unknown one comes too late, but none of them takes a value or is a dash. -/
def shortHelp : List Char → Exit
  | [] => .help
  | '-' :: _ => .usage
  | '=' :: _ => .usage
  | 'h' :: r => shortHelp r
  | _ => .help

/-- Reads the arguments in their order. The two dashes go with the song if they stand next to
it. -/
def read (d : Draft) : List Word → Except Exit Draft
  | [] => .ok d
  | .switch .help none :: _ => .error .help
  | .switch .help (some _) :: _ => .error .usage
  | .switch s (some value) :: rest => (d.set s value).bind fun d => read d rest
  | .switch s none :: .plain value :: rest => (d.set s value).bind fun d => read d rest
  | .switch _ none :: _ => .error .usage
  | .shortHelp letters :: _ => .error (shortHelp letters)
  | .unknown :: rest => read { d with surplus := true } rest
  | .dashes :: .plain text :: rest =>
    if d.song.isNone then read (d.place text) rest
    else read { d with surplus := true } (.plain text :: rest)
  | .dashes :: rest => read { d with surplus := true } rest
  | .plain text :: .dashes :: rest =>
    if d.song.isNone then read (d.place text) rest
    else read { d with surplus := true } (.dashes :: rest)
  | .plain text :: rest => read (d.place text) rest

/-- The arguments, if the song was named and nothing was left over. -/
def finish (d : Draft) : Except Exit Arguments :=
  match d.song, d.surplus with
  | some song, false => .ok { d.rest with song }
  | _, _ => .error .usage

end Draft

/-- Reads the arguments of the command line. -/
def Arguments.ofTexts (argv : List String) : Except Exit Arguments :=
  (Word.ofTexts argv).bind fun words => (Draft.start.read words).bind Draft.finish

end ChordSequencer.CommandLine
