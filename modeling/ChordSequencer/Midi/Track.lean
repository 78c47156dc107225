import ChordSequencer.Midi.Message
import ChordSequencer.Number.Double

/-!
# MIDI files

A track is a tempo followed by messages, each with the number of ticks since the one before. A file
holds one track. Numbers of ticks are written in base 128, the most significant digit first, and all
bytes but the last have their high bit set. A message whose status is that of the message before is
written without it.
-/

namespace ChordSequencer

open Number

/-- A tempo and messages with the ticks before them. -/
structure Track where
  /-- The time between two beats in microseconds. -/
  tempo : Nat
  /-- The messages with the ticks before them. -/
  messages : List (Nat × Message)
  deriving DecidableEq, Repr

namespace Track

/-- The ticks of a beat. -/
def ticksPerBeat : Nat := 480

/-- The whole number nearest to a double. -/
def wholeNumber (x : Float) : Except Failure Int :=
  match exact x with
  | .undefined => .error (.refused .undefinedTime)
  | .infinite _ => .error .tooLarge
  | .finite negative mantissa exponent => .ok (Exact.round negative mantissa exponent)

/-- The microseconds between two beats at a tempo in beats per minute. -/
def tempoOf (bpm : Float) : Except Failure Nat :=
  match wholeNumber (60000000.0 / bpm) with
  | .error why => .error why
  | .ok n => if 0 ≤ n ∧ n ≤ 16777215 then .ok n.toNat else .error (.refused .beatRange)

/-- The tick of a time at a tempo in beats per minute. -/
def tickOf (bpm seconds : Float) : Except Failure Int :=
  wholeNumber (seconds * (480.0 * bpm / 60.0))

/-- The messages with the ticks since the latest tick so far; a message that is earlier comes at
once. -/
def messagesFrom (bpm : Float) (latest : Int) :
    List (Float × Message) → Except Failure (List (Nat × Message))
  | [] => .ok []
  | (seconds, m) :: rest =>
    match tickOf bpm seconds with
    | .error why => .error why
    | .ok tick =>
      (messagesFrom bpm (max tick latest) rest).map (((tick - latest).toNat, m) :: ·)

/-- The track of recorded messages with their times in seconds, which need not be in order. -/
def ofRecorded (bpm : Float) (recorded : List (Float × Message)) : Except Failure Track :=
  match tempoOf bpm with
  | .error why => .error why
  | .ok tempo =>
    (messagesFrom bpm 0 (recorded.mergeSort fun a b => a.1 ≤ b.1)).map (⟨tempo, ·⟩)

/-- A number in base 256 with the given number of bytes, the most significant first. -/
def bigEndian : Nat → Nat → List UInt8
  | 0, _ => []
  | size + 1, n => (n / Nat.pow 256 size % 256).toUInt8 :: bigEndian size n

/-- The digits of a number in base 128 before its last one, all with their high bit set. -/
def leadingDigits (n : Nat) : List UInt8 :=
  if n = 0 then [] else leadingDigits (n / 128) ++ [(n % 128 + 128).toUInt8]
termination_by n
decreasing_by omega

/-- A number of ticks. -/
def ticks (n : Nat) : List UInt8 := leadingDigits (n / 128) ++ [(n % 128).toUInt8]

/-- The messages of a track, of which the one before had the given status. -/
def messageBytes (status : Option Nat) : List (Nat × Message) → List UInt8
  | [] => []
  | (delta, m) :: rest =>
    let body := if status = some m.statusByte then m.dataBytes else m.bytes
    ticks delta ++ body.map Nat.toUInt8 ++ messageBytes (some m.statusByte) rest

/-- The characters of a chunk name as bytes. -/
def chunkName (name : String) : List UInt8 := name.toList.map fun c => c.toNat.toUInt8

/-- A chunk: its name, its length and its content. -/
def chunk (name : String) (content : List UInt8) : List UInt8 :=
  chunkName name ++ bigEndian 4 content.length ++ content

variable (t : Track)

/-- The content of the track chunk: the tempo, the messages and the end. -/
def content : List UInt8 :=
  [0x00, 0xFF, 0x51, 0x03] ++ bigEndian 3 t.tempo ++ messageBytes none t.messages ++
    [0x00, 0xFF, 0x2F, 0x00]

/-- The file of one track. -/
def file : List UInt8 :=
  chunk "MThd" (bigEndian 2 1 ++ bigEndian 2 1 ++ bigEndian 2 ticksPerBeat) ++
    chunk "MTrk" t.content

end Track

end ChordSequencer
