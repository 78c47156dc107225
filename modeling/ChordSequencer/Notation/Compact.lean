import ChordSequencer.Notation.Tree
import ChordSequencer.Text.Blank

/-!
# The compact form

A song is a list of blocks between blanks. A block is a list of commands between commas, a colon and
the content; a command is a letter and a value. Each block is read on its own, so that a fault in
one does not hide those of the others.
-/

namespace ChordSequencer.Notation

open Text

/-- The ASCII letters. -/
def isLetter (c : Char) : Bool := ('a' ≤ c && c ≤ 'z') || ('A' ≤ c && c ≤ 'Z')

/-- The ASCII digits. -/
def isAsciiDigit (c : Char) : Bool := '0' ≤ c && c ≤ '9'

namespace CompactBlock

/-- The characters of the value of a command. -/
def isValueChar (c : Char) : Bool := isLetter c || isAsciiDigit c || c == '-'

/-- The characters of the content of a block. -/
def isContentChar (c : Char) : Bool := isLetter c || isAsciiDigit c || c == '.' || c == '='

/-- Cuts a text at a character: the first piece and the others. -/
def cutAt (sep : Char) : List Char → List Char × List (List Char)
  | [] => ([], [])
  | c :: r =>
    let (piece, pieces) := cutAt sep r
    if c = sep then ([], piece :: pieces) else (c :: piece, pieces)

/-- A command is a letter and a value of at least one character. -/
def readCommand : List Char → Except Cause Command
  | [] => .error .missingCommand
  | c :: value =>
    if isLetter c && !value.isEmpty && value.all isValueChar then
      .ok ⟨String.singleton c, String.ofList value⟩
    else .error (.invalidCommand (String.ofList (c :: value)))

/-- Reads the commands of a block, the first of which begins at `offset`. -/
def readCommands (offset : Nat) : List (List Char) → Except (Cause × Nat) (List Command)
  | [] => .ok []
  | piece :: pieces =>
    match readCommand piece with
    | .error cause => .error (cause, offset)
    | .ok command =>
      (readCommands (offset + piece.length + 1) pieces).map (command :: ·)

/-- Reads a block. A fault comes with its distance from the start of the block; the content is
looked at before the commands. -/
def read (chunk : List Char) : Except (Cause × Nat) CompactBlock :=
  let head := chunk.takeWhile (· ≠ ':')
  match chunk.dropWhile (· ≠ ':') with
  | [] => .error (.missingColon (String.ofList chunk), chunk.length)
  | _ :: content =>
    if head.isEmpty then .error (.missingCommands, 0)
    else if content.isEmpty then .error (.missingContent, head.length + 1)
    else
      match content.dropWhile isContentChar with
      | c :: r => .error (.contentChar c, chunk.length - (c :: r).length)
      | [] =>
        let (first, others) := cutAt ',' head
        match readCommand first with
        | .error cause => .error (cause, 0)
        | .ok command =>
          (readCommands (first.length + 1) others).map fun commands =>
            ⟨command, commands, String.ofList content⟩

end CompactBlock

/-- Reads the block at a position of a text. -/
def readChunk (text : List Char) (position : Nat) (chunk : List Char) :
    Except Fault CompactBlock :=
  match CompactBlock.read chunk with
  | .ok block => .ok block
  | .error (cause, offset) => .error ⟨cause, position + offset, text⟩

/-- The blocks of a compact text that can be read. -/
def compactBlocks (text : List Char) : List CompactBlock :=
  (chunks text).filterMap fun (position, chunk) =>
    match readChunk text position chunk with
    | .ok block => some block
    | .error _ => none

/-- The faults of the blocks of a compact text. -/
def compactFaults (text : List Char) : List Fault :=
  (chunks text).filterMap fun (position, chunk) =>
    match readChunk text position chunk with
    | .ok _ => none
    | .error fault => some fault

/-- Reads the compact form. -/
def readCompact (text : List Char) : Reading :=
  match compactFaults text, compactBlocks text with
  | [], [] => .failure [⟨.emptySong, 0, text⟩]
  | [], head :: tail => .success (.compact head tail)
  | faults, _ => .failure faults

end ChordSequencer.Notation
