/-!
# Syntax faults

A fault is what is wrong with a song text and where. Only a line feed ends a line, and lines and
columns are counted from 1.
-/

namespace ChordSequencer.Notation

/-- What can be wrong with a song text. -/
inductive Cause
  /-- The text is blank. -/
  | emptySong
  /-- A block of the compact form has no colon. -/
  | missingColon (chunk : String)
  /-- Nothing stands before the colon. -/
  | missingCommands
  /-- Nothing stands after the colon. -/
  | missingContent
  /-- A character that the content of a block cannot hold. -/
  | contentChar (c : Char)
  /-- Nothing stands between two commas. -/
  | missingCommand
  /-- Something other than a letter and a value between commas. -/
  | invalidCommand (piece : String)
  /-- A character of the nested form that belongs to no token. -/
  | strayChar (c : Char)
  /-- A bracket is missing, before the token that was found or at the end of the text. -/
  | expected (bracket place : String) (found : Option String)
  /-- Something follows the song. -/
  | afterSong (found : String)
  /-- The text ends inside a block. -/
  | unclosedBlock
  /-- A block that plays nothing. -/
  | noNotes
  /-- A token that cannot stand in a block. -/
  | inBlock (found : String)
  /-- A group holds something other than notes, or the text ends inside it. -/
  | expectedNote (found : Option String)
  /-- A group that plays nothing. -/
  | emptyGroup (tag : String)
  /-- A fault worded by somebody else. -/
  | worded (message : String)
  deriving DecidableEq, Repr

/-- What was found in place of something else. -/
def Cause.foundText : Option String → String
  | none => "end of text"
  | some token => s!"'{token}'"

/-- The wording of a cause. -/
def Cause.message : Cause → String
  | emptySong => "Empty song"
  | missingColon chunk => s!"Expected ':' between commands and content in '{chunk}'"
  | missingCommands => "Expected at least one command before ':'"
  | missingContent => "Expected block content after ':'"
  | contentChar c => s!"Unexpected character '{c}' in block content"
  | missingCommand => "Expected a command"
  | invalidCommand piece => s!"Invalid command '{piece}' (expected a letter followed by a value)"
  | strayChar c => s!"Unexpected character '{c}'"
  | expected bracket place found => s!"Expected '{bracket}' {place}, found {foundText found}"
  | afterSong found => s!"Unexpected '{found}' after the end of the song"
  | unclosedBlock => "Unclosed block, expected '\x7d'"
  | noNotes => "Block has no notes"
  | inBlock found => s!"Unexpected '{found}' in block"
  | expectedNote found => s!"Expected a note, found {foundText found}"
  | emptyGroup tag => s!"Empty group after '{tag}'"
  | worded message => message

/-- Something wrong at a place of a text. -/
structure Fault where
  /-- What is wrong. -/
  cause : Cause
  /-- The number of characters before the place; below zero, a place counted from the end. -/
  position : Int
  /-- The text. -/
  text : List Char
  deriving DecidableEq, Repr

namespace Fault

variable (f : Fault)

/-- The wording of a fault without its place. -/
def message : String := f.cause.message

/-- The text before the place. -/
def before : List Char :=
  f.text.take (if f.position < 0 then f.position + f.text.length else f.position).toNat

/-- The line of the place. -/
def line : Nat := f.before.count '\n' + 1

/-- The number of characters before the line of the place. -/
def lineStart : Nat := f.before.length - (f.before.reverse.takeWhile (· ≠ '\n')).length

/-- The column of the place. -/
def column : Int := f.position - f.lineStart + 1

/-- The wording of a fault with its place. -/
def describe : String := s!"{f.message} (line {f.line}, column {f.column})"

end Fault

end ChordSequencer.Notation
