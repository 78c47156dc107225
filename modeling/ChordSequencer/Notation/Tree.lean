import ChordSequencer.Notation.Fault

/-!
# Syntax trees

What a song text says, in the shape in which it says it. The compact form is a list of blocks of
commands and content; the nested form has parts of blocks, in which groups of notes stand inside
one another.
-/

namespace ChordSequencer

/-- A code with its value. -/
structure Command where
  /-- The code. -/
  code : String
  /-- The value as it is written. -/
  value : String
  deriving DecidableEq, Repr

/-- The written form of a command. -/
def Command.render (c : Command) : String := c.code ++ c.value

namespace Notation

/-- A block of the compact form. -/
structure CompactBlock where
  /-- The first command. -/
  head : Command
  /-- The other commands. -/
  tail : List Command
  /-- What the block plays. -/
  content : String
  deriving DecidableEq, Repr

/-- What a block of the nested form plays, piece by piece. -/
inductive Item
  /-- A note, maybe with a note value of its own. -/
  | note (value : String) (duration : Option String)
  /-- Items with the note value that holds for them. -/
  | group (duration : String) (items : List Item)
  deriving Repr

/-- A name with its value. -/
structure Attribute where
  /-- The name. -/
  name : String
  /-- The value as it is written. -/
  value : String
  deriving DecidableEq, Repr

/-- A block of the nested form. -/
structure NestedBlock where
  /-- What the block plays. -/
  items : List Item
  /-- Its attributes. -/
  attributes : List Attribute
  deriving Repr

/-- What a song text says. -/
inductive Tree
  /-- The blocks of the compact form, of which there is at least one. -/
  | compact (head : CompactBlock) (tail : List CompactBlock)
  /-- The blocks of each part of the nested form. -/
  | nested (parts : List (List NestedBlock))
  deriving Repr

/-- The outcome of reading a song text: what it says, or what is wrong with it. -/
structure Reading where
  /-- What the text says. -/
  tree : Option Tree
  /-- What is wrong with the text. -/
  faults : List Fault
  deriving Repr

/-- The text says something and nothing is wrong with it. -/
def Reading.ok (r : Reading) : Bool := r.tree.isSome && r.faults.isEmpty

/-- A reading without faults. -/
def Reading.success (t : Tree) : Reading := ⟨some t, []⟩

/-- A reading with faults. -/
def Reading.failure (faults : List Fault) : Reading := ⟨none, faults⟩

end Notation

end ChordSequencer
