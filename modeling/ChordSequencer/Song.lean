import ChordSequencer.Log
import ChordSequencer.Notation.Reading
import ChordSequencer.Setting

/-!
# Songs

A song is a list of blocks: commands, and the selectors to play after them. A compact text is a song
as it stands. A nested one is flattened: each run of items with one note value becomes a block that
begins with the command for this note value.

A block is written out as often as it is to be played, however often that is, and groups are
flattened at any depth. The memory that a song takes and the depth to which a host can recurse are
taken to be without limit.
-/

namespace ChordSequencer

open Notation Text

/-- Commands and what to play after them. -/
structure Block where
  /-- The commands. -/
  commands : List Command
  /-- What to play. -/
  content : String
  /-- What separates the selectors; without it each character is one. -/
  separator : Option String
  deriving DecidableEq, Repr

/-- The selectors of a block in the order in which they are played. -/
def Block.selectors (b : Block) : List String :=
  match b.separator with
  | none => b.content.toList.map String.singleton
  | some _ => (words b.content.toList).map String.ofList

/-- The base of the numbers of a block: the compact form is hexadecimal. -/
def Block.base (b : Block) : Nat :=
  match b.separator with
  | none => 16
  | some _ => 10

/-- A list of blocks. -/
structure Song where
  /-- The blocks. -/
  blocks : List Block
  deriving DecidableEq, Repr

namespace Song

/-- The block that a block of the compact form is. -/
def ofCompactBlock (b : CompactBlock) : Block := ⟨b.head :: b.tail, b.content, none⟩

/-- Items of one note value that are played one after another. -/
structure Run where
  /-- The note value. -/
  duration : String
  /-- The items as they are written. -/
  notes : List String
  deriving DecidableEq, Repr

/-- The run of the notes gathered so far, the latest first; none of no notes. -/
def gathered (duration : String) : List String → List Run
  | [] => []
  | notes => [⟨duration, notes.reverse⟩]

mutual

/-- The runs of some items with a note value, of which some notes are gathered already, the latest
first. A group, or a note with another note value, ends the run. -/
def runsFrom (duration : String) : List Item → List String → List Run
  | [], notes => gathered duration notes
  | item :: items, notes =>
    match item with
    | .note value none => runsFrom duration items (value :: notes)
    | .note value (some d) =>
      if d = duration then runsFrom duration items (value :: notes)
      else gathered duration notes ++ ⟨d, [value]⟩ :: runsFrom duration items []
    | .group d inner => gathered duration notes ++ groupRuns (.group d inner) ++
        runsFrom duration items []

/-- The runs of a group. -/
def groupRuns : Item → List Run
  | .note _ _ => []
  | .group d inner => runsFrom d inner []

end

/-- The runs of some items with a note value. -/
def runs (duration : String) (items : List Item) : List Run := runsFrom duration items []

/-- The command that an attribute is: known names have a code, others are kept. -/
def commandOf (a : Attribute) : Command :=
  match Setting.ofName? a.name with
  | some s => ⟨s.code, a.value⟩
  | none => ⟨a.name, a.value⟩

/-- The block of a run, with the command for its note value first. -/
def blockOf (commands : List Command) (r : Run) : Block :=
  ⟨⟨"D", r.duration⟩ :: commands, " ".intercalate r.notes, some " "⟩

/-- The blocks of some runs; the commands stand in the first one. -/
def blocksOf (commands : List Command) : List Run → List Block
  | [] => []
  | r :: rs => blockOf commands r :: rs.map (blockOf [])

/-- The attribute says how often its block is played. -/
def isRepeat (a : Attribute) : Bool := a.name == "repeat"

/-- The number of times that the last readable count among some attributes gives, or else the
given one. -/
def repeatCount (attributes : List Attribute) (n : Int) : Int :=
  attributes.foldl (fun n a =>
    if isRepeat a then (Numeral.read? 10 a.value.toList).getD n else n) n

/-- The warnings about counts that are no numbers. -/
def repeatWarnings (attributes : List Attribute) : List LogLine :=
  attributes.filterMap fun a =>
    if isRepeat a && (Numeral.read? 10 a.value.toList).isNone then
      some (.warn s!"Ignoring invalid repeat count '{a.value}'")
    else none

/-- The commands that the attributes of a block are. -/
def commandsOf (attributes : List Attribute) : List Command :=
  (attributes.filter (!isRepeat ·)).map commandOf

/-- The blocks of a block of the nested form, as often as it is to be played but at least once. -/
def ofNestedBlock (b : NestedBlock) : List Block :=
  let once := blocksOf (commandsOf b.attributes) (runs NoteValue.quarter b.items)
  (List.replicate (max (repeatCount b.attributes 1) 1).toNat once).flatten

/-- The song that a tree says. -/
def ofTree : Tree → Song
  | .compact head tail => ⟨(head :: tail).map ofCompactBlock⟩
  | .nested parts => ⟨parts.flatten.flatMap ofNestedBlock⟩

/-- The warnings about what a tree says. -/
def treeWarnings : Tree → List LogLine
  | .compact _ _ => []
  | .nested parts => parts.flatten.flatMap fun b => repeatWarnings b.attributes

/-- The song of a reading and what is logged about it. A reading with faults has no song. -/
def ofReading (r : Reading) : Option Song × List LogLine :=
  match r.faults, r.tree with
  | [], some t => (some (ofTree t), treeWarnings t)
  | [], none => (none, [.fail "Nothing to evaluate: the parse result has no song"])
  | faults, _ => (none, faults.map fun f => .fail s!"Syntax error: {f.describe}")

/-- The song of a text and what is logged about it. -/
def load (text : String) : Option Song × List LogLine := ofReading (Notation.read text)

end Song

end ChordSequencer
