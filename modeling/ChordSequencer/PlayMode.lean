import ChordSequencer.Refusal
import ChordSequencer.Text.LetterCase
import ChordSequencer.Text.Numeral

/-!
# Play modes

How the voices of a chord are played: all together, or one after another in an order that depends
on their generation order and on their parity.
-/

namespace ChordSequencer

open Text

/-- The direction in which a run of voices is played. -/
inductive Direction
  | up
  | down
  deriving DecidableEq, Repr

/-- The parity of a pitch. -/
inductive Parity
  | even
  | odd
  deriving DecidableEq, Repr

/-- How the voices of a chord are played. -/
inductive PlayMode
  /-- All voices sound together. -/
  | chord
  /-- The voices one after another. -/
  | ascending
  /-- The voices one after another, last voice first. -/
  | descending
  /-- Up to the last voice and back. -/
  | ascDesc
  /-- Down to the first voice and back. -/
  | descAsc
  /-- The voices of one parity, then those of the other, each in a direction. -/
  | split (first : Parity) (direction other : Direction)
  deriving DecidableEq, Repr

namespace Direction

/-- The voices in the order of the direction. -/
def run : Direction → List Int → List Int
  | up, notes => notes
  | down, notes => notes.reverse

theorem mem_run {d : Direction} {notes : List Int} {note : Int} :
    note ∈ d.run notes ↔ note ∈ notes := by
  cases d with
  | up => exact Iff.rfl
  | down => exact List.mem_reverse

/-- The short name of a direction. -/
def name : Direction → String
  | up => "ASC"
  | down => "DESC"

end Direction

namespace Parity

/-- The other parity. -/
def other : Parity → Parity
  | even => odd
  | odd => even

/-- The pitch has the parity. -/
def holds : Parity → Int → Bool
  | even, n => n % 2 == 0
  | odd, n => n % 2 == 1

/-- The name of a parity. -/
def name : Parity → String
  | even => "EVEN"
  | odd => "ODD"

end Parity

namespace PlayMode

/-- All modes in the order of their numbers. -/
def all : List PlayMode := [
  chord, ascending, descending, ascDesc, descAsc,
  split .even .up .up, split .even .up .down, split .even .down .down, split .even .down .up,
  split .odd .up .up, split .odd .up .down, split .odd .down .down, split .odd .down .up]

/-- The number of a mode. -/
def number : PlayMode → Nat
  | chord => 0
  | ascending => 1
  | descending => 2
  | ascDesc => 3
  | descAsc => 4
  | split .even .up .up => 5
  | split .even .up .down => 6
  | split .even .down .down => 7
  | split .even .down .up => 8
  | split .odd .up .up => 9
  | split .odd .up .down => 10
  | split .odd .down .down => 11
  | split .odd .down .up => 12

/-- The name of a mode, in capitals. -/
def name : PlayMode → String
  | chord => "CHORD"
  | ascending => "ASCENDING"
  | descending => "DESCENDING"
  | ascDesc => "ASC_DESC"
  | descAsc => "DESC_ASC"
  | split p d e => s!"{p.name}_{d.name}_{p.other.name}_{e.name}"

/-- The mode of a number. -/
def ofNumber? (n : Int) : Option PlayMode :=
  if 0 ≤ n then all[n.toNat]? else none

/-- The mode of a number that is given as such. -/
def ofNumber (n : Int) : Except Refusal PlayMode :=
  match ofNumber? n with
  | some mode => .ok mode
  | none => .error (.playModeNumber n)

/-- The names of all modes in lower case. -/
def lowerNames : List String := all.map fun mode => String.ofList (lower mode.name.toList)

/-- The mode that a text gives, as a number in the base or else by its name in any case. -/
def ofText (text : String) (base : Nat) : Except Refusal PlayMode :=
  let s := strip text.toList
  match Numeral.read? base s with
  | some n =>
    match ofNumber? n with
    | some mode => .ok mode
    | none => .error (.playModeNumeral (String.ofList s))
  | none =>
    match all.find? (·.name.toList == capitals s) with
    | some mode => .ok mode
    | none => .error (.playModeName text lowerNames)

/-- The runs in which a mode plays the voices one after another; a chord has none. -/
def runs (mode : PlayMode) (notes : List Int) : List (List Int) :=
  match mode with
  | chord => []
  | ascending => [notes]
  | descending => [notes.reverse]
  | ascDesc => [notes.dropLast, notes.reverse]
  | descAsc => [notes.reverse, notes.tail]
  | split p d e => [d.run (notes.filter p.holds), e.run (notes.filter p.other.holds)]

/-- The order in which a mode plays the voices one after another. -/
def arpeggio (mode : PlayMode) (notes : List Int) : List Int := (mode.runs notes).flatten

theorem mem_of_mem_arpeggio {mode : PlayMode} {notes : List Int} {note : Int}
    (h : note ∈ mode.arpeggio notes) : note ∈ notes := by
  obtain ⟨run, mem, inRun⟩ := List.mem_flatten.1 h
  cases mode with
  | chord => cases mem
  | ascending =>
    cases List.mem_singleton.1 mem
    exact inRun
  | descending =>
    cases List.mem_singleton.1 mem
    exact List.mem_reverse.1 inRun
  | ascDesc =>
    simp only [runs, List.mem_cons, List.not_mem_nil, or_false] at mem
    rcases mem with rfl | rfl
    · exact List.dropLast_subset _ inRun
    · exact List.mem_reverse.1 inRun
  | descAsc =>
    simp only [runs, List.mem_cons, List.not_mem_nil, or_false] at mem
    rcases mem with rfl | rfl
    · exact List.mem_reverse.1 inRun
    · exact List.mem_of_mem_tail inRun
  | split p d e =>
    simp only [runs, List.mem_cons, List.not_mem_nil, or_false] at mem
    rcases mem with rfl | rfl
    · exact (List.mem_filter.1 (Direction.mem_run.1 inRun)).1
    · exact (List.mem_filter.1 (Direction.mem_run.1 inRun)).1

end PlayMode

end ChordSequencer
