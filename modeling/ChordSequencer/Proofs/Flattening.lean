import ChordSequencer.Proofs.Words
import ChordSequencer.Song

/-!
# Flattening keeps content and timing

The nested form says which word is played with which note value: a note with its own, or else with
that of the group it stands in (`Notation.Item.timed`).  A song is flat: each block begins with the
command for the note value of all its selectors.  This file shows that the song of a nested text
plays the same words with the same note values in the same order.

* `Song.runsFrom_timed` : the runs of some items, by induction on how they are found.
* `Song.timed_blocksOf` : the blocks of the runs.
* `Song.repeatCount_eq` : how often a block is played.
* `Song.commandOf_eq` : which command an attribute is.
* `Song.nested_blocks` : the whole song.
-/

namespace ChordSequencer

open Notation Text

/-! ### What the nested form says -/

/-- The words of a text, each with a note value. -/
def timedWords (duration text : String) : List (String × String) :=
  (words text.toList).map fun w => (String.ofList w, duration)

namespace Notation

mutual

/-- The words of some items in the order of the text, each with its note value. -/
def timedItems (duration : String) : List Item → List (String × String)
  | [] => []
  | item :: items => timedItem duration item ++ timedItems duration items

/-- The words of an item that stands where a note value holds. -/
def timedItem (duration : String) : Item → List (String × String)
  | .note value own => timedWords (own.getD duration) value
  | .group inner items => timedItems inner items

end

/-- How often a block is played: as the last count says that is a number, and at least once. -/
def NestedBlock.copies (b : NestedBlock) : Nat :=
  let counts := (b.attributes.filter (·.name = "repeat")).filterMap fun a =>
    Numeral.read? 10 a.value.toList
  (max (counts.getLast?.getD 1) 1).toNat

/-- The commands that the other attributes are, in their order. -/
def NestedBlock.commands (b : NestedBlock) : List Command :=
  (b.attributes.filter (·.name ≠ "repeat")).map Song.commandOf

end Notation

/-- The selectors of a block, each with the value of its first command. -/
def Block.timed (b : Block) : List (String × String) :=
  match b.commands with
  | [] => []
  | first :: _ => b.selectors.map fun selector => (selector, first.value)

theorem Setting.ofName?_eq_some_iff {name : String} {s : Setting} :
    ofName? name = some s ↔ lower (strip name.toList) = s.name.toList := by
  constructor
  · intro named
    have found := List.find?_some named
    exact (beq_iff_eq.1 found).symm
  · intro same
    rw [ofName?, same]
    cases s <;> decide

namespace Song

/-! ### Runs -/

/-- The words of a run. -/
def Run.timed (r : Run) : List (String × String) := r.notes.flatMap (timedWords r.duration)

theorem gathered_timed (duration : String) (notes : List String) :
    (gathered duration notes).flatMap Run.timed =
      notes.reverse.flatMap (timedWords duration) := by
  cases notes with
  | nil => rfl
  | cons note notes => simp [gathered, Run.timed]

/-- The words gathered so far come first, then those of the items. -/
theorem runsFrom_timed (duration : String) (items : List Item) (notes : List String) :
    (runsFrom duration items notes).flatMap Run.timed =
      notes.reverse.flatMap (timedWords duration) ++ timedItems duration items := by
  -- the runs of a group are those of its items, begun without any notes
  refine runsFrom.induct
    (fun duration items notes => (runsFrom duration items notes).flatMap Run.timed =
      notes.reverse.flatMap (timedWords duration) ++ timedItems duration items)
    (fun item => ∀ d inner, item = .group d inner →
      (groupRuns item).flatMap Run.timed = timedItems d inner)
    ?note ?group ?nil ?plain ?same ?own ?inner duration items notes
  case note =>
    intro value own d inner h
    cases h
  case group =>
    intro d inner ih d' inner' h
    cases h
    rw [groupRuns, ih, List.reverse_nil, List.flatMap_nil, List.nil_append]
  case nil =>
    intro duration notes
    rw [runsFrom, gathered_timed, timedItems, List.append_nil]
  case plain =>
    intro duration items notes value ih
    rw [runsFrom, ih, timedItems, timedItem, List.reverse_cons, List.flatMap_append,
      List.flatMap_singleton, List.append_assoc, Option.getD_none]
  case same =>
    -- a note that names the note value it has anyway stays in the run
    intro items notes value d ih
    rw [runsFrom, if_pos rfl, ih, timedItems, timedItem, List.reverse_cons, List.flatMap_append,
      List.flatMap_singleton, List.append_assoc, Option.getD_some]
  case own =>
    intro duration items notes value d other ih
    have alone : Run.timed ⟨d, [value]⟩ = timedWords d value := by
      rw [Run.timed, List.flatMap_singleton]
    rw [runsFrom, if_neg other, List.flatMap_append, gathered_timed, List.flatMap_cons, ih, alone,
      timedItems, timedItem, List.reverse_nil, List.flatMap_nil, List.nil_append, Option.getD_some]
  case inner =>
    intro duration items notes d inner group ih
    rw [runsFrom, List.flatMap_append, List.flatMap_append, gathered_timed, group d inner rfl, ih,
      timedItems, timedItem, List.reverse_nil, List.flatMap_nil, List.nil_append, List.append_assoc]

/-! ### Blocks -/

theorem blockOf_timed (commands : List Command) (r : Run) :
    (blockOf commands r).timed = r.timed := by
  have blank : isBlank ' ' = true := by decide
  simp only [Block.timed, blockOf, Block.selectors, Run.timed, String.toList_intercalate]
  rw [show " ".toList = [' '] from rfl, words_intercalate blank]
  simp only [List.map_map, List.map_flatMap, List.flatMap_map]
  rfl

theorem timed_blocksOf (commands : List Command) (runs : List Run) :
    (blocksOf commands runs).flatMap Block.timed = runs.flatMap Run.timed := by
  have plain (commands : List Command) (runs : List Run) :
      (runs.map (blockOf commands)).flatMap Block.timed = runs.flatMap Run.timed := by
    rw [List.flatMap_map]
    simp only [blockOf_timed]
  cases runs with
  | nil => rfl
  | cons r rs =>
    rw [blocksOf, List.flatMap_cons, List.flatMap_cons, blockOf_timed, plain]

/-- Each block begins with the command for its note value; after it the commands stand in the first
block and no commands in the others. -/
theorem commands_blocksOf (commands : List Command) (runs : List Run) :
    (blocksOf commands runs).map (·.commands) =
      match runs with
      | [] => []
      | r :: rs => (⟨"D", r.duration⟩ :: commands) :: rs.map fun r => [⟨"D", r.duration⟩] := by
  cases runs with
  | nil => rfl
  | cons r rs =>
    rw [blocksOf, List.map_cons, List.map_map]
    rfl

/-! ### Counts -/

/-- The last count that is a number holds. -/
theorem repeatCount_eq (attributes : List Attribute) :
    ∀ n : Int, repeatCount attributes n =
      (((attributes.filter (·.name = "repeat")).filterMap fun a =>
        Numeral.read? 10 a.value.toList).getLast?.getD n) := by
  induction attributes with
  | nil => exact fun _ => rfl
  | cons a attributes ih =>
    intro n
    rw [repeatCount, List.foldl_cons]
    -- the count so far holds unless a later attribute gives another one
    by_cases named : a.name = "repeat"
    · have counts : isRepeat a = true := by simpa [isRepeat] using named
      rw [if_pos counts, List.filter_cons_of_pos (by simpa using named)]
      refine (ih _).trans ?_
      rw [List.filterMap_cons]
      cases read : Numeral.read? 10 a.value.toList with
      | none => rfl
      | some k => simp only [List.getLast?_cons, Option.getD_some]
    · have other : ¬ isRepeat a = true := by simpa [isRepeat] using named
      rw [if_neg other, List.filter_cons_of_neg (by simpa using named)]
      exact ih n

theorem commandsOf_eq (b : NestedBlock) : commandsOf b.attributes = b.commands := by
  simp only [commandsOf, NestedBlock.commands]
  congr 1
  refine List.filter_congr fun a _ => ?_
  by_cases named : a.name = "repeat" <;> simp [isRepeat, named]

theorem copies_pos (b : NestedBlock) : 0 < b.copies := by
  simp only [NestedBlock.copies]
  omega

theorem ofNestedBlock_eq (b : NestedBlock) :
    ofNestedBlock b =
      (List.replicate b.copies (blocksOf b.commands (runs NoteValue.quarter b.items))).flatten := by
  rw [ofNestedBlock, repeatCount_eq, commandsOf_eq]
  rfl

theorem commandOf_eq (a : Attribute) : (commandOf a).value = a.value ∧
    (∀ s : Setting, lower (strip a.name.toList) = s.name.toList → (commandOf a).code = s.code) ∧
    ((∀ s : Setting, lower (strip a.name.toList) ≠ s.name.toList) →
      (commandOf a).code = a.name) := by
  unfold commandOf
  split
  · rename_i s named
    have known := Setting.ofName?_eq_some_iff.1 named
    refine ⟨rfl, fun s' known' => ?_, fun unknown => absurd known (unknown s)⟩
    have same : some s = some s' := named.symm.trans (Setting.ofName?_eq_some_iff.2 known')
    exact congrArg Setting.code (Option.some.inj same)
  · rename_i unnamed
    refine ⟨rfl, fun s known => ?_, fun _ => rfl⟩
    rw [Setting.ofName?_eq_some_iff.2 known] at unnamed
    cases unnamed

/-! ### Songs -/

/-- **The song of a nested text plays what the text says.** It is made of one run of blocks for each
block of the text, in the order of the text and as often as the block is to be played.  A run plays
the words of its block with their note values in their order; each of its blocks begins with the
command for the note value, and the commands of the attributes follow it in the first block of the
run and nowhere else.  The command of an attribute keeps its value; the name of a setting, whatever
its case and the blanks around it, becomes the code of the setting, and any other name is kept. -/
theorem nested_blocks (parts : List (List NestedBlock)) :
    ∃ run : NestedBlock → List Block,
      (ofTree (.nested parts)).blocks =
        parts.flatMap (fun part =>
          part.flatMap fun b => (List.replicate b.copies (run b)).flatten) ∧
      (∀ b, (run b).flatMap Block.timed = timedItems NoteValue.quarter b.items ∧
        (∀ k ∈ run b, ∃ value rest, k.commands = ⟨"D", value⟩ :: rest) ∧
        ∀ first others, run b = first :: others →
          first.commands.tail = b.commands ∧ ∀ k ∈ others, k.commands.tail = []) ∧
      ∀ a : Attribute, (commandOf a).value = a.value ∧
        (∀ s : Setting, lower (strip a.name.toList) = s.name.toList →
          (commandOf a).code = s.code) ∧
        ((∀ s : Setting, lower (strip a.name.toList) ≠ s.name.toList) →
          (commandOf a).code = a.name) := by
  refine ⟨fun b => blocksOf b.commands (runs NoteValue.quarter b.items), ?_,
    fun b => ⟨?_, ?_, ?_⟩, commandOf_eq⟩
  · rw [ofTree, List.flatten_eq_flatMap, List.flatMap_assoc]
    refine congrArg (List.flatMap · parts) (funext fun part => ?_)
    refine congrArg (List.flatMap · part) (funext fun b => ?_)
    rw [ofNestedBlock, repeatCount_eq, commandsOf_eq]
    rfl
  · rw [timed_blocksOf, runs, runsFrom_timed, List.reverse_nil, List.flatMap_nil, List.nil_append]
  · intro k hk
    have mem := List.mem_map_of_mem (f := (·.commands)) hk
    rw [commands_blocksOf] at mem
    cases hr : runs NoteValue.quarter b.items with
    | nil => rw [hr] at mem; cases mem
    | cons r rs =>
      rw [hr] at mem
      rcases List.mem_cons.1 mem with first | other
      · exact ⟨r.duration, b.commands, first⟩
      · obtain ⟨r', _, h⟩ := List.mem_map.1 other
        exact ⟨r'.duration, [], h.symm⟩
  · intro first others h
    dsimp only at h
    cases hr : runs NoteValue.quarter b.items with
    | nil => rw [hr] at h; cases h
    | cons r rs =>
      rw [hr, blocksOf] at h
      obtain ⟨rfl, rfl⟩ := List.cons.inj h
      refine ⟨rfl, fun k hk => ?_⟩
      obtain ⟨r', _, rfl⟩ := List.mem_map.1 hk
      rfl

end Song

end ChordSequencer
