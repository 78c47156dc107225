import ChordSequencer.Notation.Token

/-!
# The nested form

A song is a list of parts in braces, a part a list of blocks in braces, and a block holds notes,
groups and attributes:

* song: `{ part, part, … }`
* part: `{ block, block, … }`
* block: `{ … }` with at least one item, and attributes that a comma may follow
* item: a note, a note value and a note, or a note value and items in parentheses

The text is read token by token. `Reader` is the state between two tokens; a fault inside a block is
kept, and the reader goes on behind the brace that closes the block.

Groups may be nested to any depth: the open ones are a list. A host that reads groups by recursion
gives up at some depth; such a limit is not modelled.
-/

namespace ChordSequencer.Notation

/-- A group that is not closed yet. -/
structure OpenGroup where
  /-- The note value before its parenthesis. -/
  tag : Token
  /-- Its items so far, the latest first. -/
  items : List Item
  deriving Repr

/-- A block that is not closed yet. -/
structure OpenBlock where
  /-- The position of its opening brace. -/
  opening : Nat
  /-- Its items so far, the latest first. -/
  items : List Item
  /-- Its attributes so far, the latest first. -/
  attributes : List Attribute
  /-- The last token was an attribute, so that a comma may follow. -/
  separable : Bool
  /-- The open groups, the innermost first. -/
  groups : List OpenGroup
  /-- A note value that waits for its note or group. -/
  pending : Option Token
  deriving Repr

namespace OpenBlock

/-- The block at its opening brace. -/
def start (opening : Nat) : OpenBlock := ⟨opening, [], [], false, [], none⟩

/-- Adds an item to the innermost group, or to the block when no group is open. -/
def add (b : OpenBlock) (item : Item) : OpenBlock :=
  match b.groups with
  | [] => { b with items := item :: b.items, separable := false, pending := none }
  | g :: gs => { b with groups := { g with items := item :: g.items } :: gs, pending := none }

/-- The note value of a token that has a colon at its end. -/
def durationOf (t : Token) : String := String.ofList t.text.dropLast

/-- The attribute of a token, cut at its first colon. -/
def attributeOf (t : Token) : Attribute :=
  ⟨String.ofList (t.text.takeWhile (· ≠ ':')), String.ofList (t.text.dropWhile (· ≠ ':')).tail⟩

/-- The text of a token. -/
def textOf (t : Token) : String := String.ofList t.text

/-- The fault of a missing group or note after a note value. -/
def expectedGroup (tag : Token) (found : Option String) : Cause :=
  .expected "(" s!"or a note after '{textOf tag}'" found

/-- What a token does to an open block. -/
inductive Effect
  /-- The block stays open. -/
  | goesOn (b : OpenBlock)
  /-- The block is closed. -/
  | closes (b : NestedBlock)
  /-- The block is faulty; `passed` says whether the token belongs to what was read of it. -/
  | fault (cause : Cause) (position : Nat) (passed : Bool)
  deriving Repr

/-- A token after a note value. -/
def stepPending (b : OpenBlock) (tag t : Token) : Effect :=
  match t.kind with
  | .note => .goesOn (b.add (.note (textOf t) (some (durationOf tag))))
  | .openParen => .goesOn { b with groups := ⟨tag, []⟩ :: b.groups, pending := none }
  | _ => .fault (expectedGroup tag (some (textOf t))) t.position false

/-- A token in a group. -/
def stepGroup (b : OpenBlock) (g : OpenGroup) (gs : List OpenGroup) (t : Token) : Effect :=
  match t.kind with
  | .closeParen =>
    if g.items.isEmpty then .fault (.emptyGroup (textOf g.tag)) g.tag.position true
    else .goesOn ({ b with groups := gs }.add (.group (durationOf g.tag) g.items.reverse))
  | .note => .goesOn (b.add (.note (textOf t) none))
  | .duration => .goesOn { b with pending := some t }
  | _ => .fault (.expectedNote (some (textOf t))) t.position false

/-- A token in the block itself. -/
def stepBody (b : OpenBlock) (t : Token) : Effect :=
  match t.kind with
  | .closeBrace =>
    if b.items.isEmpty then .fault .noNotes b.opening false
    else .closes ⟨b.items.reverse, b.attributes.reverse⟩
  | .attribute =>
    .goesOn { b with attributes := attributeOf t :: b.attributes, separable := true }
  | .note => .goesOn (b.add (.note (textOf t) none))
  | .duration => .goesOn { b with pending := some t, separable := false }
  | .comma =>
    if b.separable then .goesOn { b with separable := false }
    else .fault (.inBlock (textOf t)) t.position false
  | _ => .fault (.inBlock (textOf t)) t.position false

/-- What a token does to an open block. -/
def step (b : OpenBlock) (t : Token) : Effect :=
  match b.pending, b.groups with
  | some tag, _ => b.stepPending tag t
  | none, g :: gs => b.stepGroup g gs t
  | none, [] => b.stepBody t

/-- The fault of a text that ends inside a block. -/
def endCause (b : OpenBlock) : Cause :=
  match b.pending, b.groups with
  | some tag, _ => expectedGroup tag none
  | none, _ :: _ => .expectedNote none
  | none, [] => .unclosedBlock

end OpenBlock

/-- Where a reader stands between two tokens. -/
inductive Stage
  /-- Before the brace that opens the song. -/
  | beforeSong
  /-- Before the brace that opens a part. -/
  | beforePart
  /-- Before the brace that opens a block. -/
  | beforeBlock
  /-- Inside a block. -/
  | inBlock (b : OpenBlock)
  /-- Inside a faulty block, and inside so many braces more. -/
  | skipping (depth : Nat)
  /-- After a block of a part. -/
  | afterBlock
  /-- After a part of the song. -/
  | afterPart
  /-- After the song. -/
  | afterSong
  /-- Nothing more is read after a fault outside the blocks. -/
  | halted
  deriving Repr

/-- The state of reading between two tokens. -/
structure Reader where
  /-- Where the reader stands. -/
  stage : Stage
  /-- The blocks of the part, the latest first. -/
  blocks : List NestedBlock
  /-- The parts that are closed, the latest first. -/
  parts : List (List NestedBlock)
  /-- The faults and their positions, the latest first. -/
  faults : List (Cause × Nat)
  deriving Repr

namespace Reader

/-- The reader of a text of which the stray characters are known, the latest first. -/
def start (faults : List (Cause × Nat)) : Reader := ⟨.beforeSong, [], [], faults⟩

/-- Keeps a fault, unless the latest one is at the same position. -/
def record (r : Reader) (cause : Cause) (position : Nat) : Reader :=
  match r.faults with
  | [] => { r with faults := [(cause, position)] }
  | (last, place) :: rest =>
    if place = position then r
    else { r with faults := (cause, position) :: (last, place) :: rest }

/-- Stops reading at a token. -/
def halt (r : Reader) (cause : Cause) (t : Token) : Reader :=
  { r.record cause t.position with stage := .halted }

/-- Goes on if a token is the expected bracket, and else stops. -/
def expect (r : Reader) (kind : TokenKind) (bracket place : String) (t : Token)
    (next : Stage) : Reader :=
  if t.kind = kind then { r with stage := next }
  else r.halt (.expected bracket place (some (OpenBlock.textOf t))) t

/-- A token of a faulty block, inside so many braces more. -/
def skip (r : Reader) (depth : Nat) (t : Token) : Reader :=
  match t.kind, depth with
  | .openBrace, _ => { r with stage := .skipping (depth + 1) }
  | .closeBrace, 0 => { r with stage := .afterBlock }
  | .closeBrace, n + 1 => { r with stage := .skipping n }
  | _, _ => { r with stage := .skipping depth }

/-- A token of an open block. -/
def stepBlock (r : Reader) (b : OpenBlock) (t : Token) : Reader :=
  match b.step t with
  | .goesOn b' => { r with stage := .inBlock b' }
  | .closes block => { r with stage := .afterBlock, blocks := block :: r.blocks }
  | .fault cause position true => { r.record cause position with stage := .skipping 0 }
  | .fault cause position false => (r.record cause position).skip 0 t

/-- Reads a token. -/
def step (r : Reader) (t : Token) : Reader :=
  match r.stage with
  | .beforeSong => r.expect .openBrace "\x7b" "to open the song" t .beforePart
  | .beforePart => r.expect .openBrace "\x7b" "to open a part" t .beforeBlock
  | .beforeBlock =>
    r.expect .openBrace "\x7b" "to open a block" t (.inBlock (.start t.position))
  | .inBlock b => r.stepBlock b t
  | .skipping depth => r.skip depth t
  | .afterBlock =>
    match t.kind with
    | .comma => { r with stage := .beforeBlock }
    | .closeBrace =>
      { r with stage := .afterPart, blocks := [], parts := r.blocks.reverse :: r.parts }
    | _ => r.halt (.expected "\x7d" "to close the part" (some (OpenBlock.textOf t))) t
  | .afterPart =>
    match t.kind with
    | .comma => { r with stage := .beforePart }
    | .closeBrace => { r with stage := .afterSong }
    | _ => r.halt (.expected "\x7d" "to close the song" (some (OpenBlock.textOf t))) t
  | .afterSong => r.halt (.afterSong (OpenBlock.textOf t)) t
  | .halted => r

/-- Ends reading a text of the given length. -/
def finish (r : Reader) (length : Nat) : Reader :=
  match r.stage with
  | .beforeSong => r.record (.expected "\x7b" "to open the song" none) length
  | .beforePart => r.record (.expected "\x7b" "to open a part" none) length
  | .beforeBlock => r.record (.expected "\x7b" "to open a block" none) length
  | .inBlock b =>
    (r.record b.endCause length).record (.expected "\x7d" "to close the part" none) length
  | .skipping _ | .afterBlock => r.record (.expected "\x7d" "to close the part" none) length
  | .afterPart => r.record (.expected "\x7d" "to close the song" none) length
  | .afterSong | .halted => r

end Reader

/-- The state after reading a text. -/
def nestedReader (text : List Char) : Reader :=
  ((tokens text).foldl Reader.step (Reader.start (strayFaults text).reverse)).finish text.length

/-- Reads the nested form. -/
def readNested (text : List Char) : Reading :=
  let r := nestedReader text
  match r.faults with
  | [] => .success (.nested r.parts.reverse)
  | faults => .failure (faults.reverse.map fun (cause, position) => ⟨cause, position, text⟩)

end ChordSequencer.Notation
