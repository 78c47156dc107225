import ChordSequencer.Notation.Compact
import ChordSequencer.Text.Digit

/-!
# Tokens of the nested form

A text of the nested form is cut into lexemes: tokens, runs of blanks, and single characters that
belong to neither.

* `flatten_lexemes`: the lexemes of a text, one after another, are the text.
-/

namespace ChordSequencer.Notation

open Text

/-- The kinds of tokens. -/
inductive TokenKind
  | openBrace
  | closeBrace
  | openParen
  | closeParen
  | comma
  /-- A note value and a colon: `4n:`. -/
  | duration
  /-- A name, a colon and a value: `key:3`. -/
  | attribute
  /-- A whole number, a rest or a sustain. -/
  | note
  deriving DecidableEq, Repr

/-- A token and where it stands. -/
structure Token where
  /-- Its kind. -/
  kind : TokenKind
  /-- Its text. -/
  text : List Char
  /-- The number of characters before it. -/
  position : Nat
  deriving DecidableEq, Repr

/-- The kinds of lexemes. -/
inductive LexemeKind
  | blank
  | stray
  | token (kind : TokenKind)
  deriving DecidableEq, Repr

/-- A piece of a text and where it stands. -/
structure Lexeme where
  /-- Its kind. -/
  kind : LexemeKind
  /-- Its text. -/
  text : List Char
  /-- The number of characters before it. -/
  position : Nat
  deriving DecidableEq, Repr

namespace Lexeme

/-- The characters that a name begins with. -/
def isNameStart (c : Char) : Bool := isLetter c || c == '_'

/-- The characters that a name goes on with. -/
def isNameChar (c : Char) : Bool := isLetter c || isAsciiDigit c || c == '_'

/-- The characters of the value of an attribute. -/
def isAttributeChar (c : Char) : Bool :=
  isLetter c || isAsciiDigit c || c == '_' || c == '#' || c == '-'

/-- The letters of the units of note values. -/
def isUnit (c : Char) : Bool := c == 'n' || c == 'm' || c == 't'

/-- The notes that are no numbers: two rests and the sustain. -/
def isSign (c : Char) : Bool := c == 's' || c == '.' || c == '='

/-- The token that a single character is. -/
def punctuation? : Char → Option TokenKind
  | '{' => some .openBrace
  | '}' => some .closeBrace
  | '(' => some .openParen
  | ')' => some .closeParen
  | ',' => some .comma
  | _ => none

/-- What a digit begins: with the number of characters after it. -/
def scanDigits (r : List Char) : LexemeKind × Nat :=
  let more := (r.takeWhile isDigit).length
  match r.dropWhile isDigit with
  | u :: ':' :: _ => if isUnit u then (.token .duration, more + 2) else (.token .note, more)
  | _ => (.token .note, more)

/-- The number of characters of an attribute after its first one. -/
def scanAttribute? (r : List Char) : Option Nat :=
  match r.dropWhile isNameChar with
  | ':' :: v :: value =>
    if isAttributeChar v then
      some ((r.takeWhile isNameChar).length + 2 + (value.takeWhile isAttributeChar).length)
    else none
  | _ => none

/-- The lexeme that begins with a character: its kind and the number of characters after the
first. -/
def scan (c : Char) (r : List Char) : LexemeKind × Nat :=
  if isBlank c then (.blank, (r.takeWhile isBlank).length)
  else match punctuation? c with
    | some kind => (.token kind, 0)
    | none =>
      if isDigit c then scanDigits r
      else if c = '-' then
        match (r.takeWhile isDigit).length with
        | 0 => (.stray, 0)
        | n => (.token .note, n)
      else match (if isNameStart c then scanAttribute? r else none) with
        | some n => (.token .attribute, n)
        | none => if isSign c then (.token .note, 0) else (.stray, 0)

/-- The lexemes of a text that begins at a position. -/
def ofText (position : Nat) (text : List Char) : List Lexeme :=
  match text with
  | [] => []
  | c :: r =>
    let (kind, n) := scan c r
    ⟨kind, c :: r.take n, position⟩ :: ofText (position + 1 + n) (r.drop n)
termination_by text.length
decreasing_by simp only [List.length_drop, List.length_cons]; omega

/-- The lexemes of a text, one after another, are the text. -/
theorem flatten_lexemes (position : Nat) (text : List Char) :
    (ofText position text).flatMap (·.text) = text := by
  fun_induction ofText position text with
  | case1 => rfl
  | case2 position c r kind n h ih => simp [ih]

/-- The token that a lexeme is. -/
def token? (l : Lexeme) : Option Token :=
  match l.kind with
  | .token kind => some ⟨kind, l.text, l.position⟩
  | _ => none

/-- The fault that a lexeme is. -/
def stray? (l : Lexeme) : Option (Cause × Nat) :=
  match l.kind, l.text with
  | .stray, c :: _ => some (.strayChar c, l.position)
  | _, _ => none

end Lexeme

/-- The tokens of a text. -/
def tokens (text : List Char) : List Token := (Lexeme.ofText 0 text).filterMap (·.token?)

/-- The faults that the characters outside tokens and blanks are. -/
def strayFaults (text : List Char) : List (Cause × Nat) :=
  (Lexeme.ofText 0 text).filterMap (·.stray?)

end ChordSequencer.Notation
