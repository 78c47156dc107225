import ChordSequencer.Text.Blank
import ChordSequencer.Text.Digit

/-!
# Integers in a base

A numeral is an optional sign, in bases 2, 8 and 16 an optional mark such as `0x`, and digits that
single underscores may group. Blanks around it do not matter. Digits may come from any script,
letters stand for the digits from ten upwards in either case, so that there are bases up to 36. In
base 0 a numeral shows its base by its mark.

A numeral may have any number of digits. A host that limits how long a written integer may be
refuses the longest ones; this is taken to be no part of the notation and is not modelled.
-/

namespace ChordSequencer.Text.Numeral

/-- The blanks that may stand around a numeral: of the ASCII ones only tab to carriage return and
the space. -/
def isPadding (c : Char) : Bool := isBlank c && !(28 ≤ c.toNat && c.toNat ≤ 31)

/-- The value of a digit: a decimal digit of any script, or a letter from ten upwards. -/
def digitValue? (c : Char) : Option Nat :=
  if 'a' ≤ c && c ≤ 'z' then some (c.toNat - 'a'.toNat + 10)
  else if 'A' ≤ c && c ≤ 'Z' then some (c.toNat - 'A'.toNat + 10)
  else decimalDigit? c

/-- The value of a digit that the base has. -/
def digitIn? (base : Nat) (c : Char) : Option Nat :=
  (digitValue? c).filter (· < base)

/-- Reads on after a digit: each further digit may have one underscore before it. -/
def readMore (base : Nat) (value : Nat) : List Char → Option Nat
  | [] => some value
  | '_' :: c :: r => (digitIn? base c).bind fun d => readMore base (value * base + d) r
  | c :: r => (digitIn? base c).bind fun d => readMore base (value * base + d) r

/-- Reads a non-empty group of digits. -/
def readDigits (base : Nat) : List Char → Option Nat
  | [] => none
  | c :: r => (digitIn? base c).bind fun d => readMore base d r

/-- The letter that may mark a numeral of the base after a leading zero. -/
def markOf? : Nat → Option Char
  | 2 => some 'b'
  | 8 => some 'o'
  | 16 => some 'x'
  | _ => none

/-- Drops the mark of the base, and one underscore after it. -/
def dropMark (base : Nat) (s : List Char) : List Char :=
  match s with
  | z :: m :: r =>
    if decimalDigit? z = some 0 ∧ markOf? base = some m.toLower then
      match r with
      | '_' :: r' => r'
      | _ => r
    else s
  | _ => s

/-- The base that a numeral shows itself: that of its mark, or else ten. Without a mark only zero
begins with a zero, as in base 1. -/
def shownBase (s : List Char) : Nat :=
  match s with
  | z :: r =>
    if decimalDigit? z = some 0 then
      match r.head?.map Char.toLower with
      | some 'b' => 2
      | some 'o' => 8
      | some 'x' => 16
      | _ => 1
    else 10
  | [] => 10

/-- Reads an unsigned numeral. -/
def readUnsigned (base : Nat) (s : List Char) : Option Nat :=
  let base := if base = 0 then shownBase s else base
  readDigits base (dropMark base s)

/-- Reads a numeral with its sign. -/
def readSigned (base : Nat) : List Char → Option Int
  | '-' :: r => (readUnsigned base r).map fun n => -(n : Int)
  | '+' :: r => (readUnsigned base r).map Int.ofNat
  | s => (readUnsigned base s).map Int.ofNat

/-- A base in which there are numerals. -/
def isBase (base : Nat) : Bool := base == 0 || 2 ≤ base && base ≤ 36

/-- The integer that a text denotes in a base, if it is a numeral. -/
def read? (base : Nat) (s : List Char) : Option Int :=
  if isBase base then readSigned base (stripOf isPadding s) else none

end ChordSequencer.Text.Numeral
