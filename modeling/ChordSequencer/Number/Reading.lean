import ChordSequencer.Number.Decimal
import ChordSequencer.Text.Numeral

/-!
# Reading doubles

A text is a double when it is an optional sign and either a decimal number, with or without a point
and an exponent, or the name of an infinity or of no number. Single underscores may stand between
digits, and digits may come from any script.
-/

namespace ChordSequencer.Number

open Text

/-- The ASCII form of a character: decimal digits of all scripts become ASCII digits. -/
def plainDigit (c : Char) : Char :=
  match decimalDigit? c with
  | some d => Char.ofNat (48 + d)
  | none => c

/-- Drops the underscores of a text; each must stand between two digits. `last` is the character
before the text. -/
def dropUnderscores (last : Char) : List Char → Option (List Char)
  | [] => some []
  | '_' :: c :: r =>
    if last.isDigit && c.isDigit then (dropUnderscores c r).map (c :: ·) else none
  | '_' :: [] => none
  | c :: r => (dropUnderscores c r).map (c :: ·)

/-- The exponent at the end of a number: an `e`, an optional sign and digits. -/
def readExponent : List Char → Option Int
  | [] => some 0
  | e :: r =>
    if e.toLower ≠ 'e' then none
    else
      let (negative, ds) : Bool × List Char := match r with
        | '-' :: t => (true, t)
        | '+' :: t => (false, t)
        | t => (false, t)
      if ds.isEmpty || !ds.all Char.isDigit then none
      else some (if negative then -(decimalNumber ds : Int) else decimalNumber ds)

/-- A decimal number without its sign. -/
def readDecimal (negative : Bool) (s : List Char) : Option Float :=
  let whole := s.takeWhile Char.isDigit
  let r := s.dropWhile Char.isDigit
  let (fraction, rest) : List Char × List Char := match r with
    | '.' :: t => (t.takeWhile Char.isDigit, t.dropWhile Char.isDigit)
    | _ => ([], r)
  if whole.isEmpty && fraction.isEmpty then none
  else (readExponent rest).map fun e =>
    Decimal.toDouble ⟨negative, decimalNumber (whole ++ fraction), e - fraction.length⟩

/-- The names of what is no decimal number. -/
def readName (negative : Bool) (s : List Char) : Option Float :=
  match String.ofList (s.map Char.toLower) with
  | "inf" => some (if negative then -infinity else infinity)
  | "infinity" => some (if negative then -infinity else infinity)
  | "nan" => some (Float.ofBits 0x7FF8000000000000)
  | _ => none

/-- The double that a text gives. -/
def readDouble? (text : String) : Option Float :=
  let s := (stripOf Numeral.isPadding text.toList).map plainDigit
  let (negative, body) : Bool × List Char := match s with
    | '-' :: r => (true, r)
    | '+' :: r => (false, r)
    | r => (false, r)
  match readName negative body with
  | some x => some x
  | none => (dropUnderscores ' ' body).bind (readDecimal negative)

end ChordSequencer.Number
