import ChordSequencer.Number.Double
import ChordSequencer.Text.Blank
import ChordSequencer.Text.Digit

/-!
# Decimal numbers

Decimal texts as doubles and doubles as decimal texts. Reading rounds to the nearest double;
writing takes the fewest digits that read back as the same double.
-/

namespace ChordSequencer.Number

/-- A decimal number `digits * 10 ^ exponent`, with its sign. -/
structure Decimal where
  /-- The number is below zero, or is the negative zero. -/
  negative : Bool
  /-- The digits as a whole number. -/
  digits : Nat
  /-- The power of ten. -/
  exponent : Int

namespace Decimal

/-- The double nearest to a decimal number. Exponents that are out of reach for the number of
digits are answered at once. -/
def toDouble (d : Decimal) : Float :=
  let size := (Nat.toDigits 10 d.digits).length
  let magnitude :=
    if d.digits = 0 then 0.0
    else if d.exponent + size > 400 then infinity
    else if d.exponent + size < -400 then 0.0
    else if d.exponent < 0 then nearest d.digits (Nat.pow 10 (-d.exponent).toNat)
    else nearest (d.digits * Nat.pow 10 d.exponent.toNat) 1
  if d.negative then -magnitude else magnitude

/-- The numbers that round to the double `mantissa * 2 ^ exponent`, in units of
`2 ^ (exponent - 2)`: the interval's ends, which belong to it when the mantissa is even. -/
def roundingEnds (mantissa : Nat) (exponent : Int) : Nat × Nat :=
  let below := if mantissa = Nat.pow 2 52 ∧ -1074 < exponent then 1 else 2
  (4 * mantissa - below, 4 * mantissa + 2)

/-- The nearest multiple of `10 ^ k` that rounds to the double `mantissa * 2 ^ exponent`. -/
def onGrid? (mantissa : Nat) (exponent : Int) (k : Int) : Option Nat :=
  let e := exponent - 2
  -- both sides are scaled by the negative powers, so that all comparisons are between naturals
  let unit := (if 0 ≤ e then Nat.pow 2 e.toNat else 1) *
    (if k < 0 then Nat.pow 10 (-k).toNat else 1)
  let grid := (if 0 ≤ k then Nat.pow 10 k.toNat else 1) *
    (if e < 0 then Nat.pow 2 (-e).toNat else 1)
  let (low, high) := roundingEnds mantissa exponent
  let value := 4 * mantissa * unit
  let inside (c : Nat) : Bool :=
    if mantissa % 2 = 0 then low * unit ≤ c * grid && c * grid ≤ high * unit
    else low * unit < c * grid && c * grid < high * unit
  let near := roundQuotient value grid
  let down := value / grid
  if inside near then some near
  else if inside down then some down
  else if inside (down + 1) then some (down + 1)
  else none

/-- Tries the grids `10 ^ k`, `10 ^ (k - 1)`, … in turn. -/
def search (mantissa : Nat) (exponent : Int) : Nat → Int → Nat × Int
  | 0, k => (0, k)
  | n + 1, k =>
    match onGrid? mantissa exponent k with
    | some c => (c, k)
    | none => search mantissa exponent n (k - 1)

/-- The digits and the power of ten of the shortest decimal number that reads back as
`mantissa * 2 ^ exponent`. -/
def shortest (mantissa : Nat) (exponent : Int) : Nat × Int :=
  if mantissa = 0 then (0, 0) else search mantissa exponent 660 309

/-- A positional form with at least one digit on each side of the point. -/
def positional (digits : List Char) (point : Int) : List Char :=
  if point ≤ 0 then
    ['0', '.'] ++ List.replicate (-point).toNat '0' ++ digits
  else if digits.length ≤ point.toNat then
    digits ++ List.replicate (point.toNat - digits.length) '0' ++ ['.', '0']
  else digits.take point.toNat ++ ['.'] ++ digits.drop point.toNat

/-- A form with an exponent of at least two digits. -/
def scientific (digits : List Char) (point : Int) : List Char :=
  let e := point - 1
  let size := Nat.toDigits 10 e.natAbs
  let lead := digits.take 1 ++ (if digits.length = 1 then [] else '.' :: digits.drop 1)
  lead ++ ['e', if e < 0 then '-' else '+'] ++
    (if size.length < 2 then '0' :: size else size)

/-- The written form of a double: the fewest digits that read back, positional from `0.0001` to
below `10 ^ 16`. -/
def render (x : Float) : String :=
  match exact x with
  | .undefined => "nan"
  | .infinite negative => if negative then "-inf" else "inf"
  | .finite negative mantissa exponent =>
    let (c, k) := shortest mantissa exponent
    let digits := Nat.toDigits 10 c
    let point := k + digits.length
    let body :=
      if c = 0 then ['0', '.', '0']
      else if -4 < point ∧ point ≤ 16 then positional digits point
      else scientific digits point
    String.ofList (if negative then '-' :: body else body)

end Decimal

end ChordSequencer.Number
