import ChordSequencer.Number.Rounding

/-!
# Exact numbers and doubles

A finite double is a whole number times a power of two. This module takes doubles apart into that
form and finds the double nearest to an exact quotient, so that no conversion between whole numbers
and doubles depends on anything but integer arithmetic.
-/

namespace ChordSequencer.Number

/-- The bits of the positive infinity; finite positive doubles have smaller ones. -/
def infinityBits : Nat := 0x7FF <<< 52

/-- The positive infinity. -/
def infinity : Float := Float.ofBits infinityBits.toUInt64

/-- The exponent of the last place kept of `num / den`: 53 binary places, and none below
`2 ^ -1074`. -/
def lastPlace (num den : Nat) : Int :=
  let guess : Int := (num.log2 : Int) - den.log2 - 53
  let scaled := if guess < 0 then num <<< (-guess).toNat / den else num / (den <<< guess.toNat)
  let place := if scaled < Nat.pow 2 53 then guess else guess + 1
  max place (-1074)

/-- The bits of the double nearest to `num / den`, or of the infinity. -/
def nearestBits (num den : Nat) : Nat :=
  if num = 0 then 0
  else
  let place := lastPlace num den
  let kept := if place < 0 then roundQuotient (num <<< (-place).toNat) den
    else roundQuotient num (den <<< place.toNat)
  min (((place + 1074).toNat <<< 52) + kept) infinityBits

/-- The double nearest to `num / den`; quotients beyond the largest double give the infinity. -/
def nearest (num den : Nat) : Float := Float.ofBits (nearestBits num den).toUInt64

/-- The double nearest to a whole number, unless the number is too large for one. -/
def ofInt? (n : Int) : Option Float :=
  let x := nearest n.natAbs 1
  if nearestBits n.natAbs 1 = infinityBits then none
  else some (if n < 0 then -x else x)

/-- What a double is, exactly. -/
inductive Exact
  /-- Not a number. -/
  | undefined
  /-- An infinity. -/
  | infinite (negative : Bool)
  /-- The number `mantissa * 2 ^ exponent`, with its sign. -/
  | finite (negative : Bool) (mantissa : Nat) (exponent : Int)
  deriving DecidableEq, Repr

/-- Takes a double apart. -/
def exact (x : Float) : Exact :=
  let bits : Nat := x.toBits.toNat
  let negative : Bool := bits / Nat.pow 2 63 == 1
  let exponent : Nat := bits / Nat.pow 2 52 % Nat.pow 2 11
  let fraction := bits % Nat.pow 2 52
  if exponent = 0x7FF then
    if fraction = 0 then .infinite negative else .undefined
  else if exponent = 0 then .finite negative fraction (-1074)
  else .finite negative (fraction + Nat.pow 2 52) ((exponent : Int) - 1075)

/-- The whole number nearest to a finite number, a half going to the even neighbour. -/
def Exact.round (negative : Bool) (mantissa : Nat) (exponent : Int) : Int :=
  let size := if exponent < 0 then roundQuotient mantissa (Nat.pow 2 (-exponent).toNat)
    else mantissa <<< exponent.toNat
  if negative then -(size : Int) else size

end ChordSequencer.Number
