/-!
# Rounding a quotient

The whole number nearest to a quotient; of two equally near ones the even one.
-/

namespace ChordSequencer.Number

/-- The whole number nearest to `num / den`, a half going to the even neighbour. -/
def roundQuotient (num den : Nat) : Nat :=
  if den < 2 * (num % den) ∨ (2 * (num % den) = den ∧ num / den % 2 = 1) then num / den + 1
  else num / den

end ChordSequencer.Number
