/-!
# Sets of characters

A set of characters is stored as the ascending list of the code points at which membership changes,
beginning outside the set.
-/

namespace ChordSequencer.Text

/-- A set of code points, given by the points where it begins and ends. -/
structure CharSet where
  /-- The code points where membership changes, in ascending order. -/
  bounds : List Nat

namespace CharSet

/-- Membership is the parity of the number of changes at or before the character. -/
def contains (s : CharSet) (c : Char) : Bool :=
  (s.bounds.takeWhile (· ≤ c.toNat)).length % 2 == 1

end CharSet

end ChordSequencer.Text
