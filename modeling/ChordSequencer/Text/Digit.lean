/-!
# Decimal digits

Every script of Unicode that has decimal digits has them in a run of ten code points, zero first.
`decimalDigit?` reads the value of a digit off the start of its run.
-/

namespace ChordSequencer.Text

/-- The code points of the zeros of all scripts, in ascending order. -/
def digitZeros : List Nat := [
  48, 1632, 1776, 1984, 2406, 2534, 2662, 2790, 2918, 3046, 3174, 3302, 3430, 3558, 3664, 3792,
  3872, 4160, 4240, 6112, 6160, 6470, 6608, 6784, 6800, 6992, 7088, 7232, 7248, 42528, 43216,
  43264, 43472, 43504, 43600, 44016, 65296, 66720, 68912, 69734, 69872, 69942, 70096, 70384,
  70736, 70864, 71248, 71360, 71472, 71904, 72016, 72784, 73040, 73120, 92768, 92864, 93008,
  120782, 120792, 120802, 120812, 120822, 123200, 123632, 125264, 130032
]

/-- The value of a decimal digit of any script. -/
def decimalDigit? (c : Char) : Option Nat :=
  (digitZeros.find? fun z => z ≤ c.toNat && c.toNat < z + 10).map (c.toNat - ·)

/-- The characters that are decimal digits of some script. -/
def isDigit (c : Char) : Bool := (decimalDigit? c).isSome

/-- The number that a run of decimal digits writes; other characters count as zeros. -/
def decimalNumber (s : List Char) : Nat :=
  s.foldl (fun n c => 10 * n + (decimalDigit? c).getD 0) 0

theorem decimalDigit?_lt {c : Char} {d : Nat} (h : decimalDigit? c = some d) : d < 10 := by
  obtain ⟨z, hz, rfl⟩ := Option.map_eq_some_iff.1 h
  have := List.find?_some hz
  simp only [Bool.and_eq_true, decide_eq_true_eq] at this
  omega

end ChordSequencer.Text
