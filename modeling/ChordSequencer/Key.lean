import ChordSequencer.Refusal
import ChordSequencer.Text.Numeral

/-!
# Keys

A key is a number that moves the degrees of a scale. The twelve lowest ones have labels, in which a
lower-case letter stands for a flat.
-/

namespace ChordSequencer

open Text

namespace Key

/-- The labels of the keys from 0 to 11. -/
def labels : List String := ["D", "e", "E", "F", "g", "G", "a", "A", "b", "B", "C", "d"]

/-- The key that a text gives, as a number in the base or else as a label. -/
def ofText (text : String) (base : Nat) : Except Refusal Int :=
  let s := strip text.toList
  match Numeral.read? base s with
  | some n => .ok n
  | none =>
    match labels.findIdx? (·.toList == s) with
    | some i => .ok i
    | none => .error (.unknownKey text labels)

/-- The label of a key, which repeats every twelve keys. -/
def label (key : Int) : String := labels.getD (key % 12).toNat ""

end Key

end ChordSequencer
