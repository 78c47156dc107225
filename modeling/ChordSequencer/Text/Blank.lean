/-!
# Blanks and words

Which characters are blank, and how a text is stripped of them and cut into words at them.

* `chunks_eq_nil_iff`: a text has no word exactly when it is all blank.
-/

namespace ChordSequencer.Text

/-- The characters that separate words: the controls from tab to carriage return, the four
information separators, and every space of Unicode. -/
def isBlank (c : Char) : Bool :=
  let n := c.toNat
  (9 ≤ n && n ≤ 13) || (28 ≤ n && n ≤ 32) || n == 0x85 || n == 0xA0 || n == 0x1680 ||
    (0x2000 ≤ n && n ≤ 0x200A) || n == 0x2028 || n == 0x2029 || n == 0x202F || n == 0x205F ||
    n == 0x3000

/-- Removes the leading and trailing characters of a class. -/
def stripOf (p : Char → Bool) (s : List Char) : List Char :=
  ((s.dropWhile p).reverse.dropWhile p).reverse

/-- Removes the blanks around a text. -/
def strip (s : List Char) : List Char := stripOf isBlank s

/-- The maximal runs of non-blank characters, each with its position; the text begins at `pos`. -/
def chunksFrom (pos : Nat) (s : List Char) : List (Nat × List Char) :=
  match s with
  | [] => []
  | c :: r =>
    if isBlank c then chunksFrom (pos + 1) r
    else
      let word := c :: r.takeWhile (!isBlank ·)
      (pos, word) :: chunksFrom (pos + word.length) (r.dropWhile (!isBlank ·))
termination_by s.length
decreasing_by
  · simp
  · have := (List.dropWhile_sublist (l := r) (!isBlank ·)).length_le
    simp only [List.length_cons]
    omega

/-- The words of a text with their positions. -/
def chunks (s : List Char) : List (Nat × List Char) := chunksFrom 0 s

/-- The words of a text. -/
def words (s : List Char) : List (List Char) := (chunks s).map (·.2)

theorem chunksFrom_eq_nil_iff (pos : Nat) (s : List Char) :
    chunksFrom pos s = [] ↔ s.all isBlank = true := by
  fun_induction chunksFrom pos s with
  | case1 => simp
  | case2 pos c r h ih => simp [h, ih]
  | case3 pos c r h => simp [h]

/-- A text has no word exactly when it is all blank. -/
theorem chunks_eq_nil_iff (s : List Char) : chunks s = [] ↔ s.all isBlank = true :=
  chunksFrom_eq_nil_iff 0 s

end ChordSequencer.Text
