import ChordSequencer.Text.CaseTable

/-!
# Letter case

Lower case for every letter of Unicode, with the two letters whose form is not a single fixed
character: the dotted capital I and the capital sigma, which has a form of its own at the end of a
word. Capitals are only ever compared with ASCII names, so `capitals` knows the characters whose
capital form is ASCII.
-/

namespace ChordSequencer.Text

/-- The lower-case form of a letter that has a single fixed one. -/
def lowerLetter (c : Char) : Char :=
  if c.toNat < 128 then c.toLower
  else match caseRuns.find? (·.contains c.toNat) with
    | some r => Char.ofNat (c.toNat + r.offset).toNat
    | none => c

/-- The nearest character that counts as a neighbour is a letter with case. -/
def nextIsCased (s : List Char) : Bool :=
  match s.find? fun c => !caseIgnorableSet.contains c with
  | some c => casedSet.contains c
  | none => false

/-- The lower-case form of a character between `before`, nearest first, and `after`. -/
def lowerIn (before : List Char) (c : Char) (after : List Char) : List Char :=
  if c = '\u0130' then ['i', '\u0307']
  else if c = '\u03A3' then
    if nextIsCased before && !nextIsCased after then ['\u03C2'] else ['\u03C3']
  else [lowerLetter c]

/-- The lower-case form of a text of which the characters `before`, nearest first, are done. -/
def lowerFrom (before : List Char) : List Char → List Char
  | [] => []
  | c :: r => lowerIn before c r ++ lowerFrom (c :: before) r

/-- The lower-case form of a text. -/
def lower (s : List Char) : List Char := lowerFrom [] s

/-- The capital form of a character where it is made of ASCII letters; other characters stay. -/
def capital (c : Char) : List Char :=
  match c with
  | 'ı' => ['I']
  | 'ſ' => ['S']
  | 'ß' => ['S', 'S']
  | 'ﬀ' => ['F', 'F']
  | 'ﬁ' => ['F', 'I']
  | 'ﬂ' => ['F', 'L']
  | 'ﬃ' => ['F', 'F', 'I']
  | 'ﬄ' => ['F', 'F', 'L']
  | 'ﬅ' => ['S', 'T']
  | 'ﬆ' => ['S', 'T']
  | _ => [c.toUpper]

/-- A text in capitals, as far as they are ASCII. -/
def capitals (s : List Char) : List Char := s.flatMap capital

end ChordSequencer.Text
