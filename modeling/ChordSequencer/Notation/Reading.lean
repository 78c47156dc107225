import ChordSequencer.Notation.Nested

/-!
# Reading song texts

A text whose first character that is not blank is an opening brace is of the nested form; any other
is of the compact form.
-/

namespace ChordSequencer.Notation

open Text

/-- Reads a song text of either form. -/
def read (text : String) : Reading :=
  match text.toList.dropWhile isBlank with
  | [] => .failure [⟨.emptySong, 0, text.toList⟩]
  | '{' :: _ => readNested text.toList
  | _ => readCompact text.toList

end ChordSequencer.Notation
