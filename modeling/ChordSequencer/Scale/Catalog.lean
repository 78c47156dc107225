import ChordSequencer.Scale.Basic
import ChordSequencer.Text.LetterCase
import ChordSequencer.Text.Numeral

/-!
# The scale catalog

Scales with their names, in the order of their numbers. Scales are found by number or by name, and
new ones are registered at the end.
-/

namespace ChordSequencer

open Text

/-- Named scales; the number of a scale is its place in the list. -/
structure Catalog where
  /-- Names and scales in the order of their numbers. -/
  entries : List (String × Scale)
  deriving DecidableEq, Repr

namespace Catalog

/-- The catalog to begin with. -/
def standard : Catalog := ⟨[
  ("white", ⟨[0, 2, 3, 5, 7, 9, 10], by simp⟩),
  ("blue", ⟨[0, 2, 4, 5, 7, 8, 10], by simp⟩),
  ("red", ⟨[0, 1, 4, 5, 7, 8, 11], by simp⟩),
  ("black", ⟨[1, 2, 4, 5, 7, 8, 10, 11], by simp⟩),
  ("penta", ⟨[0, 2, 5, 7, 10], by simp⟩),
  ("tones", ⟨[0, 2, 4, 6, 8, 10], by simp⟩),
  ("full", ⟨[0, 1, 2, 3, 4, 5, 6, 7, 8, 9, 10, 11], by simp⟩)]⟩

variable (c : Catalog)

/-- The names in the order of their numbers. -/
def names : List String := c.entries.map (·.1)

/-- The number of scales. -/
def size : Nat := c.entries.length

/-- The form of a name in the catalog: without blanks around it, in lower case. -/
def key (name : String) : String := String.ofList (lower (strip name.toList))

/-- The scale of a number. -/
def byId (id : Int) : Except Refusal Scale :=
  match (if 0 ≤ id then c.entries[id.toNat]? else none) with
  | some entry => .ok entry.2
  | none => .error (.unknownScaleId id)

/-- The number of a name. -/
def idOfName (name : String) : Except Refusal Nat :=
  match c.names.findIdx? (· == key name) with
  | some i => .ok i
  | none => .error (.unknownScale name c.names)

/-- The scale of a name. -/
def byName (name : String) : Except Refusal Scale :=
  match c.entries.find? (·.1 == key name) with
  | some entry => .ok entry.2
  | none => .error (.unknownScale name c.names)

/-- A number that the catalog has. -/
def checkId (id : Int) : Except Refusal Int := (c.byId id).map fun _ => id

/-- The number of a scale that is given as a number in a base or by its name. -/
def idOfText (text : String) (base : Nat) : Except Refusal Int :=
  let s := strip text.toList
  match Numeral.read? base s with
  | some n => c.checkId n
  | none => (c.idOfName (String.ofList s)).map Int.ofNat

/-- Offsets that lie in one octave. -/
def inOctave (offsets : List Int) : Bool := offsets.all fun n => 0 ≤ n && n < semitones

/-- Offsets that go up without repeating. -/
def ascending : List Int → Bool
  | a :: b :: r => a < b && ascending (b :: r)
  | _ => true

/-- Adds a scale under a name that is still free; the answer holds its number. -/
def register (name : String) (offsets : List Int) : Except Refusal (Catalog × Nat) :=
  if key name = "" then .error .emptyScaleName
  else if key name ∈ c.names then .error (.scaleTaken name)
  else if h : offsets = [] then .error .emptyScale
  else if inOctave offsets = false then .error .offsetRange
  else if ascending offsets = false then .error .offsetOrder
  else .ok (⟨c.entries ++ [(key name, ⟨offsets, h⟩)]⟩, c.size)

end Catalog

end ChordSequencer
