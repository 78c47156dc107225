import ChordSequencer.Proofs.Framing
import ChordSequencer.Proofs.Numerals

/-!
# Numbers in two bases

The compact form writes the numbers of commands in hexadecimal, the nested form and configurations
write them in decimal.  A setting that takes a number looks at nothing but the number that it reads,
so that it does not matter in which of the two it is written.

* `Setting.read_alike` : two texts that are the same number, each in its base.
* `Setting.numerals_alike` : every number, written in hexadecimal and in decimal.
-/

namespace ChordSequencer

open Instrument Text

namespace Setting

/-- The settings that take numbers. -/
def numeric : List Setting :=
  [channel, timbre, scale, key, width, inversion, octave, playMode, velocity, pulse, repeats]

/-- The codes of the commands that take numbers. -/
def numericCodes : List String := ["C", "T", "S", "K", "W", "I", "O", "M", "V", "P", "R"]

variable {c : Catalog} {value value' : String} {base base' : Nat} {n : Int}

theorem number_alike (first : Numeral.read? base (strip value.toList) = some n)
    (second : Numeral.read? base' (strip value'.toList) = some n) (low? high? : Option Int) :
    number value base low? high? = number value' base' low? high? := by
  simp only [number, first, second]

theorem alike_of_eq {α : Type} {r r' : Except Refusal α} (same : r = r') :
    (∃ x, refusing r = .ok x ∧ refusing r' = .ok x) ∨
      ∃ why why', refusing r = .error (.refused why) ∧ refusing r' = .error (.refused why') := by
  subst same
  cases r with
  | ok x => exact .inl ⟨x, rfl, rfl⟩
  | error why => exact .inr ⟨why, why, rfl, rfl⟩

/-- **Settings read numbers alike.**  Two texts that are the same number, each in its base, give the
same or are both refused. -/
theorem read_alike {s : Setting} (takes : s ∈ numeric)
    (first : Numeral.read? base (strip value.toList) = some n)
    (second : Numeral.read? base' (strip value'.toList) = some n) :
    (∃ x, s.read c value base = .ok x ∧ s.read c value' base' = .ok x) ∨
      ∃ why why', s.read c value base = .error (.refused why) ∧
        s.read c value' base' = .error (.refused why') := by
  have same := number_alike first second
  cases s with
  | channel | timbre | width | inversion | octave | velocity | repeats =>
    exact alike_of_eq (same _ _)
  | pulse =>
    refine alike_of_eq ?_
    rw [pulseOfText, pulseOfText, same]
  | scale =>
    refine alike_of_eq ?_
    simp only [Catalog.idOfText, first, second]
    rfl
  | key =>
    refine alike_of_eq ?_
    simp only [Key.ofText, first, second]
    rfl
  | playMode =>
    -- a number that is no play mode is shown as it was written
    simp only [read, PlayMode.ofText, first, second]
    cases PlayMode.ofNumber? n with
    | some mode => exact .inl ⟨mode, rfl, rfl⟩
    | none => exact .inr ⟨_, _, rfl, rfl⟩
  | duration | scheme => exact absurd takes (by decide)

theorem exists_numeric : ∀ code ∈ numericCodes, ∃ s ∈ numeric, ofCode? code = some s := by
  decide

/-- **Hexadecimal and decimal numbers do the same.**  A command that takes a number is given one in
hexadecimal, with small or capital letters, to be read in base 16, and the same in decimal to be
read in base 10.  On every instrument both succeed and make the same of it, or both are refused and
leave it as it is. -/
theorem numerals_alike (c : Catalog) (code : String) (i : Instrument) (n : Int)
    (takes : code ∈ numericCodes) {hexadecimal : List Char}
    (spelled : hexadecimal.map Char.toLower = Numeral.written 16 n) :
    let decimal := Numeral.written 10 n
    (∃ j, Makes c (String.ofList hexadecimal) 16 code i j ∧
      Makes c (String.ofList decimal) 10 code i j) ∨
    ∃ why why', Fails c (String.ofList hexadecimal) 16 code i (.refused why) ∧
      Fails c (String.ofList decimal) 10 code i (.refused why') := by
  intro decimal
  have number {s : List Char} {base : Nat} (read : Numeral.read? base s = some n ∧ strip s = s) :
      Numeral.read? base (strip (String.ofList s).toList) = some n := by
    rw [String.toList_ofList, read.2]
    exact read.1
  have first := number (Numeral.read?_of_written (by decide) (by decide) spelled)
  have second := number (Numeral.read?_of_written (by decide) (by decide)
    (Numeral.lower_written 10 (by decide) (by decide) n))
  obtain ⟨s, takes, called⟩ := exists_numeric code takes
  rcases read_alike (c := c) takes first second with ⟨x, known, known'⟩ | ⟨why, why', no, no'⟩
  · exact .inl ⟨_, makes_of_read called known i, makes_of_read called known' i⟩
  · exact .inr ⟨why, why', fails_of_read called no i, fails_of_read called no' i⟩

/-- An octave below the others, `-1F` in hexadecimal and `-31` in decimal. -/
theorem numerals_alike_octave : ∃ j : Instrument, j.octave = -31 ∧
    Makes .standard "-1F" 16 "O" .initial j ∧ Makes .standard "-31" 10 "O" .initial j := by
  have spelled : ['-', '1', 'F'].map Char.toLower = Numeral.written 16 (-31) := by decide +kernel
  have made : applyCode .standard .initial "-1F" 16 "O" = .ok { initial with octave := -31 } := by
    decide +kernel
  rcases numerals_alike .standard "O" .initial (-31) (by decide) spelled with
    ⟨j, first, second⟩ | ⟨why, -, failed, -⟩
  · cases first.computed.symm.trans made
    exact ⟨_, rfl, first, second⟩
  · cases failed.computed.symm.trans made

end Setting

end ChordSequencer
