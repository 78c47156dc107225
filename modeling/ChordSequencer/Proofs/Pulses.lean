import ChordSequencer.Proofs.Framing
import ChordSequencer.Proofs.Integers

/-!
# Pulses are note values

The command for a pulse reads an integer in the base of its form and stores a note value, which is
a text again: the decimal digits of the integer and the letter of notes.  Whatever way the integer
was written in, this text reads back as as many notes to the measure, so that the command does what
the command for a note value does with this text, unless the number is too large for a double: then
the second command fails, and the first one stores what has no length.

* `Setting.pulseOfText_of_denotes` : what is stored.
* `NoteValue.beatsOfText_note` : its length.
* `Setting.pulses_are_noteValues` : both commands.
-/

namespace ChordSequencer

open Text

namespace NoteValue

/-- The length of a note: a whole note is divided by its number, as a double. -/
theorem beatsOfText_note {text : String} {n : Nat} (read : ofText text = .ok ⟨n, .note⟩)
    (fits : ¬ Number.TooLarge n) : beatsOfText text = .ok (4.0 / Number.nearest n 1) := by
  simp only [beatsOfText, read, beats?, Number.ofInt?_of_not_tooLarge fits, Option.map_some]

theorem ofPulse_eq {n : Nat} (positive : 1 ≤ n) :
    ofPulse n = .ok (String.ofList (Nat.toDigits 10 n ++ ['n'])) := by
  rw [ofPulse, if_neg (by omega), ← toList_pulse, String.ofList_toList]

theorem ofText_ofPulse {n : Nat} (positive : 1 ≤ n) :
    ofText (String.ofList (Nat.toDigits 10 n ++ ['n'])) = .ok ⟨n, .note⟩ := by
  rw [← toList_pulse, String.ofList_toList]
  exact ofText_pulse positive

end NoteValue

namespace Setting

variable {value : String} {base n : Nat}

/-- What the command for a pulse stores depends on the integer alone. -/
theorem pulseOfText_of_denotes (denotes : Numeral.Denotes base value.toList n)
    (positive : 1 ≤ n) :
    pulseOfText value base = .ok (String.ofList (Nat.toDigits 10 n ++ ['n'])) := by
  have known : number value base (some 1) none = .ok (n : Int) := by
    simp only [number, Numeral.read?_strip_eq_some_iff.2 denotes]
    rw [if_neg (by omega)]
  rw [pulseOfText, known]
  exact NoteValue.ofPulse_eq positive

theorem durationOfText_pulse (n : Nat) :
    durationOfText (String.ofList (Nat.toDigits 10 n ++ ['n'])) =
      (NoteValue.beatsOfText (String.ofList (Nat.toDigits 10 n ++ ['n']))).map
        fun _ => String.ofList (Nat.toDigits 10 n ++ ['n']) := by
  rw [durationOfText, String.toList_ofList, NoteValue.strip_pulse]

/-- **Pulses are note values.**  A text that denotes a positive integer in the base of a command,
with any sign, mark, underscores, leading zeros and digits, makes the command for a pulse store
the decimal digits of the integer and the letter of notes.  This reads back as a note value with
the integer as its number.  If the integer is not too large for a double, its length is a whole note
divided by the nearest double, and the command for a note value does the same with the stored
text.  If it is too large, what is stored has no length, and the command for a note value fails. -/
theorem pulses_are_noteValues (c : Catalog) (i : Instrument)
    (denotes : Numeral.Denotes base value.toList n) (positive : 1 ≤ n) :
    let stored := String.ofList (Nat.toDigits 10 n ++ ['n'])
    Makes c value base "P" i { i with duration := stored } ∧
    NoteValue.ofText stored = .ok ⟨n, .note⟩ ∧
    (¬ Number.TooLarge n → NoteValue.beatsOfText stored = .ok (4.0 / Number.nearest n 1) ∧
      ∀ base', Makes c stored base' "D" i { i with duration := stored }) ∧
    (Number.TooLarge n → NoteValue.beatsOfText stored = .error .tooLarge ∧
      ∀ base', Fails c stored base' "D" i .tooLarge) := by
  intro stored
  have read : NoteValue.ofText stored = .ok ⟨n, .note⟩ := NoteValue.ofText_ofPulse positive
  have kept : durationOfText stored = (NoteValue.beatsOfText stored).map fun _ => stored :=
    durationOfText_pulse n
  refine ⟨?_, read, fun fits => ?_, fun large => ?_⟩
  · have known : pulse.read c value base = .ok stored := by
      rw [Setting.read, pulseOfText_of_denotes denotes positive]
      rfl
    exact makes_of_read (by decide) known i
  · have length := NoteValue.beatsOfText_note read fits
    refine ⟨length, fun base' => makes_of_read (s := duration) (by decide) ?_ i⟩
    rw [Setting.read, kept, length]
    rfl
  · have length := NoteValue.beatsOfText_tooLarge read large
    refine ⟨length, fun base' => fails_of_read (s := duration) (by decide) ?_ i⟩
    rw [Setting.read, kept, length]
    rfl

/-- Fifteen in hexadecimal, with a sign, the mark, an Arabic zero and underscores. -/
def markedFifteen : String := " +0X_\u0660_f\t"

theorem pulses_are_noteValues_fifteen :
    Numeral.Denotes 16 markedFifteen.toList 15 ∧ ¬ Number.TooLarge 15 ∧
    Makes .standard markedFifteen 16 "P" .initial { Instrument.initial with duration := "15n" } ∧
    NoteValue.beatsOfText "15n" = .ok (4.0 / Number.nearest 15 1) ∧
    Makes .standard "15n" 10 "D" .initial { Instrument.initial with duration := "15n" } := by
  have denotes : Numeral.Denotes 16 markedFifteen.toList 15 :=
    Numeral.read?_strip_eq_some_iff.1 (by decide +kernel)
  have fits : ¬ Number.TooLarge 15 := by decide +kernel
  have stored : String.ofList (Nat.toDigits 10 15 ++ ['n']) = "15n" := by decide +kernel
  obtain ⟨made, -, known, -⟩ :=
    pulses_are_noteValues .standard .initial (n := 15) denotes (by decide)
  rw [stored] at made known
  exact ⟨denotes, fits, made, (known fits).1, (known fits).2 10⟩

end Setting

end ChordSequencer
